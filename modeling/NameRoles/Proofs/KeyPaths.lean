import Mathlib.Data.List.Forall2
import Mathlib.Data.List.Nodup
import NameRoles.Proofs.ChildMembers

/-! Loading loses no node and makes none up. A node of a tree and a serialized node of a document
are both found by the keys that lead to them, each with a place if the key stands for a list. At
each such path a loaded tree has what the document describes there, as many nodes and in the same
order. -/

namespace NameRoles

/-- A way down by names of slots, each with a place in the list if the slot holds a list. -/
abbrev KeyPath := List (String × Option Nat)

namespace Slot

/-- The child at a place of a list, or the child of a slot that is no list. -/
def childAt? : Option Nat → Slot → Option Node
  | some place, list _ items => items[place]?.join
  | none, single _ child => some child
  | _, _ => none

end Slot

/-- The nodes at the end of a path. There is more than one only if a node on the way has several
slots of one name. -/
def Node.nodesAt : KeyPath → Node → List Node
  | [], node => [node]
  | (key, place?) :: path, node =>
      ((node.slotsNamed key).filterMap (Slot.childAt? place?)).flatMap (nodesAt path)

namespace Json

/-- The item at a place of a list unless it is null, or the value itself if it is no list. -/
def childAt? : Option Nat → Json → Option Json
  | some place, array items => items[place]?.filter fun item => !item.isNull
  | some _, _ => none
  | none, array _ => none
  | none, value => some value

/-- The serialized nodes at the end of a path that goes only through members that hold children. -/
def nodesAt : KeyPath → Json → List Json
  | [], value => [value]
  | (key, place?) :: path, value =>
      ((value.childMembers key).filterMap (childAt? place?)).flatMap (nodesAt path)

/-- Whether the member with the given key is an unsigned 64-bit integer. -/
def HasOffset (key : String) (offset : Nat) (value : Json) : Prop :=
  offset < UInt64.size ∧ value.member? key = some (.number (Number.ofNat offset))

/-- Whether an offset is given by a member, or is the default because no member gives it. -/
def OffsetOr (key : String) (default offset : Nat) (value : Json) : Prop :=
  value.HasOffset key offset ∨ (∀ other, ¬value.HasOffset key other) ∧ offset = default

/-- Whether a serialized node gives a name, in a string or, for a type parameter, in an object. -/
def GivesName (text : String) (value : Json) : Prop :=
  value.member? "name" = some (.string text) ∨
    value.IsTypeParameter ∧ ∃ members, value.member? "name" = some (.object members) ∧
      (object members).member? "name" = some (.string text)

/-- Whether a slot has the places of a member that holds children: one child for an object, and for
an array as many places as it has items, with holes at the nulls. -/
inductive Fills : Json → Slot → Prop
  | single (members : List (String × Json)) (field : Field) (child : Node) :
      Fills (.object members) (.single field child)
  | list (field : Field) {items : List Json} {children : List (Option Node)}
      (hplaces : List.Forall₂ (fun item child => item = .null ↔ child = none) items children) :
      Fills (.array items) (.list field children)

/-- Whether a node is what a serialized node says, apart from the children themselves. -/
structure Describes (value : Json) (node : Node) : Prop where
  type : value.member? "type" = some (.string node.type.text)
  start : value.OffsetOr "start" 0 node.span.start
  stop : value.OffsetOr "end" node.span.start node.span.stop
  computed : node.computed = true ↔ value.member? "computed" = some (.bool true)
  name (text : String) : node.name = some text ↔ value.GivesName text
  slots (key : String) : List.Forall₂ Fills (value.childMembers key) (node.slotsNamed key)

/-- Whether no object in a value has two members with the same key. -/
inductive WellKeyed : Json → Prop
  | null : WellKeyed .null
  | bool (value : Bool) : WellKeyed (.bool value)
  | number (value : Number) : WellKeyed (.number value)
  | string (value : String) : WellKeyed (.string value)
  | array {items : List Json} (hitems : ∀ item ∈ items, WellKeyed item) : WellKeyed (.array items)
  | object {members : List (String × Json)} (hkeys : (members.map Prod.fst).Nodup)
      (hmembers : ∀ member ∈ members, WellKeyed member.2) : WellKeyed (.object members)

theorem wellKeyed_array_iff {items : List Json} :
    WellKeyed (.array items) ↔ ∀ item ∈ items, item.WellKeyed := by
  constructor
  · rintro (_ | _ | _ | _ | hitems)
    exact hitems
  · exact .array

theorem wellKeyed_object_iff {members : List (String × Json)} :
    WellKeyed (.object members) ↔
      (members.map Prod.fst).Nodup ∧ ∀ member ∈ members, member.2.WellKeyed := by
  constructor
  · rintro (_ | _ | _ | _ | _ | ⟨hkeys, hmembers⟩)
    exact ⟨hkeys, hmembers⟩
  · rintro ⟨hkeys, hmembers⟩
    exact .object hkeys hmembers

theorem childAt?_slot (build : Json → Node) (field : Field) (place? : Option Nat) (value : Json) :
    (value.slot build field).childAt? place? = (value.childAt? place?).map build := by
  cases place? with
  | none => cases value <;> rfl
  | some place =>
      cases value with
      | array items =>
          simp only [slot, Slot.childAt?, childAt?, List.getElem?_map]
          cases items[place]? with
          | none => rfl
          | some item => cases hnull : item.isNull <;> simp [Option.filter, hnull]
      | _ => rfl

/-- The nodes at a path of a loaded tree are the trees of the serialized nodes there. -/
theorem nodesAt_tree (path : KeyPath) (value : Json) :
    value.tree.nodesAt path = (value.nodesAt path).map tree := by
  induction path generalizing value with
  | nil => rfl
  | cons step path ih =>
      obtain ⟨key, place?⟩ := step
      rw [Node.nodesAt, nodesAt, slotsNamed_tree, List.filterMap_map, List.map_flatMap]
      simp only [Function.comp_def, childAt?_slot]
      rw [← List.map_filterMap, List.flatMap_map]
      simp only [ih]

theorem natural?_eq_some_iff {value : Json} {offset : Nat} :
    value.natural? = some offset ↔ value = .number (Number.ofNat offset) := by
  cases value with
  | number number =>
      obtain ⟨negative, whole, fraction, exponent⟩ := number
      cases negative <;> cases fraction <;> cases exponent <;>
        simp [natural?, Number.natural?, Number.ofNat]
  | _ => simp [natural?]

theorem offset?_eq_some_iff {key : String} {value : Json} {offset : Nat} :
    value.offset? key = some offset ↔ value.HasOffset key offset := by
  rw [offset?, Option.filter_eq_some_iff, Option.bind_eq_some_iff, HasOffset, and_comm,
    decide_eq_true_eq]
  simp [natural?_eq_some_iff]

theorem offsetOr_getD (key : String) (default : Nat) (value : Json) :
    value.OffsetOr key default ((value.offset? key).getD default) := by
  cases hoffset : value.offset? key with
  | none =>
      right
      refine ⟨fun other hother => ?_, rfl⟩
      rw [← offset?_eq_some_iff, hoffset] at hother
      cases hother
  | some offset =>
      left
      exact offset?_eq_some_iff.mp hoffset

theorem computedFlag_iff {value : Json} :
    value.computedFlag = true ↔ value.member? "computed" = some (.bool true) := by
  rw [computedFlag]
  split
  · rename_i computed hcomputed
    rw [hcomputed]
    simp
  · rename_i hother
    simp only [Bool.false_eq_true, false_iff]
    exact hother true

theorem nameText?_eq_some_iff {value : Json} {text : String} :
    value.nameText? value.nodeType = some text ↔ value.GivesName text := by
  rw [nameText?, GivesName, ← isTypeParameter_iff]
  cases hname : value.member? "name" with
  | none => simp
  | some found =>
      cases found with
      | object members =>
          by_cases htype : value.nodeType.isTypeParameter = true
          · simp [htype, bind_text?_eq_some_iff]
          · simp [htype]
      | _ => simp

theorem fills_slot {build : Json → Node} {node value : Json} {key : String} (field : Field)
    (hbears : node.BearsChildren key value) : Fills value (value.slot build field) := by
  cases value with
  | object members => exact .single members field _
  | array items =>
      apply Fills.list
      rw [List.forall₂_map_right_iff, List.forall₂_same]
      intro item _
      rw [← isNull_iff]
      cases item.isNull <;> simp
  | _ => simp [BearsChildren, HasType, member?, members] at hbears

theorem bearsChildren_of_mem_childMembers {node value : Json} {key : String}
    (hvalue : value ∈ node.childMembers key) : node.BearsChildren key value := by
  rw [childMembers, List.mem_map] at hvalue
  obtain ⟨member, hmember, rfl⟩ := hvalue
  rw [List.mem_filter, decide_eq_true_eq] at hmember
  obtain ⟨-, rfl, hbears⟩ := hmember
  exact hbears

/-- The tree of a serialized node has at its root what the node describes. -/
theorem describes_tree {value : Json} (htype : value.HasType) : value.Describes value.tree := by
  obtain ⟨text, htext⟩ := htype
  have hnode : value.nodeType.text = text := by
    rw [nodeType, typeText?_eq_some_iff.mpr htext, Option.getD_some, NodeType.text_ofText]
  have hslots (key : String) :
      List.Forall₂ Fills (value.childMembers key) (value.tree.slotsNamed key) := by
    rw [slotsNamed_tree, List.forall₂_map_right_iff, List.forall₂_same]
    intro child hchild
    exact fills_slot _ (bearsChildren_of_mem_childMembers hchild)
  rw [tree_eq] at hslots ⊢
  exact {
    type := htext.trans (by rw [← hnode]; rfl)
    start := offsetOr_getD "start" 0 value
    stop := offsetOr_getD "end" _ value
    computed := computedFlag_iff
    name := fun text => nameText?_eq_some_iff
    slots := hslots }

/-- Below a member stands its value, or an item of its value. -/
theorem childAt?_cases {value child : Json} {place? : Option Nat}
    (hchild : value.childAt? place? = some child) :
    child = value ∧ (∀ items, value ≠ .array items) ∨
      ∃ items, value = .array items ∧ child ∈ items ∧ child ≠ .null := by
  cases place? with
  | none => cases value <;> cases hchild <;> simp
  | some place =>
      cases value with
      | array items =>
          rw [childAt?, Option.filter_eq_some_iff] at hchild
          obtain ⟨hitem, hnull⟩ := hchild
          refine .inr ⟨items, rfl, List.mem_of_getElem? hitem, ?_⟩
          rintro rfl
          cases hnull
      | _ => cases hchild

theorem hasType_of_childAt? {node value child : Json} {key : String} {place? : Option Nat}
    (hbears : node.BearsChildren key value) (hchild : value.childAt? place? = some child) :
    child.HasType := by
  rcases childAt?_cases hchild with ⟨rfl, harray⟩ | ⟨items, rfl, hitem, hnull⟩
  · obtain ⟨-, ⟨htype, -⟩ | ⟨items, hvalue, -⟩⟩ := hbears
    · exact htype
    · exact (harray items hvalue).elim
  · obtain ⟨-, ⟨htype, -⟩ | ⟨others, hvalue, hothers⟩⟩ := hbears
    · exact (not_hasType_array items htype).elim
    · cases hvalue
      exact (hothers child hitem).resolve_left hnull

theorem hasType_of_mem_nodesAt {path : KeyPath} {value found : Json} (htype : value.HasType)
    (hfound : found ∈ value.nodesAt path) : found.HasType := by
  induction path generalizing value with
  | nil =>
      rw [nodesAt, List.mem_singleton] at hfound
      rw [hfound]
      exact htype
  | cons step path ih =>
      obtain ⟨key, place?⟩ := step
      rw [nodesAt, List.mem_flatMap] at hfound
      obtain ⟨child, hchild, hfound⟩ := hfound
      obtain ⟨member, hmember, hchild⟩ := List.mem_filterMap.mp hchild
      exact ih (hasType_of_childAt? (bearsChildren_of_mem_childMembers hmember) hchild) hfound

theorem WellKeyed.length_childMembers_le {value : Json} (hkeyed : value.WellKeyed) (key : String) :
    (value.childMembers key).length ≤ 1 := by
  cases value with
  | object members =>
      obtain ⟨hkeys, -⟩ := wellKeyed_object_iff.mp hkeyed
      rw [childMembers, List.length_map, ← List.countP_eq_length_filter]
      calc
        _ ≤ members.countP (fun member => member.1 == key) := by
          apply List.countP_mono_left
          intro member _ hmember
          exact beq_iff_eq.mpr (of_decide_eq_true hmember).1
        _ = (members.map Prod.fst).count key := by
          rw [List.count, List.countP_map]
          rfl
        _ ≤ 1 := List.nodup_iff_count_le_one.mp hkeys key
  | _ => exact Nat.zero_le 1

theorem WellKeyed.of_mem_childMembers {node value : Json} {key : String}
    (hkeyed : node.WellKeyed) (hvalue : value ∈ node.childMembers key) : value.WellKeyed := by
  rw [childMembers, List.mem_map] at hvalue
  obtain ⟨member, hmember, rfl⟩ := hvalue
  have hmem := (List.mem_filter.mp hmember).1
  cases node with
  | object members => exact (wellKeyed_object_iff.mp hkeyed).2 member hmem
  | _ => cases hmem

theorem WellKeyed.of_childAt? {value child : Json} {place? : Option Nat}
    (hkeyed : value.WellKeyed) (hchild : value.childAt? place? = some child) : child.WellKeyed := by
  rcases childAt?_cases hchild with ⟨rfl, -⟩ | ⟨items, rfl, hitem, -⟩
  · exact hkeyed
  · exact wellKeyed_array_iff.mp hkeyed child hitem

theorem WellKeyed.length_nodesAt_le {value : Json} (hkeyed : value.WellKeyed) (path : KeyPath) :
    (value.nodesAt path).length ≤ 1 := by
  induction path generalizing value with
  | nil => exact Nat.le_refl 1
  | cons step path ih =>
      obtain ⟨key, place?⟩ := step
      rw [nodesAt]
      cases hmembers : value.childMembers key with
      | nil => exact Nat.zero_le 1
      | cons member members =>
          have hlength := hkeyed.length_childMembers_le key
          have hmember : member.WellKeyed := by
            have hmem : member ∈ value.childMembers key := by
              rw [hmembers]
              exact List.mem_cons_self
            exact hkeyed.of_mem_childMembers hmem
          rw [hmembers, List.length_cons] at hlength
          obtain rfl : members = [] := List.eq_nil_of_length_eq_zero (by omega)
          cases hchild : member.childAt? place? with
          | none => simp [hchild]
          | some child => simpa [hchild] using ih (hmember.of_childAt? hchild)

end Json

namespace Node

/-- No node is lost, made up or doubled by loading. At every path of keys a loaded tree has one node
for each serialized node of the document there, and the node is what the serialized node describes.
If no object of the document has two members with the same key, that is one node or none. -/
theorem load_nodesAt {options : LoadOptions} {document : Json} {root : Node}
    (hload : (Node.load options document).result = .ok root) :
    (∀ path, List.Forall₂ Json.Describes (document.nodesAt path) (root.nodesAt path)) ∧
      (document.WellKeyed → ∀ path, (root.nodesAt path).length ≤ 1) := by
  obtain ⟨hnodes, rfl⟩ := Node.load_eq_ok hload
  have htype : document.HasType := by
    apply Json.isNode_iff.mp
    apply hnodes (document, 0)
    rw [Json.serialized_eq]
    exact List.mem_cons_self
  constructor
  · intro path
    rw [Json.nodesAt_tree, List.forall₂_map_right_iff, List.forall₂_same]
    intro found hfound
    exact Json.describes_tree (Json.hasType_of_mem_nodesAt htype hfound)
  · intro hkeyed path
    rw [Json.nodesAt_tree, List.length_map]
    exact hkeyed.length_nodesAt_le path

/-- Type parameters with a comment in front, a hole, and a parameter whose name is wrapped. -/
def wrappedParameter : Json :=
  .object [("type", .string "TSTypeParameterDeclaration"), ("start", .number (Number.ofNat 4)),
    ("leadingComments", .array [.object [("type", .string "CommentLine")]]),
    ("params", .array [.null, .object [("type", .string "TSTypeParameter"),
      ("name", .object [("type", .string "Identifier"), ("name", .string "T")])]])]

def parameterTree : Node :=
  ⟨⟨4, 4⟩, .known .tsTypeParameterDeclaration, none, false,
    [.list (.known .params) [none, some ⟨⟨0, 0⟩, .known .tsTypeParameter, some "T", false, []⟩]]⟩

theorem load_wrappedParameter : (Node.load {} wrappedParameter).result = .ok parameterTree := by
  decide +kernel

theorem wellKeyed_wrappedParameter : wrappedParameter.WellKeyed := by
  simp [wrappedParameter, Json.wellKeyed_array_iff, Json.wellKeyed_object_iff, Json.WellKeyed.null,
    Json.WellKeyed.number, Json.WellKeyed.string]

theorem load_nodesAt_wrappedParameter :
    (Node.load {} wrappedParameter).result = .ok parameterTree ∧ wrappedParameter.WellKeyed ∧
      (∀ path, List.Forall₂ Json.Describes (wrappedParameter.nodesAt path)
        (parameterTree.nodesAt path)) ∧
      ∀ path, (parameterTree.nodesAt path).length ≤ 1 := by
  obtain ⟨hdescribes, hlength⟩ := load_nodesAt load_wrappedParameter
  exact ⟨load_wrappedParameter, wellKeyed_wrappedParameter, hdescribes,
    hlength wellKeyed_wrappedParameter⟩

end Node

end NameRoles
