import NameRoles.Proofs.Loading
import NameRoles.Proofs.Names

/-! The members of a serialized node that hold its children, told from the others by their keys and
values alone. A loaded node has one slot for each of them, and slots of the same name keep the order
of the members. -/

namespace NameRoles

namespace Json

/-- Whether a value is an object whose `type` is a string. -/
def HasType (value : Json) : Prop :=
  ∃ text, value.member? "type" = some (.string text)

/-- Whether a value is a serialized type parameter. -/
def IsTypeParameter (value : Json) : Prop :=
  value.member? "type" = some (.string "TypeParameter") ∨
    value.member? "type" = some (.string "TSTypeParameter")

/-- Whether a member of a serialized node holds children of the node: it is no metadata, and it is a
serialized node, other than the wrapped name of a type parameter, or a list of serialized nodes and
nulls. -/
def BearsChildren (node : Json) (key : String) (value : Json) : Prop :=
  key ∉ metadataKeys ∧
    (value.HasType ∧ ¬(key = "name" ∧ node.IsTypeParameter) ∨
      ∃ items, value = .array items ∧ ∀ item ∈ items, item = .null ∨ item.HasType)

theorem bind_text?_eq_some_iff {found? : Option Json} {text : String} :
    found?.bind text? = some text ↔ found? = some (.string text) := by
  rw [Option.bind_eq_some_iff]
  constructor
  · rintro ⟨found, hfound, htext⟩
    cases found <;> cases htext
    exact hfound
  · intro hfound
    exact ⟨_, hfound, rfl⟩

theorem typeText?_eq_some_iff {value : Json} {text : String} :
    value.typeText? = some text ↔ value.member? "type" = some (.string text) :=
  bind_text?_eq_some_iff

theorem isNode_iff {value : Json} : value.isNode = true ↔ value.HasType := by
  rw [isNode, Option.isSome_iff_exists]
  exact exists_congr fun text => typeText?_eq_some_iff

theorem isNull_iff {value : Json} : value.isNull = true ↔ value = .null := by
  cases value <;> simp [isNull]

theorem isTypeParameter_ofText {text : String} :
    (NodeType.ofText text).isTypeParameter = true ↔
      text = "TypeParameter" ∨ text = "TSTypeParameter" := by
  simp only [NodeType.isTypeParameter, Bool.or_eq_true, decide_eq_true_eq]
  constructor
  · rintro (htype | htype)
    · left
      rw [← NodeType.text_ofText text, htype]
      rfl
    · right
      rw [← NodeType.text_ofText text, htype]
      rfl
  · rintro (rfl | rfl)
    · left
      decide
    · right
      decide

theorem isTypeParameter_iff {node : Json} :
    node.nodeType.isTypeParameter = true ↔ node.IsTypeParameter := by
  rw [nodeType, IsTypeParameter, ← typeText?_eq_some_iff, ← typeText?_eq_some_iff,
    isTypeParameter_ofText]
  cases node.typeText? <;> simp

theorem not_hasType_array (items : List Json) : ¬(Json.array items).HasType := by
  rintro ⟨text, htext⟩
  cases htext

theorem isSome_held?_iff {node : Json} {key : String} {value : Json} :
    (held? node.nodeType key value).isSome = true ↔ node.BearsChildren key value := by
  rw [BearsChildren, ← isTypeParameter_iff]
  by_cases hkey : key ∈ metadataKeys
  · simp [held?, hkey]
  · cases value with
    | object members =>
        by_cases hname : key = "name" ∧ node.nodeType.isTypeParameter = true
        · simp [held?, hname]
        · by_cases htype : (object members).isNode = true
          · simp [held?, hkey, hname, htype, isNode_iff.mp htype]
          · simp [held?, hkey, hname, htype, mt isNode_iff.mpr htype]
    | array items =>
        simp [held?, hkey, not_hasType_array, isNull_iff, isNode_iff]
    | _ => simp [held?, hkey, HasType, member?, members]

instance (node : Json) (key : String) (value : Json) : Decidable (node.BearsChildren key value) :=
  decidable_of_iff _ isSome_held?_iff

/-- A slot for the value of a member that holds children, where `build` gives the tree of a child.
-/
def slot (build : Json → Node) (field : Field) : Json → Slot
  | array items =>
      .list field (items.map fun item => if item.isNull then none else some (build item))
  | value => .single field (build value)

theorem field_slot (build : Json → Node) (field : Field) (value : Json) :
    (value.slot build field).field = field := by
  cases value <;> rfl

/-- The serialized children in a value that holds children. -/
def toHeld : Json → Held
  | array items => .list items
  | value => .single value

theorem slot_toHeld (build : Json → Node) (field : Field) (value : Json) :
    value.toHeld.slot build field = value.slot build field := by
  cases value <;> rfl

theorem eq_toHeld_of_held? {type : NodeType} {key : String} {value : Json} {held : Held}
    (hheld : held? type key value = some held) : held = value.toHeld := by
  unfold held? at hheld
  split at hheld
  · cases hheld
  · cases value with
    | object members =>
        simp only at hheld
        split at hheld
        · cases hheld
        · split at hheld
          · cases hheld
            rfl
          · cases hheld
    | array items =>
        simp only at hheld
        split at hheld
        · cases hheld
          rfl
        · cases hheld
    | _ => cases hheld

theorem heldMember?_eq (node : Json) (member : String × Json) :
    heldMember? node.nodeType member =
      if node.BearsChildren member.1 member.2 then some (Field.ofText member.1, member.2.toHeld)
      else none := by
  rw [heldMember?]
  cases hheld : held? node.nodeType member.1 member.2 with
  | none =>
      have hbears : ¬node.BearsChildren member.1 member.2 := by
        rw [← isSome_held?_iff, hheld]
        exact Bool.false_ne_true
      rw [if_neg hbears]
      rfl
  | some held =>
      have hbears : node.BearsChildren member.1 member.2 := by
        rw [← isSome_held?_iff, hheld]
        rfl
      rw [if_pos hbears, ← eq_toHeld_of_held? hheld]
      rfl

/-- The members that hold the children of a serialized node are those that bear children. -/
theorem heldMembers_eq (value : Json) :
    value.heldMembers value.nodeType =
      (value.members.filter fun member => value.BearsChildren member.1 member.2).map fun member =>
        (Field.ofText member.1, member.2.toHeld) := by
  rw [heldMembers]
  induction value.members with
  | nil => rfl
  | cons member members ih =>
      by_cases hbears : value.BearsChildren member.1 member.2
      · rw [List.filterMap_cons_some (by rw [heldMember?_eq, if_pos hbears]), ih,
          List.filter_cons_of_pos (by simpa using hbears), List.map_cons]
      · rw [List.filterMap_cons_none (by rw [heldMember?_eq, if_neg hbears]), ih,
          List.filter_cons_of_neg (by simpa using hbears)]

/-- Before its slots are ordered, a loaded node has one for each member that holds children. -/
theorem slots_nodeWith (build : Json → Node) (value : Json) :
    (value.nodeWith build).slots =
      (value.members.filter fun member => value.BearsChildren member.1 member.2).map fun member =>
        member.2.slot build (Field.ofText member.1) := by
  rw [nodeWith, heldMembers_eq, List.map_map]
  apply List.map_congr_left
  intro member _
  exact slot_toHeld build (Field.ofText member.1) member.2

/-- The values of the members with the given key that hold children of a serialized node. -/
def childMembers (key : String) (value : Json) : List Json :=
  (value.members.filter fun member =>
    member.1 = key ∧ value.BearsChildren member.1 member.2).map Prod.snd

end Json

/-- The slots of a node that have the given name. -/
def Node.slotsNamed (key : String) (node : Node) : List Slot :=
  node.slots.filter (·.field.text = key)

namespace Load

theorem filter_flatMap_filter {field : Field} {order : List Field} (slots : List Slot)
    (horder : order.Nodup) :
    (order.flatMap fun wanted => slots.filter (·.field = wanted)).filter (·.field = field) =
      if field ∈ order then slots.filter (·.field = field) else [] := by
  induction order with
  | nil => rfl
  | cons first order ih =>
      obtain ⟨hfirst, horder⟩ := List.nodup_cons.mp horder
      rw [List.flatMap_cons, List.filter_append, ih horder, List.filter_filter]
      by_cases hfield : field = first
      · subst hfield
        simp [hfirst]
      · have hnone : slots.filter (fun slot => slot.field = field && slot.field = first) = [] := by
          rw [List.filter_eq_nil_iff]
          intro slot _ hslot
          simp only [Bool.and_eq_true, decide_eq_true_eq] at hslot
          exact hfield (hslot.1.symm.trans hslot.2)
        rw [hnone, List.nil_append]
        simp [hfield]

/-- Ordering slots for visiting keeps those of one name in their order. -/
theorem filter_orderSlots {order : List Field} (field : Field) (slots : List Slot)
    (horder : order.Nodup) :
    (orderSlots order slots).filter (·.field = field) = slots.filter (·.field = field) := by
  rw [orderSlots, List.filter_append, filter_flatMap_filter slots horder, List.filter_filter]
  by_cases hfield : field ∈ order
  · have hnone :
        slots.filter (fun slot => slot.field = field && !order.contains slot.field) = [] := by
      rw [List.filter_eq_nil_iff]
      intro slot _ hslot
      simp only [Bool.and_eq_true, decide_eq_true_eq, Bool.not_eq_true', List.contains_eq_mem,
        decide_eq_false_iff_not] at hslot
      rw [hslot.1] at hslot
      exact hslot.2 hfield
    rw [if_pos hfield, hnone, List.append_nil]
  · rw [if_neg hfield, List.nil_append]
    apply List.filter_congr
    intro slot _
    by_cases hslot : slot.field = field
    · simp [hslot, hfield]
    · simp [hslot]

theorem mem_orderSlots {order : List Field} {slots : List Slot} {slot : Slot} :
    slot ∈ orderSlots order slots ↔ slot ∈ slots := by
  by_cases hfield : slot.field ∈ order
  · simp [orderSlots, hfield]
  · simp [orderSlots, hfield]

end Load

theorem NodeType.nodup_visitOrder (type : NodeType) :
    (type.visitOrder.map Field.known).Nodup := by
  cases type with
  | known construct => cases construct <;> decide
  | other name => exact List.nodup_nil

namespace Json

theorem text_field_eq_iff {value : Json} {slot : Slot} (key : String)
    (hslot : slot ∈ value.tree.slots) : slot.field.text = key ↔ slot.field = Field.ofText key := by
  rw [tree_eq] at hslot
  have hmem := Load.mem_orderSlots.mp hslot
  rw [slots_nodeWith] at hmem
  obtain ⟨member, -, rfl⟩ := List.mem_map.mp hmem
  rw [field_slot, Field.text_ofText, Field.ofText_inj]

/-- The slots of one name in a loaded node stand for the members of that name that hold children. -/
theorem slotsNamed_tree (key : String) (value : Json) :
    value.tree.slotsNamed key = (value.childMembers key).map (slot tree (Field.ofText key)) := by
  have hfield : value.tree.slotsNamed key = value.tree.slots.filter (·.field = Field.ofText key) :=
    List.filter_congr fun slot hslot => decide_eq_decide.mpr (text_field_eq_iff key hslot)
  have hslots : value.tree.slots.filter (·.field = Field.ofText key) =
      (value.nodeWith tree).slots.filter (·.field = Field.ofText key) := by
    rw [tree_eq]
    exact Load.filter_orderSlots _ _ (NodeType.nodup_visitOrder _)
  rw [hfield, hslots, slots_nodeWith, List.filter_map, List.filter_filter, childMembers,
    List.map_map]
  simp only [Function.comp_def, field_slot, Field.ofText_inj, Bool.decide_and]
  apply List.map_congr_left
  intro member hmember
  rw [List.mem_filter, Bool.and_eq_true, decide_eq_true_eq] at hmember
  rw [hmember.2.1]

end Json

end NameRoles
