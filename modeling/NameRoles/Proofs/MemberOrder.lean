import Mathlib.Logic.Relation
import NameRoles.Classify.Identifiers
import NameRoles.Proofs.SlotOrder

/-! The order of members. Where a type has an order of visiting, the members with the names of that
order may stand anywhere among the members of a serialized node: of a node only members with other
names are looked up, and the slots are brought into the same order from wherever they are. Documents
that differ in nothing else, at any depth, are loaded to the same tree or not at all. -/

namespace NameRoles

namespace Json

/-- The keys of the members of a serialized node that are visited first. -/
def listedKeys (value : Json) : List String :=
  value.nodeType.visitOrder.map Part.text

/-- One change to the places of members. In an object, no two members of which have the same key,
members that are visited first go to other places and all others keep their order; or such a change
is made in an item of a list or in the value of a member. -/
inductive Moved : Json → Json → Prop
  | members {members members' : List (String × Json)} (hkeys : (members.map Prod.fst).Nodup)
      (hperm : members.Perm members')
      (hothers : members.filter (·.1 ∉ (object members).listedKeys) =
        members'.filter (·.1 ∉ (object members).listedKeys)) :
      Moved (.object members) (.object members')
  | inItem (before after : List Json) {item item' : Json} (hmoved : Moved item item') :
      Moved (.array (before ++ item :: after)) (.array (before ++ item' :: after))
  | inMember (before after : List (String × Json)) (key : String) {value value' : Json}
      (hmoved : Moved value value') :
      Moved (.object (before ++ (key, value) :: after))
        (.object (before ++ (key, value') :: after))

/-- Any number of changes to the places of members. -/
def Reordered : Json → Json → Prop :=
  Relation.ReflTransGen Moved

/-- The keys under which something is looked up in a serialized node. -/
def readKeys : List String :=
  ["type", "start", "end", "computed", "name"]

theorem not_mem_listedKeys {key : String} (value : Json) (hkey : key ∈ readKeys) :
    key ∉ value.listedKeys := by
  have hdisjoint (construct : Construct) :
      ∀ other ∈ readKeys, other ∉ construct.visitOrder.map Part.text := by
    cases construct <;> decide
  rw [listedKeys]
  cases value.nodeType with
  | known construct => exact hdisjoint construct key hkey
  | other name => exact List.not_mem_nil

theorem lookup_filter_not_mem {keys : List String} {key : String} (hkey : key ∉ keys)
    (members : List (String × Json)) :
    (members.filter (·.1 ∉ keys)).lookup key = members.lookup key := by
  induction members with
  | nil => rfl
  | cons member members ih =>
      obtain ⟨first, value⟩ := member
      by_cases hlisted : first ∈ keys
      · have hne : (key == first) = false := by
          rw [beq_eq_false_iff_ne]
          rintro rfl
          exact hkey hlisted
        rw [List.filter_cons_of_neg (by simpa using hlisted), ih, List.lookup_cons, hne]
      · rw [List.filter_cons_of_pos (by simpa using hlisted), List.lookup_cons, List.lookup_cons,
          ih]

namespace Moved

variable {first second : Json}

theorem eq_object_or_eq_array (hmoved : Moved first second) :
    (∃ members members', first = .object members ∧ second = .object members') ∨
      ∃ items items', first = .array items ∧ second = .array items' := by
  cases hmoved with
  | members => exact .inl ⟨_, _, rfl, rfl⟩
  | inItem => exact .inr ⟨_, _, rfl, rfl⟩
  | inMember => exact .inl ⟨_, _, rfl, rfl⟩

theorem isNull_eq_false (hmoved : Moved first second) :
    first.isNull = false ∧ second.isNull = false := by
  rcases hmoved.eq_object_or_eq_array with ⟨_, _, rfl, rfl⟩ | ⟨_, _, rfl, rfl⟩
  · exact ⟨rfl, rfl⟩
  · exact ⟨rfl, rfl⟩

/-- What is looked up in a node stays as it is, or is changed itself. -/
theorem member?_cases {key : String} (hmoved : Moved first second) (hkey : key ∈ readKeys) :
    first.member? key = second.member? key ∨
      ∃ value value', first.member? key = some value ∧ second.member? key = some value' ∧
        Moved value value' := by
  cases hmoved with
  | @members members members' hkeys hperm hothers =>
      have hunlisted := not_mem_listedKeys (.object members) hkey
      left
      calc members.lookup key
          = (members.filter (·.1 ∉ (object members).listedKeys)).lookup key :=
            (lookup_filter_not_mem hunlisted members).symm
        _ = (members'.filter (·.1 ∉ (object members).listedKeys)).lookup key := by rw [hothers]
        _ = members'.lookup key := lookup_filter_not_mem hunlisted members'
  | inItem => exact .inl rfl
  | inMember before after name hmoved =>
      simp only [member?, Json.members, List.lookup_append, List.lookup_cons]
      cases hbefore : before.lookup key with
      | some found => exact .inl rfl
      | none =>
          by_cases hname : key = name
          · subst hname
            simp only [beq_self_eq_true, Option.none_or]
            exact .inr ⟨_, _, rfl, rfl, hmoved⟩
          · rw [beq_eq_false_iff_ne.mpr hname]
            exact .inl rfl

/-- Scalars are read from the members of a node as before. -/
theorem bind_member?_eq {α : Type} {read : Json → Option α} {key : String}
    (hmoved : Moved first second) (hkey : key ∈ readKeys)
    (hobject : ∀ members, read (.object members) = none)
    (harray : ∀ items, read (.array items) = none) :
    (first.member? key).bind read = (second.member? key).bind read := by
  rcases hmoved.member?_cases hkey with heq | ⟨value, value', hvalue, hvalue', hinner⟩
  · rw [heq]
  · rw [hvalue, hvalue', Option.bind_some, Option.bind_some]
    rcases hinner.eq_object_or_eq_array with ⟨_, _, rfl, rfl⟩ | ⟨_, _, rfl, rfl⟩
    · rw [hobject, hobject]
    · rw [harray, harray]

theorem typeText?_eq (hmoved : Moved first second) : first.typeText? = second.typeText? :=
  hmoved.bind_member?_eq (by decide) (fun _ => rfl) fun _ => rfl

theorem nodeType_eq (hmoved : Moved first second) : first.nodeType = second.nodeType := by
  rw [nodeType, nodeType, hmoved.typeText?_eq]

theorem hasType_iff (hmoved : Moved first second) : first.HasType ↔ second.HasType := by
  rw [← isNode_iff, ← isNode_iff, isNode, isNode, hmoved.typeText?_eq]

theorem isTypeParameter_iff (hmoved : Moved first second) :
    first.IsTypeParameter ↔ second.IsTypeParameter := by
  rw [← Json.isTypeParameter_iff, ← Json.isTypeParameter_iff, hmoved.nodeType_eq]

theorem span_eq (hmoved : Moved first second) : first.span = second.span := by
  have hoffset (key : String) (hkey : key ∈ readKeys) : first.offset? key = second.offset? key := by
    rw [offset?, offset?, hmoved.bind_member?_eq hkey (fun _ => rfl) fun _ => rfl]
  rw [span, span, hoffset "start" (by decide), hoffset "end" (by decide)]

theorem computedFlag_eq (hmoved : Moved first second) :
    first.computedFlag = second.computedFlag := by
  have hkey : "computed" ∈ readKeys := by decide
  rw [computedFlag, computedFlag]
  rcases hmoved.member?_cases hkey with heq | ⟨value, value', hvalue, hvalue', hinner⟩
  · rw [heq]
  · rw [hvalue, hvalue']
    rcases hinner.eq_object_or_eq_array with ⟨_, _, rfl, rfl⟩ | ⟨_, _, rfl, rfl⟩ <;> rfl

theorem nameText?_eq (hmoved : Moved first second) (type : NodeType) :
    first.nameText? type = second.nameText? type := by
  have hkey : "name" ∈ readKeys := by decide
  rw [nameText?, nameText?]
  rcases hmoved.member?_cases hkey with heq | ⟨value, value', hvalue, hvalue', hinner⟩
  · rw [heq]
  · have hname : (value.member? "name").bind text? = (value'.member? "name").bind text? :=
      hinner.bind_member?_eq hkey (fun _ => rfl) fun _ => rfl
    rw [hvalue, hvalue']
    rcases hinner.eq_object_or_eq_array with ⟨_, _, rfl, rfl⟩ | ⟨_, _, rfl, rfl⟩
    · simp only [hname]
    · rfl

/-- A changed node has the same members that hold children among those it shares. -/
theorem bearsChildren_iff (hmoved : Moved first second) (key : String) (value : Json) :
    first.BearsChildren key value ↔ second.BearsChildren key value := by
  rw [BearsChildren, BearsChildren, hmoved.isTypeParameter_iff]

theorem filter_bearsChildren (hmoved : Moved first second) (members : List (String × Json)) :
    (members.filter fun member => second.BearsChildren member.1 member.2) =
      members.filter fun member => first.BearsChildren member.1 member.2 := by
  apply List.filter_congr
  intro member _
  rw [decide_eq_decide, hmoved.bearsChildren_iff]

/-- A changed value holds children as before. -/
theorem bearsChildren_value_iff (hmoved : Moved first second) (node : Json) (key : String) :
    node.BearsChildren key first ↔ node.BearsChildren key second := by
  rw [BearsChildren, BearsChildren, hmoved.hasType_iff]
  refine and_congr_right fun _ => or_congr_right ?_
  cases hmoved with
  | members => simp
  | inMember => simp
  | @inItem before after item item' hmoved =>
      have hnull : item ≠ .null ∧ item' ≠ .null := by
        simpa [← isNull_iff] using hmoved.isNull_eq_false
      simp [hnull, hmoved.hasType_iff, or_imp, forall_and]

end Moved

end Json

/-- Slots with distinct names are ordered alike from any places, if those that have none of the
names of the order keep theirs. -/
theorem Load.orderSlots_eq_of_perm {order : List Field} {slots slots' : List Slot}
    (hfields : (slots.map Slot.field).Nodup) (hperm : slots.Perm slots')
    (hothers : slots.filter (·.field ∉ order) = slots'.filter (·.field ∉ order)) :
    orderSlots order slots = orderSlots order slots' := by
  have hnamed (field : Field) :
      slots.filter (·.field = field) = slots'.filter (·.field = field) := by
    have hone : (slots.filter (·.field = field)).length ≤ 1 := by
      calc (slots.filter (·.field = field)).length
          = (slots.map Slot.field).count field := by
            rw [← List.countP_eq_length_filter, List.count, List.countP_map]
            rfl
        _ ≤ 1 := List.nodup_iff_count_le_one.mp hfields field
    have hsame := hperm.filter (·.field = field)
    generalize slots.filter (·.field = field) = named at hone hsame ⊢
    match named with
    | [] => exact hsame.nil_eq
    | [slot] => exact List.singleton_perm.mp hsame
    | _ :: _ :: _ => simp at hone
  rw [orderSlots_eq, orderSlots_eq, hothers]
  simp only [hnamed]

namespace Json

theorem filter_slots_nodeWith (build : Json → Node) (value : Json) :
    (value.nodeWith build).slots.filter (·.field ∉ value.nodeType.visitOrder.map Field.known) =
      ((value.members.filter (·.1 ∉ value.listedKeys)).filter fun member =>
        value.BearsChildren member.1 member.2).map fun member =>
          member.2.slot build (Field.ofText member.1) := by
  have hlisted (key : String) :
      Field.ofText key ∈ value.nodeType.visitOrder.map Field.known ↔ key ∈ value.listedKeys := by
    have hfield : Field.ofText (Field.ofText key).text = Field.ofText key := by
      rw [Field.text_ofText]
    rw [field_mem_visitOrder_iff value.nodeType hfield, Field.text_ofText, listedKeys]
  rw [slots_nodeWith, List.filter_map, List.filter_filter, List.filter_filter]
  congr 1
  apply List.filter_congr
  intro member _
  simp only [Function.comp_apply, field_slot, hlisted]
  exact Bool.and_comm _ _

namespace Moved

variable {first second : Json}

theorem tree_eq_of_slots (hmoved : Moved first second)
    (hslots : Load.orderSlots (first.nodeType.visitOrder.map Field.known)
        (first.nodeWith tree).slots =
      Load.orderSlots (first.nodeType.visitOrder.map Field.known) (second.nodeWith tree).slots) :
    first.tree = second.tree := by
  have htree (value : Json) : value.tree = ⟨value.span, value.nodeType,
      value.nameText? value.nodeType, value.computedFlag,
      Load.orderSlots (value.nodeType.visitOrder.map Field.known) (value.nodeWith tree).slots⟩ := by
    rw [tree_eq]
    rfl
  rw [htree first, htree second, hslots, hmoved.span_eq, hmoved.nodeType_eq, hmoved.nameText?_eq,
    hmoved.computedFlag_eq]

theorem tree_eq_of_perm {members members' : List (String × Json)}
    (hkeys : (members.map Prod.fst).Nodup) (hperm : members.Perm members')
    (hothers : members.filter (·.1 ∉ (object members).listedKeys) =
      members'.filter (·.1 ∉ (object members).listedKeys)) :
    (object members).tree = (object members').tree := by
  have hmoved : Moved (.object members) (.object members') := .members hkeys hperm hothers
  have hfields : (((object members).nodeWith tree).slots.map Slot.field).Nodup :=
    nodup_fields_nodeWith tree hkeys
  have hlisted : (object members').listedKeys = (object members).listedKeys := by
    rw [listedKeys, listedKeys, hmoved.nodeType_eq]
  apply hmoved.tree_eq_of_slots
  apply Load.orderSlots_eq_of_perm hfields
  · rw [slots_nodeWith, slots_nodeWith, hmoved.filter_bearsChildren]
    exact (hperm.filter _).map _
  · have hsecond := filter_slots_nodeWith tree (object members')
    rw [← hmoved.nodeType_eq, hlisted, hmoved.filter_bearsChildren] at hsecond
    rw [filter_slots_nodeWith, hsecond]
    exact congrArg _ (congrArg _ hothers)

theorem slots_eq_of_member {value value' : Json} (before after : List (String × Json))
    (key : String) (hmoved : Moved value value')
    (hslot : ∀ field, value.slot tree field = value'.slot tree field) :
    ((object (before ++ (key, value) :: after)).nodeWith tree).slots =
      ((object (before ++ (key, value') :: after)).nodeWith tree).slots := by
  have hobject := Moved.inMember before after key hmoved
  rw [slots_nodeWith, slots_nodeWith, hobject.filter_bearsChildren]
  simp only [Json.members, List.filter_append, List.map_append]
  congr 1
  by_cases hbears : (object (before ++ (key, value) :: after)).BearsChildren key value
  · have hbears' := (hmoved.bearsChildren_value_iff _ key).mp hbears
    rw [List.filter_cons_of_pos (by simpa using hbears),
      List.filter_cons_of_pos (by simpa using hbears'), List.map_cons, List.map_cons, hslot]
  · have hbears' := mt (hmoved.bearsChildren_value_iff _ key).mpr hbears
    rw [List.filter_cons_of_neg (by simpa using hbears),
      List.filter_cons_of_neg (by simpa using hbears')]

theorem slot_eq_of_item {item item' : Json} (before after : List Json) (hmoved : Moved item item')
    (htree : item.tree = item'.tree) (field : Field) :
    (array (before ++ item :: after)).slot tree field =
      (array (before ++ item' :: after)).slot tree field := by
  simp only [slot, List.map_append, List.map_cons, hmoved.isNull_eq_false, htree]

/-- A changed value is the same tree, and as the value of a member the same slot. A list has no tree
of its own; what its items share is in the slot. -/
theorem tree_eq_and_slot_eq (hmoved : Moved first second) :
    first.tree = second.tree ∧ ∀ field, first.slot tree field = second.slot tree field := by
  induction hmoved with
  | members hkeys hperm hothers =>
      have htree := tree_eq_of_perm hkeys hperm hothers
      exact ⟨htree, fun field => congrArg (Slot.single field) htree⟩
  | inItem before after hmoved ih =>
      refine ⟨(Moved.inItem before after hmoved).tree_eq_of_slots rfl, ?_⟩
      exact slot_eq_of_item before after hmoved ih.1
  | inMember before after key hmoved ih =>
      have htree := (Moved.inMember before after key hmoved).tree_eq_of_slots
        (by rw [slots_eq_of_member before after key hmoved ih.2])
      exact ⟨htree, fun field => congrArg (Slot.single field) htree⟩

end Moved

theorem Reordered.hasType_iff_and_tree_eq {document document' : Json}
    (hreordered : document.Reordered document') :
    (document.HasType ↔ document'.HasType) ∧ document.tree = document'.tree := by
  induction hreordered with
  | refl => exact ⟨Iff.rfl, rfl⟩
  | tail _ hmoved ih =>
      exact ⟨ih.1.trans hmoved.hasType_iff, ih.2.trans hmoved.tree_eq_and_slot_eq.1⟩

end Json

namespace Node

variable {options : LoadOptions} {document document' : Json}

theorem load_result_of_reordered (hreordered : document.Reordered document') (root : Node) :
    (Node.load options document).result = .ok root ↔
      (Node.load options document').result = .ok root := by
  obtain ⟨htype, htree⟩ := hreordered.hasType_iff_and_tree_eq
  rw [load_result_eq_ok_iff_allows, load_result_eq_ok_iff_allows, htype, htree]

/-- The slots of loaded nodes. Every node of a loaded tree has one slot for each member of its
serialized node that holds children, in the order of the members if its type has no order of
visiting, and otherwise with the names of this order first and all others behind as they are
written. So the members with these names may stand at any place: documents that differ only in this
are loaded or not alike, to the same tree, whose identifiers are then classified alike. -/
theorem load_slotOrder (options : LoadOptions) (document : Json) :
    (∀ root, (Node.load options document).result = .ok root →
      (∀ path, List.Forall₂ (Json.GivesSlots options) (document.nodesAt path)
        (root.nodesAt path)) ∧
      ∀ node ∈ root.nodes, ∃ path, node ∈ root.nodesAt path) ∧
    ∀ document', document.Reordered document' →
      ((∃ root, (Node.load options document).result = .ok root) ↔
        ∃ root, (Node.load options document').result = .ok root) ∧
      ∀ root root', (Node.load options document).result = .ok root →
        (Node.load options document').result = .ok root' →
        root = root' ∧ root.classify.result = root'.classify.result := by
  refine ⟨fun root hload => ⟨forall₂_givesSlots hload, ?_⟩, fun document' hreordered => ⟨?_, ?_⟩⟩
  · intro node hnode
    exact exists_mem_nodesAt_of_load hload hnode
  · exact exists_congr fun root => load_result_of_reordered hreordered root
  · intro root root' hload hload'
    rw [← load_result_of_reordered hreordered, hload] at hload'
    obtain rfl := Except.ok.inj hload'
    exact ⟨rfl, rfl⟩

/-- A module with the import `{a as b}`, the export `{c as d}` and the statement `<E>{f}</E>`, where
the two specifiers and the element have the given members. -/
def moduleDocument (imported exported element : List (String × Json)) : Json :=
  .object [("type", .string "Program"), ("body", .array [
    .object [("type", .string "ImportDeclaration"), ("specifiers", .array [.object imported])],
    .object [("type", .string "ExportNamedDeclaration"),
      ("specifiers", .array [.object exported])],
    .object [("type", .string "ExpressionStatement"), ("expression", .object element)]])]

def namedDocument (type name : String) : Json :=
  .object [("type", .string type), ("name", .string name)]

def importMembers : List (String × Json) :=
  [("type", .string "ImportSpecifier"), ("imported", namedDocument "Identifier" "a"),
    ("local", namedDocument "Identifier" "b")]

def exportMembers : List (String × Json) :=
  [("type", .string "ExportSpecifier"), ("exported", namedDocument "Identifier" "d"),
    ("local", namedDocument "Identifier" "c")]

def elementMembers : List (String × Json) :=
  [("type", .string "JSXElement"),
    ("openingElement", .object [("type", .string "JSXOpeningElement"),
      ("name", namedDocument "JSXIdentifier" "E")]),
    ("closingElement", .object [("type", .string "JSXClosingElement"),
      ("name", namedDocument "JSXIdentifier" "E")]),
    ("children", .array [.object [("type", .string "JSXExpressionContainer"),
      ("expression", namedDocument "Identifier" "f")]])]

def writtenModule : Json :=
  moduleDocument importMembers exportMembers elementMembers

def reversedModule : Json :=
  moduleDocument importMembers.reverse exportMembers.reverse elementMembers.reverse

def specifierTree (construct : Construct) (field : Field) (name other : String) : Node :=
  ((ofType (.known construct)).withChild (.known .localName) (identifier name)).withChild field
    (identifier other)

def tagTree (construct : Construct) : Node :=
  (ofType (.known construct)).withChild (.known .name) (jsxIdentifier "E")

def elementTree : Node :=
  (((ofType (.known .jsxElement)).withChild (.known .openingElement)
    (tagTree .jsxOpeningElement)).withChildren (.known .children)
      [(ofType (.known .jsxExpressionContainer)).withChild (.known .expression)
        (identifier "f")]).withChild (.known .closingElement) (tagTree .jsxClosingElement)

/-- The module with the slots of its specifiers and of its element in the order of visiting. -/
def moduleTree : Node :=
  (ofType (.known .program)).withChildren (.known .body)
    [(ofType (.known .importDeclaration)).withChildren (.known .specifiers)
      [specifierTree .importSpecifier (.known .imported) "b" "a"],
    (ofType (.known .exportNamedDeclaration)).withChildren (.known .specifiers)
      [specifierTree .exportSpecifier (.known .exported) "c" "d"],
    (ofType (.known .expressionStatement)).withChild (.known .expression) elementTree]

theorem reordered_writtenModule : writtenModule.Reordered reversedModule := by
  have himport : Json.Moved writtenModule
      (moduleDocument importMembers.reverse exportMembers elementMembers) :=
    .inMember [_] [] "body" (.inItem [] [_, _] (.inMember [_] [] "specifiers"
      (.inItem [] [] (.members (by decide) (List.reverse_perm _).symm rfl))))
  have hexport : Json.Moved (moduleDocument importMembers.reverse exportMembers elementMembers)
      (moduleDocument importMembers.reverse exportMembers.reverse elementMembers) :=
    .inMember [_] [] "body" (.inItem [_] [_] (.inMember [_] [] "specifiers"
      (.inItem [] [] (.members (by decide) (List.reverse_perm _).symm rfl))))
  have helement : Json.Moved
      (moduleDocument importMembers.reverse exportMembers.reverse elementMembers) reversedModule :=
    .inMember [_] [] "body" (.inItem [_, _] [] (.inMember [_] [] "expression"
      (.members (by decide) (List.reverse_perm _).symm rfl)))
  exact ((Relation.ReflTransGen.single himport).tail hexport).tail helement

/-- Wherever they are written, the local names of the specifiers are visited first and the children
of the element between its two names. -/
theorem load_slotOrder_writtenModule :
    (Node.load {} writtenModule).result = .ok moduleTree ∧
      (∀ path, List.Forall₂ (Json.GivesSlots {}) (writtenModule.nodesAt path)
        (moduleTree.nodesAt path)) ∧
      (Node.load {} reversedModule).result = .ok moduleTree ∧
      moduleTree.classify.result = .ok [⟨"b", .binding, .javaScript, Span.none⟩,
        ⟨"a", .static, .javaScript, Span.none⟩, ⟨"c", .reference, .javaScript, Span.none⟩,
        ⟨"d", .static, .javaScript, Span.none⟩, ⟨"E", .reference, .jsx, Span.none⟩,
        ⟨"f", .reference, .javaScript, Span.none⟩, ⟨"E", .reference, .jsx, Span.none⟩] := by
  have hload : (Node.load {} writtenModule).result = .ok moduleTree := by
    decide +kernel
  obtain ⟨hslots, hmoved⟩ := load_slotOrder {} writtenModule
  obtain ⟨hloads, hsame⟩ := hmoved _ reordered_writtenModule
  obtain ⟨root, hroot⟩ := hloads.mp ⟨_, hload⟩
  obtain ⟨rfl, -⟩ := hsame _ _ hload hroot
  exact ⟨hload, (hslots _ hload).1, hroot, by decide +kernel⟩

end Node

end NameRoles
