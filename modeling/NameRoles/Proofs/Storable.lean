import NameRoles.Proofs.LoadedNodes
import NameRoles.Proofs.NodeObjects

/-! What can be said of every node of a loaded tree, provided that no object of the document has two
members with the same key. It keeps no known name as an unknown one, has slots of distinct names in
the order of visiting, none of them named like metadata, and no slot for a member from which it
takes its name or its flag. -/

namespace NameRoles

/-- Whether a node, apart from its children, can be the result of loading. -/
structure Node.Storable (node : Node) : Prop where
  type_unknown : ∀ name, node.type = .other name → Construct.ofText? name = none
  field_unknown : ∀ slot ∈ node.slots, ∀ name, slot.field = .other name → Part.ofText? name = none
  not_metadata : ∀ slot ∈ node.slots, slot.field.text ∉ Json.metadataKeys
  distinct : (node.slots.map Slot.field).Nodup
  ordered : node.type.visitOrder ≠ [] → node.slots.Pairwise fun first second =>
    node.type.visitRank first.field ≤ node.type.visitRank second.field
  no_slot_of_name : node.name ≠ none → ∀ slot ∈ node.slots, slot.field ≠ .known .name
  no_child_of_parameter : node.type = .known .typeParameter ∨ node.type = .known .tsTypeParameter →
    ∀ child, Slot.single (.known .name) child ∉ node.slots
  no_slot_of_computed : node.computed = true → ∀ slot ∈ node.slots, slot.field ≠ .other "computed"

namespace Json

variable {value : Json}

/-- A slot of a loaded node stands for a member that holds children. -/
theorem exists_member_of_mem_slots {slot : Slot} (hslot : slot ∈ value.tree.slots) :
    ∃ member ∈ value.members, value.BearsChildren member.1 member.2 ∧
      slot = member.2.slot tree (Field.ofText member.1) := by
  rw [tree_eq] at hslot
  have hmem := Load.mem_orderSlots.mp hslot
  rw [slots_nodeWith, List.mem_map] at hmem
  obtain ⟨member, hmember, rfl⟩ := hmem
  obtain ⟨hmember, hbears⟩ := List.mem_filter.mp hmember
  exact ⟨member, hmember, of_decide_eq_true hbears, rfl⟩

/-- What is the value of a member that holds children is neither a string nor a boolean. -/
theorem BearsChildren.eq_object_or_eq_array {node : Json} {key : String}
    (hbears : node.BearsChildren key value) :
    (∃ members, value = .object members) ∨ ∃ items, value = .array items := by
  obtain ⟨-, ⟨htype, -⟩ | ⟨items, hitems, -⟩⟩ := hbears
  · exact .inl (exists_object_of_hasType htype)
  · exact .inr ⟨items, hitems⟩

/-- Members with distinct keys become slots with distinct names. -/
theorem nodup_fields_nodeWith (build : Json → Node) (hkeys : (value.members.map Prod.fst).Nodup) :
    ((value.nodeWith build).slots.map Slot.field).Nodup := by
  have hfields : (Slot.field ∘ fun member : String × Json =>
      member.2.slot build (Field.ofText member.1)) = Field.ofText ∘ Prod.fst := by
    funext member
    exact field_slot build (Field.ofText member.1) member.2
  have hinjective : Function.Injective Field.ofText := by
    intro text other heq
    exact Field.ofText_inj.mp heq
  rw [slots_nodeWith, List.map_map, hfields, ← List.map_map]
  exact (hkeys.sublist (List.filter_sublist.map Prod.fst)).map hinjective

theorem nodup_fields_tree (hkeyed : value.WellKeyed) :
    (value.tree.slots.map Slot.field).Nodup := by
  have hkeys : (value.members.map Prod.fst).Nodup := by
    cases value with
    | object members => exact (wellKeyed_object_iff.mp hkeyed).1
    | _ => exact List.nodup_nil
  rw [((slots_tree_perm value).map Slot.field).nodup_iff]
  exact nodup_fields_nodeWith tree hkeys

/-- A node that takes its name from a member has no slot for this member. -/
theorem field_ne_name_of_name_tree {slot : Slot} (hkeyed : value.WellKeyed)
    (hname : value.tree.name ≠ none) (hslot : slot ∈ value.tree.slots) :
    slot.field ≠ .known .name := by
  intro hfield
  obtain ⟨member, hmember, hbears, rfl⟩ := exists_member_of_mem_slots hslot
  obtain ⟨key, found⟩ := member
  have hkey : key = "name" := by
    rw [field_slot] at hfield
    exact Field.ofText_inj.mp (hfield.trans rfl)
  subst hkey
  have hfound := hkeyed.member?_eq hmember
  obtain ⟨text, htext⟩ := Option.ne_none_iff_exists'.mp hname
  rw [tree_eq] at htext
  rcases nameText?_eq_some_iff.mp htext with hstring | ⟨hparameter, members, hobject, -⟩
  · obtain rfl := Option.some.inj (hfound.symm.trans hstring)
    rcases hbears.eq_object_or_eq_array with ⟨members, hvalue⟩ | ⟨items, hvalue⟩ <;> cases hvalue
  · obtain rfl := Option.some.inj (hfound.symm.trans hobject)
    obtain ⟨-, ⟨-, hwrapped⟩ | ⟨items, hitems, -⟩⟩ := hbears
    · exact hwrapped ⟨rfl, hparameter⟩
    · cases hitems

/-- The object around the name of a type parameter is no child. -/
theorem single_name_not_mem_slots_tree (hparameter : value.IsTypeParameter) (child : Node) :
    Slot.single (.known .name) child ∉ value.tree.slots := by
  intro hslot
  obtain ⟨member, -, hbears, heq⟩ := exists_member_of_mem_slots hslot
  obtain ⟨key, found⟩ := member
  have hfield := congrArg Slot.field heq
  rw [field_slot] at hfield
  have hkey : key = "name" := Field.ofText_inj.mp (hfield.symm.trans rfl)
  obtain ⟨-, ⟨-, hwrapped⟩ | ⟨items, rfl, -⟩⟩ := hbears
  · exact hwrapped ⟨hkey, hparameter⟩
  · cases heq

/-- A node that takes its flag from a member has no slot for this member. -/
theorem field_ne_computed_of_computed_tree {slot : Slot} (hkeyed : value.WellKeyed)
    (hcomputed : value.tree.computed = true) (hslot : slot ∈ value.tree.slots) :
    slot.field ≠ .other "computed" := by
  intro hfield
  obtain ⟨member, hmember, hbears, rfl⟩ := exists_member_of_mem_slots hslot
  obtain ⟨key, found⟩ := member
  rw [field_slot] at hfield
  obtain ⟨rfl, -⟩ := Field.reading.ofText_eq_other_iff.mp hfield
  have hfound := hkeyed.member?_eq hmember
  rw [tree_eq] at hcomputed
  obtain rfl := Option.some.inj (hfound.symm.trans (computedFlag_iff.mp hcomputed))
  rcases hbears.eq_object_or_eq_array with ⟨members, hvalue⟩ | ⟨items, hvalue⟩ <;> cases hvalue

/-- The root of the tree of a document is storable. -/
theorem storable_tree (hkeyed : value.WellKeyed) : value.tree.Storable where
  type_unknown := by
    intro name hname
    rw [type_tree, nodeType] at hname
    obtain ⟨rfl, hunknown⟩ := NodeType.reading.ofText_eq_other_iff.mp hname
    exact hunknown
  field_unknown := by
    intro slot hslot name hname
    obtain ⟨member, -, -, rfl⟩ := exists_member_of_mem_slots hslot
    rw [field_slot] at hname
    obtain ⟨rfl, hunknown⟩ := Field.reading.ofText_eq_other_iff.mp hname
    exact hunknown
  not_metadata := by
    intro slot hslot
    obtain ⟨member, -, hbears, rfl⟩ := exists_member_of_mem_slots hslot
    rw [field_slot, Field.text_ofText]
    exact hbears.1
  distinct := nodup_fields_tree hkeyed
  ordered := fun _ => pairwise_visitRank_tree value
  no_slot_of_name := fun hname _ hslot => field_ne_name_of_name_tree hkeyed hname hslot
  no_child_of_parameter := by
    intro htype
    apply single_name_not_mem_slots_tree
    rw [← isTypeParameter_iff, NodeType.isTypeParameter, ← type_tree]
    simpa using htype
  no_slot_of_computed := fun hcomputed _ hslot =>
    field_ne_computed_of_computed_tree hkeyed hcomputed hslot

end Json

end NameRoles
