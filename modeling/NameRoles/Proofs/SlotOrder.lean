import NameRoles.Proofs.DepthLimit
import NameRoles.Proofs.Storable

/-! The slots of loaded nodes. A node has one slot for each member that holds children, with the
trees in it to which the values would be loaded on their own. The names of the order of visiting
come to the front, and all other slots stay in the order of the members. -/

namespace NameRoles

namespace Json

/-- The members of a serialized node that hold children, as they are written. -/
def bearingMembers (value : Json) : List (String × Json) :=
  value.members.filter fun member => value.BearsChildren member.1 member.2

/-- Whether an item of a list is loaded as what stands at a place of a slot. -/
inductive LoadsAs (options : LoadOptions) : Json → Option Node → Prop
  | hole : LoadsAs options .null none
  | tree {item : Json} {child : Node} (hload : (Node.load options item).result = .ok child) :
      LoadsAs options item (some child)

/-- Whether a slot stands for a member: it has the name of the member and holds what its value is
loaded as. -/
inductive StandsFor (options : LoadOptions) : String × Json → Slot → Prop
  | single (key : String) {value : Json} {child : Node}
      (hload : (Node.load options value).result = .ok child) :
      StandsFor options (key, value) (.single (Field.ofText key) child)
  | list (key : String) {items : List Json} {children : List (Option Node)}
      (hitems : List.Forall₂ (LoadsAs options) items children) :
      StandsFor options (key, .array items) (.list (Field.ofText key) children)

end Json

/-- Whether slots are those of `written`, brought into the order of the given names: those with
these names come first and in this order, and all others follow as they were. -/
structure Slot.Arranged (order : List String) (written visited : List Slot) : Prop where
  perm : visited.Perm written
  listed : visited.Pairwise fun first second => second.field.text ∈ order →
    first.field.text ∈ order ∧ order.idxOf first.field.text ≤ order.idxOf second.field.text
  unlisted : visited.filter (·.field.text ∉ order) = written.filter (·.field.text ∉ order)

/-- Whether a node has the slots that a serialized node gives it: one for each member that holds
children, in the order of the members if the type of the node has no order of visiting, and
otherwise arranged by that order. -/
def Json.GivesSlots (options : LoadOptions) (value : Json) (node : Node) : Prop :=
  ∃ written : List Slot, List.Forall₂ (StandsFor options) value.bearingMembers written ∧
    (node.type.visitOrder = [] → node.slots = written) ∧
    Slot.Arranged (node.type.visitOrder.map Part.text) written node.slots

namespace Json

variable {options : LoadOptions} {value : Json}

/-- What a member holds is loaded on its own as it is within the node. -/
theorem load_of_mem_heldNodes {member : String × Json} {child : Json}
    (hallows : options.Allows value.tree) (hmember : member ∈ value.bearingMembers)
    (hchild : child ∈ member.2.heldNodes) :
    (Node.load options child).result = .ok child.tree := by
  have hnode : child ∈ value.nodeChildren value.nodeType := by
    rw [nodeChildren_eq, List.mem_flatMap]
    exact ⟨member, hmember, hchild⟩
  have htree : child.tree ∈ value.tree.slots.flatMap Slot.children :=
    (children_tree_perm value).mem_iff.mpr (List.mem_map_of_mem hnode)
  exact Node.load_result_eq_ok_iff_allows.mpr
    ⟨⟨hasType_of_mem_nodeChildren hnode, hallows.of_mem_children htree⟩, rfl⟩

theorem standsFor_slot {member : String × Json} (hallows : options.Allows value.tree)
    (hmember : member ∈ value.bearingMembers) :
    StandsFor options member (member.2.slot tree (Field.ofText member.1)) := by
  have hload (child : Json) (hchild : child ∈ member.2.heldNodes) :=
    load_of_mem_heldNodes hallows hmember hchild
  obtain ⟨key, found⟩ := member
  cases found with
  | array items =>
      apply StandsFor.list
      rw [List.forall₂_map_right_iff, List.forall₂_same]
      intro item hitem
      cases hnull : item.isNull with
      | true =>
          rw [isNull_iff.mp hnull]
          exact .hole
      | false =>
          have hheld : item ∈ (Json.array items).heldNodes :=
            List.mem_filter.mpr ⟨hitem, by rw [hnull]; rfl⟩
          exact .tree (hload item hheld)
  | _ => exact .single key (hload _ (List.mem_singleton.mpr rfl))

theorem field_mem_visitOrder_iff {field : Field} (type : NodeType)
    (hfield : Field.ofText field.text = field) :
    field ∈ type.visitOrder.map Field.known ↔ field.text ∈ type.visitOrder.map Part.text := by
  rw [← List.idxOf_lt_length_iff, ← List.idxOf_lt_length_iff, type.idxOf_visitOrder hfield,
    List.length_map, List.length_map, NodeType.visitRank]

/-- The slots of a loaded node are arranged by the order of visiting of its type. -/
theorem arranged_tree (value : Json) :
    Slot.Arranged (value.tree.type.visitOrder.map Part.text) (value.nodeWith tree).slots
      value.tree.slots where
  perm := slots_tree_perm value
  listed := by
    apply (pairwise_visitRank_tree value).imp
    intro first second hle hsecond
    rw [NodeType.visitRank, NodeType.visitRank] at hle
    refine ⟨?_, hle⟩
    rw [← List.idxOf_lt_length_iff] at hsecond ⊢
    exact Nat.lt_of_le_of_lt hle hsecond
  unlisted := by
    have hmem (slot : Slot) (hslot : slot ∈ value.tree.slots) :
        decide (slot.field.text ∉ value.tree.type.visitOrder.map Part.text) =
          decide (slot.field ∉ value.tree.type.visitOrder.map Field.known) := by
      rw [decide_eq_decide, field_mem_visitOrder_iff _ (ofText_text_field hslot)]
    rw [List.filter_congr hmem, List.filter_congr fun slot hslot =>
      hmem slot ((slots_tree_perm value).mem_iff.mpr hslot), type_tree, tree_eq]
    exact Load.filter_not_mem_orderSlots _ _

theorem givesSlots_tree {options : LoadOptions} {value : Json}
    (hallows : options.Allows value.tree) : value.GivesSlots options value.tree := by
  refine ⟨(value.nodeWith tree).slots, ?_, ?_, arranged_tree value⟩
  · rw [slots_nodeWith, ← bearingMembers, List.forall₂_map_right_iff, List.forall₂_same]
    intro member hmember
    exact standsFor_slot hallows hmember
  · rw [type_tree, tree_eq]
    intro hempty
    rw [Load.arrange, nodeWith, hempty]
    exact Load.orderSlots_nil _

end Json

namespace Node

variable {options : LoadOptions} {document : Json} {root : Node}

/-- Every node of a loaded tree has the slots that the serialized node at its place gives it. -/
theorem forall₂_givesSlots (hload : (Node.load options document).result = .ok root)
    (path : KeyPath) :
    List.Forall₂ (Json.GivesSlots options) (document.nodesAt path) (root.nodesAt path) := by
  obtain ⟨⟨-, hallows⟩, rfl⟩ := load_result_eq_ok_iff_allows.mp hload
  have hnodes : ∀ node ∈ document.tree.nodes, options.Allows node :=
    fun node hnode => hallows.of_mem_nodes hnode
  rw [Json.forall_mem_nodes_tree 0] at hnodes
  refine (Json.forall₂_nodesAt_tree_iff 0).mpr ?_ path
  intro item hitem
  exact Json.givesSlots_tree (hnodes item hitem)

/-- Every node of a loaded tree stands at the end of a path of keys. -/
theorem exists_mem_nodesAt_of_load (hload : (Node.load options document).result = .ok root)
    {node : Node} (hnode : node ∈ root.nodes) : ∃ path, node ∈ root.nodesAt path := by
  obtain ⟨-, rfl⟩ := load_result_eq_ok_iff.mp hload
  obtain ⟨item, hitem, rfl⟩ := List.mem_map.mp ((Json.nodes_tree_perm 0 document).mem_iff.mp hnode)
  obtain ⟨path, hpath⟩ := Json.exists_mem_nodesAt hitem
  refine ⟨path, ?_⟩
  rw [Json.nodesAt_tree]
  exact List.mem_map_of_mem hpath

end Node

end NameRoles
