import Mathlib.Data.List.Perm.Basic
import NameRoles.Proofs.VisitOrder

/-! The nodes of a tree and its height. The nodes of the tree of a document are the trees of its
serialized nodes, possibly in another order, since slots are ordered for visiting. None of the
serialized nodes stands deeper than the height of the tree leaves room for. -/

namespace NameRoles

namespace Path

/-- The nodes below a path do not depend on what is above it. -/
theorem map_node_preorder {path other : Path} (hnode : path.node = other.node) :
    path.preorder.map node = other.preorder.map node := by
  induction path using induction_children generalizing other with
  | path path ih =>
      rw [preorder_eq, preorder_eq, List.map_cons, List.map_cons, List.map_flatMap,
        List.map_flatMap, hnode, children, children, List.flatMap_map, List.flatMap_map, hnode]
      congr 1
      apply List.flatMap_congr
      intro held hheld
      have hmem : path.child held.1 held.2 ∈ path.children := by
        rw [children, hnode]
        exact List.mem_map_of_mem hheld
      exact ih _ hmem rfl

end Path

namespace Node

/-- The nodes of a tree, in the order of the walk. -/
def nodes (root : Node) : List Node :=
  root.paths.map Path.node

/-- A tree has its root as a node, and the nodes of the trees of the children. -/
theorem nodes_eq (root : Node) :
    root.nodes = root :: (root.slots.flatMap Slot.children).flatMap nodes := by
  have hbelow : ∀ held : Field × Node,
      ((Path.root root).child held.1 held.2).preorder.map Path.node = held.2.nodes := by
    intro held
    rw [nodes, paths_eq_preorder]
    exact Path.map_node_preorder rfl
  rw [nodes, paths_eq_preorder, Path.preorder_eq, List.map_cons, List.map_flatMap, Path.children,
    List.flatMap_map, ← map_snd_children, List.flatMap_map]
  simp only [hbelow]
  rfl

theorem mem_nodes_self (root : Node) : root ∈ root.nodes := by
  rw [nodes_eq]
  exact List.mem_cons_self

theorem mem_nodes_of_mem_children {root child node : Node}
    (hchild : child ∈ root.slots.flatMap Slot.children) (hnode : node ∈ child.nodes) :
    node ∈ root.nodes := by
  rw [nodes_eq]
  exact List.mem_cons_of_mem _ (List.mem_flatMap.mpr ⟨child, hchild, hnode⟩)

mutual

/-- The number of nodes on the longest way from the root of a tree down to a leaf. -/
def height : Node → Nat
  | ⟨_, _, _, _, slots⟩ => heightSlots slots + 1

def heightSlots : List Slot → Nat
  | [] => 0
  | .single _ child :: slots => max child.height (heightSlots slots)
  | .list _ items :: slots => max (heightItems items) (heightSlots slots)

def heightItems : List (Option Node) → Nat
  | [] => 0
  | none :: items => heightItems items
  | some child :: items => max child.height (heightItems items)

end

theorem height_le_heightItems {items : List (Option Node)} {child : Node}
    (hchild : some child ∈ items) : child.height ≤ heightItems items := by
  induction items with
  | nil => cases hchild
  | cons item items ih =>
      cases item with
      | none =>
          rw [heightItems]
          exact ih (by simpa using hchild)
      | some other =>
          rw [heightItems]
          rcases List.mem_cons.mp hchild with heq | hmem
          · cases heq
            exact Nat.le_max_left _ _
          · exact Nat.le_trans (ih hmem) (Nat.le_max_right _ _)

theorem height_le_heightSlots {slots : List Slot} {child : Node}
    (hchild : child ∈ slots.flatMap Slot.children) : child.height ≤ heightSlots slots := by
  induction slots with
  | nil => cases hchild
  | cons slot slots ih =>
      rw [List.flatMap_cons, List.mem_append] at hchild
      cases slot with
      | single field other =>
          rw [heightSlots]
          rcases hchild with hmem | hmem
          · obtain rfl := List.mem_singleton.mp hmem
            exact Nat.le_max_left _ _
          · exact Nat.le_trans (ih hmem) (Nat.le_max_right _ _)
      | list field items =>
          rw [heightSlots]
          rcases hchild with hmem | hmem
          · have hitem : some child ∈ items := by simpa [Slot.children] using hmem
            exact Nat.le_trans (height_le_heightItems hitem) (Nat.le_max_left _ _)
          · exact Nat.le_trans (ih hmem) (Nat.le_max_right _ _)

theorem height_lt_of_mem_children {node child : Node}
    (hchild : child ∈ node.slots.flatMap Slot.children) : child.height < node.height := by
  cases node
  rw [height]
  exact Nat.lt_succ_of_le (height_le_heightSlots hchild)

/-- Induction over trees, with the hypothesis for every child of the root. -/
@[elab_as_elim]
theorem induction_children {motive : Node → Prop}
    (node : ∀ root, (∀ child ∈ root.slots.flatMap Slot.children, motive child) → motive root)
    (root : Node) : motive root := by
  induction hheight : root.height using Nat.strongRecOn generalizing root with
  | ind height ih =>
      apply node
      intro child hchild
      exact ih child.height (hheight ▸ height_lt_of_mem_children hchild) child rfl

theorem height_pos (node : Node) : 0 < node.height := by
  cases node
  rw [height]
  exact Nat.succ_pos _

end Node

namespace Json

/-- The children of a loaded node are the trees of the serialized children. -/
theorem children_tree_perm (value : Json) :
    (value.tree.slots.flatMap Slot.children).Perm
      ((value.nodeChildren value.nodeType).map tree) := by
  rw [← children_nodeWith, Node.map_snd_children]
  exact (slots_tree_perm value).flatMap_right Slot.children

/-- The nodes of the tree of a document are the trees of the serialized nodes. -/
theorem nodes_tree_perm (depth : Nat) (value : Json) :
    value.tree.nodes.Perm ((value.serialized depth).map fun item => item.1.tree) := by
  induction value using induction_nodeChildren generalizing depth with
  | node value ih =>
      rw [Node.nodes_eq, serialized_eq, List.map_cons, List.map_flatMap]
      apply List.Perm.cons
      refine ((children_tree_perm value).flatMap_right Node.nodes).trans ?_
      rw [List.flatMap_map]
      apply List.Perm.flatMap_left
      intro child hchild
      exact ih child hchild (depth + 1)

/-- What holds of all nodes of the tree of a document holds of the trees of all serialized nodes. -/
theorem forall_mem_nodes_tree (depth : Nat) {value : Json} {holds : Node → Prop} :
    (∀ node ∈ value.tree.nodes, holds node) ↔
      ∀ item ∈ value.serialized depth, holds item.1.tree := by
  have hmem : ∀ node, node ∈ value.tree.nodes ↔
      ∃ item ∈ value.serialized depth, item.1.tree = node := by
    intro node
    rw [(nodes_tree_perm depth value).mem_iff, List.mem_map]
  constructor
  · intro hnodes item hitem
    exact hnodes _ ((hmem _).mpr ⟨item, hitem, rfl⟩)
  · intro hitems node hnode
    obtain ⟨item, hitem, rfl⟩ := (hmem node).mp hnode
    exact hitems item hitem

/-- The deeper a serialized node stands, the lower its tree is. -/
theorem depth_add_height_le {depth : Nat} {value : Json} {item : Json × Nat}
    (hitem : item ∈ value.serialized depth) :
    item.2 + item.1.tree.height ≤ depth + value.tree.height := by
  induction value using induction_nodeChildren generalizing depth with
  | node value ih =>
      rw [serialized_eq, List.mem_cons] at hitem
      rcases hitem with rfl | hbelow
      · exact Nat.le_refl _
      · obtain ⟨child, hchild, hitem⟩ := List.mem_flatMap.mp hbelow
        have hle := ih child hchild hitem
        have hmem : child.tree ∈ value.tree.slots.flatMap Slot.children :=
          (children_tree_perm value).mem_iff.mpr (List.mem_map_of_mem hchild)
        have hheight := Node.height_lt_of_mem_children hmem
        omega

end Json

end NameRoles
