import NameRoles.Tree.Path

/-! The order in which a walk visits a tree, given by recursion: a path comes before the paths below
it, and these come child by child. -/

namespace NameRoles

namespace Path

theorem size_le_totalSize {path : Path} {paths : List Path} (h : path ∈ paths) :
    path.node.size ≤ totalSize paths := by
  induction h with
  | head paths =>
    simp only [totalSize, List.map_cons, Node.totalSize]
    omega
  | tail other h ih =>
    simp only [totalSize, List.map_cons, Node.totalSize] at *
    omega

theorem size_lt_of_mem_children {path child : Path} (h : child ∈ path.children) :
    child.node.size < path.node.size := by
  have := size_le_totalSize h
  have := totalSize_children path
  omega

/-- Induction over paths, with the hypothesis for every path that leads to a child. -/
@[elab_as_elim]
theorem induction_children {motive : Path → Prop}
    (path : ∀ start, (∀ child ∈ start.children, motive child) → motive start)
    (start : Path) : motive start := by
  induction hsize : start.node.size using Nat.strongRecOn generalizing start with
  | ind size ih =>
    apply path
    intro child hchild
    exact ih child.node.size (hsize ▸ size_lt_of_mem_children hchild) child rfl

/-- A path and all paths below it. -/
def preorder (path : Path) : List Path :=
  path :: path.children.attach.flatMap fun child => preorder child.1
termination_by path.node.size
decreasing_by exact size_lt_of_mem_children child.2

theorem preorder_eq (path : Path) : path.preorder = path :: path.children.flatMap preorder := by
  rw [preorder]
  simp

/-- Collecting the visited paths lists them in order. -/
theorem visit_push {ε : Type} (visited : Array Path) (paths : List Path) :
    visit (fun visited path => (visited.push path, (.ok () : Except ε Unit))) visited paths =
      (visited ++ (paths.flatMap preorder).toArray, .ok ()) := by
  fun_induction visit (fun visited path => (Array.push visited path, (.ok () : Except ε Unit)))
    visited paths with
  | case1 => simp
  | case2 _ _ _ _ _ h => simp at h
  | case3 visited path paths next h ih =>
    simp only [Prod.mk.injEq, and_true] at h
    rw [ih, ← h, List.flatMap_cons, preorder_eq path]
    simp

end Path

/-- The paths of a tree are those of its root and below. -/
theorem Node.paths_eq_preorder (root : Node) : root.paths = (Path.root root).preorder := by
  simp [paths, traverse, tryTraverse, Path.visit_push]

end NameRoles
