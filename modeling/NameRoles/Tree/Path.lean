import NameRoles.Tree.Node

/-! Paths: a node together with the steps that lead up from it. A path holds all that the
classification of its node depends on. Walking a tree visits the paths of all its nodes, a node
before its children, and may stop early. -/

namespace NameRoles

/-- A step up: the slot that holds a node, and the node whose slot it is. -/
structure Step where
  field : Field
  parent : Node

/-- Whether the step leads from the given slot to a node of the given type. -/
def Step.isIn (type : NodeType) (field : Field) (step : Step) : Bool :=
  step.parent.type = type && step.field = field

/-- A node and the steps above it, nearest first. -/
structure Path where
  node : Node
  above : List Step

namespace Path

/-- The path of a node that nothing holds. -/
def root (node : Node) : Path :=
  ⟨node, []⟩

/-- The path of a node that the node of `parent` holds in a slot. -/
def child (parent : Path) (field : Field) (node : Node) : Path :=
  ⟨node, ⟨field, parent.node⟩ :: parent.above⟩

def type (path : Path) : NodeType :=
  path.node.type

def parent? (path : Path) : Option Node :=
  path.above.head?.map Step.parent

/-- The slot that holds the node of a path. -/
def key? (path : Path) : Option Field :=
  path.above.head?.map Step.field

/-- Whether the node of a path stands in the given slot of a node of the given type. -/
def isIn (type : NodeType) (field : Field) (path : Path) : Bool :=
  path.above.head?.any (·.isIn type field)

/-- The strict ancestors, nearest first. -/
def ancestors (path : Path) : List Node :=
  path.above.map Step.parent

def depth (path : Path) : Nat :=
  path.above.length

def children (path : Path) : List Path :=
  path.node.children.map fun (field, node) => path.child field node

/-- The number of nodes below the given paths, their own nodes included. -/
def totalSize (paths : List Path) : Nat :=
  Node.totalSize (paths.map Path.node)

theorem totalSize_children (path : Path) : totalSize path.children + 1 = path.node.size := by
  rw [totalSize, children, List.map_map, Node.size_eq_totalSize_children path.node]
  rfl

/-- Visits the given paths and everything below them, a path before those below it, until `enter`
fails. `enter` may change the state also when it fails. -/
def visit {σ ε : Type} (enter : σ → Path → σ × Except ε Unit) (state : σ) :
    List Path → σ × Except ε Unit
  | [] => (state, .ok ())
  | path :: paths =>
    match enter state path with
    | (state, .error error) => (state, .error error)
    | (state, .ok ()) => visit enter state (path.children ++ paths)
termination_by paths => totalSize paths
decreasing_by
  have := totalSize_children path
  simp only [totalSize, List.map_append, Node.totalSize_append, List.map_cons, Node.totalSize] at *
  omega

end Path

namespace Node

/-- Visits the paths of all nodes of a tree until `enter` fails. -/
def tryTraverse {σ ε : Type} (root : Node) (enter : σ → Path → σ × Except ε Unit) (state : σ) :
    σ × Except ε Unit :=
  Path.visit enter state [Path.root root]

/-- Visits the paths of all nodes of a tree. -/
def traverse {σ : Type} (root : Node) (enter : σ → Path → σ) (state : σ) : σ :=
  (root.tryTraverse (fun state path => (enter state path, (.ok () : Except Empty Unit))) state).1

/-- The paths of all nodes of a tree, a node before its children. -/
def paths (root : Node) : List Path :=
  (root.traverse Array.push #[]).toList

end Node

end NameRoles
