import NameRoles.Tree.Preorder

/-! Trees as lists. The header of a node says all about it but the children themselves: for each
slot it says only which places a child fills. The headers of all nodes, a node before its children,
determine the tree: reading them from the last to the first, each header takes its children off the
trees that have been put together so far. Nothing here recurses into a tree, so a tree may nest to
any depth, and trees are compared by their headers. -/

namespace NameRoles

/-- A slot without its children. In a list, `present` tells children from holes. -/
inductive Opening where
  | single (field : Field)
  | list (field : Field) (present : List Bool)
deriving DecidableEq

/-- A node without its children. -/
structure Header where
  span : Span
  type : NodeType
  name : Option String
  computed : Bool
  openings : List Opening
deriving DecidableEq

/-- A slot as its header describes it. -/
def Slot.opening : Slot → Opening
  | single field _ => .single field
  | list field items => .list field (items.map Option.isSome)

namespace Node

def header (node : Node) : Header :=
  ⟨node.span, node.type, node.name, node.computed, node.slots.map Slot.opening⟩

/-- The headers of all nodes of a tree, a node before its children. -/
def headers (root : Node) : List Header :=
  root.paths.map (·.node.header)

end Node

namespace Opening

/-- The number of children that a slot takes. -/
def arity : Opening → Nat
  | single _ => 1
  | list _ present => present.count true

/-- Puts the next child into a place of a list, which stands last first. -/
def fillPlace (state : List (Option Node) × List Node) (present : Bool) :
    List (Option Node) × List Node :=
  match present, state with
  | true, (items, child :: children) => (some child :: items, children)
  | _, (items, children) => (none :: items, children)

/-- Puts the next children into a slot, in front of slots that stand last first. -/
def fillSlot (state : List Slot × List Node) (opening : Opening) : List Slot × List Node :=
  match opening, state with
  | single field, (slots, child :: children) => (.single field child :: slots, children)
  | single _, (slots, []) => (slots, [])
  | list field present, (slots, children) =>
    let (items, children) := present.foldl fillPlace ([], children)
    (.list field items.reverse :: slots, children)

end Opening

namespace Header

/-- The number of children that a node has. -/
def arity (header : Header) : Nat :=
  header.openings.foldr (fun opening arity => opening.arity + arity) 0

/-- Gives a node its children, which stand at the head of a list. -/
def fill (header : Header) (children : List Node) : Node × List Node :=
  let (slots, children) := header.openings.foldl Opening.fillSlot ([], children)
  (⟨header.span, header.type, header.name, header.computed, slots.reverse⟩, children)

/-- Puts trees together from the headers of their nodes. Each node passes through `finish` once it
has its children. -/
def assemble (finish : Node → Node) (headers : List Header) : List Node :=
  headers.foldr (fun header trees =>
    let (node, trees) := header.fill trees
    finish node :: trees) []

/-- The headers, each with the places in the list at which the headers of its children stand. -/
def childIndices (headers : List Header) : List (Header × List Nat) :=
  (headers.zipIdx.foldr (fun (header, index) (numbered, roots) =>
    ((header, roots.take header.arity) :: numbered, index :: roots.drop header.arity))
    ([], [])).1

end Header

theorem Opening.foldl_fillPlace (items done : List (Option Node)) (rest : List Node) :
    (items.map Option.isSome).foldl fillPlace (done, items.filterMap id ++ rest) =
      (items.reverse ++ done, rest) := by
  induction items generalizing done with
  | nil => rfl
  | cons item items ih =>
    rw [List.reverse_cons, List.append_assoc]
    cases item with
    | none => exact ih (none :: done)
    | some child => exact ih (some child :: done)

theorem Opening.foldl_fillSlot (slots done : List Slot) (rest : List Node) :
    (slots.map Slot.opening).foldl fillSlot (done, slots.flatMap Slot.children ++ rest) =
      (slots.reverse ++ done, rest) := by
  induction slots generalizing done with
  | nil => rfl
  | cons slot slots ih =>
    rw [List.reverse_cons, List.append_assoc, List.map_cons, List.foldl_cons, List.flatMap_cons,
      List.append_assoc]
    cases slot with
    | single field child => exact ih (.single field child :: done)
    | list field items =>
      simp only [Slot.opening, Slot.children, fillSlot, foldl_fillPlace, List.append_nil,
        List.reverse_reverse]
      exact ih (.list field items :: done)

/-- A node's header takes exactly the node's children. -/
theorem Node.fill_header (node : Node) (rest : List Node) :
    node.header.fill (node.children.map Prod.snd ++ rest) = (node, rest) := by
  rw [map_snd_children]
  cases node
  simp [header, Header.fill, Opening.foldl_fillSlot]

namespace Header

theorem assemble_cons (finish : Node → Node) (header : Header) (headers : List Header) :
    assemble finish (header :: headers) =
      finish (header.fill (assemble finish headers)).1 ::
        (header.fill (assemble finish headers)).2 :=
  rfl

theorem assemble_preorder_append (path : Path) (headers : List Header) :
    assemble id (path.preorder.map (·.node.header) ++ headers) =
      path.node :: assemble id headers := by
  induction path using Path.induction_children generalizing headers with
  | path path ih =>
    have below (paths : List Path) (hpaths : ∀ child ∈ paths, child ∈ path.children) :
        assemble id ((paths.flatMap Path.preorder).map (·.node.header) ++ headers) =
          paths.map Path.node ++ assemble id headers := by
      induction paths with
      | nil => rfl
      | cons child paths ihpaths =>
        rw [List.flatMap_cons, List.map_append, List.append_assoc,
          ih child (hpaths child (by simp)),
          ihpaths fun other h => hpaths other (by simp [h])]
        rfl
    rw [Path.preorder_eq, List.map_cons, List.cons_append, assemble_cons,
      below path.children fun child h => h]
    have : path.children.map Path.node = path.node.children.map Prod.snd := by
      simp [Path.children, Path.child, Function.comp_def]
    rw [this, Node.fill_header]
    rfl

/-- The headers of a tree determine it. -/
theorem assemble_headers (tree : Node) : assemble id tree.headers = [tree] := by
  have := assemble_preorder_append (Path.root tree) []
  rw [List.append_nil] at this
  rw [Node.headers, Node.paths_eq_preorder, this]
  rfl

end Header

theorem Node.headers_injective {first second : Node} (h : first.headers = second.headers) :
    first = second := by
  have := Header.assemble_headers second
  rw [← h, Header.assemble_headers] at this
  exact (List.cons.inj this).1

/-- Trees are compared by their headers. -/
instance : DecidableEq Node := fun first second =>
  decidable_of_iff (first.headers = second.headers) ⟨Node.headers_injective, congrArg _⟩

end NameRoles
