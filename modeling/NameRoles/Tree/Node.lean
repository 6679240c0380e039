import NameRoles.Tree.Field

/-! Syntax trees. A node keeps only what the classification looks at: its type, the name that an
identifier carries, whether a property is computed, and its children by slot. A slot holds one child
or a list; a list may have holes, as in `[, a]`. -/

namespace NameRoles

/-- The offsets at which a construct starts and ends in its source file. A tree that was built
without offsets has zero for both. -/
structure Span where
  start : Nat
  stop : Nat
deriving DecidableEq, Inhabited

/-- The span of a construct that stands nowhere. -/
def Span.none : Span :=
  ⟨0, 0⟩

mutual

structure Node where
  span : Span
  type : NodeType
  name : Option String
  computed : Bool
  slots : List Slot

/-- A slot of a node, holding one child or a list of children and holes. -/
inductive Slot where
  | single (field : Field) (child : Node)
  | list (field : Field) (items : List (Option Node))

end

namespace Slot

def field : Slot → Field
  | single field _ => field
  | list field _ => field

/-- The children in a slot, in order and without holes. -/
def children : Slot → List Node
  | single _ child => [child]
  | list _ items => items.filterMap id

/-- The child of a slot that has the given name and holds one child. -/
def single? (wanted : Field) : Slot → Option Node
  | single field child => if field = wanted then some child else none
  | list _ _ => none

end Slot

namespace Node

def ofType (type : NodeType) : Node :=
  ⟨Span.none, type, none, false, []⟩

def named (node : Node) (name : String) : Node :=
  { node with name := some name }

def withComputed (node : Node) (computed : Bool) : Node :=
  { node with computed := computed }

def withSpan (node : Node) (span : Span) : Node :=
  { node with span := span }

/-- Appends a slot that holds one child. -/
def withChild (node : Node) (field : Field) (child : Node) : Node :=
  { node with slots := node.slots ++ [.single field child] }

/-- Appends a slot that holds a list of children and holes. -/
def withItems (node : Node) (field : Field) (items : List (Option Node)) : Node :=
  { node with slots := node.slots ++ [.list field items] }

/-- Appends a slot that holds a list of children. -/
def withChildren (node : Node) (field : Field) (children : List Node) : Node :=
  node.withItems field (children.map some)

def identifier (name : String) : Node :=
  (ofType (.known .identifier)).named name

def jsxIdentifier (name : String) : Node :=
  (ofType (.known .jsxIdentifier)).named name

/-- The child in the first slot that has the given name and holds one child. -/
def child? (node : Node) (field : Field) : Option Node :=
  node.slots.findSome? (·.single? field)

def hasChild (node : Node) (field : Field) : Bool :=
  (node.child? field).isSome

theorem hasChild_eq_any (node : Node) (field : Field) :
    node.hasChild field = node.slots.any fun slot => (slot.single? field).isSome := by
  rw [hasChild, child?, List.isSome_findSome?]

/-- The children of a node, each with the name of its slot, in slot order and list order. -/
def children (node : Node) : List (Field × Node) :=
  node.slots.flatMap fun slot => slot.children.map (slot.field, ·)

/-- The name of a node, or the name of its type if it has none. -/
def label (node : Node) : String :=
  node.name.getD node.type.text

mutual

/-- The number of nodes in a tree. -/
def size : Node → Nat
  | ⟨_, _, _, _, slots⟩ => sizeSlots slots + 1

def sizeSlots : List Slot → Nat
  | [] => 0
  | .single _ child :: slots => child.size + sizeSlots slots
  | .list _ items :: slots => sizeItems items + sizeSlots slots

def sizeItems : List (Option Node) → Nat
  | [] => 0
  | none :: items => sizeItems items
  | some child :: items => child.size + sizeItems items

end

/-- The number of nodes in a list of trees. -/
def totalSize : List Node → Nat
  | [] => 0
  | tree :: trees => tree.size + totalSize trees

theorem totalSize_append (first second : List Node) :
    totalSize (first ++ second) = totalSize first + totalSize second := by
  induction first with
  | nil => exact (Nat.zero_add _).symm
  | cons tree trees ih => rw [List.cons_append, totalSize, totalSize, ih, Nat.add_assoc]

theorem sizeItems_eq_totalSize (items : List (Option Node)) :
    sizeItems items = totalSize (items.filterMap id) := by
  induction items with
  | nil => rfl
  | cons item items ih =>
    cases item with
    | none => exact ih
    | some child => exact congrArg (child.size + ·) ih

theorem sizeSlots_eq_totalSize (slots : List Slot) :
    sizeSlots slots = totalSize (slots.flatMap Slot.children) := by
  induction slots with
  | nil => rfl
  | cons slot slots ih =>
    rw [List.flatMap_cons, totalSize_append, ← ih]
    cases slot with
    | single field child => rfl
    | list field items => rw [sizeSlots, sizeItems_eq_totalSize, Slot.children]

theorem map_snd_children (node : Node) :
    node.children.map Prod.snd = node.slots.flatMap Slot.children := by
  simp [children, List.map_flatMap, Function.comp_def]

/-- A tree consists of its root and the trees of its children. -/
theorem size_eq_totalSize_children (node : Node) :
    node.size = totalSize (node.children.map Prod.snd) + 1 := by
  rw [map_snd_children]
  cases node
  rw [size, sizeSlots_eq_totalSize]

end Node

end NameRoles
