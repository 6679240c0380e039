import NameRoles.Tree.Preorder

/-! What a walk visits. A tree is listed by structural recursion, slot by slot and item by item,
each node together with the steps that lead from it to the root. A walk takes a state through this
list from the front and stops right behind the first path at which it fails. -/

namespace NameRoles

mutual

/-- The paths of a node and of all nodes below it, where `above` leads from the node to the root. A
node comes before its children, the children come in the order of the slots and of the items of a
list, and a hole contributes nothing. -/
def Node.pathsUnder (above : List Step) : Node → List Path
  | ⟨span, type, name, computed, slots⟩ =>
      ⟨⟨span, type, name, computed, slots⟩, above⟩ ::
        pathsInSlots ⟨span, type, name, computed, slots⟩ above slots

/-- The paths of all nodes in some slots of `parent`. -/
def Node.pathsInSlots (parent : Node) (above : List Step) : List Slot → List Path
  | [] => []
  | .single field child :: slots =>
      child.pathsUnder (⟨field, parent⟩ :: above) ++ parent.pathsInSlots above slots
  | .list field items :: slots =>
      parent.pathsInItems above field items ++ parent.pathsInSlots above slots

/-- The paths of all nodes in some items of a list in a slot of `parent`. -/
def Node.pathsInItems (parent : Node) (above : List Step) (field : Field) :
    List (Option Node) → List Path
  | [] => []
  | none :: items => parent.pathsInItems above field items
  | some child :: items =>
      child.pathsUnder (⟨field, parent⟩ :: above) ++ parent.pathsInItems above field items

end

/-- The paths of all nodes of a tree. -/
def Node.occurrences (root : Node) : List Path :=
  root.pathsUnder []

theorem Path.preorder_eq_slots (node : Node) (above : List Step) :
    (⟨node, above⟩ : Path).preorder =
      ⟨node, above⟩ :: node.slots.flatMap fun slot =>
        slot.children.flatMap fun child =>
          (⟨child, ⟨slot.field, node⟩ :: above⟩ : Path).preorder := by
  rw [preorder_eq, children, Node.children, List.map_flatMap, List.flatMap_assoc]
  simp only [List.map_map, List.flatMap_map, Function.comp_def, child]

mutual

theorem Path.preorder_eq_pathsUnder (above : List Step) :
    ∀ node : Node, (⟨node, above⟩ : Path).preorder = node.pathsUnder above
  | ⟨span, type, name, computed, slots⟩ => by
      rw [preorder_eq_slots, Node.pathsUnder, preorder_slots]

theorem Path.preorder_slots (parent : Node) (above : List Step) :
    ∀ slots : List Slot,
      (slots.flatMap fun slot => slot.children.flatMap fun child =>
        (⟨child, ⟨slot.field, parent⟩ :: above⟩ : Path).preorder) =
          parent.pathsInSlots above slots
  | [] => by rw [Node.pathsInSlots, List.flatMap_nil]
  | .single field child :: slots => by
      rw [List.flatMap_cons, preorder_slots parent above slots, Node.pathsInSlots, Slot.children,
        Slot.field, List.flatMap_singleton, preorder_eq_pathsUnder _ child]
  | .list field items :: slots => by
      rw [List.flatMap_cons, preorder_slots parent above slots, Node.pathsInSlots, Slot.children,
        Slot.field, preorder_items parent above field items]

theorem Path.preorder_items (parent : Node) (above : List Step) (field : Field) :
    ∀ items : List (Option Node),
      ((items.filterMap id).flatMap fun child =>
        (⟨child, ⟨field, parent⟩ :: above⟩ : Path).preorder) =
          parent.pathsInItems above field items
  | [] => by rw [Node.pathsInItems, List.filterMap_nil, List.flatMap_nil]
  | none :: items => by
      rw [Node.pathsInItems, ← preorder_items parent above field items]
      rfl
  | some child :: items => by
      rw [Node.pathsInItems, ← preorder_items parent above field items,
        ← preorder_eq_pathsUnder _ child]
      rfl

end

/-- Takes a state through a list of paths from the front, up to and including the first path at
which `enter` fails. -/
def Path.foldUntil {σ ε : Type} (enter : σ → Path → σ × Except ε Unit) (state : σ) :
    List Path → σ × Except ε Unit
  | [] => (state, .ok ())
  | path :: paths =>
      match enter state path with
      | (state, .error error) => (state, .error error)
      | (state, .ok ()) => foldUntil enter state paths

section Fold

variable {σ ε : Type} (enter : σ → Path → σ × Except ε Unit)

theorem Path.foldUntil_cons_ok {state next : σ} {path : Path} (paths : List Path)
    (henter : enter state path = (next, .ok ())) :
    foldUntil enter state (path :: paths) = foldUntil enter next paths := by
  rw [foldUntil, henter]

theorem Path.foldUntil_cons_error {state next : σ} {path : Path} {error : ε} (paths : List Path)
    (henter : enter state path = (next, .error error)) :
    foldUntil enter state (path :: paths) = (next, .error error) := by
  rw [foldUntil, henter]

/-- What has been passed without a failure has no influence on the rest but through the state. -/
theorem Path.foldUntil_append {state next : σ} {before : List Path} (after : List Path)
    (hbefore : foldUntil enter state before = (next, .ok ())) :
    foldUntil enter state (before ++ after) = foldUntil enter next after := by
  induction before generalizing state with
  | nil =>
      cases hbefore
      rfl
  | cons path paths ih =>
      rw [List.cons_append]
      cases henter : enter state path with
      | mk reached outcome =>
          cases outcome with
          | error error =>
              rw [foldUntil_cons_error enter paths henter] at hbefore
              cases hbefore
          | ok _ =>
              rw [foldUntil_cons_ok enter paths henter] at hbefore
              rw [foldUntil_cons_ok enter _ henter]
              exact ih hbefore

/-- A step that never fails is taken at every path. -/
theorem Path.foldUntil_ok (step : σ → Path → σ) (state : σ) (paths : List Path) :
    foldUntil (fun state path => (step state path, (.ok () : Except ε Unit))) state paths =
      (paths.foldl step state, .ok ()) := by
  induction paths generalizing state with
  | nil => rfl
  | cons path paths ih => exact ih (step state path)

/-- Each path that is still to be visited stands for all nodes below it. -/
theorem Path.visit_eq_foldUntil (state : σ) (paths : List Path) :
    visit enter state paths = foldUntil enter state (paths.flatMap preorder) := by
  fun_induction visit enter state paths with
  | case1 => rfl
  | case2 state path paths next error henter =>
      rw [List.flatMap_cons, preorder_eq, List.cons_append, foldUntil_cons_error enter _ henter]
  | case3 state path paths next henter ih =>
      rw [ih, List.flatMap_append, List.flatMap_cons, preorder_eq path, List.cons_append,
        foldUntil_cons_ok enter _ henter]

/-- A walk is a fold over the paths of the tree that ends with the first failure. -/
theorem Node.tryTraverse_eq_foldUntil (root : Node) (state : σ) :
    root.tryTraverse enter state = Path.foldUntil enter state root.occurrences := by
  rw [tryTraverse, Path.visit_eq_foldUntil, List.flatMap_singleton, Path.root,
    Path.preorder_eq_pathsUnder, occurrences]

end Fold

theorem Node.paths_eq_occurrences (root : Node) : root.paths = root.occurrences := by
  rw [paths_eq_preorder, Path.root, Path.preorder_eq_pathsUnder, occurrences]

/-- A walk that never fails is a fold over the paths of the tree. -/
theorem Node.traverse_eq_foldl {σ : Type} (root : Node) (enter : σ → Path → σ) (state : σ) :
    root.traverse enter state = root.paths.foldl enter state := by
  rw [traverse, tryTraverse_eq_foldUntil, Path.foldUntil_ok, paths_eq_occurrences]

end NameRoles
