import NameRoles.Proofs.KeyPaths
import NameRoles.Proofs.Locality
import NameRoles.Proofs.Walk

/-! Positions in a tree. A position goes down from the root by the numbers of slots, each with the
number of an item if the slot holds a list; it is the same for no two nodes, even where the trees
below them are equal. A walk enters each position once and in lexicographic order, by a path that
tells what stands there and above. -/

namespace NameRoles

/-- A place among the children of a node: the number of a slot and, if the slot holds a list, the
number of an item. -/
structure Place where
  slot : Nat
  item : Option Nat
deriving DecidableEq

/-- Places are ordered by their slots and, within a list, by their items. -/
inductive Place.Before : Place → Place → Prop
  | slot {first second : Place} (hslot : first.slot < second.slot) : Before first second
  | item {slot first second : Nat} (hitem : first < second) :
      Before ⟨slot, some first⟩ ⟨slot, some second⟩

/-- A way down from a node, nearest place first. -/
abbrev Position := List Place

/-- The lexicographic order, in which a position comes before all that extend it. -/
def Position.Before : Position → Position → Prop :=
  List.Lex Place.Before

namespace Node

/-- The child at a place, unless there is none or a hole. -/
def childAt? (node : Node) (place : Place) : Option Node :=
  node.slots[place.slot]?.bind (Slot.childAt? place.item)

/-- The node at a position, if the position leads through children all the way. -/
def subtree? (root : Node) : Position → Option Node
  | [] => some root
  | place :: position => (root.childAt? place).bind (·.subtree? position)

/-- The name of the slot that the last step of a position goes through. -/
def fieldAt? (root : Node) (position : Position) : Option Field :=
  position.getLast?.bind fun place =>
    (root.subtree? position.dropLast).bind fun parent =>
      parent.slots[place.slot]?.map Slot.field

end Node

/-- What a path tells about the position that it belongs to: the node there, the number of steps,
the nodes at the shorter positions on the way, and the slot and the parent of the last step. -/
structure Path.LiesAt (root : Node) (position : Position) (path : Path) : Prop where
  node_eq : root.subtree? position = some path.node
  depth_eq : path.depth = position.length
  ancestors_eq : path.ancestors.map some =
    (List.range position.length).reverse.map fun length => root.subtree? (position.take length)
  key_eq : path.key? = root.fieldAt? position
  isIn_iff (type : NodeType) (field : Field) : path.isIn type field = true ↔
    0 < position.length ∧ (root.subtree? position.dropLast).map Node.type = some type ∧
      root.fieldAt? position = some field

theorem Place.Before.ne {first second : Place} (hbefore : first.Before second) :
    first ≠ second := by
  rintro rfl
  cases hbefore with
  | slot hslot => exact Nat.lt_irrefl _ hslot
  | item hitem => exact Nat.lt_irrefl _ hitem

theorem Position.Before.ne {first second : Position} (hbefore : first.Before second) :
    first ≠ second := by
  induction hbefore with
  | nil => exact (List.cons_ne_nil _ _).symm
  | rel hplace => exact fun heq => hplace.ne (List.cons.inj heq).1
  | cons _ ih => exact fun heq => ih (List.cons.inj heq).2

namespace Slot

/-- The children in a slot, each with its number in the list if the slot holds one. -/
def numbered : Slot → List (Option Nat × Node)
  | single _ child => [(none, child)]
  | list _ items => items.zipIdx.filterMap fun (item, number) => item.map (some number, ·)

theorem map_snd_numbered (slot : Slot) : slot.numbered.map Prod.snd = slot.children := by
  cases slot with
  | single field child => rfl
  | list field items =>
      rw [numbered, children, List.map_filterMap]
      conv_rhs => rw [← List.zipIdx_map_fst 0 items, List.filterMap_map]
      congr 1
      funext numbered
      rcases numbered with ⟨_ | child, number⟩ <;> rfl

theorem mem_numbered_iff {slot : Slot} {item : Option Nat} {child : Node} :
    (item, child) ∈ slot.numbered ↔ slot.childAt? item = some child := by
  cases slot with
  | single field other => cases item <;> simp [numbered, childAt?, eq_comm]
  | list field items =>
      cases item with
      | none => simp [numbered, childAt?]
      | some number =>
          simp only [numbered, childAt?, List.mem_filterMap, List.mem_zipIdx_iff_getElem?,
            Option.join_eq_some_iff, Prod.exists]
          constructor
          · rintro ⟨found, index, hfound, heq⟩
            cases found with
            | none => cases heq
            | some other =>
                cases heq
                exact hfound
          · intro hchild
            exact ⟨some child, number, hchild, rfl⟩

theorem pairwise_numbered (slot : Slot) (number : Nat) :
    slot.numbered.Pairwise fun first second =>
      (⟨number, first.1⟩ : Place).Before ⟨number, second.1⟩ := by
  cases slot with
  | single field child => exact List.pairwise_singleton _ _
  | list field items =>
      rw [numbered, List.pairwise_filterMap]
      have hnumbers : items.zipIdx.Pairwise fun first second => first.2 < second.2 := by
        rw [← List.pairwise_map, List.zipIdx_map_snd]
        exact List.pairwise_lt_range'
      refine hnumbers.imp ?_
      rintro ⟨first, i⟩ ⟨second, j⟩ hlt held hheld other hother
      obtain ⟨_, -, rfl⟩ := Option.map_eq_some_iff.mp hheld
      obtain ⟨_, -, rfl⟩ := Option.map_eq_some_iff.mp hother
      exact .item hlt

end Slot

namespace Node

/-- The children of a node, each with its place and the name of its slot. -/
def placed (node : Node) : List (Place × Field × Node) :=
  node.slots.zipIdx.flatMap fun (slot, number) =>
    slot.numbered.map fun (item, child) => (⟨number, item⟩, slot.field, child)

theorem map_snd_placed (node : Node) : node.placed.map Prod.snd = node.children := by
  rw [placed, children, List.map_flatMap]
  conv_rhs => rw [← List.zipIdx_map_fst 0 node.slots, List.flatMap_map]
  congr 1
  funext numbered
  rw [← Slot.map_snd_numbered, List.map_map, List.map_map]
  rfl

theorem mem_placed_iff {node child : Node} {place : Place} {field : Field} :
    (place, field, child) ∈ node.placed ↔
      ∃ slot, node.slots[place.slot]? = some slot ∧ slot.field = field ∧
        slot.childAt? place.item = some child := by
  obtain ⟨number, item⟩ := place
  simp only [placed, List.mem_flatMap, List.mem_zipIdx_iff_getElem?, List.mem_map, Prod.exists,
    Prod.mk.injEq, Place.mk.injEq]
  constructor
  · rintro ⟨slot, _, hslot, _, _, hnumbered, ⟨rfl, rfl⟩, rfl, rfl⟩
    exact ⟨slot, hslot, rfl, Slot.mem_numbered_iff.mp hnumbered⟩
  · rintro ⟨slot, hslot, rfl, hchild⟩
    exact ⟨slot, number, hslot, item, child, Slot.mem_numbered_iff.mpr hchild, ⟨rfl, rfl⟩, rfl, rfl⟩

theorem pairwise_placed (node : Node) :
    node.placed.Pairwise fun first second => first.1.Before second.1 := by
  rw [placed, List.pairwise_flatMap]
  constructor
  · rintro ⟨slot, number⟩ -
    rw [List.pairwise_map]
    exact slot.pairwise_numbered number
  · have hnumbers : node.slots.zipIdx.Pairwise fun first second => first.2 < second.2 := by
      rw [← List.pairwise_map, List.zipIdx_map_snd]
      exact List.pairwise_lt_range'
    refine hnumbers.imp ?_
    rintro ⟨slot, i⟩ ⟨later, j⟩ hlt held hheld other hother
    obtain ⟨_, -, rfl⟩ := List.mem_map.mp hheld
    obtain ⟨_, -, rfl⟩ := List.mem_map.mp hother
    exact .slot hlt

theorem childAt?_of_mem_placed {node child : Node} {place : Place} {field : Field}
    (hplaced : (place, field, child) ∈ node.placed) : node.childAt? place = some child := by
  obtain ⟨slot, hslot, -, hchild⟩ := mem_placed_iff.mp hplaced
  rw [childAt?, hslot, Option.bind_some, hchild]

theorem exists_mem_placed_of_childAt? {node child : Node} {place : Place}
    (hchild : node.childAt? place = some child) : ∃ field, (place, field, child) ∈ node.placed := by
  obtain ⟨slot, hslot, hchild⟩ := Option.bind_eq_some_iff.mp hchild
  exact ⟨slot.field, mem_placed_iff.mpr ⟨slot, hslot, rfl, hchild⟩⟩

end Node

namespace Path

theorem child_mem_children {path : Path} {place : Place} {field : Field} {node : Node}
    (hplaced : (place, field, node) ∈ path.node.placed) :
    path.child field node ∈ path.children := by
  rw [children, ← Node.map_snd_placed]
  exact List.mem_map_of_mem (List.mem_map_of_mem hplaced)

/-- A path and all paths below it, each with the position that leads to it. -/
def located (path : Path) : List (Position × Path) :=
  ([], path) :: path.node.placed.attach.flatMap fun held =>
    (path.child held.1.2.1 held.1.2.2).located.map fun (position, below) =>
      (held.1.1 :: position, below)
termination_by path.node.size
decreasing_by exact size_lt_of_mem_children (child_mem_children held.2)

theorem located_eq (path : Path) :
    path.located = ([], path) :: path.node.placed.flatMap fun (place, field, node) =>
      (path.child field node).located.map fun (position, below) => (place :: position, below) := by
  rw [located]
  conv_rhs => rw [← List.attach_map_subtype_val path.node.placed, List.flatMap_map]

theorem mem_located_cons_iff {path below : Path} {place : Place} {position : Position} :
    (place :: position, below) ∈ path.located ↔
      ∃ field node, (place, field, node) ∈ path.node.placed ∧
        (position, below) ∈ (path.child field node).located := by
  rw [located_eq]
  simp only [List.mem_cons, Prod.mk.injEq, reduceCtorEq, false_and, false_or, List.mem_flatMap,
    List.mem_map, Prod.exists, List.cons.injEq]
  constructor
  · rintro ⟨_, field, node, hplaced, _, _, hbelow, ⟨rfl, rfl⟩, rfl⟩
    exact ⟨field, node, hplaced, hbelow⟩
  · rintro ⟨field, node, hplaced, hbelow⟩
    exact ⟨place, field, node, hplaced, position, below, hbelow, ⟨rfl, rfl⟩, rfl⟩

theorem mem_located_nil_iff {path below : Path} : ([], below) ∈ path.located ↔ below = path := by
  rw [located_eq]
  simp

/-- The located paths are those that a walk enters, in the same order. -/
theorem map_snd_located (path : Path) : path.located.map Prod.snd = path.preorder := by
  induction path using induction_children with
  | path path ih =>
      rw [located_eq, preorder_eq, List.map_cons, List.map_flatMap, children, List.flatMap_map,
        ← Node.map_snd_placed, List.flatMap_map]
      congr 1
      apply List.flatMap_congr
      rintro ⟨place, field, node⟩ hplaced
      rw [List.map_map]
      exact ih _ (child_mem_children hplaced)

theorem pairwise_located (path : Path) :
    path.located.Pairwise fun first second => first.1.Before second.1 := by
  induction path using induction_children with
  | path path ih =>
      rw [located_eq, List.pairwise_cons]
      constructor
      · rintro ⟨position, below⟩ hbelow
        obtain ⟨held, -, hbelow⟩ := List.mem_flatMap.mp hbelow
        obtain ⟨other, -, heq⟩ := List.mem_map.mp hbelow
        cases heq
        exact .nil
      · rw [List.pairwise_flatMap]
        constructor
        · rintro ⟨place, field, node⟩ hplaced
          rw [List.pairwise_map]
          exact (ih _ (child_mem_children hplaced)).imp .cons
        · refine path.node.pairwise_placed.imp ?_
          rintro ⟨place, field, node⟩ ⟨later, _, _⟩ hbefore first hfirst second hsecond
          obtain ⟨_, -, rfl⟩ := List.mem_map.mp hfirst
          obtain ⟨_, -, rfl⟩ := List.mem_map.mp hsecond
          exact .rel hbefore

/-- The positions of the located paths are those at which there is a node. -/
theorem mem_map_fst_located_iff {path : Path} {position : Position} :
    position ∈ path.located.map Prod.fst ↔ (path.node.subtree? position).isSome = true := by
  induction position generalizing path with
  | nil =>
      rw [located_eq]
      simp [Node.subtree?]
  | cons place position ih =>
      rw [Node.subtree?]
      constructor
      · intro hposition
        obtain ⟨⟨_, below⟩, hbelow, rfl⟩ := List.mem_map.mp hposition
        obtain ⟨field, node, hplaced, hbelow⟩ := mem_located_cons_iff.mp hbelow
        rw [Node.childAt?_of_mem_placed hplaced, Option.bind_some]
        exact ih.mp (List.mem_map_of_mem hbelow)
      · intro hsome
        cases hchild : path.node.childAt? place with
        | none =>
            rw [hchild] at hsome
            cases hsome
        | some node =>
            rw [hchild, Option.bind_some] at hsome
            obtain ⟨field, hplaced⟩ := Node.exists_mem_placed_of_childAt? hchild
            have hposition : position ∈ (path.child field node).located.map Prod.fst :=
              ih.mpr hsome
            obtain ⟨⟨_, below⟩, hbelow, rfl⟩ := List.mem_map.mp hposition
            exact List.mem_map.mpr
              ⟨_, mem_located_cons_iff.mpr ⟨field, node, hplaced, hbelow⟩, rfl⟩

/-- What a path below `path` tells about its position, which leads down from the node of `path`. -/
structure LiesBelow (path : Path) (position : Position) (below : Path) : Prop where
  node_eq : path.node.subtree? position = some below.node
  depth_eq : below.depth = path.depth + position.length
  ancestors_eq : below.ancestors.map some =
    ((List.range position.length).reverse.map fun length =>
      path.node.subtree? (position.take length)) ++ path.ancestors.map some
  key_eq : below.key? = if position.isEmpty then path.key? else path.node.fieldAt? position

theorem liesBelow_self (path : Path) : LiesBelow path [] path where
  node_eq := rfl
  depth_eq := rfl
  ancestors_eq := rfl
  key_eq := rfl

theorem LiesBelow.cons {path below : Path} {place : Place} {field : Field} {node : Node}
    {position : Position} (hplaced : (place, field, node) ∈ path.node.placed)
    (hbelow : LiesBelow (path.child field node) position below) :
    LiesBelow path (place :: position) below := by
  have hchild := Node.childAt?_of_mem_placed hplaced
  have hsubtree (rest : Position) :
      path.node.subtree? (place :: rest) = node.subtree? rest := by
    rw [Node.subtree?, hchild, Option.bind_some]
  constructor
  · rw [hsubtree]
    exact hbelow.node_eq
  · rw [hbelow.depth_eq]
    exact Nat.add_right_comm path.depth 1 position.length
  · rw [hbelow.ancestors_eq, List.length_cons, List.range_succ_eq_map, List.reverse_cons,
      List.map_append, List.map_singleton, List.append_assoc, ← List.map_reverse, List.map_map]
    congr 1
    apply List.map_congr_left
    intro length _
    exact (hsubtree _).symm
  · rw [hbelow.key_eq]
    cases position with
    | nil =>
        obtain ⟨slot, hslot, hfield, -⟩ := Node.mem_placed_iff.mp hplaced
        show some field = path.node.slots[place.slot]?.map Slot.field
        rw [hslot, Option.map_some, hfield]
    | cons next rest =>
        show node.fieldAt? (next :: rest) = path.node.fieldAt? (place :: next :: rest)
        rw [Node.fieldAt?, Node.fieldAt?, List.dropLast_cons_of_ne_nil (List.cons_ne_nil _ _),
          List.getLast?_cons_cons, hsubtree]

theorem liesBelow_of_mem_located {path below : Path} {position : Position}
    (hbelow : (position, below) ∈ path.located) : LiesBelow path position below := by
  induction position generalizing path with
  | nil =>
      obtain rfl := mem_located_nil_iff.mp hbelow
      exact liesBelow_self below
  | cons place position ih =>
      obtain ⟨field, node, hplaced, hbelow⟩ := mem_located_cons_iff.mp hbelow
      exact .cons hplaced (ih hbelow)

/-- A path below a root tells about its position in the tree. -/
theorem LiesBelow.liesAt {root : Node} {position : Position} {path : Path}
    (hbelow : LiesBelow (Path.root root) position path) : LiesAt root position path := by
  have hancestors : path.ancestors.map some =
      (List.range position.length).reverse.map fun length =>
        root.subtree? (position.take length) := by
    rw [hbelow.ancestors_eq]
    exact List.append_nil _
  have hkey : path.key? = root.fieldAt? position := by
    rw [hbelow.key_eq]
    cases position <;> rfl
  refine ⟨hbelow.node_eq, ?_, hancestors, hkey, ?_⟩
  · rw [hbelow.depth_eq]
    exact Nat.zero_add _
  · intro type field
    have hkeys : path.keys[0]? = path.key? := by
      rw [keys, key?, List.getElem?_map, List.head?_eq_getElem?]
    have hparent : path.ancestors[0]?.map some =
        ((List.range position.length).reverse.map fun length =>
          root.subtree? (position.take length))[0]? := by
      rw [← hancestors, List.getElem?_map]
    rw [isIn_iff_ancestors, hkeys, hkey]
    cases position with
    | nil =>
        have hnone : root.fieldAt? [] = none := rfl
        simp [hnone]
    | cons place rest =>
        have hdropLast : (place :: rest).dropLast = (place :: rest).take rest.length := by
          rw [List.dropLast_eq_take, List.length_cons, Nat.add_sub_cancel]
        rw [List.length_cons, List.range_succ, List.reverse_append, List.reverse_singleton,
          List.singleton_append, List.map_cons, List.getElem?_cons_zero, ← hdropLast] at hparent
        obtain ⟨parent, hfound, heq⟩ := Option.map_eq_some_iff.mp hparent
        rw [hfound, ← heq]
        simp

end Path

namespace Node

/-- A walk enters a tree position by position. There is a list of positions, each with a path, such
that a walk enters these paths in this order and nothing else; the positions are those that lead to
a node, each once and in lexicographic order; and each path tells what stands at its position and on
the way there. -/
theorem traverse_positions (root : Node) :
    ∃ entered : List (Position × Path),
      (∀ (σ : Type) (enter : σ → Path → σ) (state : σ),
        root.traverse enter state = (entered.map Prod.snd).foldl enter state) ∧
      (∀ position, position ∈ entered.map Prod.fst ↔ (root.subtree? position).isSome = true) ∧
      (entered.map Prod.fst).Nodup ∧
      (entered.map Prod.fst).Pairwise Position.Before ∧
      ∀ item ∈ entered, Path.LiesAt root item.1 item.2 := by
  have hordered : ((Path.root root).located.map Prod.fst).Pairwise Position.Before :=
    List.pairwise_map.mpr (Path.root root).pairwise_located
  refine ⟨(Path.root root).located, ?_, ?_, ?_, hordered, ?_⟩
  · intro σ enter state
    rw [traverse_eq_foldl, paths_eq_preorder, Path.map_snd_located]
  · intro position
    exact Path.mem_map_fst_located_iff
  · exact hordered.imp Position.Before.ne
  · intro item hitem
    exact (Path.liesBelow_of_mem_located hitem).liesAt

end Node

end NameRoles
