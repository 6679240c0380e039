import NameRoles.Proofs.KeyPaths

/-! The node objects of a document: its root and all that is reached from there through members that
hold children, each object before those below it, members in the order in which they are written and
items in the order of their list. These are the serialized nodes that loading goes through. All of
them are objects that name their type, and none is reached at a depth without one that stands before
it at each smaller depth. They are also what stands at the end of the paths of keys. If no object of
the document has two members with the same key, neither has any of them. -/

namespace NameRoles

namespace Json

mutual

/-- The node objects in a value that `depth` objects enclose: those from an object downwards, those
of the items of a list, and none in any other value. -/
def nodeObjects (depth : Nat) : Json → List (Json × Nat)
  | object members => (object members, depth) :: memberObjects (object members) depth members
  | array items => itemObjects depth items
  | _ => []

def itemObjects (depth : Nat) : List Json → List (Json × Nat)
  | [] => []
  | item :: items => item.nodeObjects depth ++ itemObjects depth items

/-- The node objects in those of the given members of `node` that hold children. -/
def memberObjects (node : Json) (depth : Nat) : List (String × Json) → List (Json × Nat)
  | [] => []
  | (key, value) :: members =>
      (if node.BearsChildren key value then value.nodeObjects (depth + 1) else []) ++
        memberObjects node depth members

end

/-- The objects in a value that is an object or a list of objects and nulls. -/
def heldNodes : Json → List Json
  | array items => items.filter fun item => !item.isNull
  | value => [value]

/-- The serialized children of a node stand in the members that hold children. -/
theorem nodeChildren_eq (value : Json) :
    value.nodeChildren value.nodeType =
      (value.members.filter fun member => value.BearsChildren member.1 member.2).flatMap
        fun member => member.2.heldNodes := by
  have hchildren : ∀ found : Json, found.toHeld.children = found.heldNodes := by
    intro found
    cases found <;> rfl
  rw [nodeChildren, heldMembers_eq, List.flatMap_map]
  simp only [hchildren]

theorem hasType_of_mem_heldNodes {node value child : Json} {key : String}
    (hbears : node.BearsChildren key value) (hchild : child ∈ value.heldNodes) :
    child.HasType := by
  obtain ⟨-, ⟨htype, -⟩ | ⟨items, rfl, hitems⟩⟩ := hbears
  · cases value with
    | array items => exact (not_hasType_array items htype).elim
    | _ =>
        obtain rfl := List.mem_singleton.mp hchild
        exact htype
  · obtain ⟨hitem, hnull⟩ := List.mem_filter.mp hchild
    refine (hitems child hitem).resolve_left ?_
    rintro rfl
    cases hnull

theorem hasType_of_mem_nodeChildren {value child : Json}
    (hchild : child ∈ value.nodeChildren value.nodeType) : child.HasType := by
  rw [nodeChildren_eq, List.mem_flatMap] at hchild
  obtain ⟨member, hmember, hchild⟩ := hchild
  have hbears := of_decide_eq_true (List.mem_filter.mp hmember).2
  exact hasType_of_mem_heldNodes hbears hchild

/-- All that is serialized below a serialized node are serialized nodes. -/
theorem hasType_of_mem_serialized {depth : Nat} {value : Json} {item : Json × Nat}
    (htype : value.HasType) (hitem : item ∈ value.serialized depth) : item.1.HasType := by
  induction value using induction_nodeChildren generalizing depth with
  | node value ih =>
      rw [serialized_eq, List.mem_cons] at hitem
      rcases hitem with rfl | hbelow
      · exact htype
      · obtain ⟨child, hchild, hitem⟩ := List.mem_flatMap.mp hbelow
        exact ih child hchild (hasType_of_mem_nodeChildren hchild) hitem

theorem WellKeyed.of_mem_members {node : Json} {member : String × Json} (hkeyed : node.WellKeyed)
    (hmember : member ∈ node.members) : member.2.WellKeyed := by
  cases node with
  | object members => exact (wellKeyed_object_iff.mp hkeyed).2 member hmember
  | _ => cases hmember

theorem lookup_of_mem {members : List (String × Json)} {member : String × Json}
    (hkeys : (members.map Prod.fst).Nodup) (hmember : member ∈ members) :
    members.lookup member.1 = some member.2 := by
  induction members with
  | nil => cases hmember
  | cons first members ih =>
      obtain ⟨hfirst, hkeys⟩ := List.nodup_cons.mp hkeys
      rcases List.mem_cons.mp hmember with rfl | htail
      · exact List.lookup_cons_self
      · have hne : (member.1 == first.1) = false := by
          rw [beq_eq_false_iff_ne]
          intro heq
          exact hfirst (List.mem_map.mpr ⟨member, htail, heq⟩)
        rw [List.lookup_cons, hne]
        exact ih hkeys htail

/-- Where keys are distinct, a member is found under its key. -/
theorem WellKeyed.member?_eq {node : Json} {member : String × Json} (hkeyed : node.WellKeyed)
    (hmember : member ∈ node.members) : node.member? member.1 = some member.2 := by
  cases node with
  | object members => exact lookup_of_mem (wellKeyed_object_iff.mp hkeyed).1 hmember
  | _ => cases hmember

theorem WellKeyed.of_mem_nodeChildren {node child : Json} (hkeyed : node.WellKeyed)
    (hchild : child ∈ node.nodeChildren node.nodeType) : child.WellKeyed := by
  rw [nodeChildren_eq, List.mem_flatMap] at hchild
  obtain ⟨member, hmember, hchild⟩ := hchild
  have hvalue := hkeyed.of_mem_members (List.mem_filter.mp hmember).1
  cases hfound : member.2 with
  | array items =>
      rw [hfound] at hvalue hchild
      exact wellKeyed_array_iff.mp hvalue child (List.mem_filter.mp hchild).1
  | _ =>
      rw [hfound] at hvalue hchild
      obtain rfl := List.mem_singleton.mp hchild
      exact hvalue

theorem WellKeyed.of_mem_serialized {depth : Nat} {node : Json} {item : Json × Nat}
    (hkeyed : node.WellKeyed) (hitem : item ∈ node.serialized depth) : item.1.WellKeyed := by
  induction node using induction_nodeChildren generalizing depth with
  | node node ih =>
      rw [serialized_eq, List.mem_cons] at hitem
      rcases hitem with rfl | hbelow
      · exact hkeyed
      · obtain ⟨child, hchild, hitem⟩ := List.mem_flatMap.mp hbelow
        exact ih child hchild (hkeyed.of_mem_nodeChildren hchild) hitem

theorem itemObjects_eq (depth : Nat) (items : List Json) :
    itemObjects depth items =
      (items.filter fun item => !item.isNull).flatMap (nodeObjects depth) := by
  induction items with
  | nil => rfl
  | cons item items ih =>
      rw [itemObjects, ih]
      cases hnull : item.isNull with
      | false => rw [List.filter_cons_of_pos (by simp [hnull]), List.flatMap_cons]
      | true =>
          rw [List.filter_cons_of_neg (by simp [hnull]), isNull_iff.mp hnull]
          rfl

theorem nodeObjects_eq_heldNodes (depth : Nat) (value : Json) :
    value.nodeObjects depth = value.heldNodes.flatMap (nodeObjects depth) := by
  cases value with
  | array items => rw [nodeObjects, itemObjects_eq, heldNodes]
  | _ => exact (List.flatMap_singleton _ _).symm

theorem memberObjects_eq (node : Json) (depth : Nat) (members : List (String × Json)) :
    memberObjects node depth members =
      ((members.filter fun member => node.BearsChildren member.1 member.2).flatMap
        fun member => member.2.heldNodes).flatMap (nodeObjects (depth + 1)) := by
  induction members with
  | nil => rfl
  | cons member members ih =>
      obtain ⟨key, value⟩ := member
      rw [memberObjects, ih]
      by_cases hbears : node.BearsChildren key value
      · rw [if_pos hbears, List.filter_cons_of_pos (by simpa using hbears), List.flatMap_cons,
          List.flatMap_append, nodeObjects_eq_heldNodes]
      · rw [if_neg hbears, List.filter_cons_of_neg (by simpa using hbears), List.nil_append]

theorem exists_object_of_hasType {value : Json} (htype : value.HasType) :
    ∃ members, value = .object members := by
  obtain ⟨text, htext⟩ := htype
  cases value with
  | object members => exact ⟨members, rfl⟩
  | _ => cases htext

/-- The node objects of a serialized node are what loading goes through. -/
theorem nodeObjects_eq_serialized {value : Json} (depth : Nat) (htype : value.HasType) :
    value.nodeObjects depth = value.serialized depth := by
  induction value using induction_nodeChildren generalizing depth with
  | node value ih =>
      obtain ⟨members, rfl⟩ := exists_object_of_hasType htype
      have hbelow : memberObjects (.object members) depth members =
          ((Json.object members).nodeChildren (Json.object members).nodeType).flatMap
            (nodeObjects (depth + 1)) := by
        rw [memberObjects_eq, nodeChildren_eq]
        rfl
      rw [nodeObjects, hbelow, serialized_eq, List.flatMap_def, List.flatMap_def]
      congr 2
      apply List.map_congr_left
      intro child hchild
      exact ih child hchild (depth + 1) (hasType_of_mem_nodeChildren hchild)

/-- What a value holds is what is found below it, at some place. -/
theorem mem_heldNodes_iff {value child : Json} :
    child ∈ value.heldNodes ↔ ∃ place?, value.childAt? place? = some child := by
  constructor
  · intro hchild
    cases value with
    | array items =>
        obtain ⟨hitem, hnull⟩ := List.mem_filter.mp hchild
        obtain ⟨place, hplace⟩ := List.mem_iff_getElem?.mp hitem
        exact ⟨some place, Option.filter_eq_some_iff.mpr ⟨hplace, hnull⟩⟩
    | _ =>
        obtain rfl := List.mem_singleton.mp hchild
        exact ⟨none, rfl⟩
  · rintro ⟨place?, hplace⟩
    rcases childAt?_cases hplace with ⟨rfl, harray⟩ | ⟨items, rfl, hitem, hnull⟩
    · cases child with
      | array items => exact (harray items rfl).elim
      | _ => exact List.mem_singleton.mpr rfl
    · refine List.mem_filter.mpr ⟨hitem, ?_⟩
      simpa [← isNull_iff] using hnull

/-- The serialized children of a node are what stands one key below it. -/
theorem mem_nodeChildren_iff {node child : Json} :
    child ∈ node.nodeChildren node.nodeType ↔
      ∃ key place?, ∃ value ∈ node.childMembers key, value.childAt? place? = some child := by
  rw [nodeChildren_eq, List.mem_flatMap]
  constructor
  · rintro ⟨⟨key, value⟩, hmember, hchild⟩
    obtain ⟨hmember, hbears⟩ := List.mem_filter.mp hmember
    obtain ⟨place?, hplace⟩ := mem_heldNodes_iff.mp hchild
    refine ⟨key, place?, value, List.mem_map.mpr ⟨(key, value), ?_, rfl⟩, hplace⟩
    exact List.mem_filter.mpr ⟨hmember, by simpa using hbears⟩
  · rintro ⟨key, place?, value, hvalue, hplace⟩
    obtain ⟨member, hmember, rfl⟩ := List.mem_map.mp hvalue
    obtain ⟨hmember, hbears⟩ := List.mem_filter.mp hmember
    refine ⟨member, List.mem_filter.mpr ⟨hmember, ?_⟩, mem_heldNodes_iff.mpr ⟨place?, hplace⟩⟩
    exact decide_eq_true (of_decide_eq_true hbears).2

theorem mem_nodesAt_cons {key : String} {place? : Option Nat} {path : KeyPath}
    {value found : Json} :
    found ∈ value.nodesAt ((key, place?) :: path) ↔
      ∃ child, (∃ member ∈ value.childMembers key, member.childAt? place? = some child) ∧
        found ∈ child.nodesAt path := by
  rw [nodesAt, List.mem_flatMap]
  simp only [List.mem_filterMap]

/-- Every serialized node stands at the end of a path of keys. -/
theorem exists_mem_nodesAt {depth : Nat} {value : Json} {item : Json × Nat}
    (hitem : item ∈ value.serialized depth) : ∃ path, item.1 ∈ value.nodesAt path := by
  induction value using induction_nodeChildren generalizing depth with
  | node value ih =>
      rw [serialized_eq, List.mem_cons] at hitem
      rcases hitem with rfl | hbelow
      · exact ⟨[], List.mem_singleton.mpr rfl⟩
      · obtain ⟨child, hchild, hitem⟩ := List.mem_flatMap.mp hbelow
        obtain ⟨path, hpath⟩ := ih child hchild hitem
        obtain ⟨key, place?, hplace⟩ := mem_nodeChildren_iff.mp hchild
        exact ⟨(key, place?) :: path, mem_nodesAt_cons.mpr ⟨child, hplace, hpath⟩⟩

/-- All that stands at the end of paths of keys are serialized nodes. -/
theorem exists_mem_serialized {path : KeyPath} {value found : Json} (depth : Nat)
    (hfound : found ∈ value.nodesAt path) :
    ∃ below, (found, below) ∈ value.serialized depth := by
  induction path generalizing value depth with
  | nil =>
      obtain rfl := List.mem_singleton.mp hfound
      rw [serialized_eq]
      exact ⟨depth, List.mem_cons_self⟩
  | cons step path ih =>
      obtain ⟨key, place?⟩ := step
      obtain ⟨child, hplace, hfound⟩ := mem_nodesAt_cons.mp hfound
      obtain ⟨below, hbelow⟩ := ih (depth + 1) hfound
      have hchild := mem_nodeChildren_iff.mpr ⟨key, place?, hplace⟩
      rw [serialized_eq]
      exact ⟨below, List.mem_cons_of_mem _ (List.mem_flatMap.mpr ⟨child, hchild, hbelow⟩)⟩

/-- What relates serialized nodes to the nodes at the same place of the tree relates each of them to
its own tree. -/
theorem forall₂_nodesAt_tree_iff (depth : Nat) {value : Json} {relates : Json → Node → Prop} :
    (∀ path, List.Forall₂ relates (value.nodesAt path) (value.tree.nodesAt path)) ↔
      ∀ item ∈ value.serialized depth, relates item.1 item.1.tree := by
  simp only [nodesAt_tree, List.forall₂_map_right_iff, List.forall₂_same]
  constructor
  · intro hpaths item hitem
    obtain ⟨path, hpath⟩ := exists_mem_nodesAt hitem
    exact hpaths path item.1 hpath
  · intro hitems path found hfound
    obtain ⟨below, hbelow⟩ := exists_mem_serialized depth hfound
    exact hitems _ hbelow

/-- What stands in a concatenation before the first item that fails stands in one of the parts
before the first that fails there. -/
theorem exists_mem_takeWhile_of_flatMap {α β : Type} {keep : β → Bool} {part : α → List β}
    {sources : List α} {item : β} (hitem : item ∈ (sources.flatMap part).takeWhile keep) :
    ∃ source ∈ sources, item ∈ (part source).takeWhile keep := by
  induction sources with
  | nil => cases hitem
  | cons source sources ih =>
      rw [List.flatMap_cons, List.takeWhile_append] at hitem
      split at hitem
      · rename_i hwhole
        have hprefix : (part source).takeWhile keep = part source :=
          (List.takeWhile_prefix keep).eq_of_length hwhole
        rcases List.mem_append.mp hitem with hfirst | hrest
        · exact ⟨source, List.mem_cons_self, hprefix.symm ▸ hfirst⟩
        · obtain ⟨other, hother, hmem⟩ := ih hrest
          exact ⟨other, List.mem_cons_of_mem _ hother, hmem⟩
      · exact ⟨source, List.mem_cons_self, hitem⟩

/-- Among the nodes before the first one at a depth that is not above the root, all stand higher. -/
theorem depth_lt_of_mem_takeWhile {limit depth : Nat} {value : Json} {item : Json × Nat}
    (hdepth : depth ≤ limit)
    (hitem : item ∈ (value.serialized depth).takeWhile fun item => item.2 ≠ limit) :
    item.2 < limit := by
  induction value using induction_nodeChildren generalizing depth with
  | node value ih =>
      rw [serialized_eq] at hitem
      by_cases hroot : depth = limit
      · rw [List.takeWhile_cons_of_neg (by simpa using hroot)] at hitem
        cases hitem
      · have hlt : depth < limit := by omega
        rw [List.takeWhile_cons_of_pos (by simpa using hroot), List.mem_cons] at hitem
        rcases hitem with rfl | hbelow
        · exact hlt
        · obtain ⟨child, hchild, hitem⟩ := exists_mem_takeWhile_of_flatMap hbelow
          exact ih child hchild hlt hitem

/-- As long as no node of a document has stood at a depth, all nodes stand higher. -/
theorem depth_lt_of_serialized_eq {limit : Nat} {document : Json}
    {before after : List (Json × Nat)} {item : Json × Nat}
    (heq : document.serialized 0 = before ++ after)
    (hbefore : ∀ earlier ∈ before, earlier.2 ≠ limit) (hitem : item ∈ before) :
    item.2 < limit := by
  have hmem : item ∈ (document.serialized 0).takeWhile fun item => item.2 ≠ limit := by
    rw [heq, List.takeWhile_append_of_pos (by simpa using hbefore)]
    exact List.mem_append_left _ hitem
  exact depth_lt_of_mem_takeWhile (Nat.zero_le limit) hmem

end Json

end NameRoles
