import NameRoles.Document.Load

/-! The tree of a document, given by recursion: it is the header of the document filled with the
trees of its children. Loading takes serialized nodes off a list of work instead and puts their
headers together afterwards. Both go through the serialized nodes of the document in one order, each
node before those below it, and loading ends with the first node that cannot be read. -/

namespace NameRoles

namespace Json

/-- The type of a serialized node. -/
def nodeType (value : Json) : NodeType :=
  NodeType.ofText (value.typeText?.getD "")

theorem size_le_totalSize {value : Json} {values : List Json} (hmem : value ∈ values) :
    value.size ≤ totalSize values := by
  induction hmem with
  | head values =>
      rw [totalSize_cons]
      omega
  | tail other _ ih =>
      rw [totalSize_cons]
      omega

theorem size_lt_of_mem_nodeChildren {type : NodeType} {value child : Json}
    (hchild : child ∈ value.nodeChildren type) : child.size < value.size := by
  have := size_le_totalSize hchild
  have := totalSize_nodeChildren_lt type value
  omega

/-- Induction over serialized nodes, with the hypothesis for every serialized child. -/
@[elab_as_elim]
theorem induction_nodeChildren {motive : Json → Prop}
    (node : ∀ value, (∀ child ∈ value.nodeChildren value.nodeType, motive child) → motive value)
    (value : Json) : motive value := by
  induction hsize : value.size using Nat.strongRecOn generalizing value with
  | ind size ih =>
      apply node
      intro child hchild
      exact ih child.size (hsize ▸ size_lt_of_mem_nodeChildren hchild) child rfl

/-- A serialized node that has `depth` ancestors and all serialized nodes below it, each with the
number of its ancestors. -/
def serialized (depth : Nat) (value : Json) : List (Json × Nat) :=
  (value, depth) :: (value.nodeChildren value.nodeType).attach.flatMap fun child =>
    serialized (depth + 1) child.1
termination_by value.size
decreasing_by exact size_lt_of_mem_nodeChildren child.2

theorem serialized_eq (depth : Nat) (value : Json) :
    value.serialized depth =
      (value, depth) :: (value.nodeChildren value.nodeType).flatMap (serialized (depth + 1)) := by
  rw [serialized]
  simp

/-- The header of a serialized node. -/
def nodeHeader (value : Json) : Header :=
  value.header value.nodeType

theorem nodeHeader_type (value : Json) : value.nodeHeader.type = value.nodeType :=
  rfl

/-- The tree of a serialized node: its header, filled with the trees of its children and brought
into the order of visiting. -/
def tree (value : Json) : Node :=
  Load.arrange (value.nodeHeader.fill
    ((value.nodeChildren value.nodeType).attach.map fun child => tree child.1)).1
termination_by value.size
decreasing_by exact size_lt_of_mem_nodeChildren child.2

end Json

namespace Load

/-- What reading the header of a serialized node takes, and what it yields. -/
theorem readHeader_eq_ok {options : LoadOptions} {depth : Nat} {value : Json} {header : Header}
    (hread : readHeader options depth value = .ok header) :
    depth < options.maxDepth ∧ value.isNode = true ∧
      (options.unknownTypes = .reject → ∃ construct, value.nodeType = .known construct) ∧
      header = value.nodeHeader := by
  unfold readHeader at hread
  split at hread
  · split at hread
    · cases hread
    · rename_i members hdepth
      split at hread
      · cases hread
      · rename_i text htext
        have htype : (Json.object members).nodeType = NodeType.ofText text := by
          rw [Json.nodeType, htext]
          rfl
        have hnode : (Json.object members).isNode = true := by
          rw [Json.isNode, htext]
          rfl
        split at hread
        · cases hread
        · rename_i hknown
          cases hread
          refine ⟨by omega, hnode, fun hreject => ?_, by rw [Json.nodeHeader, htype]⟩
          rw [htype]
          cases hofText : NodeType.ofText text with
          | known construct => exact ⟨construct, rfl⟩
          | other name => exact (hknown name hofText hreject).elim
  · cases hread

/-- Reads the given serialized nodes, each with the number of its ancestors, up to the first that
cannot be read. -/
def readEach (options : LoadOptions) (events : Array Event) (headers : Array Header) :
    List (Json × Nat) → Array Event × Except (Located LoadFault) (Array Header)
  | [] => (events, .ok headers)
  | (value, depth) :: nodes =>
      match readHeader options depth value with
      | .error error => (events, .error error)
      | .ok header =>
          readEach options (events ++ headerEvents header) (headers.push header) nodes

/-- The list of work is gone through as the list of all serialized nodes is. -/
theorem readHeaders_eq_readEach (options : LoadOptions) (events : Array Event)
    (headers : Array Header) (work : List (Json × Nat)) :
    readHeaders options events headers work =
      readEach options events headers (work.flatMap fun item => item.1.serialized item.2) := by
  fun_induction readHeaders options events headers work with
  | case1 => rfl
  | case2 events headers value depth work error hread =>
      rw [List.flatMap_cons, Json.serialized_eq, List.cons_append, readEach, hread]
  | case3 events headers value depth work header hread ih =>
      obtain ⟨-, -, -, hheader⟩ := readHeader_eq_ok hread
      rw [ih, List.flatMap_cons, Json.serialized_eq, List.cons_append, readEach, hread]
      simp only [List.flatMap_append, List.flatMap_map, hheader, Json.nodeHeader_type]

theorem readEach_eq_ok {options : LoadOptions} {events reported : Array Event}
    {headers found : Array Header} {nodes : List (Json × Nat)}
    (hread : readEach options events headers nodes = (reported, .ok found)) :
    (∀ item ∈ nodes, item.1.isNode = true) ∧
      found.toList = headers.toList ++ nodes.map fun item => item.1.nodeHeader := by
  induction nodes generalizing events headers with
  | nil =>
      cases hread
      simp
  | cons item nodes ih =>
      obtain ⟨value, depth⟩ := item
      rw [readEach] at hread
      cases hheader : readHeader options depth value with
      | error error =>
          rw [hheader] at hread
          cases hread
      | ok header =>
          rw [hheader] at hread
          obtain ⟨hnodes, hfound⟩ := ih hread
          obtain ⟨-, hnode, -, rfl⟩ := readHeader_eq_ok hheader
          refine ⟨List.forall_mem_cons.mpr ⟨hnode, hnodes⟩, ?_⟩
          rw [hfound, Array.toList_push, List.map_cons, List.append_assoc]
          rfl

end Load

namespace Json

/-- A slot for what a member holds, where `build` gives the tree of a child. -/
def Held.slot (build : Json → Node) (field : Field) : Held → Slot
  | .single child => .single field (build child)
  | .list items =>
      .list field (items.map fun item => if item.isNull then none else some (build item))

theorem Held.opening_slot (build : Json → Node) (field : Field) (held : Held) :
    (held.slot build field).opening = held.opening field := by
  cases held with
  | single child => rfl
  | list items =>
      simp only [slot, Slot.opening, opening, List.map_map, Opening.list.injEq, true_and]
      apply List.map_congr_left
      intro item _
      cases hnull : item.isNull <;> simp [hnull]

theorem Held.children_slot (build : Json → Node) (field : Field) (held : Held) :
    (held.slot build field).children = held.children.map build := by
  cases held with
  | single child => rfl
  | list items =>
      simp only [slot, Slot.children, children]
      induction items with
      | nil => rfl
      | cons item items ih =>
          cases hnull : item.isNull with
          | false =>
              rw [List.map_cons, hnull, if_neg Bool.false_ne_true,
                List.filterMap_cons_some (id_eq _), ih,
                List.filter_cons_of_pos (by rw [hnull]; rfl), List.map_cons]
          | true =>
              rw [List.map_cons, hnull, if_pos rfl, List.filterMap_cons_none (id_eq _), ih,
                List.filter_cons_of_neg (by rw [hnull]; exact Bool.false_ne_true)]

/-- A serialized node as a node, where `build` gives the trees of its children. -/
def nodeWith (build : Json → Node) (value : Json) : Node :=
  ⟨value.span, value.nodeType, value.nameText? value.nodeType, value.computedFlag,
    (value.heldMembers value.nodeType).map fun (field, held) => held.slot build field⟩

theorem header_nodeWith (build : Json → Node) (value : Json) :
    (value.nodeWith build).header = value.nodeHeader := by
  simp only [nodeWith, Node.header, nodeHeader, header, List.map_map]
  congr 1
  apply List.map_congr_left
  intro member _
  exact Held.opening_slot build member.1 member.2

theorem children_nodeWith (build : Json → Node) (value : Json) :
    (value.nodeWith build).children.map Prod.snd =
      (value.nodeChildren value.nodeType).map build := by
  rw [Node.map_snd_children, nodeWith, nodeChildren, List.map_flatMap, List.flatMap_map]
  congr 1
  funext member
  exact Held.children_slot build member.1 member.2

/-- The header of a serialized node takes the trees of the children of the node. -/
theorem fill_nodeHeader (build : Json → Node) (value : Json) (rest : List Node) :
    value.nodeHeader.fill ((value.nodeChildren value.nodeType).map build ++ rest) =
      (value.nodeWith build, rest) := by
  rw [← header_nodeWith build, ← children_nodeWith, Node.fill_header]

theorem tree_eq (value : Json) : value.tree = Load.arrange (value.nodeWith tree) := by
  have hfill := fill_nodeHeader tree value []
  rw [List.append_nil] at hfill
  rw [tree, List.attach_map_val, hfill]

theorem type_tree (value : Json) : value.tree.type = value.nodeType := by
  rw [tree_eq]
  rfl

end Json

namespace Header

theorem assemble_flatMap_serialized {depth : Nat} {values : List Json} {headers : List Header}
    (heach : ∀ value ∈ values, ∀ rest,
      assemble Load.arrange ((value.serialized depth).map (·.1.nodeHeader) ++ rest) =
        value.tree :: assemble Load.arrange rest) :
    assemble Load.arrange
        ((values.flatMap (Json.serialized depth)).map (·.1.nodeHeader) ++ headers) =
      values.map Json.tree ++ assemble Load.arrange headers := by
  induction values with
  | nil => rfl
  | cons value values ih =>
      rw [List.flatMap_cons, List.map_append, List.append_assoc, heach value List.mem_cons_self,
        ih fun other hother => heach other (List.mem_cons_of_mem _ hother)]
      rfl

/-- The headers of a serialized node and of all nodes below it are put together to its tree,
whatever headers follow. -/
theorem assemble_serialized (depth : Nat) (value : Json) (headers : List Header) :
    assemble Load.arrange ((value.serialized depth).map (·.1.nodeHeader) ++ headers) =
      value.tree :: assemble Load.arrange headers := by
  induction value using Json.induction_nodeChildren generalizing depth headers with
  | node value ih =>
      have heach : ∀ child ∈ value.nodeChildren value.nodeType, ∀ rest,
          assemble Load.arrange ((child.serialized (depth + 1)).map (·.1.nodeHeader) ++ rest) =
            child.tree :: assemble Load.arrange rest := by
        intro child hchild rest
        exact ih child hchild (depth + 1) rest
      rw [Json.serialized_eq, List.map_cons, List.cons_append, assemble_cons,
        assemble_flatMap_serialized heach, Json.fill_nodeHeader, Json.tree_eq]

end Header

/-- A document that loads is a serialized node, all that is loaded from it are serialized nodes, and
the loaded tree is its tree. -/
theorem Node.load_eq_ok {options : LoadOptions} {document : Json} {root : Node}
    (hload : (Node.load options document).result = .ok root) :
    (∀ item ∈ document.serialized 0, item.1.isNode = true) ∧ root = document.tree := by
  rw [load, Load.readHeaders_eq_readEach, List.flatMap_singleton] at hload
  cases hread : Load.readEach options #[] #[] (document.serialized 0) with
  | mk events outcome =>
      cases outcome with
      | error error =>
          rw [hread] at hload
          cases hload
      | ok headers =>
          obtain ⟨hnodes, hheaders⟩ := Load.readEach_eq_ok hread
          have htrees := Header.assemble_serialized 0 document []
          rw [List.append_nil] at htrees
          rw [hread] at hload
          simp only [Except.bind, Load.assembleTree, hheaders, List.nil_append, htrees] at hload
          exact ⟨hnodes, (Except.ok.inj hload).symm⟩

end NameRoles
