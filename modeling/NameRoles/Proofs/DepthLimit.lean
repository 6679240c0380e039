import NameRoles.Proofs.Faults
import NameRoles.Proofs.LoadedNodes
import NameRoles.Proofs.Walk

/-! The limit on the depth of a tree. Loading counts the ancestors of a serialized node on the way
down, and the height of a tree is counted from its leaves up; the deepest serialized nodes of a
document stand exactly as deep as the height of its tree leaves room for. Whether a document keeps
to a limit can therefore be told from its tree, and no call of the loader goes deeper than the
limit. -/

namespace NameRoles

namespace Node

theorem exists_height_eq_heightItems {items : List (Option Node)} (hpos : 0 < heightItems items) :
    ∃ child, some child ∈ items ∧ child.height = heightItems items := by
  induction items with
  | nil => cases hpos
  | cons item items ih =>
      cases item with
      | none =>
          rw [heightItems] at hpos ⊢
          obtain ⟨child, hmem, hheight⟩ := ih hpos
          exact ⟨child, List.mem_cons_of_mem _ hmem, hheight⟩
      | some other =>
          rw [heightItems]
          by_cases hle : heightItems items ≤ other.height
          · exact ⟨other, List.mem_cons_self, (Nat.max_eq_left hle).symm⟩
          · obtain ⟨child, hmem, hheight⟩ := ih (by omega)
            exact ⟨child, List.mem_cons_of_mem _ hmem, by omega⟩

theorem exists_height_eq_heightSlots {slots : List Slot} (hpos : 0 < heightSlots slots) :
    ∃ child ∈ slots.flatMap Slot.children, child.height = heightSlots slots := by
  induction slots with
  | nil => cases hpos
  | cons slot slots ih =>
      have hlater (hlt : 0 < heightSlots slots) :
          ∃ child ∈ (slot :: slots).flatMap Slot.children, child.height = heightSlots slots := by
        obtain ⟨child, hmem, hheight⟩ := ih hlt
        exact ⟨child, List.mem_append_right _ hmem, hheight⟩
      cases slot with
      | single field other =>
          rw [heightSlots] at hpos ⊢
          by_cases hle : heightSlots slots ≤ other.height
          · exact ⟨other, List.mem_cons_self, (Nat.max_eq_left hle).symm⟩
          · rw [Nat.max_eq_right (by omega)]
            exact hlater (by omega)
      | list field items =>
          rw [heightSlots] at hpos ⊢
          by_cases hle : heightSlots slots ≤ heightItems items
          · rw [Nat.max_eq_left hle]
            have hitems : 0 < heightItems items := by omega
            obtain ⟨child, hmem, hheight⟩ := exists_height_eq_heightItems hitems
            have hchild : child ∈ (Slot.list field items).children := by
              simpa [Slot.children] using hmem
            exact ⟨child, List.mem_append_left _ hchild, hheight⟩
          · rw [Nat.max_eq_right (by omega)]
            exact hlater (by omega)

/-- A tree is a single node, or one node higher than the highest of its children. -/
theorem height_eq_one_or_exists_child (node : Node) :
    node.height = 1 ∨
      ∃ child ∈ node.slots.flatMap Slot.children, node.height = child.height + 1 := by
  obtain ⟨span, type, name, computed, slots⟩ := node
  rw [height]
  by_cases hpos : 0 < heightSlots slots
  · obtain ⟨child, hmem, hheight⟩ := exists_height_eq_heightSlots hpos
    exact Or.inr ⟨child, hmem, by rw [hheight]⟩
  · exact Or.inl (by omega)

end Node

namespace Json

/-- Among the serialized nodes of a document there is one that stands as deep as the height of the
tree allows. -/
theorem exists_deepest (depth : Nat) (value : Json) :
    ∃ item ∈ value.serialized depth, item.2 + 1 = depth + value.tree.height := by
  induction value using induction_nodeChildren generalizing depth with
  | node value ih =>
      rw [serialized_eq]
      rcases value.tree.height_eq_one_or_exists_child with hleaf | ⟨child, hmem, hheight⟩
      · exact ⟨(value, depth), List.mem_cons_self, by rw [hleaf]⟩
      · obtain ⟨held, hheld, rfl⟩ :=
          List.mem_map.mp ((children_tree_perm value).mem_iff.mp hmem)
        obtain ⟨item, hitem, hdepth⟩ := ih held hheld (depth + 1)
        refine ⟨item, List.mem_cons_of_mem _ (List.mem_flatMap.mpr ⟨held, hheld, hitem⟩), ?_⟩
        omega

end Json

namespace Path

/-- The deeper a walk goes, the lower the trees are that it meets. -/
theorem depth_add_height_le_of_mem_preorder {path below : Path} (hbelow : below ∈ path.preorder) :
    below.depth + below.node.height ≤ path.depth + path.node.height := by
  induction path using induction_children with
  | path path ih =>
      rw [preorder_eq, List.mem_cons] at hbelow
      rcases hbelow with rfl | hbelow
      · exact Nat.le_refl _
      · obtain ⟨child, hchild, hmem⟩ := List.mem_flatMap.mp hbelow
        have hle := ih child hchild hmem
        obtain ⟨⟨field, node⟩, hheld, rfl⟩ := List.mem_map.mp hchild
        have hnode : node ∈ path.node.slots.flatMap Slot.children := by
          rw [← Node.map_snd_children]
          exact List.mem_map_of_mem hheld
        calc below.depth + below.node.height
            ≤ (path.child field node).depth + (path.child field node).node.height := hle
          _ = path.depth + (node.height + 1) := Nat.add_right_comm path.depth 1 node.height
          _ ≤ path.depth + path.node.height :=
              Nat.add_le_add_left (Node.height_lt_of_mem_children hnode) path.depth

end Path

theorem Path.depth_eq_length_ancestors (path : Path) : path.depth = path.ancestors.length :=
  (List.length_map _).symm

theorem Node.depth_lt_height_of_mem_occurrences {root : Node} {path : Path}
    (hpath : path ∈ root.occurrences) : path.depth < root.height := by
  rw [← paths_eq_occurrences, paths_eq_preorder] at hpath
  calc path.depth
      < path.depth + path.node.height := Nat.lt_add_of_pos_right path.node.height_pos
    _ ≤ 0 + root.height := Path.depth_add_height_le_of_mem_preorder hpath
    _ = root.height := Nat.zero_add _

/-- Whether options allow a tree: it is not too high, and it has no unknown types where these are
rejected. -/
structure LoadOptions.Allows (options : LoadOptions) (root : Node) : Prop where
  height_le : root.height ≤ options.maxDepth
  known : options.unknownTypes = .reject → ∀ node ∈ root.nodes, ∀ name, node.type ≠ .other name

theorem LoadOptions.Allows.of_mem_children {options : LoadOptions} {root child : Node}
    (hallows : options.Allows root) (hchild : child ∈ root.slots.flatMap Slot.children) :
    options.Allows child where
  height_le := by
    have hlt := Node.height_lt_of_mem_children hchild
    have hle := hallows.height_le
    omega
  known := by
    intro hreject node hnode
    exact hallows.known hreject node (Node.mem_nodes_of_mem_children hchild hnode)

theorem LoadOptions.Allows.of_mem_nodes {options : LoadOptions} {root node : Node}
    (hallows : options.Allows root) (hnode : node ∈ root.nodes) : options.Allows node := by
  induction root using Node.induction_children with
  | node root ih =>
      rw [Node.nodes_eq, List.mem_cons] at hnode
      rcases hnode with rfl | hbelow
      · exact hallows
      · obtain ⟨child, hchild, hnode⟩ := List.mem_flatMap.mp hbelow
        exact ih child hchild (hallows.of_mem_children hchild) hnode

namespace Load

variable {options : LoadOptions} {document : Json}

theorem allows_of_findSome?_eq_none
    (hread : (document.serialized 0).findSome? (refusal? options) = none) :
    document.HasType ∧ options.Allows document.tree := by
  rw [List.findSome?_eq_none_iff] at hread
  have hheader (item : Json × Nat) (hitem : item ∈ document.serialized 0) :=
    readHeader_eq_ok (readHeader_of_refusal?_eq_none (hread item hitem))
  have hroot : (document, 0) ∈ document.serialized 0 := by
    rw [Json.serialized_eq]
    exact List.mem_cons_self
  refine ⟨Json.isNode_iff.mp (hheader _ hroot).2.1, ?_, ?_⟩
  · obtain ⟨deepest, hdeepest, hdepth⟩ := document.exists_deepest 0
    have hlt := (hheader deepest hdeepest).1
    omega
  · intro hreject
    rw [Json.forall_mem_nodes_tree 0]
    intro item hitem name hname
    obtain ⟨construct, hconstruct⟩ := (hheader item hitem).2.2.1 hreject
    rw [Json.type_tree, hconstruct] at hname
    cases hname

theorem findSome?_eq_none_of_allows (htype : document.HasType)
    (hallows : options.Allows document.tree) :
    (document.serialized 0).findSome? (refusal? options) = none := by
  rw [List.findSome?_eq_none_iff]
  rintro ⟨value, depth⟩ hitem
  obtain ⟨text, htext⟩ := Json.hasType_of_mem_serialized htype hitem
  have hroom : ¬options.maxDepth ≤ depth := by
    have hdepth := Json.depth_add_height_le hitem
    have hpos := value.tree.height_pos
    have hle := hallows.height_le
    simp only at hdepth
    omega
  rw [refusal?_of_type depth htext, if_neg hroom, if_neg]
  rintro ⟨hreject, hunknown⟩
  have hknown := (Json.forall_mem_nodes_tree 0).mp (hallows.known hreject) _ hitem text
  apply hknown
  rw [Json.type_tree, Json.nodeType, Json.typeText?_eq_some_iff.mpr htext, Option.getD_some]
  exact NodeType.reading.ofText_of_none hunknown

end Load

/-- A document is loaded if and only if it names its type and its tree is allowed. -/
theorem Node.load_result_eq_ok_iff_allows {options : LoadOptions} {document : Json} {root : Node} :
    (Node.load options document).result = .ok root ↔
      (document.HasType ∧ options.Allows document.tree) ∧ document.tree = root := by
  rw [load_result_eq_ok_iff]
  refine and_congr_left fun _ => ⟨Load.allows_of_findSome?_eq_none, ?_⟩
  rintro ⟨htype, hallows⟩
  exact Load.findSome?_eq_none_of_allows htype hallows

namespace Load

variable {mode : UnknownTypes} {limit other : Nat}

/-- A node that can be read under one limit is refused under another only for its depth. -/
theorem refusal?_of_read {item : Json × Nat} (hread : refusal? ⟨mode, other⟩ item = none) :
    refusal? ⟨mode, limit⟩ item =
      if limit ≤ item.2 then some ⟨.tooDeep limit, item.1.span⟩ else none := by
  obtain ⟨value, depth⟩ := item
  have hdepth := depth_lt_of_refusal?_eq_none hread
  obtain ⟨-, hnode, -, -⟩ := readHeader_eq_ok (readHeader_of_refusal?_eq_none hread)
  obtain ⟨text, htext⟩ := Json.isNode_iff.mp hnode
  rw [refusal?_of_type depth htext, if_neg (Nat.not_le.mpr hdepth)] at hread
  have hknown : ¬(mode = .reject ∧ Construct.ofText? text = none) := by
    intro hunknown
    rw [if_pos hunknown] at hread
    cases hread
  rw [refusal?_of_type depth htext, if_neg hknown]

theorem findSome?_of_exists_le_depth {nodes : List (Json × Nat)}
    (hread : nodes.findSome? (refusal? ⟨mode, other⟩) = none)
    (hdeep : ∃ item ∈ nodes, limit ≤ item.2) :
    ∃ span, nodes.findSome? (refusal? ⟨mode, limit⟩) = some ⟨.tooDeep limit, span⟩ := by
  rw [List.findSome?_eq_none_iff] at hread
  obtain ⟨deep, hmem, hle⟩ := hdeep
  cases hfound : nodes.findSome? (refusal? ⟨mode, limit⟩) with
  | none =>
      have hnone := List.findSome?_eq_none_iff.mp hfound deep hmem
      rw [refusal?_of_read (hread deep hmem), if_pos hle] at hnone
      cases hnone
  | some error =>
      obtain ⟨item, hitem, hrefusal⟩ := List.exists_of_findSome?_eq_some hfound
      rw [refusal?_of_read (hread item hitem)] at hrefusal
      split at hrefusal
      · cases hrefusal
        exact ⟨item.1.span, rfl⟩
      · cases hrefusal

/-- The calls of `readHeaders` that loading a document comes to, each with what has been reported
and read before it and with the work that is left. -/
inductive Call (options : LoadOptions) (document : Json) :
    Array Event → Array Header → List (Json × Nat) → Prop
  | first : Call options document #[] #[] [(document, 0)]
  | next {events : Array Event} {headers : Array Header} {value : Json} {depth : Nat}
      {work : List (Json × Nat)} {header : Header}
      (hcall : Call options document events headers ((value, depth) :: work))
      (hread : readHeader options depth value = .ok header) :
      Call options document (events ++ headerEvents header) (headers.push header)
        ((value.nodeChildren header.type).map (·, depth + 1) ++ work)

variable {options : LoadOptions} {document : Json} {events : Array Event} {headers : Array Header}
  {work : List (Json × Nat)}

/-- Each call decides what becomes of the document. -/
theorem Call.readHeaders_eq (hcall : Call options document events headers work) :
    readHeaders options #[] #[] [(document, 0)] = readHeaders options events headers work := by
  induction hcall with
  | first => rfl
  | next _ hread ih =>
      rw [ih, readHeaders, hread]

/-- A child is put on the list only behind a node that stands above the limit. -/
theorem Call.depth_le (hcall : Call options document events headers work) :
    ∀ item ∈ work, item.2 ≤ options.maxDepth := by
  induction hcall with
  | first =>
      intro item hitem
      obtain rfl := List.mem_singleton.mp hitem
      exact Nat.zero_le _
  | next _ hread ih =>
      obtain ⟨hdepth, -, -, -⟩ := readHeader_eq_ok hread
      intro item hitem
      rcases List.mem_append.mp hitem with hchild | hrest
      · obtain ⟨child, -, rfl⟩ := List.mem_map.mp hchild
        exact hdepth
      · exact ih item (List.mem_cons_of_mem _ hrest)

end Load

namespace Node

variable {mode : UnknownTypes} {limit other : Nat} {document : Json} {root : Node}

theorem load_of_height_le (hload : (Node.load ⟨mode, other⟩ document).result = .ok root)
    (hheight : root.height ≤ limit) : (Node.load ⟨mode, limit⟩ document).result = .ok root := by
  obtain ⟨⟨htype, hallows⟩, rfl⟩ := load_result_eq_ok_iff_allows.mp hload
  exact load_result_eq_ok_iff_allows.mpr ⟨⟨htype, hheight, hallows.known⟩, rfl⟩

theorem load_of_lt_height (hload : (Node.load ⟨mode, other⟩ document).result = .ok root)
    (hheight : limit < root.height) :
    ∃ span, (Node.load ⟨mode, limit⟩ document).result = .error ⟨.tooDeep limit, span⟩ := by
  obtain ⟨hread, rfl⟩ := load_result_eq_ok_iff.mp hload
  obtain ⟨deepest, hmem, hdepth⟩ := document.exists_deepest 0
  have hdeep : ∃ item ∈ document.serialized 0, limit ≤ item.2 := ⟨deepest, hmem, by omega⟩
  obtain ⟨span, hspan⟩ := Load.findSome?_of_exists_le_depth hread hdeep
  exact ⟨span, load_result_eq_error_iff_findSome?.mpr hspan⟩

theorem height_le_of_load (hload : (Node.load ⟨mode, limit⟩ document).result = .ok root) :
    root.height ≤ limit := by
  obtain ⟨⟨-, hallows⟩, rfl⟩ := load_result_eq_ok_iff_allows.mp hload
  exact hallows.height_le

/-- The limit cuts documents off by the height of their trees and does nothing else. Whatever loads
under some limit loads to the same tree under every limit that its height does not exceed, and
stands too deep under all others. A walk through a loaded tree visits every node at a depth that is
the number of its ancestors and below the limit. No call of the loader is given more ancestors than
the limit, so that counting one more stays within 64 bits if the limit does. -/
theorem load_maxDepth (mode : UnknownTypes) (limit other : Nat) (document : Json) :
    (∀ root, (Node.load ⟨mode, other⟩ document).result = .ok root →
      (root.height ≤ limit → (Node.load ⟨mode, limit⟩ document).result = .ok root) ∧
      (limit < root.height → ∃ span,
        (Node.load ⟨mode, limit⟩ document).result = .error ⟨.tooDeep limit, span⟩)) ∧
    (∀ root, (Node.load ⟨mode, limit⟩ document).result = .ok root →
      root.paths = root.occurrences ∧ ∀ path ∈ root.occurrences,
        path.depth = path.ancestors.length ∧ path.ancestors.length < limit) ∧
    ∀ events headers work, Load.Call ⟨mode, limit⟩ document events headers work →
      Load.readHeaders ⟨mode, limit⟩ #[] #[] [(document, 0)] =
        Load.readHeaders ⟨mode, limit⟩ events headers work ∧
      (∀ item ∈ work, item.2 ≤ limit) ∧
      (limit < UInt64.size → ∀ value depth rest header, work = (value, depth) :: rest →
        Load.readHeader ⟨mode, limit⟩ depth value = .ok header → depth + 1 < UInt64.size) := by
  refine ⟨fun root hload => ⟨load_of_height_le hload, load_of_lt_height hload⟩, ?_, ?_⟩
  · intro root hload
    refine ⟨root.paths_eq_occurrences, fun path hpath => ⟨path.depth_eq_length_ancestors, ?_⟩⟩
    calc path.ancestors.length
        = path.depth := path.depth_eq_length_ancestors.symm
      _ < root.height := depth_lt_height_of_mem_occurrences hpath
      _ ≤ limit := height_le_of_load hload
  · intro events headers work hcall
    refine ⟨hcall.readHeaders_eq, hcall.depth_le, ?_⟩
    rintro hlimit value depth rest header rfl hread
    obtain ⟨hdepth, -, -, -⟩ := Load.readHeader_eq_ok hread
    exact Nat.lt_of_le_of_lt hdepth hlimit

/-- The name in the statement `[, a]`, as it is serialized. -/
def sparseName : Json :=
  .object [("type", .string "Identifier"), ("name", .string "a")]

def sparseArray : Json :=
  .object [("type", .string "ArrayExpression"), ("elements", .array [.null, sparseName])]

def sparseDocument : Json :=
  .object [("type", .string "ExpressionStatement"), ("expression", sparseArray)]

def sparseStatement : Node :=
  (ofType (.known .expressionStatement)).withChild (.known .expression)
    ((ofType (.known .arrayExpression)).withItems (.known .elements) [none, some (identifier "a")])

/-- The largest limit of 64 bits. -/
def largestLimit : LoadOptions :=
  ⟨.reject, UInt64.size - 1⟩

theorem exists_call_sparseName : ∃ events headers,
    Load.Call largestLimit sparseDocument events headers [(sparseName, 2)] := by
  have hroot : Load.readHeader largestLimit 0 sparseDocument = .ok sparseDocument.nodeHeader := by
    decide +kernel
  have harray : Load.readHeader largestLimit 1 sparseArray = .ok sparseArray.nodeHeader := by
    decide +kernel
  exact ⟨_, _, .next (.next .first hroot) harray⟩

/-- The statement loads under the limit three and not under the limit two. Under the largest limit
the loader comes to the name with two ancestors, and no call leaves 64 bits. -/
theorem load_maxDepth_sparseStatement :
    (Node.load ⟨.reject, 2048⟩ sparseDocument).result = .ok sparseStatement ∧
      sparseStatement.height = 3 ∧
      (Node.load ⟨.reject, 3⟩ sparseDocument).result = .ok sparseStatement ∧
      (∀ path ∈ sparseStatement.occurrences, path.ancestors.length < 3) ∧
      (∃ span, (Node.load ⟨.reject, 2⟩ sparseDocument).result = .error ⟨.tooDeep 2, span⟩) ∧
      (∃ events headers, Load.Call largestLimit sparseDocument events headers [(sparseName, 2)] ∧
        Load.readHeaders largestLimit #[] #[] [(sparseDocument, 0)] =
          Load.readHeaders largestLimit events headers [(sparseName, 2)]) ∧
      ∀ events headers value depth rest header,
        Load.Call largestLimit sparseDocument events headers ((value, depth) :: rest) →
        Load.readHeader largestLimit depth value = .ok header → depth + 1 < UInt64.size := by
  have hload : (Node.load ⟨.reject, 2048⟩ sparseDocument).result = .ok sparseStatement := by
    decide +kernel
  obtain ⟨hthree, hwalk, -⟩ := load_maxDepth .reject 3 2048 sparseDocument
  obtain ⟨htwo, -, -⟩ := load_maxDepth .reject 2 2048 sparseDocument
  obtain ⟨-, -, hcalls⟩ := load_maxDepth .reject (UInt64.size - 1) 2048 sparseDocument
  have hsame := (hthree _ hload).1 (by decide)
  obtain ⟨events, headers, hname⟩ := exists_call_sparseName
  refine ⟨hload, by decide, hsame, fun path hpath => ((hwalk _ hsame).2 path hpath).2,
    (htwo _ hload).2 (by decide), ⟨events, headers, hname, (hcalls _ _ _ hname).1⟩, ?_⟩
  intro events headers value depth rest header hcall hread
  exact (hcalls _ _ _ hcall).2.2 (by decide) value depth rest header rfl hread

end Node

end NameRoles
