import NameRoles.Proofs.SlotOrder

/-! What is reported about unknown types while a document is loaded. Events follow the document:
each node object is reported before those below it and in the order of the members, up to the first
one at the limit. The loaded tree has the same types, but a walk meets them in this order only if no
slots have been moved. -/

namespace NameRoles

/-- The name of a type without a construct. -/
def NodeType.unknownName? : NodeType → Option String
  | known _ => none
  | other name => some name

/-- The names of the types without a construct that a walk through a tree meets. -/
def Node.unknownNames (root : Node) : List String :=
  root.nodes.filterMap (·.type.unknownName?)

namespace Json

/-- The type that a node object names, if it has no construct. -/
def unknownType? (value : Json) : Option String :=
  value.typeText?.filter fun text => (Construct.ofText? text).isNone

/-- The types without a construct that the given node objects name. -/
def unknownNames (nodes : List (Json × Nat)) : List String :=
  nodes.filterMap (·.1.unknownType?)

/-- Whether the slots of a node have the names of the members that hold children, in the order of
the members. -/
def KeepsOrder (value : Json) (node : Node) : Prop :=
  node.slots.map (·.field.text) = value.bearingMembers.map Prod.fst

theorem unknownName?_nodeType {value : Json} (htype : value.HasType) :
    value.nodeType.unknownName? = value.unknownType? := by
  obtain ⟨text, htext⟩ := htype
  rw [nodeType, unknownType?, typeText?_eq_some_iff.mpr htext, Option.getD_some, NodeType.ofText]
  cases hfound : Construct.ofText? text with
  | none => simp [NodeType.unknownName?, Option.filter, hfound]
  | some construct => simp [NodeType.unknownName?, Option.filter, hfound]

theorem unknownNames_eq {nodes : List (Json × Nat)} (htypes : ∀ item ∈ nodes, item.1.HasType) :
    unknownNames nodes = nodes.filterMap fun item => item.1.tree.type.unknownName? := by
  apply List.filterMap_congr
  intro item hitem
  rw [type_tree, unknownName?_nodeType (htypes item hitem)]

end Json

namespace Load

theorem flatMap_headerEvents {nodes : List (Json × Nat)}
    (htypes : ∀ item ∈ nodes, item.1.HasType) :
    (nodes.flatMap fun item => headerEvents item.1.nodeHeader) =
      (Json.unknownNames nodes).map .keptUnknownType := by
  rw [Json.unknownNames_eq htypes]
  clear htypes
  induction nodes with
  | nil => rfl
  | cons item nodes ih =>
      rw [List.flatMap_cons, ih, headerEvents, Json.nodeHeader_type, List.filterMap_cons,
        Json.type_tree]
      cases item.1.nodeType <;> rfl

/-- Up to the first refused node, all nodes are reported. -/
theorem report_of_first_refused {options : LoadOptions} {before after : List (Json × Nat)}
    {item : Json × Nat} {error : Located LoadFault}
    (hbefore : ∀ earlier ∈ before, refusal? options earlier = none)
    (hitem : refusal? options item = some error) :
    report options (before ++ item :: after) =
      before.flatMap fun earlier => headerEvents earlier.1.nodeHeader := by
  have hread : ∀ earlier ∈ before, (refusal? options earlier).isNone = true := by
    intro earlier hearlier
    rw [hbefore earlier hearlier]
    rfl
  rw [report, List.takeWhile_append_of_pos hread,
    List.takeWhile_cons_of_neg (by rw [hitem]; exact Bool.false_ne_true), List.append_nil]

end Load

namespace Json

theorem map_text_slots_nodeWith (build : Json → Node) (value : Json) :
    (value.nodeWith build).slots.map (·.field.text) = value.bearingMembers.map Prod.fst := by
  rw [slots_nodeWith, bearingMembers, List.map_map]
  apply List.map_congr_left
  intro member _
  simp only [Function.comp_apply, field_slot, Field.text_ofText]

/-- A loaded node keeps the order of the members if and only if no slot of it has been moved. -/
theorem keepsOrder_tree_iff {value : Json} :
    value.KeepsOrder value.tree ↔ value.tree.slots = (value.nodeWith tree).slots := by
  constructor
  · intro hkeeps
    let order := value.tree.type.visitOrder.map Part.text
    have hranks : ((value.nodeWith tree).slots.map (·.field.text)).Pairwise fun first second =>
        order.idxOf first ≤ order.idxOf second := by
      rw [map_text_slots_nodeWith, ← hkeeps, List.pairwise_map]
      exact pairwise_visitRank_tree value
    rw [slots_tree]
    apply List.mergeSort_of_pairwise
    apply (List.pairwise_map.mp hranks).imp
    intro first second hle
    exact decide_eq_true hle
  · intro hslots
    rw [KeepsOrder, hslots, map_text_slots_nodeWith]

theorem keepsOrder_tree_of_visitOrder {value : Json} (hempty : value.nodeType.visitOrder = []) :
    value.KeepsOrder value.tree := by
  rw [keepsOrder_tree_iff, tree_eq, Load.arrange, nodeWith, hempty]
  exact Load.orderSlots_nil _

/-- Where all node objects keep the order of their members, a walk through the tree meets them in
the order of the document. -/
theorem nodes_tree_eq (depth : Nat) {value : Json}
    (hkeeps : ∀ item ∈ value.serialized depth, item.1.KeepsOrder item.1.tree) :
    value.tree.nodes = (value.serialized depth).map fun item => item.1.tree := by
  induction value using induction_nodeChildren generalizing depth with
  | node value ih =>
      rw [serialized_eq] at hkeeps ⊢
      obtain ⟨hroot, hbelow⟩ := List.forall_mem_cons.mp hkeeps
      rw [Node.nodes_eq, keepsOrder_tree_iff.mp hroot, ← Node.map_snd_children,
        children_nodeWith, List.flatMap_map, List.map_cons, List.map_flatMap]
      congr 1
      apply List.flatMap_congr
      intro child hchild
      apply ih child hchild (depth + 1)
      intro item hitem
      exact hbelow item (List.mem_flatMap.mpr ⟨child, hchild, hitem⟩)

end Json

namespace Node

variable {limit : Nat} {document : Json} {root : Node}

theorem events_of_load_ok (hload : (Node.load ⟨.keep, limit⟩ document).result = .ok root) :
    (Node.load ⟨.keep, limit⟩ document).events =
      (Json.unknownNames (document.serialized 0)).map .keptUnknownType := by
  obtain ⟨⟨htype, -⟩, -⟩ := load_result_eq_ok_iff_allows.mp hload
  obtain ⟨hread, -⟩ := load_result_eq_ok_iff.mp hload
  rw [load_eq, Load.report_of_findSome?_eq_none hread]
  apply Load.flatMap_headerEvents
  intro item hitem
  exact Json.hasType_of_mem_serialized htype hitem

theorem events_of_load_error {error : Located LoadFault} (htype : document.HasType)
    (herror : (Node.load ⟨.keep, limit⟩ document).result = .error error) :
    ∃ before item after, document.serialized 0 = before ++ item :: after ∧
      (∀ earlier ∈ before, earlier.2 ≠ limit) ∧ item.2 = limit ∧
      (Node.load ⟨.keep, limit⟩ document).events =
        (Json.unknownNames before).map .keptUnknownType := by
  rw [load_result_eq_error_iff_findSome?, List.findSome?_eq_some_iff] at herror
  obtain ⟨before, item, after, heq, hitem, hbefore⟩ := herror
  have hitems : ∀ earlier ∈ before ++ item :: after, earlier.1.HasType := by
    intro earlier hearlier
    exact Json.hasType_of_mem_serialized htype (heq ▸ hearlier)
  have hrefused := (Load.forall_refusal?_eq_none_iff htype heq).mp hbefore
  have hdepth := Load.depth_le_of_not_refused heq hrefused
  refine ⟨before, item, after, heq, fun earlier hearlier =>
    Load.depth_ne_of_not_refused (hrefused earlier hearlier), ?_, ?_⟩
  · have hitemType := hitems item (by simp)
    obtain ⟨hfor, -⟩ := (Load.refusal?_eq_some_iff hitemType hdepth).mp hitem
    generalize error.fault = fault at hfor
    cases hfor with
    | tooDeep value => rfl
    | unknownType hne hreject hfound hunknown => cases hreject
  · rw [load_eq, heq, Load.report_of_first_refused hbefore hitem]
    apply Load.flatMap_headerEvents
    intro earlier hearlier
    exact hitems earlier (List.mem_append_left _ hearlier)

/-- What is reported while a document is loaded that names its type, where unknown types are kept.
The events give the unknown types of the node objects in the order of the document: of all of them
if the document loads, and otherwise of those before the first one that stands at the limit. The
types that a walk through the loaded tree meets are the same, and in the same order if every node
has its slots in the order of the members. -/
theorem load_events (limit : Nat) (document : Json) (htype : document.HasType) :
    (∀ root, (Node.load ⟨.keep, limit⟩ document).result = .ok root →
      (Node.load ⟨.keep, limit⟩ document).events =
        (Json.unknownNames (document.nodeObjects 0)).map .keptUnknownType ∧
      (Node.load ⟨.keep, limit⟩ document).events.Perm
        (root.unknownNames.map .keptUnknownType) ∧
      ((∀ path, List.Forall₂ Json.KeepsOrder (document.nodesAt path) (root.nodesAt path)) →
        (Node.load ⟨.keep, limit⟩ document).events = root.unknownNames.map .keptUnknownType)) ∧
    ∀ error, (Node.load ⟨.keep, limit⟩ document).result = .error error →
      ∃ before item after, document.nodeObjects 0 = before ++ item :: after ∧
        (∀ earlier ∈ before, earlier.2 ≠ limit) ∧ item.2 = limit ∧
        (Node.load ⟨.keep, limit⟩ document).events =
          (Json.unknownNames before).map .keptUnknownType := by
  have hitems : ∀ item ∈ document.serialized 0, item.1.HasType := by
    intro item hitem
    exact Json.hasType_of_mem_serialized htype hitem
  rw [Json.nodeObjects_eq_serialized 0 htype]
  refine ⟨?_, fun error herror => events_of_load_error htype herror⟩
  intro root hload
  have hevents := events_of_load_ok hload
  obtain ⟨-, rfl⟩ := load_result_eq_ok_iff.mp hload
  refine ⟨hevents, ?_, ?_⟩
  · have hperm := (Json.nodes_tree_perm 0 document).filterMap fun node => node.type.unknownName?
    rw [List.filterMap_map] at hperm
    rw [hevents, Json.unknownNames_eq hitems]
    exact hperm.symm.map _
  · intro hkeeps
    have hnodes := Json.nodes_tree_eq 0 ((Json.forall₂_nodesAt_tree_iff 0).mp hkeeps)
    rw [hevents, Json.unknownNames_eq hitems, Node.unknownNames, hnodes, List.filterMap_map]
    rfl

/-- A statement of an unknown type that imports `{a as b}`, where the names are of unknown types as
well and the imported one is written first. -/
def customImport : Json :=
  .object [("type", .string "CustomImport"), ("specifiers", .array [.object
    [("type", .string "ImportSpecifier"), ("imported", .object [("type", .string "OldName")]),
      ("local", .object [("type", .string "NewName")])]])]

def customImportTree : Node :=
  (ofType (.other "CustomImport")).withChildren (.known .specifiers)
    [((ofType (.known .importSpecifier)).withChild (.known .localName)
      (ofType (.other "NewName"))).withChild (.known .imported) (ofType (.other "OldName"))]

/-- A statement of an unknown type with a body of an unknown type. -/
def customBlock : Json :=
  .object [("type", .string "CustomBlock"), ("body", .object [("type", .string "CustomBody")])]

def customBlockTree : Node :=
  (ofType (.other "CustomBlock")).withChild (.known .body) (ofType (.other "CustomBody"))

theorem load_customBlock : (Node.load ⟨.keep, 2⟩ customBlock).result = .ok customBlockTree := by
  decide +kernel

theorem keepsOrder_customBlock (path : KeyPath) :
    List.Forall₂ Json.KeepsOrder (customBlock.nodesAt path) (customBlockTree.nodesAt path) := by
  have htype : customBlock.HasType := ⟨"CustomBlock", rfl⟩
  have hempty : ∀ item ∈ customBlock.nodeObjects 0, item.1.nodeType.visitOrder = [] := by
    decide +kernel
  obtain ⟨-, htree⟩ := load_result_eq_ok_iff.mp load_customBlock
  rw [Json.nodeObjects_eq_serialized 0 htype] at hempty
  rw [← htree]
  refine (Json.forall₂_nodesAt_tree_iff 0).mpr ?_ path
  intro item hitem
  exact Json.keepsOrder_tree_of_visitOrder (hempty item hitem)

/-- The names of the import are reported as they are written and met the other way round in the
tree. Where two nodes on a branch are allowed, nothing is reported from the first name on. In the
block nothing is moved, so its types are met as they are reported. -/
theorem load_events_customImport :
    (customImport.HasType ∧
      (Node.load ⟨.keep, 3⟩ customImport).result = .ok customImportTree ∧
      (Node.load ⟨.keep, 3⟩ customImport).events = [.keptUnknownType "CustomImport",
        .keptUnknownType "OldName", .keptUnknownType "NewName"] ∧
      customImportTree.unknownNames = ["CustomImport", "NewName", "OldName"] ∧
      (Node.load ⟨.keep, 3⟩ customImport).events.Perm
        (customImportTree.unknownNames.map .keptUnknownType)) ∧
    (∃ before item after, customImport.nodeObjects 0 = before ++ item :: after ∧
      (∀ earlier ∈ before, earlier.2 ≠ 2) ∧ item.2 = 2 ∧
      (Node.load ⟨.keep, 2⟩ customImport).events =
        (Json.unknownNames before).map .keptUnknownType) ∧
    (Node.load ⟨.keep, 2⟩ customBlock).events =
      customBlockTree.unknownNames.map .keptUnknownType := by
  have htype : customImport.HasType := ⟨"CustomImport", rfl⟩
  have hload : (Node.load ⟨.keep, 3⟩ customImport).result = .ok customImportTree := by
    decide +kernel
  have hfails : (Node.load ⟨.keep, 2⟩ customImport).result = .error ⟨.tooDeep 2, Span.none⟩ := by
    decide +kernel
  obtain ⟨hloads, -⟩ := load_events 3 customImport htype
  obtain ⟨hevents, hperm, -⟩ := hloads _ hload
  obtain ⟨-, hcut⟩ := load_events 2 customImport htype
  obtain ⟨hblock, -⟩ := load_events 2 customBlock ⟨"CustomBlock", rfl⟩
  refine ⟨⟨htype, hload, ?_, by decide +kernel, hperm⟩, hcut _ hfails,
    (hblock _ load_customBlock).2.2 keepsOrder_customBlock⟩
  rw [hevents]
  decide +kernel

end Node

end NameRoles
