import NameRoles.Proofs.LoadedNodes
import NameRoles.Proofs.Outcome

/-! Rejecting unknown types against keeping them. The two ways of loading go through the same
serialized nodes and treat each of them alike, up to the first node of an unknown type that is not
refused anyway: one way reports it, the other fails. So what is reported where unknown types are
kept tells the outcome where they are rejected. -/

namespace NameRoles

namespace Load

/-- What the two ways of loading make of a serialized node. -/
inductive Compared (limit : Nat) (item : Json × Nat) : Prop
  | refused {error : Located LoadFault} (hkeep : refusal? ⟨.keep, limit⟩ item = some error)
      (hreject : refusal? ⟨.reject, limit⟩ item = some error)
  | read (hkeep : refusal? ⟨.keep, limit⟩ item = none)
      (hreject : refusal? ⟨.reject, limit⟩ item = none)
      (hevents : headerEvents item.1.nodeHeader = [])
  | unknown {text : String} (hkeep : refusal? ⟨.keep, limit⟩ item = none)
      (hreject : refusal? ⟨.reject, limit⟩ item = some ⟨.unknownType text, item.1.span⟩)
      (hevents : headerEvents item.1.nodeHeader = [.keptUnknownType text])

theorem headerEvents_nodeHeader_eq_nil_iff {value : Json} :
    headerEvents value.nodeHeader = [] ↔ ∀ name, value.nodeType ≠ .other name := by
  rw [headerEvents, Json.nodeHeader_type]
  cases value.nodeType <;> simp

/-- A node that names its type is treated alike unless the type is unknown. -/
theorem compared_of_type {value : Json} {text : String} (limit depth : Nat)
    (htype : value.member? "type" = some (.string text)) : Compared limit (value, depth) := by
  have hnode : value.nodeType = NodeType.ofText text := by
    rw [Json.nodeType, Json.typeText?_eq_some_iff.mpr htype, Option.getD_some]
  by_cases hlimit : limit ≤ depth
  · apply Compared.refused
    · rw [refusal?_of_type depth htype, if_pos hlimit]
    · rw [refusal?_of_type depth htype, if_pos hlimit]
  · have hkeep : refusal? ⟨.keep, limit⟩ (value, depth) = none := by
      rw [refusal?_of_type depth htype, if_neg hlimit, if_neg (by simp)]
    cases hfound : Construct.ofText? text with
    | some construct =>
        apply Compared.read hkeep
        · rw [refusal?_of_type depth htype, if_neg hlimit, if_neg (by simp [hfound])]
        · rw [headerEvents, Json.nodeHeader_type, hnode, NodeType.ofText, hfound]
    | none =>
        apply Compared.unknown hkeep
        · rw [refusal?_of_type depth htype, if_neg hlimit, if_pos ⟨rfl, hfound⟩]
        · rw [headerEvents, Json.nodeHeader_type, hnode, NodeType.ofText, hfound]

theorem compared (limit : Nat) (item : Json × Nat) : Compared limit item := by
  obtain ⟨value, depth⟩ := item
  by_cases htype : value.HasType
  · obtain ⟨text, htext⟩ := htype
    exact compared_of_type limit depth htext
  · cases value with
    | object members =>
        by_cases hlimit : limit ≤ depth
        · apply Compared.refused
          · rw [refusal?_of_not_hasType depth htype, if_pos hlimit]
          · rw [refusal?_of_not_hasType depth htype, if_pos hlimit]
        · apply Compared.refused
          · rw [refusal?_of_not_hasType depth htype, if_neg hlimit]
          · rw [refusal?_of_not_hasType depth htype, if_neg hlimit]
    | _ => exact .refused rfl rfl

variable {limit : Nat} {nodes : List (Json × Nat)}

/-- Nothing is reported where unknown types are rejected. -/
theorem report_reject (limit : Nat) (nodes : List (Json × Nat)) :
    report ⟨.reject, limit⟩ nodes = [] := by
  induction nodes with
  | nil => rfl
  | cons item nodes ih =>
      cases compared limit item with
      | refused hkeep hreject => exact report_cons_of_refused nodes hreject
      | read hkeep hreject hevents =>
          rw [report_cons_of_read nodes hreject, hevents, ih, List.nil_append]
      | unknown hkeep hreject hevents => exact report_cons_of_refused nodes hreject

/-- As long as nothing is reported, both ways of loading refuse the same nodes. -/
theorem findSome?_reject_of_report_eq_nil (hreport : report ⟨.keep, limit⟩ nodes = []) :
    nodes.findSome? (refusal? ⟨.reject, limit⟩) = nodes.findSome? (refusal? ⟨.keep, limit⟩) := by
  induction nodes with
  | nil => rfl
  | cons item nodes ih =>
      rw [List.findSome?_cons, List.findSome?_cons]
      cases compared limit item with
      | refused hkeep hreject => rw [hkeep, hreject]
      | read hkeep hreject hevents =>
          rw [report_cons_of_read nodes hkeep, hevents, List.nil_append] at hreport
          rw [hkeep, hreject]
          exact ih hreport
      | unknown hkeep hreject hevents =>
          rw [report_cons_of_read nodes hkeep, hevents] at hreport
          cases hreport

/-- The first reported type is the first for which a node is refused. -/
theorem findSome?_reject_of_report_eq_cons {text : String} {rest : List Event}
    (hreport : report ⟨.keep, limit⟩ nodes = .keptUnknownType text :: rest) :
    ∃ span, nodes.findSome? (refusal? ⟨.reject, limit⟩) = some ⟨.unknownType text, span⟩ := by
  induction nodes with
  | nil => cases hreport
  | cons item nodes ih =>
      rw [List.findSome?_cons]
      cases compared limit item with
      | refused hkeep hreject =>
          rw [report_cons_of_refused nodes hkeep] at hreport
          cases hreport
      | read hkeep hreject hevents =>
          rw [report_cons_of_read nodes hkeep, hevents, List.nil_append] at hreport
          rw [hreject]
          exact ih hreport
      | unknown hkeep hreject hevents =>
          rw [report_cons_of_read nodes hkeep, hevents] at hreport
          cases hreport
          rw [hreject]
          exact ⟨item.1.span, rfl⟩

theorem eq_keptUnknownType_of_mem_report {options : LoadOptions} {event : Event}
    (hevent : event ∈ report options nodes) : ∃ text, event = .keptUnknownType text := by
  rw [report, List.mem_flatMap] at hevent
  obtain ⟨item, -, hevent⟩ := hevent
  rw [headerEvents] at hevent
  split at hevent
  · cases hevent
  · exact ⟨_, List.mem_singleton.mp hevent⟩

end Load

namespace Node

variable {limit : Nat} {document : Json}

/-- Loading a tree reports nothing if and only if all types in the tree are known. -/
theorem events_eq_nil_iff {options : LoadOptions} {root : Node}
    (hload : (Node.load options document).result = .ok root) :
    (Node.load options document).events = [] ↔
      ∀ node ∈ root.nodes, ∀ name, node.type ≠ .other name := by
  obtain ⟨hread, rfl⟩ := load_result_eq_ok_iff.mp hload
  rw [load_eq, Load.report_of_findSome?_eq_none hread, List.flatMap_eq_nil_iff,
    Json.forall_mem_nodes_tree 0]
  simp only [Load.headerEvents_nodeHeader_eq_nil_iff, Json.type_tree]

theorem load_reject_of_events_eq_nil (hevents : (Node.load ⟨.keep, limit⟩ document).events = []) :
    (Node.load ⟨.reject, limit⟩ document).result = (Node.load ⟨.keep, limit⟩ document).result := by
  rw [load_eq] at hevents
  rw [load_eq, load_eq, Load.findSome?_reject_of_report_eq_nil hevents]

theorem load_reject_of_events_eq_cons {text : String} {rest : List Event}
    (hevents : (Node.load ⟨.keep, limit⟩ document).events = .keptUnknownType text :: rest) :
    ∃ span, (Node.load ⟨.reject, limit⟩ document).result = .error ⟨.unknownType text, span⟩ := by
  rw [load_eq] at hevents
  obtain ⟨span, hspan⟩ := Load.findSome?_reject_of_report_eq_cons hevents
  exact ⟨span, load_result_eq_error_iff_findSome?.mpr hspan⟩

theorem eq_keptUnknownType_of_mem_events {options : LoadOptions} {event : Event}
    (hevent : event ∈ (Node.load options document).events) :
    ∃ text, event = .keptUnknownType text := by
  rw [load_eq] at hevent
  exact Load.eq_keptUnknownType_of_mem_report hevent

/-- A document that loads where unknown types are rejected has nothing to report. -/
theorem events_eq_nil_of_load_reject {root : Node}
    (hload : (Node.load ⟨.reject, limit⟩ document).result = .ok root) :
    (Node.load ⟨.keep, limit⟩ document).events = [] := by
  cases hevents : (Node.load ⟨.keep, limit⟩ document).events with
  | nil => rfl
  | cons event rest =>
      obtain ⟨text, rfl⟩ : ∃ text, event = .keptUnknownType text := by
        apply eq_keptUnknownType_of_mem_events
        rw [hevents]
        exact List.mem_cons_self
      obtain ⟨span, herror⟩ := load_reject_of_events_eq_cons hevents
      rw [hload] at herror
      cases herror

/-- Rejecting unknown types against keeping them, under the same limit. Rejecting reports nothing.
It yields what keeping yields if keeping reports nothing, and otherwise fails with the first type
that keeping reports, whatever becomes of the document there. So it loads exactly the trees that
keeping loads in which all types are known. -/
theorem load_reject (limit : Nat) (document : Json) :
    (Node.load ⟨.reject, limit⟩ document).events = [] ∧
    (∀ event ∈ (Node.load ⟨.keep, limit⟩ document).events,
      ∃ text, event = .keptUnknownType text) ∧
    ((Node.load ⟨.keep, limit⟩ document).events = [] →
      (Node.load ⟨.reject, limit⟩ document).result =
        (Node.load ⟨.keep, limit⟩ document).result) ∧
    (∀ text rest, (Node.load ⟨.keep, limit⟩ document).events = .keptUnknownType text :: rest →
      ∃ span, (Node.load ⟨.reject, limit⟩ document).result =
        .error ⟨.unknownType text, span⟩) ∧
    ∀ root, (Node.load ⟨.reject, limit⟩ document).result = .ok root ↔
      (Node.load ⟨.keep, limit⟩ document).result = .ok root ∧
        ∀ node ∈ root.nodes, ∀ name, node.type ≠ .other name := by
  refine ⟨?_, ?_, load_reject_of_events_eq_nil, ?_, ?_⟩
  · rw [load_eq]
    exact Load.report_reject limit _
  · intro event hevent
    exact eq_keptUnknownType_of_mem_events hevent
  · intro text rest hevents
    exact load_reject_of_events_eq_cons hevents
  · intro root
    constructor
    · intro hload
      have hevents := events_eq_nil_of_load_reject hload
      rw [load_reject_of_events_eq_nil hevents] at hload
      exact ⟨hload, (events_eq_nil_iff hload).mp hevents⟩
    · rintro ⟨hload, hknown⟩
      have hevents := (events_eq_nil_iff hload).mpr hknown
      rw [load_reject_of_events_eq_nil hevents, hload]

/-- A statement of an unknown type that stands in another one. -/
def nestedCustom : Json :=
  .object [("type", .string "OuterCustom"), ("end", .number (Number.ofNat 9)),
    ("body", .object [("type", .string "InnerCustom")])]

/-- Where one node on a branch is allowed, keeping the outer type fails for the depth of the inner
one, and rejecting fails for the outer type. -/
theorem load_reject_nestedCustom :
    (Node.load ⟨.keep, 1⟩ nestedCustom).events = [.keptUnknownType "OuterCustom"] ∧
      (Node.load ⟨.keep, 1⟩ nestedCustom).result = .error ⟨.tooDeep 1, ⟨0, 0⟩⟩ ∧
      ∃ span, (Node.load ⟨.reject, 1⟩ nestedCustom).result =
        .error ⟨.unknownType "OuterCustom", span⟩ := by
  have hevents : (Node.load ⟨.keep, 1⟩ nestedCustom).events = [.keptUnknownType "OuterCustom"] := by
    decide +kernel
  obtain ⟨-, -, -, hreject, -⟩ := load_reject 1 nestedCustom
  exact ⟨hevents, by decide +kernel, hreject _ _ hevents⟩

end Node

end NameRoles
