import NameRoles.Proofs.ChildMembers

/-! What loading yields, in terms of the list of all serialized nodes of a document. Each of them
can be read or is refused for a fault, whatever the others are. The first refused one decides the
outcome and the end of the reports; a document without one has its tree. -/

namespace NameRoles

namespace Load

/-- The fault for which a serialized node with the given number of ancestors cannot be read. -/
def refusal? (options : LoadOptions) (item : Json × Nat) : Option (Located LoadFault) :=
  match readHeader options item.2 item.1 with
  | .error error => some error
  | .ok _ => none

/-- What is reported while the given serialized nodes are read up to the first refused one. -/
def report (options : LoadOptions) (nodes : List (Json × Nat)) : List Event :=
  (nodes.takeWhile fun item => (refusal? options item).isNone).flatMap fun item =>
    headerEvents item.1.nodeHeader

variable {options : LoadOptions}

theorem readHeader_of_refusal?_eq_none {item : Json × Nat}
    (hrefusal : refusal? options item = none) :
    readHeader options item.2 item.1 = .ok item.1.nodeHeader := by
  rw [refusal?] at hrefusal
  cases hread : readHeader options item.2 item.1 with
  | error error =>
      rw [hread] at hrefusal
      cases hrefusal
  | ok header =>
      obtain ⟨-, -, -, rfl⟩ := readHeader_eq_ok hread
      rfl

theorem readHeader_of_refusal?_eq_some {item : Json × Nat} {error : Located LoadFault}
    (hrefusal : refusal? options item = some error) :
    readHeader options item.2 item.1 = .error error := by
  rw [refusal?] at hrefusal
  cases hread : readHeader options item.2 item.1 with
  | error found =>
      rw [hread] at hrefusal
      rw [Option.some.inj hrefusal]
  | ok header =>
      rw [hread] at hrefusal
      cases hrefusal

/-- A value that is no object is refused at any depth. -/
theorem refusal?_of_not_object {value : Json} (depth : Nat)
    (hobject : ∀ members, value ≠ .object members) :
    refusal? options (value, depth) = some ⟨.expectedNode, Span.none⟩ := by
  cases value with
  | object members => exact (hobject members rfl).elim
  | _ => rfl

/-- An object that names no type is refused, for its depth if it stands too deep. -/
theorem refusal?_of_not_hasType {members : List (String × Json)} (depth : Nat)
    (htype : ¬(Json.object members).HasType) :
    refusal? options (.object members, depth) =
      if options.maxDepth ≤ depth then
        some ⟨.tooDeep options.maxDepth, (Json.object members).span⟩
      else some ⟨.missingType, (Json.object members).span⟩ := by
  have htext : (Json.object members).typeText? = none := by
    rw [← Json.isNode_iff, Json.isNode] at htype
    simpa using htype
  rw [refusal?, readHeader]
  by_cases hdepth : options.maxDepth ≤ depth
  · rw [if_pos hdepth, if_pos hdepth]
  · rw [if_neg hdepth, if_neg hdepth, htext]

/-- An object that names its type is refused if it stands too deep, and otherwise only if the type
is unknown and unknown types are rejected. -/
theorem refusal?_of_type {value : Json} {text : String} (depth : Nat)
    (htype : value.member? "type" = some (.string text)) :
    refusal? options (value, depth) =
      if options.maxDepth ≤ depth then some ⟨.tooDeep options.maxDepth, value.span⟩
      else if options.unknownTypes = .reject ∧ Construct.ofText? text = none then
        some ⟨.unknownType text, value.span⟩
      else none := by
  cases value with
  | object members =>
      rw [refusal?, readHeader, Json.typeText?_eq_some_iff.mpr htype]
      by_cases hdepth : options.maxDepth ≤ depth
      · rw [if_pos hdepth, if_pos hdepth]
      · rw [if_neg hdepth, if_neg hdepth]
        cases hfound : Construct.ofText? text with
        | none =>
            have hother : NodeType.ofText text = .other text :=
              NodeType.reading.ofText_of_none hfound
            simp only [hother]
            cases options.unknownTypes <;> rfl
        | some construct =>
            have hknown : NodeType.ofText text = .known construct :=
              NodeType.reading.ofText_of_some hfound
            simp [hknown]
  | _ => cases htype

theorem report_cons_of_refused {item : Json × Nat} {error : Located LoadFault}
    (nodes : List (Json × Nat)) (hrefusal : refusal? options item = some error) :
    report options (item :: nodes) = [] := by
  rw [report, List.takeWhile_cons_of_neg (by simp [hrefusal]), List.flatMap_nil]

theorem report_cons_of_read {item : Json × Nat} (nodes : List (Json × Nat))
    (hrefusal : refusal? options item = none) :
    report options (item :: nodes) =
      headerEvents item.1.nodeHeader ++ report options nodes := by
  rw [report, List.takeWhile_cons_of_pos (by simp [hrefusal]), List.flatMap_cons, report]

theorem report_of_findSome?_eq_none {nodes : List (Json × Nat)}
    (hread : nodes.findSome? (refusal? options) = none) :
    report options nodes = nodes.flatMap fun item => headerEvents item.1.nodeHeader := by
  induction nodes with
  | nil => rfl
  | cons item nodes ih =>
      rw [List.findSome?_cons] at hread
      cases hitem : refusal? options item with
      | some error =>
          rw [hitem] at hread
          cases hread
      | none =>
          rw [hitem] at hread
          rw [report_cons_of_read nodes hitem, ih hread, List.flatMap_cons]

theorem readEach_eq (events : Array Event) (headers : Array Header) (nodes : List (Json × Nat)) :
    readEach options events headers nodes =
      (events ++ report options nodes,
        (nodes.findSome? (refusal? options)).elim
          (.ok (headers ++ nodes.map fun item => item.1.nodeHeader)) .error) := by
  induction nodes generalizing events headers with
  | nil => simp [readEach, report]
  | cons item nodes ih =>
      obtain ⟨value, depth⟩ := item
      rw [readEach]
      cases hrefusal : refusal? options (value, depth) with
      | some error =>
          rw [readHeader_of_refusal?_eq_some hrefusal, report_cons_of_refused nodes hrefusal,
            List.findSome?_cons, hrefusal]
          simp
      | none =>
          rw [readHeader_of_refusal?_eq_none hrefusal, report_cons_of_read nodes hrefusal,
            List.findSome?_cons, hrefusal]
          have hevents : events ++ headerEvents value.nodeHeader ++ report options nodes =
              events ++ (headerEvents value.nodeHeader ++ report options nodes) := by
            apply Array.ext'
            simp
          simp only [ih, hevents]
          rfl

end Load

/-- Loading fails with the fault of the first refused node, and otherwise yields the tree of the
document. It reports about the nodes before the first refused one. -/
theorem Node.load_eq (options : LoadOptions) (document : Json) :
    Node.load options document =
      ⟨Load.report options (document.serialized 0),
        ((document.serialized 0).findSome? (Load.refusal? options)).elim
          (.ok document.tree) .error⟩ := by
  have htrees := Header.assemble_serialized 0 document []
  rw [List.append_nil] at htrees
  rw [load, Load.readHeaders_eq_readEach, List.flatMap_singleton, Load.readEach_eq]
  cases (document.serialized 0).findSome? (Load.refusal? options) with
  | some error => simp [Except.bind]
  | none => simp [Except.bind, Load.assembleTree, htrees]

theorem Node.load_result_eq_error_iff_findSome? {options : LoadOptions} {document : Json}
    {error : Located LoadFault} :
    (Node.load options document).result = .error error ↔
      (document.serialized 0).findSome? (Load.refusal? options) = some error := by
  rw [load_eq]
  cases (document.serialized 0).findSome? (Load.refusal? options) <;> simp

theorem Node.load_result_eq_ok_iff {options : LoadOptions} {document : Json} {root : Node} :
    (Node.load options document).result = .ok root ↔
      (document.serialized 0).findSome? (Load.refusal? options) = none ∧ document.tree = root := by
  rw [load_eq]
  cases (document.serialized 0).findSome? (Load.refusal? options) <;> simp

end NameRoles
