import NameRoles.Proofs.NodeObjects
import NameRoles.Proofs.Outcome

/-! Why a document cannot be loaded. A document that is no object, or an object that names no type,
is at fault itself. Below an object that names its type a node object can only stand too deep or,
where unknown types are rejected, be of an unknown type, and the first one of this kind in the order
of the document gives the fault. -/

namespace NameRoles

namespace Load

/-- The fault for which a node object is refused: it has as many ancestors as a tree may have nodes
on a branch, or else its type is unknown and unknown types are rejected. -/
inductive RefusedFor (options : LoadOptions) : Json × Nat → LoadFault → Prop
  | tooDeep (value : Json) :
      RefusedFor options (value, options.maxDepth) (.tooDeep options.maxDepth)
  | unknownType {value : Json} {depth : Nat} {text : String} (hdepth : depth ≠ options.maxDepth)
      (hreject : options.unknownTypes = .reject)
      (htype : value.member? "type" = some (.string text))
      (hunknown : Construct.ofText? text = none) :
      RefusedFor options (value, depth) (.unknownType text)

def Refused (options : LoadOptions) (item : Json × Nat) : Prop :=
  ∃ fault, RefusedFor options item fault

variable {options : LoadOptions}

theorem depth_ne_of_not_refused {item : Json × Nat} (hrefused : ¬Refused options item) :
    item.2 ≠ options.maxDepth := by
  obtain ⟨value, depth⟩ := item
  rintro rfl
  exact hrefused ⟨_, .tooDeep value⟩

theorem depth_lt_of_refusal?_eq_none {item : Json × Nat} (hread : refusal? options item = none) :
    item.2 < options.maxDepth :=
  (readHeader_eq_ok (readHeader_of_refusal?_eq_none hread)).1

/-- Down to the depth of the limit, reading refuses a node object for the fault that it has. -/
theorem refusal?_eq_some_iff {item : Json × Nat} {error : Located LoadFault}
    (htype : item.1.HasType) (hdepth : item.2 ≤ options.maxDepth) :
    refusal? options item = some error ↔
      RefusedFor options item error.fault ∧ error.span = item.1.span := by
  obtain ⟨value, depth⟩ := item
  obtain ⟨fault, span⟩ := error
  obtain ⟨text, htext⟩ := htype
  rw [refusal?_of_type depth htext]
  constructor
  · intro hrefusal
    by_cases hlimit : options.maxDepth ≤ depth
    · rw [if_pos hlimit] at hrefusal
      obtain rfl : depth = options.maxDepth := Nat.le_antisymm hdepth hlimit
      cases hrefusal
      exact ⟨.tooDeep value, rfl⟩
    · rw [if_neg hlimit] at hrefusal
      by_cases hunknown : options.unknownTypes = .reject ∧ Construct.ofText? text = none
      · rw [if_pos hunknown] at hrefusal
        cases hrefusal
        have hne : depth ≠ options.maxDepth := by
          rintro rfl
          exact hlimit (Nat.le_refl _)
        exact ⟨.unknownType hne hunknown.1 htext hunknown.2, rfl⟩
      · rw [if_neg hunknown] at hrefusal
        cases hrefusal
  · rintro ⟨hrefused, rfl⟩
    cases hrefused with
    | tooDeep => rw [if_pos (Nat.le_refl _)]
    | @unknownType _ _ found hne hreject hfound hunknown =>
        obtain rfl : found = text := by simpa [hfound] using htext
        have hlimit : ¬options.maxDepth ≤ depth := by
          intro hle
          exact hne (Nat.le_antisymm hdepth hle)
        rw [if_neg hlimit, if_pos ⟨hreject, hunknown⟩]

/-- The node objects before the first that reading refuses are those before the first refused one:
up to there none stands at the limit, so none stands below it. -/
theorem forall_refusal?_eq_none_iff {document : Json} {before after : List (Json × Nat)}
    (htype : document.HasType) (heq : document.serialized 0 = before ++ after) :
    (∀ item ∈ before, refusal? options item = none) ↔
      ∀ item ∈ before, ¬Refused options item := by
  have hitems : ∀ item ∈ before, item.1.HasType := by
    intro item hitem
    exact Json.hasType_of_mem_serialized htype (heq ▸ List.mem_append_left _ hitem)
  constructor
  · rintro hread item hitem ⟨fault, hrefused⟩
    have hdepth := depth_lt_of_refusal?_eq_none (hread item hitem)
    have hrefusal : refusal? options item = some ⟨fault, item.1.span⟩ :=
      (refusal?_eq_some_iff (hitems item hitem) (Nat.le_of_lt hdepth)).mpr ⟨hrefused, rfl⟩
    rw [hread item hitem] at hrefusal
    cases hrefusal
  · intro hrefused item hitem
    have hdepth := Json.depth_lt_of_serialized_eq heq
      (fun other hother => depth_ne_of_not_refused (hrefused other hother)) hitem
    cases hrefusal : refusal? options item with
    | none => rfl
    | some error =>
        obtain ⟨hfault, -⟩ :=
          (refusal?_eq_some_iff (hitems item hitem) (Nat.le_of_lt hdepth)).mp hrefusal
        exact (hrefused item hitem ⟨_, hfault⟩).elim

theorem depth_le_of_not_refused {document : Json} {before after : List (Json × Nat)}
    {item : Json × Nat} (heq : document.serialized 0 = before ++ item :: after)
    (hbefore : ∀ earlier ∈ before, ¬Refused options earlier) : item.2 ≤ options.maxDepth := by
  by_cases hitem : item.2 = options.maxDepth
  · exact Nat.le_of_eq hitem
  · have hnext : document.serialized 0 = (before ++ [item]) ++ after := by simpa using heq
    apply Nat.le_of_lt
    apply Json.depth_lt_of_serialized_eq hnext _ (List.mem_append_right _ List.mem_cons_self)
    intro other hother
    rcases List.mem_append.mp hother with hearlier | hlast
    · exact depth_ne_of_not_refused (hbefore other hearlier)
    · rw [List.mem_singleton.mp hlast]
      exact hitem

end Load

namespace Node

variable {options : LoadOptions} {document : Json}

/-- An object that names its type fails to load with the fault of the first refused node object. -/
theorem load_result_eq_error_iff (htype : document.HasType) {error : Located LoadFault} :
    (Node.load options document).result = .error error ↔
      ∃ before item after, document.nodeObjects 0 = before ++ item :: after ∧
        (∀ earlier ∈ before, ¬Load.Refused options earlier) ∧
        Load.RefusedFor options item error.fault ∧ error.span = item.1.span := by
  rw [load_result_eq_error_iff_findSome?, List.findSome?_eq_some_iff,
    Json.nodeObjects_eq_serialized 0 htype]
  refine exists_congr fun before => exists_congr fun item => exists_congr fun after => ?_
  rw [and_comm (a := Load.refusal? options item = some error)]
  refine and_congr_right fun heq => ?_
  rw [Load.forall_refusal?_eq_none_iff htype heq]
  refine and_congr_right fun hbefore => ?_
  have hitem : item.1.HasType := by
    apply Json.hasType_of_mem_serialized htype
    rw [heq]
    simp
  exact Load.refusal?_eq_some_iff hitem (Load.depth_le_of_not_refused heq hbefore)

/-- An object that names its type fails to load if and only if one of its node objects is refused.
-/
theorem exists_load_result_eq_error_iff (htype : document.HasType) :
    (∃ error, (Node.load options document).result = .error error) ↔
      ∃ item ∈ document.nodeObjects 0, Load.Refused options item := by
  have hread : (∀ item ∈ document.serialized 0, Load.refusal? options item = none) ↔
      ∀ item ∈ document.serialized 0, ¬Load.Refused options item :=
    Load.forall_refusal?_eq_none_iff htype (List.append_nil _).symm
  rw [Json.nodeObjects_eq_serialized 0 htype]
  simp only [load_result_eq_error_iff_findSome?]
  rw [← Option.isSome_iff_exists, ← Option.ne_none_iff_isSome, ne_eq, List.findSome?_eq_none_iff,
    hread]
  simp

/-- A document whose root is refused fails with the fault of the root. -/
theorem load_result_of_root_refused {error : Located LoadFault}
    (hroot : Load.refusal? options (document, 0) = some error) :
    (Node.load options document).result = .error error := by
  rw [load_result_eq_error_iff_findSome?, Json.serialized_eq, List.findSome?_cons, hroot]

theorem load_result_of_not_object (hobject : ∀ members, document ≠ .object members) :
    (Node.load options document).result = .error ⟨.expectedNode, Span.none⟩ :=
  load_result_of_root_refused (Load.refusal?_of_not_object 0 hobject)

theorem load_result_of_not_hasType {members : List (String × Json)}
    (hdepth : options.maxDepth ≠ 0) (htype : ¬(Json.object members).HasType) :
    (Node.load options (.object members)).result =
      .error ⟨.missingType, (Json.object members).span⟩ := by
  apply load_result_of_root_refused
  rw [Load.refusal?_of_not_hasType 0 htype, if_neg (by omega)]

theorem load_result_of_maxDepth_eq_zero {members : List (String × Json)}
    (hdepth : options.maxDepth = 0) :
    (Node.load options (.object members)).result =
      .error ⟨.tooDeep 0, (Json.object members).span⟩ := by
  apply load_result_of_root_refused
  by_cases htype : (Json.object members).HasType
  · obtain ⟨text, htext⟩ := htype
    rw [Load.refusal?_of_type 0 htext, hdepth, if_pos (Nat.le_refl 0)]
  · rw [Load.refusal?_of_not_hasType 0 htype, hdepth, if_pos (Nat.le_refl 0)]

/-- Below an object that names its type there are only two kinds of fault. -/
theorem fault_cases_of_hasType (htype : document.HasType) {error : Located LoadFault}
    (herror : (Node.load options document).result = .error error) :
    error.fault = .tooDeep options.maxDepth ∨ ∃ text, error.fault = .unknownType text := by
  obtain ⟨before, item, after, -, -, hrefused, -⟩ := (load_result_eq_error_iff htype).mp herror
  generalize error.fault = fault at hrefused
  cases hrefused with
  | tooDeep value => exact .inl rfl
  | unknownType hdepth hreject hfound hunknown => exact .inr ⟨_, rfl⟩

theorem ne_object_of_expectedNode {error : Located LoadFault}
    (herror : (Node.load options document).result = .error error)
    (hfault : error.fault = .expectedNode) : ∀ members, document ≠ .object members := by
  rintro members rfl
  by_cases htype : (Json.object members).HasType
  · rcases fault_cases_of_hasType htype herror with hcase | ⟨text, hcase⟩
    · cases hfault.symm.trans hcase
    · cases hfault.symm.trans hcase
  · by_cases hdepth : options.maxDepth = 0
    · rw [load_result_of_maxDepth_eq_zero hdepth] at herror
      cases herror
      cases hfault
    · rw [load_result_of_not_hasType hdepth htype] at herror
      cases herror
      cases hfault

theorem not_hasType_of_missingType {error : Located LoadFault}
    (herror : (Node.load options document).result = .error error)
    (hfault : error.fault = .missingType) : ¬document.HasType := by
  intro htype
  rcases fault_cases_of_hasType htype herror with hcase | ⟨text, hcase⟩
  · cases hfault.symm.trans hcase
  · cases hfault.symm.trans hcase

/-- What loading a document fails with. A root that is no object, a root object where no depth is
allowed and a root object without a type are at fault themselves. Otherwise loading fails if and
only if a node object stands at the limit or has a rejected type, and with the fault and the span of
the first such object in the order of the document. Nothing below the root is ever reported as no
node or as a node without a type. -/
theorem load_faults (options : LoadOptions) (document : Json) :
    ((Node.load options document).result = .error ⟨.expectedNode, Span.none⟩ ↔
      ∀ members, document ≠ .object members) ∧
    (∀ members, document = .object members →
      (options.maxDepth = 0 →
        (Node.load options document).result = .error ⟨.tooDeep 0, document.span⟩) ∧
      (options.maxDepth ≠ 0 →
        ((Node.load options document).result = .error ⟨.missingType, document.span⟩ ↔
          ¬document.HasType))) ∧
    (document.HasType →
      ((∃ error, (Node.load options document).result = .error error) ↔
        ∃ item ∈ document.nodeObjects 0, Load.Refused options item) ∧
      ∀ before item after fault, document.nodeObjects 0 = before ++ item :: after →
        (∀ earlier ∈ before, ¬Load.Refused options earlier) →
        Load.RefusedFor options item fault →
          (Node.load options document).result = .error ⟨fault, item.1.span⟩) ∧
    (∀ error, (Node.load options document).result = .error error →
      (error.fault = .expectedNode → ∀ members, document ≠ .object members) ∧
      (error.fault = .missingType → ¬document.HasType)) := by
  refine ⟨⟨?_, load_result_of_not_object⟩, ?_, ?_, ?_⟩
  · intro herror
    exact ne_object_of_expectedNode herror rfl
  · rintro members rfl
    refine ⟨load_result_of_maxDepth_eq_zero, fun hdepth => ⟨?_, ?_⟩⟩
    · intro herror
      exact not_hasType_of_missingType herror rfl
    · exact load_result_of_not_hasType hdepth
  · intro htype
    refine ⟨exists_load_result_eq_error_iff htype, ?_⟩
    intro before item after fault heq hbefore hrefused
    rw [load_result_eq_error_iff htype]
    exact ⟨before, item, after, heq, hbefore, hrefused, rfl⟩
  · intro error herror
    exact ⟨ne_object_of_expectedNode herror, not_hasType_of_missingType herror⟩

/-- A program whose second statement is of an unknown type. -/
def customStatement : Json :=
  .object [("type", .string "CustomStatement"), ("start", .number (Number.ofNat 7))]

def customProgram : Json :=
  .object [("type", .string "Program"), ("body", .array [.null, customStatement])]

theorem nodeObjects_customProgram :
    customProgram.nodeObjects 0 = [(customProgram, 0), (customStatement, 1)] := by
  rfl

/-- Where one node on a branch is allowed, the statement stands too deep before its type counts. -/
theorem load_faults_customProgram :
    customProgram.HasType ∧
      Load.RefusedFor ⟨.reject, 1⟩ (customStatement, 1) (.tooDeep 1) ∧
      (Node.load ⟨.reject, 1⟩ customProgram).result = .error ⟨.tooDeep 1, ⟨7, 7⟩⟩ := by
  have htype : customProgram.HasType := ⟨"Program", rfl⟩
  have hrefused : Load.RefusedFor ⟨.reject, 1⟩ (customStatement, 1) (.tooDeep 1) :=
    .tooDeep customStatement
  have hroot : ∀ earlier ∈ [(customProgram, 0)], ¬Load.Refused ⟨.reject, 1⟩ earlier := by
    rintro earlier hearlier ⟨fault, hearlierRefused⟩
    obtain rfl := List.mem_singleton.mp hearlier
    cases hearlierRefused with
    | unknownType hdepth hreject hfound hunknown =>
        cases hfound
        exact absurd hunknown (by decide)
  obtain ⟨-, -, hfirst, -⟩ := load_faults ⟨.reject, 1⟩ customProgram
  exact ⟨htype, hrefused, (hfirst htype).2 [(customProgram, 0)] (customStatement, 1) [] (.tooDeep 1)
    nodeObjects_customProgram hroot hrefused⟩

end Node

end NameRoles
