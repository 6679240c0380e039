import Mathlib.Data.List.TakeWhile
import NameRoles.Proofs.Classification
import NameRoles.Proofs.DeclaredTargets
import NameRoles.Proofs.Rules

/-! The events of a classification. Only the rule that looks out of all patterns around a name
reports anything, and it is not asked where an earlier rule has decided, as happens to the value of
a pair. So the log tells of the declared targets that are no such value, up to the node at which the
classification fails, and of the number of entries if it does not fail. -/

namespace NameRoles

namespace Path

/-- The node at a path is the value of a pair in an object pattern. -/
def IsPairValue (path : Path) : Prop :=
  path.isIn (.known .objectProperty) (.known .value) = true ∧
    path.ancestors[1]?.map Node.type = some (.known .objectPattern)

instance (path : Path) : Decidable path.IsPairValue :=
  inferInstanceAs (Decidable (_ ∧ _))

/-- A plain identifier that is a declared target, but not as the value of a pair. -/
def IsReported (path : Path) : Prop :=
  path.node.type = .known .identifier ∧ (∃ wrappers, path.DeclaredThrough wrappers) ∧
    ¬path.IsPairValue

instance (path : Path) : Decidable path.IsReported :=
  haveI : Decidable (∃ wrappers, path.DeclaredThrough wrappers) :=
    decidable_of_iff (path.isDeclaredTarget = true) isDeclaredTarget_iff
  inferInstanceAs (Decidable (_ ∧ _ ∧ _))

/-- An event that tells of a declared target how many patterns, one at least, are around it. -/
def Announces (path : Path) (event : Event) : Prop :=
  event.message? = some "destructuring target reaches binding site" ∧
    ∃ wrappers, path.DeclaredThrough wrappers ∧ 1 ≤ wrappers ∧ event = .targetReachedSite wrappers

theorem applies_patternValue_iff {path : Path} :
    Rule.patternValue.applies path = true ↔ path.IsPairValue := by
  obtain ⟨node, above⟩ := path
  cases above with
  | nil => simp [Rule.applies, IsPairValue, isIn_root]
  | cons step above =>
      have hgrandparent : (ancestors ⟨node, step :: above⟩)[1]?.map Node.type =
          above.head?.map (·.parent.type) :=
        grandparent_eq_head rfl Node.type
      simp only [Rule.applies, Rule.appliesAt, IsPairValue, Bool.and_eq_true, decide_eq_true_eq,
        Step.isPatternPair_iff, isIn_iff, hgrandparent]
      exact and_right_comm

theorem applies_declaredTarget_eq (path : Path) :
    Rule.declaredTarget.applies path = path.isDeclaredTarget := by
  rw [Rule.applies, isDeclaredTarget]
  cases path.above <;> rfl

/-- The rule for declared targets decides unless the target is the value of a pair: the two rules
before those give another role. -/
theorem rule?_eq_declaredTarget_iff {path : Path} :
    path.rule? = some .declaredTarget ↔ path.isDeclaredTarget = true ∧ ¬path.IsPairValue := by
  rw [← applies_patternValue_iff, ← applies_declaredTarget_eq, Bool.not_eq_true]
  constructor
  · intro hrule
    refine ⟨List.find?_some hrule, ?_⟩
    by_contra hvalue
    rw [Bool.not_eq_false] at hvalue
    rw [rule?, Rule.all, List.find?_cons, List.find?_cons, List.find?_cons, hvalue] at hrule
    split at hrule
    · cases hrule
    · split at hrule <;> cases hrule
  · rintro ⟨htarget, hvalue⟩
    have hmember : Rule.memberProperty.applies path = false :=
      Bool.eq_false_iff.mpr fun happlies =>
        absurd (Rule.role_eq_of_applies happlies htarget) (by decide)
    have hkey : Rule.patternKey.applies path = false :=
      Bool.eq_false_iff.mpr fun happlies =>
        absurd (Rule.role_eq_of_applies happlies htarget) (by decide)
    rw [rule?, Rule.all, List.find?_cons, hmember, List.find?_cons, hkey, List.find?_cons, hvalue,
      List.find?_cons, htarget]

theorem isReported_iff_rule? {path : Path} :
    path.IsReported ↔
      path.type = .known .identifier ∧ path.rule? = some .declaredTarget := by
  rw [IsReported, rule?_eq_declaredTarget_iff, isDeclaredTarget_iff, type]

/-- A reported identifier is a binding. -/
theorem role_of_isReported {path : Path} (hreported : path.IsReported) : path.role = .binding := by
  obtain ⟨htype, hrule⟩ := isReported_iff_rule?.mp hreported
  rw [role_of_identifier htype, plainRole, hrule]
  rfl

theorem reports_of_isReported {path : Path} (hreported : path.IsReported) :
    ∃ event, path.reports = [event] ∧ path.Announces event := by
  obtain ⟨wrappers, hdeclared⟩ := hreported.2.1
  obtain ⟨htype, hrule⟩ := isReported_iff_rule?.mp hreported
  refine ⟨.targetReachedSite wrappers, ?_, rfl, wrappers, hdeclared, hdeclared.pos, rfl⟩
  rw [reports, targetWrappers?, htype, hrule, hdeclared.wrapperCount_eq]
  rfl

theorem reports_of_not_isReported {path : Path} (hreported : ¬path.IsReported) :
    path.reports = [] := by
  rw [reports, targetWrappers?, if_neg]
  · rfl
  · rw [Bool.and_eq_true, decide_eq_true_eq, decide_eq_true_eq, ← isReported_iff_rule?]
    exact hreported

/-- What is reported about some paths is one event for each reported identifier among them. -/
theorem forall₂_announces (paths : List Path) :
    List.Forall₂ Announces (paths.filter (·.IsReported)) (paths.flatMap reports) := by
  induction paths with
  | nil => exact List.Forall₂.nil
  | cons path paths ih =>
      rw [List.flatMap_cons]
      by_cases hreported : path.IsReported
      · obtain ⟨event, hevent, hannounces⟩ := reports_of_isReported hreported
        rw [List.filter_cons_of_pos (by simpa using hreported), hevent]
        exact List.Forall₂.cons hannounces ih
      · rw [List.filter_cons_of_neg (by simpa using hreported),
          reports_of_not_isReported hreported]
        exact ih

theorem isOk_dialect_iff {path : Path} : path.dialect.isOk = true ↔ ¬path.IsStray := by
  constructor
  · intro hok hstray
    rw [dialect_of_isStray hstray] at hok
    cases hok
  · intro hstray
    obtain ⟨dialect, hdialect⟩ := dialect_of_not_isStray hstray
    rw [hdialect]
    rfl

end Path

namespace Node

/-- The nodes of a tree up to the first one without a dialect. -/
def classifiable (root : Node) : List Path :=
  root.occurrences.takeWhile fun path => path.dialect.isOk

theorem classifiable_of_first_isStray {root : Node} {before after : List Path} {path : Path}
    (heq : root.occurrences = before ++ path :: after)
    (hbefore : ∀ earlier ∈ before, ¬earlier.IsStray) (hstray : path.IsStray) :
    root.classifiable = before := by
  have hpassed : ∀ earlier ∈ before, earlier.dialect.isOk = true := fun earlier hmem =>
    Path.isOk_dialect_iff.mpr (hbefore earlier hmem)
  have hlast : (path :: after).takeWhile (fun path => path.dialect.isOk) = [] :=
    List.takeWhile_cons_of_neg fun hok => Path.isOk_dialect_iff.mp hok hstray
  rw [classifiable, heq, List.takeWhile_append_of_pos hpassed, hlast, List.append_nil]

theorem classifiable_of_not_isStray {root : Node}
    (hstray : ∀ path ∈ root.occurrences, ¬path.IsStray) : root.classifiable = root.occurrences :=
  List.takeWhile_eq_self_iff.mpr fun path hmem => Path.isOk_dialect_iff.mpr (hstray path hmem)

/-- A classification reports that it begins, then the declared targets among the nodes up to the
first one without a dialect, and that it ends; before that, it reports the number of its entries if
and only if it does not fail. All that is reported as a declared target is a binding. -/
theorem classify_events (root : Node) :
    (∃ reported, root.classify.events =
        [.classificationOpened, .classificationEntered] ++ reported ++
          (match root.classify.result with
            | .ok entries => [.identifiersCounted entries.length]
            | .error _ => []) ++ [.classificationLeft] ∧
      List.Forall₂ Path.Announces (root.classifiable.filter (·.IsReported)) reported) ∧
    (∀ entries, root.classify.result = .ok entries → root.classifiable = root.occurrences) ∧
    ∀ path ∈ root.classifiable, path.IsReported → path.role = .binding := by
  refine ⟨⟨root.classifiable.flatMap Path.reports, ?_, Path.forall₂_announces _⟩, ?_, ?_⟩
  · by_cases hstray : ∃ path ∈ root.occurrences, path.IsStray
    · obtain ⟨before, path, after, heq, hbefore, hfirst⟩ := Path.exists_first_isStray hstray
      rw [classifiable_of_first_isStray heq hbefore hfirst,
        classify_of_first_isStray heq hbefore hfirst, List.append_nil]
    · push Not at hstray
      rw [classifiable_of_not_isStray hstray, classify_of_not_isStray hstray,
        List.append_assoc _ [_]]
      rfl
  · intro entries hentries
    exact classifiable_of_not_isStray (not_isStray_of_classify_ok hentries)
  · intro path _ hreported
    exact Path.role_of_isReported hreported

end Node

end NameRoles
