import NameRoles.Proofs.Wrapping

/-! Targets of declarations. The way out of the patterns around a target runs to the outermost of
them and asks only there for a declaration. Since a declaration is no pattern, it makes no
difference whether the way ends with the outermost pattern or with the first declaration; the number
of patterns on it is the difference in depth between its two ends. -/

namespace NameRoles

namespace Path

/-- The path of the ancestor that is the given number of steps above. A node is no step above
itself. -/
def ancestorPath? : Nat → Path → Option Path
  | 0, path => some path
  | _ + 1, ⟨_, []⟩ => none
  | count + 1, ⟨_, step :: above⟩ => ancestorPath? count ⟨step.parent, above⟩

/-- `path.DeclaredThrough wrappers`: the node at a path and its ancestors are what the pattern
around them takes apart for the first `wrappers` steps up, of which there is at least one, and the
step behind them leads to a declaration. -/
structure DeclaredThrough (path : Path) (wrappers : Nat) : Prop where
  pos : 0 < wrappers
  wrapped : ∀ i < wrappers, ∃ inner, path.ancestorPath? i = some inner ∧ inner.IsWrapped
  declared : ∃ outermost, path.ancestorPath? wrappers = some outermost ∧ outermost.AtBindingSite

/-- Whether the way out of the patterns around a target meets a declaration, where it ends with the
first one. -/
def meetsBindingSite : List Step → Bool
  | [] => false
  | step :: above =>
    step.wraps above && (above.head?.any Step.isBindingSite || meetsBindingSite above)

theorem ancestorPath?_succ {path next : Path} (hnext : path.enclosingPattern? = some next)
    (count : Nat) : path.ancestorPath? (count + 1) = next.ancestorPath? count := by
  have hwrapped := isWrapped_of_enclosingPattern? hnext
  obtain ⟨node, above⟩ := path
  cases above with
  | nil => simp [IsWrapped, isIn_root] at hwrapped
  | cons step above =>
      rw [enclosingPattern?, if_pos hwrapped] at hnext
      obtain rfl := Option.some.inj hnext
      rfl

/-- The way out of patterns passes ancestors each of which is taken apart by the next. -/
theorem climbs_iff {path outer : Path} {count : Nat} :
    path.Climbs count outer ↔
      path.ancestorPath? count = some outer ∧
        ∀ i < count, ∃ inner, path.ancestorPath? i = some inner ∧ inner.IsWrapped := by
  constructor
  · intro hclimbs
    induction hclimbs with
    | stay path => exact ⟨rfl, fun i hi => absurd hi (Nat.not_lt_zero i)⟩
    | @up path next outer count hnext _ ih =>
        refine ⟨(ancestorPath?_succ hnext count).trans ih.1, ?_⟩
        intro i hi
        cases i with
        | zero => exact ⟨path, rfl, isWrapped_of_enclosingPattern? hnext⟩
        | succ i =>
            rw [ancestorPath?_succ hnext]
            exact ih.2 i (Nat.lt_of_succ_lt_succ hi)
  · rintro ⟨houter, hwrapped⟩
    induction count generalizing path with
    | zero =>
        obtain rfl := Option.some.inj houter
        exact .stay path
    | succ count ih =>
        obtain ⟨inner, hinner, hinnermost⟩ := hwrapped 0 (Nat.succ_pos count)
        obtain rfl := Option.some.inj hinner
        obtain ⟨next, hnext⟩ : ∃ next, path.enclosingPattern? = some next := by
          rw [← Option.ne_none_iff_exists']
          exact fun hnone => enclosingPattern?_eq_none_iff.mp hnone hinnermost
        refine .up hnext (ih ?_ ?_)
        · rw [← ancestorPath?_succ hnext, houter]
        · intro i hi
          rw [← ancestorPath?_succ hnext]
          exact hwrapped (i + 1) (Nat.succ_lt_succ hi)

theorem declaredThrough_iff {path : Path} {wrappers : Nat} :
    path.DeclaredThrough wrappers ↔
      0 < wrappers ∧ ∃ outermost, path.Climbs wrappers outermost ∧ outermost.AtBindingSite := by
  constructor
  · rintro ⟨hpos, hwrapped, outermost, houtermost, hsite⟩
    exact ⟨hpos, outermost, climbs_iff.mpr ⟨houtermost, hwrapped⟩, hsite⟩
  · rintro ⟨hpos, outermost, hclimbs, hsite⟩
    obtain ⟨houtermost, hwrapped⟩ := climbs_iff.mp hclimbs
    exact ⟨hpos, hwrapped, outermost, houtermost, hsite⟩

theorem Climbs.depth_eq {path outer : Path} {count : Nat} (hclimbs : path.Climbs count outer) :
    path.depth = outer.depth + count := by
  induction hclimbs with
  | stay path => rfl
  | up hnext _ ih =>
      obtain ⟨step, habove⟩ := above_of_enclosingPattern? hnext
      rw [depth, habove, List.length_cons, ← Nat.add_assoc, ← ih, depth]

theorem isDeclaredTarget_iff {path : Path} :
    path.isDeclaredTarget = true ↔ ∃ wrappers, path.DeclaredThrough wrappers := by
  constructor
  · intro htarget
    obtain ⟨wrappers, outermost, hclimbs, hlast⟩ := path.exists_climbs
    obtain ⟨hpos, hsite⟩ := (hclimbs.reachesBindingSite_iff hlast).mp htarget
    exact ⟨wrappers, declaredThrough_iff.mpr ⟨hpos, outermost, hclimbs, hsite⟩⟩
  · rintro ⟨wrappers, hdeclared⟩
    obtain ⟨hpos, outermost, hclimbs, hsite⟩ := declaredThrough_iff.mp hdeclared
    exact (hclimbs.reachesBindingSite_iff (not_isWrapped_of_atBindingSite hsite)).mpr ⟨hpos, hsite⟩

/-- A declaration is reached through all patterns around a target. -/
theorem DeclaredThrough.wrapperCount_eq {path : Path} {wrappers : Nat}
    (hdeclared : path.DeclaredThrough wrappers) : path.wrapperCount = wrappers := by
  obtain ⟨-, outermost, hclimbs, hsite⟩ := declaredThrough_iff.mp hdeclared
  exact hclimbs.wrapperCount_eq (not_isWrapped_of_atBindingSite hsite)

theorem meetsBindingSite_of_not_isWrapped {path : Path} (hwrapped : ¬path.IsWrapped) :
    meetsBindingSite path.above = false := by
  obtain ⟨node, above⟩ := path
  cases above with
  | nil => rfl
  | cons step above =>
      rw [← Step.wraps_iff, Bool.not_eq_true] at hwrapped
      rw [meetsBindingSite, hwrapped, Bool.false_and]

/-- One step of the way out that ends with the first declaration. -/
theorem meetsBindingSite_iff {path next : Path} (hnext : path.enclosingPattern? = some next) :
    meetsBindingSite path.above = true ↔
      next.AtBindingSite ∨ meetsBindingSite next.above = true := by
  have hwrapped := isWrapped_of_enclosingPattern? hnext
  obtain ⟨step, habove⟩ := above_of_enclosingPattern? hnext
  obtain ⟨node, above⟩ := path
  obtain rfl : above = step :: next.above := habove
  rw [← Step.wraps_iff] at hwrapped
  rw [meetsBindingSite, hwrapped, Bool.true_and, Bool.or_eq_true, atBindingSite_iff]

/-- A pattern that stands in another is not what a declaration holds, so only the outermost counts.
-/
theorem Climbs.meetsBindingSite_iff {path outer : Path} {count : Nat}
    (hclimbs : path.Climbs count outer) (hlast : ¬outer.IsWrapped) :
    meetsBindingSite path.above = true ↔ 0 < count ∧ outer.AtBindingSite := by
  induction hclimbs with
  | stay path => simp [meetsBindingSite_of_not_isWrapped hlast]
  | @up path next outer count hnext hclimbs ih =>
      rw [Path.meetsBindingSite_iff hnext, ih hlast]
      cases hclimbs with
      | stay path => simp
      | up hfurther _ =>
          have hsite : ¬next.AtBindingSite := fun hsite =>
            not_isWrapped_of_atBindingSite hsite (isWrapped_of_enclosingPattern? hfurther)
          simp [hsite]

/-- A target is declared if and only if one or more patterns, each within the next, separate it from
a declaration. Their number is then determined, the way out ends at the outermost of them, and the
difference in depth is their number. Ending the way out with the first declaration gives the same
answer. -/
theorem isDeclaredTarget_declaredThrough (path : Path) :
    (path.isDeclaredTarget = true ↔ ∃ wrappers, path.DeclaredThrough wrappers) ∧
    (∀ wrappers, path.DeclaredThrough wrappers →
      (∀ other, path.DeclaredThrough other → other = wrappers) ∧
      ∃ outermost, path.ancestorPath? wrappers = some outermost ∧
        climbPatterns 0 path.above = (wrappers, outermost.above) ∧
        outermost.depth ≤ path.depth ∧ path.depth - outermost.depth = wrappers) ∧
    meetsBindingSite path.above = path.isDeclaredTarget := by
  refine ⟨isDeclaredTarget_iff, ?_, ?_⟩
  · intro wrappers hdeclared
    constructor
    · intro other hother
      rw [← hother.wrapperCount_eq, hdeclared.wrapperCount_eq]
    · obtain ⟨-, outermost, hclimbs, hsite⟩ := declaredThrough_iff.mp hdeclared
      have hlast := not_isWrapped_of_atBindingSite hsite
      have hdepth := hclimbs.depth_eq
      refine ⟨outermost, (climbs_iff.mp hclimbs).1, ?_, by omega, by omega⟩
      rw [hclimbs.climbPatterns_eq, climbPatterns_of_not_isWrapped _ hlast, Nat.zero_add]
  · obtain ⟨wrappers, outermost, hclimbs, hlast⟩ := path.exists_climbs
    rw [Bool.eq_iff_iff, isDeclaredTarget, hclimbs.meetsBindingSite_iff hlast,
      hclimbs.reachesBindingSite_iff hlast]

end Path

end NameRoles
