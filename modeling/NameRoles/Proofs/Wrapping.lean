import Mathlib.Tactic.ByContra
import NameRoles.Classify.Pattern

/-! Patterns around patterns. Whether a node stands in a slot through which a pattern takes a value
apart is said here of its path, and so is whether it stands where a declaration introduces names.
The way out of all patterns leads from a path to its enclosing pattern for as long as there is one,
and a declaration never counts as a pattern on this way. -/

namespace NameRoles

/-- The part in which a construct of a pattern holds what it takes apart. -/
def Construct.targetPart? : Construct → Option Part
  | objectPattern => some .properties
  | objectProperty => some .value
  | arrayPattern => some .elements
  | assignmentPattern => some .left
  | restElement => some .argument
  | _ => none

namespace Path

/-- Whether the node at a path is what the pattern around it takes apart. A pair counts as part of a
pattern only within an object pattern. -/
def IsWrapped (path : Path) : Prop :=
  path.isIn (.known .objectPattern) (.known .properties) = true ∨
  path.isIn (.known .arrayPattern) (.known .elements) = true ∨
  path.isIn (.known .restElement) (.known .argument) = true ∨
  path.isIn (.known .assignmentPattern) (.known .left) = true ∨
  (path.isIn (.known .objectProperty) (.known .value) = true ∧
    path.ancestors[1]?.map Node.type = some (.known .objectPattern))

instance (path : Path) : Decidable path.IsWrapped :=
  inferInstanceAs (Decidable (_ ∨ _ ∨ _ ∨ _ ∨ (_ ∧ _)))

/-- Whether the node at a path is declared by what holds it: it is the name of a variable or a
parameter of a function. -/
def AtBindingSite (path : Path) : Prop :=
  path.isIn (.known .variableDeclarator) (.known .id) = true ∨
    ∃ construct : Construct, construct.isFunction = true ∧
      path.isIn (.known construct) (.known .params) = true

/-- The path of the pattern that takes the node at a path apart. -/
def enclosingPattern? (path : Path) : Option Path :=
  if path.IsWrapped then path.above.head?.map fun step => ⟨step.parent, path.above.tail⟩ else none

theorem isIn_iff {node : Node} {step : Step} {above : List Step} {type : NodeType} {field : Field} :
    isIn type field ⟨node, step :: above⟩ = true ↔
      step.parent.type = type ∧ step.field = field := by
  simp [isIn, Step.isIn]

theorem isIn_child {path : Path} {held : Node} {slot field : Field} {type : NodeType} :
    (path.child slot held).isIn type field = true ↔ path.type = type ∧ slot = field :=
  isIn_iff

theorem isIn_root (type : NodeType) (field : Field) (node : Node) :
    isIn type field ⟨node, []⟩ = false :=
  rfl

theorem grandparent_eq_head {path : Path} {step : Step} {above : List Step}
    (habove : path.above = step :: above) {α : Type} (read : Node → α) :
    path.ancestors[1]?.map read = above.head?.map fun next => read next.parent := by
  rw [ancestors, habove, List.map_cons, List.getElem?_cons_succ]
  cases above <;> rfl

end Path

namespace Step

theorem joins_singleton {step : Step} {construct : Construct} {part : Part} :
    step.joins [construct] [part] = true ↔
      step.parent.type = .known construct ∧ step.field = .known part := by
  simp [joins]

theorem isPatternPair_iff {step : Step} {above : List Step} :
    step.isPatternPair above = true ↔
      step.parent.type = .known .objectProperty ∧
        above.head?.map (·.parent.type) = some (.known .objectPattern) := by
  cases above with
  | nil => simp [isPatternPair]
  | cons next above => simp [isPatternPair]

theorem wraps_iff (node : Node) {step : Step} {above : List Step} :
    step.wraps above = true ↔ Path.IsWrapped ⟨node, step :: above⟩ := by
  have hgrandparent : (Path.ancestors ⟨node, step :: above⟩)[1]?.map Node.type =
      above.head?.map (·.parent.type) :=
    Path.grandparent_eq_head rfl Node.type
  simp only [wraps, Path.IsWrapped, Bool.or_eq_true, Bool.and_eq_true, decide_eq_true_eq,
    joins_singleton, isPatternPair_iff, Path.isIn_iff, hgrandparent]
  rw [or_assoc, or_assoc, or_assoc, and_right_comm]

theorem isBindingSite_iff (node : Node) {step : Step} {above : List Step} :
    step.isBindingSite = true ↔ Path.AtBindingSite ⟨node, step :: above⟩ := by
  simp only [isBindingSite, Path.AtBindingSite, Bool.or_eq_true, Bool.and_eq_true,
    decide_eq_true_eq, joins_singleton, Path.isIn_iff]
  constructor
  · rintro (hvariable | ⟨hfunction, hfield⟩)
    · exact Or.inl hvariable
    · cases htype : step.parent.type with
      | known construct =>
          rw [htype] at hfunction
          exact Or.inr ⟨construct, hfunction, rfl, hfield⟩
      | other name =>
          rw [htype] at hfunction
          cases hfunction
  · rintro (hvariable | ⟨construct, hfunction, htype, hfield⟩)
    · exact Or.inl hvariable
    · rw [htype]
      exact Or.inr ⟨hfunction, hfield⟩

end Step

namespace Path

theorem atBindingSite_iff (path : Path) :
    path.AtBindingSite ↔ path.above.head?.any Step.isBindingSite = true := by
  obtain ⟨node, above⟩ := path
  cases above with
  | nil => simp [AtBindingSite, isIn_root]
  | cons step above => rw [← Step.isBindingSite_iff node, List.head?_cons, Option.any_some]

theorem targetPart?_of_isWrapped {path : Path} (hwrapped : path.IsWrapped) :
    ∃ construct part, path.isIn (.known construct) (.known part) = true ∧
      construct.targetPart? = some part := by
  rcases hwrapped with hin | hin | hin | hin | ⟨hin, -⟩
  · exact ⟨.objectPattern, .properties, hin, rfl⟩
  · exact ⟨.arrayPattern, .elements, hin, rfl⟩
  · exact ⟨.restElement, .argument, hin, rfl⟩
  · exact ⟨.assignmentPattern, .left, hin, rfl⟩
  · exact ⟨.objectProperty, .value, hin, rfl⟩

/-- What stands in a target part is wrapped, but for the value of a pair outside of an object
pattern. -/
theorem isWrapped_child {path : Path} {construct : Construct} {part : Part} (child : Node)
    (htype : path.type = .known construct) (hpart : construct.targetPart? = some part)
    (hpair : construct = .objectProperty →
      path.parent?.map Node.type = some (.known .objectPattern)) :
    (path.child (.known part) child).IsWrapped := by
  have hin : (path.child (.known part) child).isIn (.known construct) (.known part) = true :=
    isIn_child.mpr ⟨htype, rfl⟩
  cases construct <;> cases hpart
  case objectPattern => exact Or.inl hin
  case arrayPattern => exact Or.inr (Or.inl hin)
  case restElement => exact Or.inr (Or.inr (Or.inl hin))
  case assignmentPattern => exact Or.inr (Or.inr (Or.inr (Or.inl hin)))
  case objectProperty =>
    refine Or.inr (Or.inr (Or.inr (Or.inr ⟨hin, ?_⟩)))
    rw [← hpair rfl]
    cases habove : path.above <;> simp [ancestors, Path.child, parent?, habove]

theorem parent_type_of_isIn {path : Path} {type : NodeType} {field : Field}
    (hin : path.isIn type field = true) : path.parent?.map Node.type = some type := by
  obtain ⟨node, above⟩ := path
  cases above with
  | nil => cases hin
  | cons step above =>
      rw [parent?, List.head?_cons, Option.map_some, Option.map_some, (isIn_iff.mp hin).1]

/-- A declaration does not take its names apart. -/
theorem not_isWrapped_of_atBindingSite {path : Path} (hsite : path.AtBindingSite) :
    ¬path.IsWrapped := by
  intro hwrapped
  obtain ⟨construct, part, hin, hpart⟩ := targetPart?_of_isWrapped hwrapped
  have htype := parent_type_of_isIn hin
  rcases hsite with hvariable | ⟨function, hfunction, hparams⟩
  · rw [parent_type_of_isIn hvariable] at htype
    cases htype
    cases hpart
  · rw [parent_type_of_isIn hparams] at htype
    cases htype
    cases construct <;> cases hpart <;> cases hfunction

theorem climbPatterns_of_isWrapped (climbed : Nat) {path : Path} {step : Step} {above : List Step}
    (habove : path.above = step :: above) (hwrapped : path.IsWrapped) :
    climbPatterns climbed path.above = climbPatterns (climbed + 1) above := by
  obtain ⟨node, steps⟩ := path
  cases habove
  rw [climbPatterns, if_pos ((Step.wraps_iff node).mpr hwrapped)]

theorem climbPatterns_of_not_isWrapped (climbed : Nat) {path : Path}
    (hwrapped : ¬path.IsWrapped) : climbPatterns climbed path.above = (climbed, path.above) := by
  obtain ⟨node, steps⟩ := path
  cases steps with
  | nil => rfl
  | cons step above =>
      rw [climbPatterns, if_neg fun hwraps => hwrapped ((Step.wraps_iff node).mp hwraps)]

theorem enclosingPattern?_eq_none_iff {path : Path} :
    path.enclosingPattern? = none ↔ ¬path.IsWrapped := by
  obtain ⟨node, above⟩ := path
  cases above with
  | nil => simp [enclosingPattern?, IsWrapped, isIn_root]
  | cons step above => simp [enclosingPattern?]

theorem isWrapped_of_enclosingPattern? {path outer : Path}
    (houter : path.enclosingPattern? = some outer) : path.IsWrapped := by
  by_contra hwrapped
  rw [enclosingPattern?_eq_none_iff.mpr hwrapped] at houter
  cases houter

/-- The enclosing pattern is one step up. -/
theorem above_of_enclosingPattern? {path outer : Path}
    (houter : path.enclosingPattern? = some outer) :
    ∃ step, path.above = step :: outer.above := by
  rw [enclosingPattern?, if_pos (isWrapped_of_enclosingPattern? houter)] at houter
  cases habove : path.above with
  | nil => simp [habove] at houter
  | cons step above =>
      simp only [habove, List.head?_cons, Option.map_some, Option.some.injEq] at houter
      exact ⟨step, by rw [← houter, List.tail_cons]⟩

theorem enclosingPattern?_child {path : Path} {field : Field} {held : Node}
    (hwrapped : (path.child field held).IsWrapped) :
    (path.child field held).enclosingPattern? = some path :=
  if_pos hwrapped

/-- `path.Climbs count outer`: taking the enclosing pattern `count` times leads from `path` to
`outer`. -/
inductive Climbs : Path → Nat → Path → Prop
  | stay (path : Path) : path.Climbs 0 path
  | up {path next outer : Path} {count : Nat} (hnext : path.enclosingPattern? = some next)
      (hclimbs : next.Climbs count outer) : path.Climbs (count + 1) outer

theorem Climbs.climbPatterns_eq {path outer : Path} {count : Nat}
    (hclimbs : path.Climbs count outer) (climbed : Nat) :
    climbPatterns climbed path.above = climbPatterns (climbed + count) outer.above := by
  induction hclimbs generalizing climbed with
  | stay => rfl
  | up hnext _ ih =>
      obtain ⟨step, habove⟩ := above_of_enclosingPattern? hnext
      rw [climbPatterns_of_isWrapped climbed habove (isWrapped_of_enclosingPattern? hnext), ih,
        Nat.add_right_comm, Nat.add_assoc]

/-- Every path has a way out of all patterns around it. -/
theorem exists_climbs (path : Path) :
    ∃ count outer, path.Climbs count outer ∧ ¬outer.IsWrapped := by
  induction hlength : path.above.length using Nat.strongRecOn generalizing path with
  | ind length ih =>
      cases hnext : path.enclosingPattern? with
      | none => exact ⟨0, path, .stay path, enclosingPattern?_eq_none_iff.mp hnext⟩
      | some next =>
          obtain ⟨step, habove⟩ := above_of_enclosingPattern? hnext
          have hlt : next.above.length < length := by
            rw [← hlength, habove]
            exact Nat.lt_succ_self _
          obtain ⟨count, outer, hclimbs, hlast⟩ := ih _ hlt next rfl
          exact ⟨count + 1, outer, .up hnext hclimbs, hlast⟩

theorem Climbs.wrapperCount_eq {path outer : Path} {count : Nat}
    (hclimbs : path.Climbs count outer) (hlast : ¬outer.IsWrapped) :
    path.wrapperCount = count := by
  rw [wrapperCount, hclimbs.climbPatterns_eq, climbPatterns_of_not_isWrapped _ hlast]
  exact Nat.zero_add count

/-- The way out of all patterns reaches a binding site if it leads out of at least one pattern and
the outermost is declared. -/
theorem Climbs.reachesBindingSite_iff {path outer : Path} {count : Nat}
    (hclimbs : path.Climbs count outer) (hlast : ¬outer.IsWrapped) :
    reachesBindingSite path.above = true ↔ 0 < count ∧ outer.AtBindingSite := by
  rw [reachesBindingSite, hclimbs.climbPatterns_eq, climbPatterns_of_not_isWrapped _ hlast,
    atBindingSite_iff]
  simp

end Path

end NameRoles
