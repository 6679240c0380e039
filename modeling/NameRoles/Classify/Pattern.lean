import NameRoles.Tree.Path

/-! Destructuring. A target such as `a` in `let [{b: a}] = c` stands in patterns within patterns. It
is declared if the outermost of them stands where names are introduced; the same patterns on the
left of an assignment declare nothing. -/

namespace NameRoles

namespace Step

/-- Whether a step leads from one of the given parts to one of the given constructs. -/
def joins (step : Step) (constructs : List Construct) (parts : List Part) : Bool :=
  constructs.any (fun construct => step.parent.type = .known construct) &&
    parts.any fun part => step.field = .known part

/-- Whether a step, with the steps above it, leads from a pair to the object pattern around it. -/
def isPatternPair (step : Step) (above : List Step) : Bool :=
  step.parent.type = .known .objectProperty &&
    above.head?.any (·.parent.type = .known .objectPattern)

/-- Whether a step, with the steps above it, leads from a target to the pattern around it. -/
def wraps (step : Step) (above : List Step) : Bool :=
  step.joins [.objectPattern] [.properties] ||
  step.joins [.arrayPattern] [.elements] ||
  step.joins [.restElement] [.argument] ||
  step.joins [.assignmentPattern] [.left] ||
  (step.isPatternPair above && step.field = .known .value)

/-- Whether a step leads to a construct that declares the names in a pattern. -/
def isBindingSite (step : Step) : Bool :=
  step.joins [.variableDeclarator] [.id] ||
  (step.parent.type.satisfies Construct.isFunction && step.field = .known .params)

end Step

namespace Path

/-- Climbs out of all patterns around a target. The results are the number of steps and the steps
above the outermost pattern. -/
def climbPatterns (climbed : Nat) : List Step → Nat × List Step
  | [] => (climbed, [])
  | step :: above =>
    if step.wraps above then climbPatterns (climbed + 1) above else (climbed, step :: above)

/-- The number of patterns around the node of a path, each within the next. -/
def wrapperCount (path : Path) : Nat :=
  (climbPatterns 0 path.above).1

/-- Whether steps lead out of at least one pattern and from the outermost to a binding site. -/
def reachesBindingSite (steps : List Step) : Bool :=
  let (wrappers, above) := climbPatterns 0 steps
  0 < wrappers && above.head?.any Step.isBindingSite

/-- Whether the node of a path is a target in a pattern that is declared. -/
def isDeclaredTarget (path : Path) : Bool :=
  reachesBindingSite path.above

end Path

end NameRoles
