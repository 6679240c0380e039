import NameRoles.Tree.Node

/-! Faults of loading and of classifying a tree, the codes and wordings under which they are
reported, and the events that both report on the way. -/

namespace NameRoles

/-- Faults that are reported under a code of their own. -/
class Diagnostic (φ : Type) where
  code : φ → String
  message : φ → String

/-- A fault together with the span of the construct that has it. -/
structure Located (φ : Type) where
  fault : φ
  span : Span
deriving DecidableEq

namespace Located

variable {φ : Type} [Diagnostic φ]

/-- The report of a fault without its place. -/
def display (located : Located φ) : String :=
  s!"{Diagnostic.code located.fault}: {Diagnostic.message located.fault}"

/-- The report of a fault with its place. -/
def debug (located : Located φ) : String :=
  s!"{located.display} around loc [{located.span.start}:{located.span.stop}]"

/-- Whether two faults agree, wherever they are. -/
def agrees [DecidableEq φ] (first second : Located φ) : Bool :=
  first.fault = second.fault

end Located

/-- Why a document cannot be loaded as a tree. -/
inductive LoadFault where
  | expectedNode
  | missingType
  | unknownType (name : String)
  | tooDeep (limit : Nat)
  | malformedJson (reason : String)
deriving DecidableEq

instance : Diagnostic LoadFault where
  code
    | .expectedNode => "IL0001"
    | .missingType => "IL0002"
    | .unknownType _ => "IL0003"
    | .tooDeep _ => "IL0004"
    | .malformedJson _ => "IL0005"
  message
    | .expectedNode => "expected an object with a `type` field"
    | .missingType => "node has no string `type` field"
    | .unknownType name => s!"unknown node type {name}"
    | .tooDeep limit => s!"tree nests deeper than {limit} nodes"
    | .malformedJson reason => s!"malformed JSON: {reason}"

/-- Why an identifier cannot be classified: its surroundings do not tell which dialect a type
parameter belongs to. They are given by the name of the parent's type, if there is a parent. -/
inductive ClassifyFault where
  | strayTypeParameter (parent : Option String)
deriving DecidableEq

instance : Diagnostic ClassifyFault where
  code
    | .strayTypeParameter _ => "IC0001"
  message
    | .strayTypeParameter (some parent) =>
      s!"cannot determine grammar of type parameter inside {parent}"
    | .strayTypeParameter none => "cannot determine grammar of type parameter without a parent"

/-- What loading and classifying report while they run. -/
inductive Event where
  | keptUnknownType (type : String)
  | classificationOpened
  | classificationEntered
  | targetReachedSite (wrappers : Nat)
  | identifiersCounted (count : Nat)
  | classificationLeft
deriving DecidableEq

/-- The wording of an event. The events that frame a classification have none. -/
def Event.message? : Event → Option String
  | keptUnknownType _ => some "keeping unknown node type opaque"
  | targetReachedSite _ => some "destructuring target reaches binding site"
  | _ => none

/-- An outcome and the events that led to it. A failure keeps the events before it. -/
structure Logged (φ α : Type) where
  events : List Event
  result : Except (Located φ) α

end NameRoles
