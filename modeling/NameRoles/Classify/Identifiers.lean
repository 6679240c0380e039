import NameRoles.Classify.Dialect
import NameRoles.Classify.Role

/-! Classifying all identifiers of a tree. Identifiers are taken in the order in which a walk visits
them, and the first one that has no dialect ends the classification. -/

namespace NameRoles

/-- Whether the node at a path carries a name to be classified. -/
def Path.isIdentifierLike (path : Path) : Bool :=
  path.type.satisfies Construct.isIdentifierLike

def Path.labels (path : Path) : Except (Located ClassifyFault) (Role × Dialect) :=
  path.dialect.map (path.role, ·)

/-- An identifier with its labels. One that carries no name has the empty name. -/
structure Identifier where
  name : String
  role : Role
  dialect : Dialect
  span : Span
deriving DecidableEq

/-- What has been classified and reported so far. -/
structure Classified where
  identifiers : Array Identifier
  events : Array Event

/-- Classifies the node at a path if it is an identifier. -/
def Classified.enter (classified : Classified) (path : Path) :
    Classified × Except (Located ClassifyFault) Unit :=
  if path.isIdentifierLike then
    let events := classified.events ++ (path.targetWrappers?.map Event.targetReachedSite).toList
    match path.labels with
    | .error error => ({ classified with events }, .error error)
    | .ok (role, dialect) =>
      let identifier := ⟨path.node.name.getD "", role, dialect, path.node.span⟩
      (⟨classified.identifiers.push identifier, events⟩, .ok ())
  else (classified, .ok ())

/-- Classifies all identifiers of a tree. -/
def Node.classify (root : Node) : Logged ClassifyFault (List Identifier) :=
  let begun := [.classificationOpened, .classificationEntered]
  let (classified, outcome) := root.tryTraverse Classified.enter ⟨#[], #[]⟩
  match outcome with
  | .error error => ⟨begun ++ classified.events.toList ++ [.classificationLeft], .error error⟩
  | .ok () =>
    let identifiers := classified.identifiers.toList
    ⟨begun ++ classified.events.toList ++
      [.identifiersCounted identifiers.length, .classificationLeft], .ok identifiers⟩

end NameRoles
