/-! The two labels of an identifier: the role that it plays, and the dialect of the construct in
which it stands. -/

namespace NameRoles

/-- The role of an identifier. A binding introduces a name, a reference reads one, and a static name
is neither: the key of a property, a name on the far side of an import, a member of a type. -/
inductive Role where
  | binding
  | reference
  | static
deriving DecidableEq

/-- The dialect that a construct belongs to. -/
inductive Dialect where
  | javaScript
  | jsx
  | flow
  | typeScript
deriving DecidableEq

/-- A type of labels with a text for each. -/
class Labels (α : Type) where
  all : List α
  text : α → String

instance : Labels Role where
  all := [.binding, .reference, .static]
  text
    | .binding => "binding"
    | .reference => "reference"
    | .static => "static"

instance : Labels Dialect where
  all := [.javaScript, .jsx, .flow, .typeScript]
  text
    | .javaScript => "javascript"
    | .jsx => "jsx"
    | .flow => "flow"
    | .typeScript => "typescript"

/-- A text that is no label, and the labels that it could have been. -/
structure UnknownLabel where
  text : String
  expected : List String

def UnknownLabel.message (unknown : UnknownLabel) : String :=
  let expected := ", ".intercalate (unknown.expected.map fun label => s!"`{label}`")
  s!"unknown variant `{unknown.text}`, expected one of {expected}"

def Labels.ofText (α : Type) [Labels α] (wanted : String) : Except UnknownLabel α :=
  match (all : List α).find? (text · == wanted) with
  | some label => .ok label
  | none => .error ⟨wanted, (all : List α).map text⟩

end NameRoles
