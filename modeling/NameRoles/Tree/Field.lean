import NameRoles.Tree.NodeType

/-! The slots in which nodes hold their children. As with node types, the parts that matter to the
classification are known by name, and every other slot is kept as the text that names it. -/

namespace NameRoles

/-- A part of a construct that is known by name. A part that holds several children, such as the
parameters of a function, names the whole list. -/
inductive Part where
  | argument | attributes | body | children | closingElement | constraint | declaration
  | declarations | elements | expression | exprName | exported | id | imported | init | key
  | label | left | localName | metaName | name | namespaceName | object | openingElement | param
  | parameters | params | program | properties | property | qualification | right | source
  | specifiers | superClass | superTypeParameters | annotatedType | typeName | typeParameter
  | typeParameters | value
deriving DecidableEq, Inhabited

namespace Part

/-- The name of a part as serialized trees spell it. -/
def text : Part → String
  | argument => "argument"
  | attributes => "attributes"
  | body => "body"
  | children => "children"
  | closingElement => "closingElement"
  | constraint => "constraint"
  | declaration => "declaration"
  | declarations => "declarations"
  | elements => "elements"
  | expression => "expression"
  | exprName => "exprName"
  | exported => "exported"
  | id => "id"
  | imported => "imported"
  | init => "init"
  | key => "key"
  | label => "label"
  | left => "left"
  | localName => "local"
  | metaName => "meta"
  | name => "name"
  | namespaceName => "namespace"
  | object => "object"
  | openingElement => "openingElement"
  | param => "param"
  | parameters => "parameters"
  | params => "params"
  | program => "program"
  | properties => "properties"
  | property => "property"
  | qualification => "qualification"
  | right => "right"
  | source => "source"
  | specifiers => "specifiers"
  | superClass => "superClass"
  | superTypeParameters => "superTypeParameters"
  | annotatedType => "typeAnnotation"
  | typeName => "typeName"
  | typeParameter => "typeParameter"
  | typeParameters => "typeParameters"
  | value => "value"

def all : List Part :=
  [argument, attributes, body, children, closingElement, constraint, declaration, declarations,
   elements, expression, exprName, exported, id, imported, init, key, label, left, localName,
   metaName, name, namespaceName, object, openingElement, param, parameters, params, program,
   properties, property, qualification, right, source, specifiers, superClass,
   superTypeParameters, annotatedType, typeName, typeParameter, typeParameters, value]

def ofText? (text : String) : Option Part :=
  all.find? (·.text == text)

end Part

inductive Field where
  | known (part : Part)
  | other (name : String)
deriving DecidableEq, Inhabited

namespace Field

/-- The slot name that a text stands for. -/
def ofText (text : String) : Field :=
  match Part.ofText? text with
  | some part => known part
  | none => other text

def text : Field → String
  | known part => part.text
  | other name => name

end Field

/-- The parts of a construct that are visited first, in this order. It is given for the constructs
whose parts are visited in another order than they are written. -/
def Construct.visitOrder : Construct → List Part
  | importSpecifier => [.localName, .imported]
  | exportSpecifier => [.localName, .exported]
  | jsxElement => [.openingElement, .children, .closingElement]
  | _ => []

/-- The parts of a node that are visited first; none for a type without a construct. -/
def NodeType.visitOrder : NodeType → List Part
  | known construct => construct.visitOrder
  | other _ => []

end NameRoles
