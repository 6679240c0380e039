/-! The types of syntax tree nodes. The constructs that matter to the classification, and the
common containers around them, are known by name; every other type is kept as the text that names
it. -/

namespace NameRoles

/-- A syntactic construct that is known by name. -/
inductive Construct where
  | identifier | jsxIdentifier | typeParameter | tsTypeParameter
  | file | program | blockStatement | expressionStatement | forStatement | variableDeclaration
  | assignmentExpression | arrayExpression | objectExpression | stringLiteral | booleanLiteral
  | classBody | importDeclaration | exportAllDeclaration | exportDefaultDeclaration
  | spreadElement
  | memberExpression | optionalMemberExpression | objectPattern | arrayPattern | restElement
  | assignmentPattern | objectProperty | objectMethod | variableDeclarator | functionDeclaration
  | functionExpression | arrowFunctionExpression | classDeclaration | classExpression
  | classMethod | classPrivateMethod | classProperty | classPrivateProperty
  | classAccessorProperty | privateName | catchClause | labeledStatement | breakStatement
  | continueStatement | metaProperty
  | importDefaultSpecifier | importNamespaceSpecifier | importSpecifier | exportDefaultSpecifier
  | exportNamespaceSpecifier | exportSpecifier | exportNamedDeclaration
  | typeAlias | opaqueType | interfaceDeclaration | declareTypeAlias | declareOpaqueType
  | declareInterface | annotatedType | genericType | classImplements | interfaceExtends
  | functionType | functionTypeParam | objectType | objectTypeProperty
  | objectTypeIndexer | qualifiedTypeIdentifier | typeParameterDeclaration
  | typeParameterInstantiation
  | tsAnnotatedType | tsTypeReference | tsTypeLiteral | tsTypeOperator | tsInterfaceDeclaration
  | tsInterfaceBody | tsEnumDeclaration | tsEnumMember | tsTypeAliasDeclaration
  | tsModuleDeclaration | tsModuleBlock | tsMappedType | tsTypeParameterDeclaration
  | tsTypeParameterInstantiation | tsQualifiedName | tsExpressionWithTypeArguments
  | tsInterfaceHeritage | tsClassImplements | tsTypeQuery | tsPropertySignature
  | tsMethodSignature | tsIndexSignature | tsFunctionType | tsConstructorType
  | tsCallSignatureDeclaration | tsConstructSignatureDeclaration
  | jsxElement | jsxOpeningElement | jsxClosingElement | jsxMemberExpression | jsxNamespacedName
  | jsxAttribute | jsxSpreadAttribute | jsxExpressionContainer | jsxSpreadChild
deriving DecidableEq, Inhabited

namespace Construct

/-- The name of a construct as serialized trees spell it. -/
def text : Construct → String
  | identifier => "Identifier"
  | jsxIdentifier => "JSXIdentifier"
  | typeParameter => "TypeParameter"
  | tsTypeParameter => "TSTypeParameter"
  | file => "File"
  | program => "Program"
  | blockStatement => "BlockStatement"
  | expressionStatement => "ExpressionStatement"
  | forStatement => "ForStatement"
  | variableDeclaration => "VariableDeclaration"
  | assignmentExpression => "AssignmentExpression"
  | arrayExpression => "ArrayExpression"
  | objectExpression => "ObjectExpression"
  | stringLiteral => "StringLiteral"
  | booleanLiteral => "BooleanLiteral"
  | classBody => "ClassBody"
  | importDeclaration => "ImportDeclaration"
  | exportAllDeclaration => "ExportAllDeclaration"
  | exportDefaultDeclaration => "ExportDefaultDeclaration"
  | spreadElement => "SpreadElement"
  | memberExpression => "MemberExpression"
  | optionalMemberExpression => "OptionalMemberExpression"
  | objectPattern => "ObjectPattern"
  | arrayPattern => "ArrayPattern"
  | restElement => "RestElement"
  | assignmentPattern => "AssignmentPattern"
  | objectProperty => "ObjectProperty"
  | objectMethod => "ObjectMethod"
  | variableDeclarator => "VariableDeclarator"
  | functionDeclaration => "FunctionDeclaration"
  | functionExpression => "FunctionExpression"
  | arrowFunctionExpression => "ArrowFunctionExpression"
  | classDeclaration => "ClassDeclaration"
  | classExpression => "ClassExpression"
  | classMethod => "ClassMethod"
  | classPrivateMethod => "ClassPrivateMethod"
  | classProperty => "ClassProperty"
  | classPrivateProperty => "ClassPrivateProperty"
  | classAccessorProperty => "ClassAccessorProperty"
  | privateName => "PrivateName"
  | catchClause => "CatchClause"
  | labeledStatement => "LabeledStatement"
  | breakStatement => "BreakStatement"
  | continueStatement => "ContinueStatement"
  | metaProperty => "MetaProperty"
  | importDefaultSpecifier => "ImportDefaultSpecifier"
  | importNamespaceSpecifier => "ImportNamespaceSpecifier"
  | importSpecifier => "ImportSpecifier"
  | exportDefaultSpecifier => "ExportDefaultSpecifier"
  | exportNamespaceSpecifier => "ExportNamespaceSpecifier"
  | exportSpecifier => "ExportSpecifier"
  | exportNamedDeclaration => "ExportNamedDeclaration"
  | typeAlias => "TypeAlias"
  | opaqueType => "OpaqueType"
  | interfaceDeclaration => "InterfaceDeclaration"
  | declareTypeAlias => "DeclareTypeAlias"
  | declareOpaqueType => "DeclareOpaqueType"
  | declareInterface => "DeclareInterface"
  | annotatedType => "TypeAnnotation"
  | genericType => "GenericTypeAnnotation"
  | classImplements => "ClassImplements"
  | interfaceExtends => "InterfaceExtends"
  | functionType => "FunctionTypeAnnotation"
  | functionTypeParam => "FunctionTypeParam"
  | objectType => "ObjectTypeAnnotation"
  | objectTypeProperty => "ObjectTypeProperty"
  | objectTypeIndexer => "ObjectTypeIndexer"
  | qualifiedTypeIdentifier => "QualifiedTypeIdentifier"
  | typeParameterDeclaration => "TypeParameterDeclaration"
  | typeParameterInstantiation => "TypeParameterInstantiation"
  | tsAnnotatedType => "TSTypeAnnotation"
  | tsTypeReference => "TSTypeReference"
  | tsTypeLiteral => "TSTypeLiteral"
  | tsTypeOperator => "TSTypeOperator"
  | tsInterfaceDeclaration => "TSInterfaceDeclaration"
  | tsInterfaceBody => "TSInterfaceBody"
  | tsEnumDeclaration => "TSEnumDeclaration"
  | tsEnumMember => "TSEnumMember"
  | tsTypeAliasDeclaration => "TSTypeAliasDeclaration"
  | tsModuleDeclaration => "TSModuleDeclaration"
  | tsModuleBlock => "TSModuleBlock"
  | tsMappedType => "TSMappedType"
  | tsTypeParameterDeclaration => "TSTypeParameterDeclaration"
  | tsTypeParameterInstantiation => "TSTypeParameterInstantiation"
  | tsQualifiedName => "TSQualifiedName"
  | tsExpressionWithTypeArguments => "TSExpressionWithTypeArguments"
  | tsInterfaceHeritage => "TSInterfaceHeritage"
  | tsClassImplements => "TSClassImplements"
  | tsTypeQuery => "TSTypeQuery"
  | tsPropertySignature => "TSPropertySignature"
  | tsMethodSignature => "TSMethodSignature"
  | tsIndexSignature => "TSIndexSignature"
  | tsFunctionType => "TSFunctionType"
  | tsConstructorType => "TSConstructorType"
  | tsCallSignatureDeclaration => "TSCallSignatureDeclaration"
  | tsConstructSignatureDeclaration => "TSConstructSignatureDeclaration"
  | jsxElement => "JSXElement"
  | jsxOpeningElement => "JSXOpeningElement"
  | jsxClosingElement => "JSXClosingElement"
  | jsxMemberExpression => "JSXMemberExpression"
  | jsxNamespacedName => "JSXNamespacedName"
  | jsxAttribute => "JSXAttribute"
  | jsxSpreadAttribute => "JSXSpreadAttribute"
  | jsxExpressionContainer => "JSXExpressionContainer"
  | jsxSpreadChild => "JSXSpreadChild"

/-- The constructs that carry a name to be classified. -/
def names : List Construct :=
  [identifier, jsxIdentifier, typeParameter, tsTypeParameter]

/-- Constructs that only hold other constructs together. -/
def containers : List Construct :=
  [file, program, blockStatement, expressionStatement, forStatement, variableDeclaration,
   assignmentExpression, arrayExpression, objectExpression, stringLiteral, booleanLiteral,
   classBody, importDeclaration, exportAllDeclaration, exportDefaultDeclaration, spreadElement]

/-- Accesses, patterns, declarations and labels. -/
def declarations : List Construct :=
  [memberExpression, optionalMemberExpression, objectPattern, arrayPattern, restElement,
   assignmentPattern, objectProperty, objectMethod, variableDeclarator, functionDeclaration,
   functionExpression, arrowFunctionExpression, classDeclaration, classExpression, classMethod,
   classPrivateMethod, classProperty, classPrivateProperty, classAccessorProperty, privateName,
   catchClause, labeledStatement, breakStatement, continueStatement, metaProperty]

/-- The parts of imports and exports. -/
def moduleItems : List Construct :=
  [importDefaultSpecifier, importNamespaceSpecifier, importSpecifier, exportDefaultSpecifier,
   exportNamespaceSpecifier, exportSpecifier, exportNamedDeclaration]

def flow : List Construct :=
  [typeAlias, opaqueType, interfaceDeclaration, declareTypeAlias, declareOpaqueType,
   declareInterface, annotatedType, genericType, classImplements, interfaceExtends,
   functionType, functionTypeParam, objectType, objectTypeProperty,
   objectTypeIndexer, qualifiedTypeIdentifier, typeParameterDeclaration,
   typeParameterInstantiation]

def typeScript : List Construct :=
  [tsAnnotatedType, tsTypeReference, tsTypeLiteral, tsTypeOperator, tsInterfaceDeclaration,
   tsInterfaceBody, tsEnumDeclaration, tsEnumMember, tsTypeAliasDeclaration, tsModuleDeclaration,
   tsModuleBlock, tsMappedType, tsTypeParameterDeclaration, tsTypeParameterInstantiation,
   tsQualifiedName, tsExpressionWithTypeArguments, tsInterfaceHeritage, tsClassImplements,
   tsTypeQuery, tsPropertySignature, tsMethodSignature, tsIndexSignature, tsFunctionType,
   tsConstructorType, tsCallSignatureDeclaration, tsConstructSignatureDeclaration]

def jsx : List Construct :=
  [jsxElement, jsxOpeningElement, jsxClosingElement, jsxMemberExpression, jsxNamespacedName,
   jsxAttribute, jsxSpreadAttribute, jsxExpressionContainer, jsxSpreadChild]

def all : List Construct :=
  names ++ containers ++ declarations ++ moduleItems ++ flow ++ typeScript ++ jsx

def ofText? (text : String) : Option Construct :=
  all.find? (·.text == text)

/-- Plain identifiers, both kinds of type parameter, and JSX names. -/
def isIdentifierLike : Construct → Bool
  | identifier | jsxIdentifier | typeParameter | tsTypeParameter => true
  | _ => false

/-- Constructs with a signature whose parameters introduce names. -/
def isFunction : Construct → Bool
  | functionDeclaration | functionExpression | arrowFunctionExpression
  | objectMethod | classMethod | classPrivateMethod => true
  | _ => false

def isClass : Construct → Bool
  | classDeclaration | classExpression => true
  | _ => false

def isMemberExpression : Construct → Bool
  | memberExpression | optionalMemberExpression => true
  | _ => false

end Construct

inductive NodeType where
  | known (construct : Construct)
  | other (name : String)
deriving DecidableEq, Inhabited

namespace NodeType

/-- The type that a name stands for. -/
def ofText (text : String) : NodeType :=
  match Construct.ofText? text with
  | some construct => known construct
  | none => other text

def text : NodeType → String
  | known construct => construct.text
  | other name => name

/-- Whether a type is a construct with the given property. -/
def satisfies (property : Construct → Bool) : NodeType → Bool
  | known construct => property construct
  | other _ => false

end NodeType

end NameRoles
