import NameRoles.Classify.Label
import NameRoles.Classify.Pattern
import NameRoles.Text.Lowercase

/-! The role of an identifier. For plain identifiers it is given by rules, each of which applies to
some of the places in which an identifier can stand; where none applies, the identifier is a
reference. -/

namespace NameRoles

/-- A rule that gives the role of a plain identifier. -/
inductive Rule where
  /-- The property in `a.b` and `a?.b`. -/
  | memberProperty
  /-- The key of a pair in an object pattern. -/
  | patternKey
  /-- The value of a pair in an object pattern. -/
  | patternValue
  /-- A target in a declared pattern. -/
  | declaredTarget
  | objectKey
  | classKey
  /-- The name in `#a`. -/
  | privateName
  | variableName
  /-- The name or a parameter of a function. -/
  | functionPart
  | className
  /-- The parameter of a `catch` clause. -/
  | caught
  /-- A default or namespace import. -/
  | importedWhole
  /-- The name of an import on the far side. -/
  | imported
  /-- The name of an import on the near side. -/
  | importedAs
  /-- A default or namespace export. -/
  | exportedWhole
  /-- The name of an export on the far side. -/
  | exported
  /-- The name of an export that is passed on from another module. -/
  | passedOn
  /-- The name of a declared type, interface, enumeration or module. -/
  | typeName
  | mappedKey
  /-- The name of a part of a type. -/
  | typePart
  /-- The key of a property or method of a type. -/
  | typeKey
  | typeFunctionParameter
  | label
  /-- Both names in `new.target` and `import.meta`. -/
  | metaProperty
deriving DecidableEq

namespace Rule

/-- The rules in the order in which they are tried. -/
def all : List Rule :=
  [memberProperty, patternKey, patternValue, declaredTarget, objectKey, classKey, privateName,
   variableName, functionPart, className, caught, importedWhole, imported, importedAs,
   exportedWhole, exported, passedOn, typeName, mappedKey, typePart, typeKey,
   typeFunctionParameter, label, metaProperty]

def role : Rule → Role
  | patternValue | declaredTarget | variableName | functionPart | className | caught
  | importedWhole | importedAs | typeName | mappedKey => .binding
  | memberProperty | patternKey | objectKey | classKey | privateName | imported | exportedWhole
  | exported | passedOn | typePart | typeKey | typeFunctionParameter | label
  | metaProperty => .static

/-- Whether a rule applies to a plain identifier, given the step to its parent and the steps above
that one. -/
def appliesAt (step : Step) (above : List Step) : Rule → Bool
  | memberProperty =>
    step.parent.type.satisfies Construct.isMemberExpression && step.field = .known .property &&
      !step.parent.computed
  | patternKey =>
    step.isPatternPair above && step.field = .known .key && !step.parent.computed
  | patternValue => step.isPatternPair above && step.field = .known .value
  | declaredTarget => Path.reachesBindingSite (step :: above)
  | objectKey => step.joins [.objectProperty, .objectMethod] [.key] && !step.parent.computed
  | classKey =>
    step.joins
      [.classMethod, .classPrivateMethod, .classProperty, .classPrivateProperty,
       .classAccessorProperty] [.key] && !step.parent.computed
  | privateName => step.parent.type = .known .privateName
  | variableName => step.joins [.variableDeclarator] [.id]
  | functionPart =>
    step.parent.type.satisfies Construct.isFunction &&
      (step.field = .known .id || step.field = .known .params)
  | className => step.parent.type.satisfies Construct.isClass && step.field = .known .id
  | caught => step.joins [.catchClause] [.param]
  | importedWhole =>
    step.parent.type = .known .importDefaultSpecifier ||
      step.parent.type = .known .importNamespaceSpecifier
  | imported => step.joins [.importSpecifier] [.imported]
  | importedAs => step.joins [.importSpecifier] [.localName]
  | exportedWhole =>
    step.parent.type = .known .exportDefaultSpecifier ||
      step.parent.type = .known .exportNamespaceSpecifier
  | exported => step.joins [.exportSpecifier] [.exported]
  | passedOn =>
    step.joins [.exportSpecifier] [.localName] &&
      above.head?.any (·.parent.hasChild (.known .source))
  | typeName =>
    step.joins
      [.typeAlias, .opaqueType, .interfaceDeclaration, .declareTypeAlias, .declareOpaqueType,
       .declareInterface, .tsTypeAliasDeclaration, .tsInterfaceDeclaration, .tsEnumDeclaration,
       .tsModuleDeclaration] [.id]
  | mappedKey => step.joins [.tsMappedType] [.key]
  | typePart =>
    step.joins [.functionTypeParam] [.name] ||
    step.joins [.objectTypeProperty] [.key] ||
    step.joins [.objectTypeIndexer, .qualifiedTypeIdentifier, .tsEnumMember] [.id] ||
    step.joins [.tsQualifiedName] [.right] ||
    step.joins [.tsIndexSignature] [.parameters]
  | typeKey => step.joins [.tsPropertySignature, .tsMethodSignature] [.key] && !step.parent.computed
  | typeFunctionParameter =>
    step.joins
      [.tsFunctionType, .tsConstructorType, .tsCallSignatureDeclaration,
       .tsConstructSignatureDeclaration, .tsMethodSignature] [.parameters, .params]
  | label => step.joins [.labeledStatement, .breakStatement, .continueStatement] [.label]
  | metaProperty => step.parent.type = .known .metaProperty

/-- Whether a rule applies to the plain identifier at a path. None applies to a root. -/
def applies (path : Path) (rule : Rule) : Bool :=
  match path.above with
  | [] => false
  | step :: above => rule.appliesAt step above

end Rule

namespace Path

/-- The first rule that applies to the plain identifier at a path. -/
def rule? (path : Path) : Option Rule :=
  Rule.all.find? (·.applies path)

def plainRole (path : Path) : Role :=
  (path.rule?.map Rule.role).getD .reference

/-- The role of the JSX name at a path. A name that begins in lower case stands for itself, as in
`<div>`; any other name is read, as in `<Component>`. -/
def jsxRole (path : Path) : Role :=
  if path.isIn (.known .jsxMemberExpression) (.known .property) ||
      path.isIn (.known .jsxAttribute) (.known .name) ||
      path.above.head?.any (·.parent.type = .known .jsxNamespacedName) then .static
  else if path.isIn (.known .jsxMemberExpression) (.known .object) then .reference
  else if path.node.name.any Text.startsLowercase then .static
  else .reference

/-- The role of the identifier at a path. All that is no identifier counts as a reference. -/
def role (path : Path) : Role :=
  match path.type with
  | .known .identifier => path.plainRole
  | .known .typeParameter => .binding
  | .known .tsTypeParameter => .binding
  | .known .jsxIdentifier => path.jsxRole
  | _ => .reference

/-- The number of patterns around an identifier that is a binding because it is a target in a
declared pattern. -/
def targetWrappers? (path : Path) : Option Nat :=
  if path.type = .known .identifier && path.rule? = some .declaredTarget then
    some path.wrapperCount
  else none

end Path

end NameRoles
