import NameRoles.Classify.Label
import NameRoles.Diagnostic
import NameRoles.Tree.Path

/-! The dialect of an identifier. Only the parts of a construct that belong to the type level are
attributed to Flow or TypeScript; an ordinary identifier within a typed construct, such as `b` in
`function a(b: c)`, stays JavaScript. -/

namespace NameRoles

/-- The dialect of a part of a construct at the type level. `none` stands for a part that is not
known by name. -/
def Construct.typeDialect? : Construct → Option Part → Option Dialect
  | typeAlias, some .id => some .flow
  | opaqueType, some .id => some .flow
  | interfaceDeclaration, some .id => some .flow
  | declareTypeAlias, some .id => some .flow
  | declareOpaqueType, some .id => some .flow
  | declareInterface, some .id => some .flow
  | genericType, some .id => some .flow
  | classImplements, some .id => some .flow
  | interfaceExtends, some .id => some .flow
  | objectTypeIndexer, some .id => some .flow
  | functionTypeParam, some .name => some .flow
  | objectTypeProperty, some .key => some .flow
  | qualifiedTypeIdentifier, _ => some .flow
  | tsTypeReference, some .typeName => some .typeScript
  | tsInterfaceDeclaration, some .id => some .typeScript
  | tsEnumDeclaration, some .id => some .typeScript
  | tsTypeAliasDeclaration, some .id => some .typeScript
  | tsModuleDeclaration, some .id => some .typeScript
  | tsEnumMember, some .id => some .typeScript
  | tsQualifiedName, _ => some .typeScript
  | tsExpressionWithTypeArguments, some .expression => some .typeScript
  | tsInterfaceHeritage, some .expression => some .typeScript
  | tsClassImplements, some .expression => some .typeScript
  | tsTypeQuery, some .exprName => some .typeScript
  | tsPropertySignature, some .key => some .typeScript
  | tsMethodSignature, some .key => some .typeScript
  | tsIndexSignature, some .parameters => some .typeScript
  | tsMappedType, some .key => some .typeScript
  | tsFunctionType, some .parameters => some .typeScript
  | tsFunctionType, some .params => some .typeScript
  | tsConstructorType, some .parameters => some .typeScript
  | tsConstructorType, some .params => some .typeScript
  | tsCallSignatureDeclaration, some .parameters => some .typeScript
  | tsCallSignatureDeclaration, some .params => some .typeScript
  | tsConstructSignatureDeclaration, some .parameters => some .typeScript
  | tsConstructSignatureDeclaration, some .params => some .typeScript
  | tsMethodSignature, some .parameters => some .typeScript
  | tsMethodSignature, some .params => some .typeScript
  | _, _ => none

namespace Path

/-- The dialect that the slot of an identifier implies. -/
def slotDialect? (path : Path) : Option Dialect :=
  match path.above with
  | [] => none
  | step :: _ =>
    match step.parent.type, step.field with
    | .known construct, .known part => construct.typeDialect? (some part)
    | .known construct, .other _ => construct.typeDialect? none
    | .other _, _ => none

/-- The dialect of the type parameter at a path. One that is not marked as TypeScript has to stand
in a Flow list of type parameters or in a mapped type. -/
def typeParameterDialect (path : Path) : Except (Located ClassifyFault) Dialect :=
  match path.parent?.map Node.type with
  | some (.known .typeParameterDeclaration) => .ok .flow
  | some (.known .tsMappedType) => .ok .typeScript
  | parent =>
    if path.type = .known .tsTypeParameter then .ok .typeScript
    else .error ⟨.strayTypeParameter (parent.map NodeType.text), path.node.span⟩

def dialect (path : Path) : Except (Located ClassifyFault) Dialect :=
  match path.type with
  | .known .typeParameter => path.typeParameterDialect
  | .known .tsTypeParameter => path.typeParameterDialect
  | .known .jsxIdentifier => .ok (path.slotDialect?.getD .jsx)
  | _ => .ok (path.slotDialect?.getD .javaScript)

end Path

end NameRoles
