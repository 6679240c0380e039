import NameRoles.Classify.Role

/-! The rules for plain identifiers do not contradict each other. Every rule that applies in a slot
gives the role that a table assigns to the slot, whatever else the rule looks at. So any rule that
applies decides the role, also if it is not the first, and the rules may be tried in any order. -/

namespace NameRoles

/-- The only role that a plain identifier can have in a part of a construct other than that of a
reference. `none` stands for a part that is not known by name. -/
def Construct.slotRole? : Construct → Option Part → Option Role
  | memberExpression, some .property | optionalMemberExpression, some .property => some .static
  | objectPattern, some .properties | arrayPattern, some .elements | restElement, some .argument
  | assignmentPattern, some .left | objectProperty, some .value => some .binding
  | objectProperty, some .key | objectMethod, some .key | classMethod, some .key
  | classPrivateMethod, some .key | classProperty, some .key | classPrivateProperty, some .key
  | classAccessorProperty, some .key | privateName, _ => some .static
  | variableDeclarator, some .id | functionDeclaration, some .id | functionExpression, some .id
  | arrowFunctionExpression, some .id | objectMethod, some .id | classMethod, some .id
  | classPrivateMethod, some .id | functionDeclaration, some .params
  | functionExpression, some .params | arrowFunctionExpression, some .params
  | objectMethod, some .params | classMethod, some .params | classPrivateMethod, some .params
  | classDeclaration, some .id | classExpression, some .id | catchClause, some .param
  | importDefaultSpecifier, _ | importNamespaceSpecifier, _
  | importSpecifier, some .localName => some .binding
  | importSpecifier, some .imported | exportDefaultSpecifier, _ | exportNamespaceSpecifier, _
  | exportSpecifier, some .exported | exportSpecifier, some .localName => some .static
  | typeAlias, some .id | opaqueType, some .id | interfaceDeclaration, some .id
  | declareTypeAlias, some .id | declareOpaqueType, some .id | declareInterface, some .id
  | tsTypeAliasDeclaration, some .id | tsInterfaceDeclaration, some .id
  | tsEnumDeclaration, some .id | tsModuleDeclaration, some .id
  | tsMappedType, some .key => some .binding
  | functionTypeParam, some .name | objectTypeProperty, some .key | objectTypeIndexer, some .id
  | qualifiedTypeIdentifier, some .id | tsQualifiedName, some .right | tsEnumMember, some .id
  | tsIndexSignature, some .parameters | tsPropertySignature, some .key
  | tsMethodSignature, some .key | tsFunctionType, some .parameters | tsFunctionType, some .params
  | tsConstructorType, some .parameters | tsConstructorType, some .params
  | tsCallSignatureDeclaration, some .parameters | tsCallSignatureDeclaration, some .params
  | tsConstructSignatureDeclaration, some .parameters
  | tsConstructSignatureDeclaration, some .params | tsMethodSignature, some .parameters
  | tsMethodSignature, some .params | labeledStatement, some .label | breakStatement, some .label
  | continueStatement, some .label | metaProperty, _ => some .static
  | _, _ => none

namespace Step

/-- The role that the table assigns to the slot of a step. -/
def slotRole? (step : Step) : Option Role :=
  match step.parent.type, step.field with
  | .known construct, .known part => construct.slotRole? (some part)
  | .known construct, .other _ => construct.slotRole? none
  | .other _, _ => none

theorem joins_iff {step : Step} {constructs : List Construct} {parts : List Part} :
    step.joins constructs parts = true ↔
      ∃ construct ∈ constructs, ∃ part ∈ parts,
        step.parent.type = .known construct ∧ step.field = .known part := by
  simp only [joins, Bool.and_eq_true, List.any_eq_true, decide_eq_true_eq]
  constructor
  · rintro ⟨⟨construct, hconstruct, htype⟩, part, hpart, hfield⟩
    exact ⟨construct, hconstruct, part, hpart, htype, hfield⟩
  · rintro ⟨construct, hconstruct, part, hpart, htype, hfield⟩
    exact ⟨⟨construct, hconstruct, htype⟩, part, hpart, hfield⟩

theorem slotRole?_of_joins {step : Step} {constructs : List Construct} {parts : List Part}
    {role : Role} (hjoins : step.joins constructs parts = true)
    (htable : ∀ construct ∈ constructs, ∀ part ∈ parts,
      construct.slotRole? (some part) = some role) :
    step.slotRole? = some role := by
  obtain ⟨construct, hconstruct, part, hpart, htype, hfield⟩ := joins_iff.mp hjoins
  rw [slotRole?, htype, hfield]
  exact htable construct hconstruct part hpart

theorem slotRole?_of_satisfies {step : Step} {property : Construct → Bool} {part : Part}
    {role : Role} (htype : step.parent.type.satisfies property = true)
    (hfield : step.field = .known part)
    (htable : ∀ construct, property construct = true →
      construct.slotRole? (some part) = some role) :
    step.slotRole? = some role := by
  rw [slotRole?, hfield]
  cases hparent : step.parent.type with
  | known construct =>
      rw [hparent] at htype
      exact htable construct htype
  | other name =>
      rw [hparent] at htype
      cases htype

theorem slotRole?_of_type {step : Step} {construct : Construct} {role : Role}
    (htype : step.parent.type = .known construct)
    (htable : ∀ part?, construct.slotRole? part? = some role) : step.slotRole? = some role := by
  rw [slotRole?, htype]
  cases step.field with
  | known part => exact htable (some part)
  | other name => exact htable none

theorem slotRole?_of_isPatternPair {step : Step} {above : List Step} {part : Part} {role : Role}
    (hpair : step.isPatternPair above = true) (hfield : step.field = .known part)
    (htable : Construct.objectProperty.slotRole? (some part) = some role) :
    step.slotRole? = some role := by
  simp only [isPatternPair, Bool.and_eq_true, decide_eq_true_eq] at hpair
  rw [slotRole?, hpair.1, hfield]
  exact htable

theorem slotRole?_of_wraps {step : Step} {above : List Step} (hwraps : step.wraps above = true) :
    step.slotRole? = some .binding := by
  simp only [wraps, Bool.or_eq_true, Bool.and_eq_true, decide_eq_true_eq] at hwraps
  rcases hwraps with (((hjoins | hjoins) | hjoins) | hjoins) | ⟨hpair, hfield⟩
  · exact slotRole?_of_joins hjoins (by decide)
  · exact slotRole?_of_joins hjoins (by decide)
  · exact slotRole?_of_joins hjoins (by decide)
  · exact slotRole?_of_joins hjoins (by decide)
  · exact slotRole?_of_isPatternPair hpair hfield rfl

end Step

theorem Path.wraps_of_reachesBindingSite {step : Step} {above : List Step}
    (hreaches : reachesBindingSite (step :: above) = true) : step.wraps above = true := by
  cases hwraps : step.wraps above with
  | true => rfl
  | false => simp [reachesBindingSite, climbPatterns, hwraps] at hreaches

namespace Rule

/-- A rule that applies gives the role of the slot, whatever else the rule looks at. -/
theorem slotRole?_of_appliesAt {step : Step} {above : List Step} {rule : Rule}
    (happlies : rule.appliesAt step above = true) : step.slotRole? = some rule.role := by
  cases rule <;>
    simp only [appliesAt, Bool.and_eq_true, Bool.or_eq_true, decide_eq_true_eq] at happlies
  case memberProperty =>
    refine Step.slotRole?_of_satisfies happlies.1.1 happlies.1.2 ?_
    intro construct
    cases construct <;> decide
  case patternKey => exact Step.slotRole?_of_isPatternPair happlies.1.1 happlies.1.2 rfl
  case patternValue => exact Step.slotRole?_of_isPatternPair happlies.1 happlies.2 rfl
  case declaredTarget => exact Step.slotRole?_of_wraps (Path.wraps_of_reachesBindingSite happlies)
  case objectKey => exact Step.slotRole?_of_joins happlies.1 (by decide)
  case classKey => exact Step.slotRole?_of_joins happlies.1 (by decide)
  case privateName => exact Step.slotRole?_of_type happlies fun _ => rfl
  case variableName => exact Step.slotRole?_of_joins happlies (by decide)
  case functionPart =>
    rcases happlies with ⟨htype, hfield | hfield⟩
    · refine Step.slotRole?_of_satisfies htype hfield ?_
      intro construct
      cases construct <;> decide
    · refine Step.slotRole?_of_satisfies htype hfield ?_
      intro construct
      cases construct <;> decide
  case className =>
    refine Step.slotRole?_of_satisfies happlies.1 happlies.2 ?_
    intro construct
    cases construct <;> decide
  case caught => exact Step.slotRole?_of_joins happlies (by decide)
  case importedWhole =>
    rcases happlies with htype | htype
    · exact Step.slotRole?_of_type htype fun _ => rfl
    · exact Step.slotRole?_of_type htype fun _ => rfl
  case imported => exact Step.slotRole?_of_joins happlies (by decide)
  case importedAs => exact Step.slotRole?_of_joins happlies (by decide)
  case exportedWhole =>
    rcases happlies with htype | htype
    · exact Step.slotRole?_of_type htype fun _ => rfl
    · exact Step.slotRole?_of_type htype fun _ => rfl
  case exported => exact Step.slotRole?_of_joins happlies (by decide)
  case passedOn => exact Step.slotRole?_of_joins happlies.1 (by decide)
  case typeName => exact Step.slotRole?_of_joins happlies (by decide)
  case mappedKey => exact Step.slotRole?_of_joins happlies (by decide)
  case typePart =>
    rcases happlies with (((hjoins | hjoins) | hjoins) | hjoins) | hjoins
    · exact Step.slotRole?_of_joins hjoins (by decide)
    · exact Step.slotRole?_of_joins hjoins (by decide)
    · exact Step.slotRole?_of_joins hjoins (by decide)
    · exact Step.slotRole?_of_joins hjoins (by decide)
    · exact Step.slotRole?_of_joins hjoins (by decide)
  case typeKey => exact Step.slotRole?_of_joins happlies.1 (by decide)
  case typeFunctionParameter => exact Step.slotRole?_of_joins happlies (by decide)
  case label => exact Step.slotRole?_of_joins happlies (by decide)
  case metaProperty => exact Step.slotRole?_of_type happlies fun _ => rfl

theorem mem_all (rule : Rule) : rule ∈ all := by
  cases rule <;> decide

/-- Rules that apply to the same identifier give the same role. -/
theorem role_eq_of_applies {path : Path} {rule other : Rule} (hrule : rule.applies path = true)
    (hother : other.applies path = true) : rule.role = other.role := by
  cases habove : path.above with
  | nil => simp [applies, habove] at hrule
  | cons step above =>
      simp only [applies, habove] at hrule hother
      have hrole := slotRole?_of_appliesAt hrule
      rw [slotRole?_of_appliesAt hother] at hrole
      exact (Option.some.inj hrole).symm

end Rule

namespace Path

theorem role_of_identifier {path : Path} (htype : path.type = .known .identifier) :
    path.role = path.plainRole := by
  rw [role, htype]

/-- A rule that applies decides the role, whether or not it is the first. -/
theorem plainRole_of_applies {path : Path} (rule : Rule) (happlies : rule.applies path = true) :
    path.plainRole = rule.role := by
  obtain ⟨first, hfirst⟩ : ∃ first, path.rule? = some first := by
    rw [← Option.isSome_iff_exists, rule?, List.find?_isSome]
    exact ⟨rule, rule.mem_all, happlies⟩
  rw [plainRole, hfirst]
  exact Rule.role_eq_of_applies (List.find?_some hfirst) happlies

/-- A plain identifier to which no rule applies is a reference. -/
theorem plainRole_of_not_applies {path : Path} (hnone : ∀ rule : Rule, ¬rule.applies path = true) :
    path.plainRole = .reference := by
  have hrule : path.rule? = none := List.find?_eq_none.mpr fun rule _ => hnone rule
  rw [plainRole, hrule]
  rfl

end Path

/-- What a rule alone says of the plain identifier at a path. -/
def Rule.roleAt? (path : Path) (rule : Rule) : Option Role :=
  if rule.applies path then some rule.role else none

theorem Rule.roleAt?_eq_some_iff {path : Path} {rule : Rule} {role : Role} :
    rule.roleAt? path = some role ↔ rule.applies path = true ∧ rule.role = role := by
  rw [roleAt?, Option.ite_none_right_eq_some, Option.some.injEq]

namespace Path

/-- The role that the first of the given rules to apply gives to the plain identifier at a path, and
that of a reference if none applies. -/
def roleBy (rules : List Rule) (path : Path) : Role :=
  (rules.findSome? (Rule.roleAt? path)).getD .reference

/-- Any list that has all rules in it gives the role. -/
theorem roleBy_eq_plainRole {rules : List Rule} (path : Path)
    (hrules : ∀ rule : Rule, rule ∈ rules) : path.roleBy rules = path.plainRole := by
  rw [roleBy]
  cases hfound : rules.findSome? (Rule.roleAt? path) with
  | none =>
      have hnone : ∀ rule : Rule, ¬rule.applies path = true := by
        intro rule happlies
        have hsilent := List.findSome?_eq_none_iff.mp hfound rule (hrules rule)
        rw [Rule.roleAt?, if_pos happlies] at hsilent
        cases hsilent
      rw [plainRole_of_not_applies hnone]
      rfl
  | some role =>
      obtain ⟨rule, -, hrule⟩ := List.exists_of_findSome?_eq_some hfound
      obtain ⟨happlies, rfl⟩ := Rule.roleAt?_eq_some_iff.mp hrule
      rw [plainRole_of_applies rule happlies]
      rfl

/-- The rules for plain identifiers can be tried in any order. Of the rules that apply to an
identifier, each on its own, all give it the same role, so the first that applies gives the role
whatever the order is. -/
theorem role_eq_roleBy_of_perm (path : Path) (htype : path.type = .known .identifier) :
    (∀ (rule other : Rule) (role otherRole : Role), rule.roleAt? path = some role →
      other.roleAt? path = some otherRole → role = otherRole) ∧
    ∀ rules : List Rule, rules.Perm Rule.all → path.role = path.roleBy rules := by
  constructor
  · intro rule other role otherRole hrole hother
    obtain ⟨happlies, rfl⟩ := Rule.roleAt?_eq_some_iff.mp hrole
    obtain ⟨hotherApplies, rfl⟩ := Rule.roleAt?_eq_some_iff.mp hother
    exact Rule.role_eq_of_applies happlies hotherApplies
  · intro rules hperm
    have hrules : ∀ rule : Rule, rule ∈ rules := fun rule => hperm.mem_iff.mpr rule.mem_all
    rw [role_of_identifier htype, roleBy_eq_plainRole path hrules]

/-- The target `a` of `let {b: a} = c`. -/
def renamedTarget : Path :=
  ⟨Node.identifier "a",
    [⟨.known .value, Node.ofType (.known .objectProperty)⟩,
     ⟨.known .properties, Node.ofType (.known .objectPattern)⟩,
     ⟨.known .id, Node.ofType (.known .variableDeclarator)⟩]⟩

/-- The target is the value of a pair and a declared target. Tried from the last to the first, the
rules find the second of these facts in place of the first, and give the same role. -/
theorem role_eq_roleBy_renamedTarget :
    Rule.all.find? (·.applies renamedTarget) = some .patternValue ∧
      Rule.all.reverse.find? (·.applies renamedTarget) = some .declaredTarget ∧
      Rule.patternValue.role = Rule.declaredTarget.role ∧
      renamedTarget.role = renamedTarget.roleBy Rule.all.reverse := by
  obtain ⟨hagree, hany⟩ := role_eq_roleBy_of_perm renamedTarget rfl
  exact ⟨by decide, by decide, hagree .patternValue .declaredTarget _ _ rfl rfl,
    hany _ (List.reverse_perm Rule.all)⟩

end Path

end NameRoles
