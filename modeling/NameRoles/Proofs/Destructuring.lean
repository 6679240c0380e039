import NameRoles.Proofs.Rules
import NameRoles.Proofs.Wrapping

/-! The roles of the names in a pattern. A pattern is a name, or it takes a value apart: an object
pattern by its pairs and a rest, an array pattern by its elements, and patterns with a default value
and rests by the pattern that they hold. All targets of a declared pattern are bindings, however
deep they stand; of a pattern that is not declared, only the values of pairs are. The key of a pair
is static unless it is computed, and computed keys and default values are references. -/

namespace NameRoles

mutual

/-- A pattern. Slots that are not named here may hold anything. -/
inductive Node.IsPattern : Node → Prop
  | identifier {node : Node} (htype : node.type = .known .identifier) : node.IsPattern
  | object {node : Node} (htype : node.type = .known .objectPattern)
      (hmembers : ∀ member, (.known .properties, member) ∈ node.children →
        member.IsPatternMember) : node.IsPattern
  | array {node : Node} (htype : node.type = .known .arrayPattern)
      (helements : ∀ element, (.known .elements, element) ∈ node.children →
        element.IsPattern) : node.IsPattern
  | assignment {node : Node} (htype : node.type = .known .assignmentPattern)
      (hleft : ∀ left, (.known .left, left) ∈ node.children → left.IsPattern) : node.IsPattern
  | rest {node : Node} (htype : node.type = .known .restElement)
      (hargument : ∀ argument, (.known .argument, argument) ∈ node.children →
        argument.IsPattern) : node.IsPattern

/-- A member of an object pattern: a pair whose value is a pattern, or a rest. -/
inductive Node.IsPatternMember : Node → Prop
  | pair {node : Node} (htype : node.type = .known .objectProperty)
      (hvalue : ∀ value, (.known .value, value) ∈ node.children → value.IsPattern) :
      node.IsPatternMember
  | rest {node : Node} (htype : node.type = .known .restElement)
      (hargument : ∀ argument, (.known .argument, argument) ∈ node.children →
        argument.IsPattern) : node.IsPatternMember

end

namespace Path

/-- `pattern.Within links path`: the path leads down from that of the pattern through `links` slots,
each the slot in which a construct of a pattern holds what it takes apart. -/
inductive Within (pattern : Path) : Nat → Path → Prop
  | self : pattern.Within 0 pattern
  | link {links : Nat} {path : Path} {construct : Construct} {part : Part} {held : Node}
      (hwithin : pattern.Within links path) (htype : path.type = .known construct)
      (hpart : construct.targetPart? = some part)
      (hheld : (.known part, held) ∈ path.node.children) :
      pattern.Within (links + 1) (path.child (.known part) held)

/-- The node at a path is a pattern or a pair of an object pattern. -/
def IsPatternPart (path : Path) : Prop :=
  path.node.IsPattern ∨
    (path.type = .known .objectProperty ∧ path.node.IsPatternMember ∧
      path.parent?.map Node.type = some (.known .objectPattern))

theorem IsPatternPart.of_member {path : Path} {member : Node} (hmember : member.IsPatternMember)
    (htype : path.type = .known .objectPattern) :
    (path.child (.known .properties) member).IsPatternPart := by
  cases hmember with
  | pair hpair hvalue =>
      refine Or.inr ⟨hpair, .pair hpair hvalue, ?_⟩
      exact congrArg some htype
  | rest hrest hargument => exact Or.inl (.rest hrest hargument)

/-- One link further down there is a part of a pattern again. -/
theorem IsPatternPart.child {path : Path} {construct : Construct} {part : Part} {held : Node}
    (hpath : path.IsPatternPart) (htype : path.type = .known construct)
    (hpart : construct.targetPart? = some part) (hheld : (.known part, held) ∈ path.node.children) :
    (path.child (.known part) held).IsPatternPart := by
  have same {other : Construct} (hother : path.node.type = .known other) : construct = other :=
    NodeType.known.inj (htype.symm.trans hother)
  rcases hpath with hpattern | ⟨hpair, hmember, -⟩
  · cases hpattern with
    | identifier hother =>
        cases same hother
        cases hpart
    | object hother hmembers =>
        cases same hother
        cases hpart
        exact .of_member (hmembers held hheld) hother
    | array hother helements =>
        cases same hother
        cases hpart
        exact Or.inl (helements held hheld)
    | assignment hother hleft =>
        cases same hother
        cases hpart
        exact Or.inl (hleft held hheld)
    | rest hother hargument =>
        cases same hother
        cases hpart
        exact Or.inl (hargument held hheld)
  · cases same hpair
    cases hpart
    cases hmember with
    | pair _ hvalue => exact Or.inl (hvalue held hheld)
    | rest hrest _ => cases hpair.symm.trans hrest

theorem Within.isPatternPart {pattern path : Path} {links : Nat}
    (hpattern : pattern.node.IsPattern) (hwithin : pattern.Within links path) :
    path.IsPatternPart := by
  induction hwithin with
  | self => exact Or.inl hpattern
  | link _ htype hpart hheld ih => exact ih.child htype hpart hheld

/-- A pair among the parts of a pattern stands in an object pattern. -/
theorem IsPatternPart.parent_of_pair {path : Path} (hpath : path.IsPatternPart)
    (htype : path.type = .known .objectProperty) :
    path.parent?.map Node.type = some (.known .objectPattern) := by
  rcases hpath with hpattern | ⟨-, -, hparent⟩
  · cases hpattern with
    | identifier hother => cases htype.symm.trans hother
    | object hother _ => cases htype.symm.trans hother
    | array hother _ => cases htype.symm.trans hother
    | assignment hother _ => cases htype.symm.trans hother
    | rest hother _ => cases htype.symm.trans hother
  · exact hparent

/-- The way out of all patterns passes every link between a pattern and what it takes apart. -/
theorem Within.climbs {pattern path : Path} {links : Nat} (hpattern : pattern.node.IsPattern)
    (hwithin : pattern.Within links path) : path.Climbs links pattern := by
  induction hwithin with
  | self => exact .stay pattern
  | @link links path construct part held hwithin htype hpart hheld ih =>
      refine .up (enclosingPattern?_child ?_) ih
      apply isWrapped_child held htype hpart
      rintro rfl
      exact (hwithin.isPatternPart hpattern).parent_of_pair htype

theorem role_child {path : Path} {field : Field} {held : Node}
    (htype : held.type = .known .identifier) :
    (path.child field held).role = (path.child field held).plainRole :=
  role_of_identifier htype

theorem plainRole_of_atBindingSite {path : Path} (hsite : path.AtBindingSite) :
    path.plainRole = .binding := by
  obtain ⟨node, above⟩ := path
  cases above with
  | nil => simp [AtBindingSite, isIn_root] at hsite
  | cons step above =>
      simp only [AtBindingSite, isIn_iff] at hsite
      rcases hsite with ⟨htype, hfield⟩ | ⟨construct, hfunction, htype, hfield⟩
      · exact plainRole_of_applies .variableName (Step.joins_singleton.mpr ⟨htype, hfield⟩)
      · apply plainRole_of_applies .functionPart
        simp [Rule.applies, Rule.appliesAt, htype, hfield, NodeType.satisfies, hfunction]

/-- In a slot of a pattern that is not the value of a pair, a name can only be a declared target,
since every other rule asks for another construct or part. -/
theorem eq_declaredTarget_of_applies {path : Path} {construct : Construct} {part : Part}
    {held : Node} {rule : Rule} (htype : path.type = .known construct)
    (hpart : construct.targetPart? = some part) (hpair : construct ≠ .objectProperty)
    (happlies : rule.applies (path.child (.known part) held) = true) : rule = .declaredTarget := by
  rw [type] at htype
  by_contra hrule
  cases construct <;> cases hpart
  case objectProperty => exact hpair rfl
  all_goals
    cases rule <;>
      simp [Rule.applies, Path.child, Rule.appliesAt, Step.joins, Step.isPatternPair, htype,
        NodeType.satisfies, Construct.isFunction, Construct.isClass,
        Construct.isMemberExpression] at happlies hrule

theorem Within.plainRole_of_atBindingSite {pattern target : Path} {links : Nat}
    (hpattern : pattern.node.IsPattern) (hwithin : pattern.Within links target)
    (hsite : pattern.AtBindingSite) : target.plainRole = .binding := by
  cases hwithin with
  | self => exact Path.plainRole_of_atBindingSite hsite
  | @link links path construct part held hpath htype hpart hheld =>
      apply plainRole_of_applies .declaredTarget
      have hclimbs := (hpath.link htype hpart hheld).climbs hpattern
      exact (hclimbs.reachesBindingSite_iff (not_isWrapped_of_atBindingSite hsite)).mpr
        ⟨Nat.succ_pos links, hsite⟩

theorem isPatternPair_of_parent {pair : Path} (field : Field)
    (htype : pair.type = .known .objectProperty)
    (hparent : pair.parent?.map Node.type = some (.known .objectPattern)) :
    Step.isPatternPair ⟨field, pair.node⟩ pair.above = true := by
  refine Step.isPatternPair_iff.mpr ⟨htype, ?_⟩
  rw [← hparent, parent?, Option.map_map]
  rfl

theorem plainRole_of_pair_value {pair : Path} (value : Node)
    (htype : pair.type = .known .objectProperty)
    (hparent : pair.parent?.map Node.type = some (.known .objectPattern)) :
    (pair.child (.known .value) value).plainRole = .binding := by
  apply plainRole_of_applies .patternValue
  have hpair := isPatternPair_of_parent (.known .value) htype hparent
  simp [Rule.applies, Path.child, Rule.appliesAt, hpair]

theorem Within.plainRole_of_not_atBindingSite {pattern target : Path} {links : Nat}
    (hpattern : pattern.node.IsPattern) (hwithin : pattern.Within (links + 1) target)
    (hsite : ¬pattern.AtBindingSite) (hwrapped : ¬pattern.IsWrapped) :
    target.plainRole =
      if target.isIn (.known .objectProperty) (.known .value) then .binding else .reference := by
  have hreaches := (hwithin.climbs hpattern).reachesBindingSite_iff hwrapped
  cases hwithin with
  | @link _ path construct part held hpath htype hpart hheld =>
      by_cases hpair : construct = .objectProperty
      · subst hpair
        cases hpart
        rw [if_pos (isIn_child.mpr ⟨htype, rfl⟩)]
        exact plainRole_of_pair_value held htype
          ((hpath.isPatternPart hpattern).parent_of_pair htype)
      · rw [if_neg]
        · apply plainRole_of_not_applies
          intro rule happlies
          cases eq_declaredTarget_of_applies htype hpart hpair happlies
          exact hsite (hreaches.mp happlies).2
        · intro hin
          exact hpair (NodeType.known.inj (htype.symm.trans (isIn_child.mp hin).1))

/-- The way out of patterns does not even begin at a key, which is not what a pair takes apart. -/
theorem plainRole_of_pair_key {pair : Path} (key : Node)
    (htype : pair.type = .known .objectProperty)
    (hparent : pair.parent?.map Node.type = some (.known .objectPattern)) :
    (pair.child (.known .key) key).plainRole =
      if pair.node.computed then .reference else .static := by
  cases hcomputed : pair.node.computed with
  | false =>
      apply plainRole_of_applies .patternKey
      have hpair := isPatternPair_of_parent (.known .key) htype hparent
      simp [Rule.applies, Path.child, Rule.appliesAt, hpair, hcomputed]
  | true =>
      rw [type] at htype
      apply plainRole_of_not_applies
      intro rule happlies
      cases rule
      case declaredTarget =>
        have hslot := Step.slotRole?_of_wraps (wraps_of_reachesBindingSite happlies)
        simp only [Step.slotRole?, htype] at hslot
        cases hslot
      all_goals
        simp [Rule.applies, Path.child, Rule.appliesAt, Step.joins, htype, hcomputed,
          NodeType.satisfies, Construct.isFunction, Construct.isClass,
          Construct.isMemberExpression] at happlies

theorem plainRole_of_default {holder : Path} (value : Node)
    (htype : holder.type = .known .assignmentPattern) :
    (holder.child (.known .right) value).plainRole = .reference := by
  rw [type] at htype
  apply plainRole_of_not_applies
  intro rule happlies
  have hslot := Rule.slotRole?_of_appliesAt happlies
  simp only [Step.slotRole?, htype] at hslot
  cases hslot

/-- The roles of the names in a pattern. Where the pattern is declared, all targets are bindings.
Where it is neither declared nor itself taken apart, a target is a binding if it is the value of a
pair, and otherwise a reference. Either way the key of a pair is static if it is not computed and a
reference if it is, and a default value is a reference. -/
theorem role_in_pattern (pattern : Path) (hpattern : pattern.node.IsPattern) :
    (pattern.AtBindingSite →
      ∀ links target, pattern.Within links target → target.type = .known .identifier →
        target.role = .binding) ∧
    (¬pattern.AtBindingSite → ¬pattern.IsWrapped → pattern.type ≠ .known .identifier →
      ∀ links target, pattern.Within links target → target.type = .known .identifier →
        target.role =
          if target.isIn (.known .objectProperty) (.known .value) then .binding
          else .reference) ∧
    (∀ links pair key, pattern.Within links pair → pair.type = .known .objectProperty →
      (.known .key, key) ∈ pair.node.children → key.type = .known .identifier →
        (pair.child (.known .key) key).role =
          if pair.node.computed then .reference else .static) ∧
    (∀ links holder value, pattern.Within links holder →
      holder.type = .known .assignmentPattern →
      (.known .right, value) ∈ holder.node.children → value.type = .known .identifier →
        (holder.child (.known .right) value).role = .reference) := by
  refine ⟨?_, ?_, ?_, ?_⟩
  · intro hsite links target hwithin htype
    rw [role_of_identifier htype]
    exact hwithin.plainRole_of_atBindingSite hpattern hsite
  · intro hsite hwrapped hbare links target hwithin htype
    rw [role_of_identifier htype]
    cases links with
    | zero =>
        cases hwithin
        exact absurd htype hbare
    | succ links => exact hwithin.plainRole_of_not_atBindingSite hpattern hsite hwrapped
  · intro links pair key hwithin hpair _ hkey
    have hparent := (hwithin.isPatternPart hpattern).parent_of_pair hpair
    rw [role_child hkey]
    exact plainRole_of_pair_key key hpair hparent
  · intro links holder value _ hholder _ hvalue
    rw [role_child hvalue]
    exact plainRole_of_default value hholder

/-- The pair in `let [{b: a}] = c`. -/
def pairOfNames : Node :=
  ((Node.ofType (.known .objectProperty)).withChild (.known .key) (.identifier "b")).withChild
    (.known .value) (.identifier "a")

def patternOfPair : Node :=
  (Node.ofType (.known .objectPattern)).withChildren (.known .properties) [pairOfNames]

def pairInArray : Node :=
  (Node.ofType (.known .arrayPattern)).withChildren (.known .elements) [patternOfPair]

/-- The outer pattern in `let [{b: a}] = c`, in its declaration. -/
def declaredPairInArray : Path :=
  (root ((Node.ofType (.known .variableDeclarator)).withChild (.known .id) pairInArray)).child
    (.known .id) pairInArray

def declaredPair : Path :=
  (declaredPairInArray.child (.known .elements) patternOfPair).child (.known .properties)
    pairOfNames

theorem isPattern_pairInArray : pairInArray.IsPattern := by
  refine .array rfl fun element helement => ?_
  cases List.mem_singleton.mp helement
  refine .object rfl fun member hmember => ?_
  cases List.mem_singleton.mp hmember
  refine .pair rfl fun value hvalue => ?_
  simp [pairOfNames, Node.withChild, Node.ofType, Node.children, Slot.children,
    Slot.field] at hvalue
  subst hvalue
  exact .identifier rfl

theorem within_declaredPair : declaredPairInArray.Within 2 declaredPair :=
  .link (.link .self rfl rfl (List.mem_singleton_self _)) rfl rfl (List.mem_singleton_self _)

theorem role_in_pattern_pairInArray :
    declaredPairInArray.node.IsPattern ∧
      (declaredPair.child (.known .value) (.identifier "a")).role = .binding ∧
      (declaredPair.child (.known .key) (.identifier "b")).role = .static := by
  obtain ⟨htargets, -, hkeys, -⟩ := role_in_pattern declaredPairInArray isPattern_pairInArray
  refine ⟨isPattern_pairInArray, ?_, ?_⟩
  · have hvalue : (.known .value, .identifier "a") ∈ declaredPair.node.children :=
      List.mem_cons_of_mem _ List.mem_cons_self
    exact htargets (Or.inl rfl) 3 _ (within_declaredPair.link rfl rfl hvalue) rfl
  · exact hkeys 2 declaredPair (.identifier "b") within_declaredPair rfl List.mem_cons_self rfl

end Path

end NameRoles
