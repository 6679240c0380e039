import NameRoles.Classify.Dialect
import NameRoles.Classify.Role
import NameRoles.Proofs.Wrapping

/-! How far the labels of an identifier look. Beyond the patterns around it, the path of an
identifier is read up to two nodes further: the first tells whether the outermost pattern is
declared, and the second whether a pair belongs to an object pattern. Of these nodes only the types
are read, and of the slots between them only the names, so paths that agree on these are labelled
alike. -/

namespace NameRoles

namespace Path

/-- The slots on the way from the node of a path to the root, nearest first. -/
def keys (path : Path) : List Field :=
  path.above.map Step.field

/-- The types of the nodes above `path` and `other` agree for `count + 2` nodes, and the slots that
lead up from them and their nearest `count` ancestors have the same names. -/
structure ChainAgrees (count : Nat) (path other : Path) : Prop where
  ancestors_eq : ∀ i < count + 2,
    path.ancestors[i]?.map Node.type = other.ancestors[i]?.map Node.type
  keys_eq : ∀ i ≤ count, path.keys[i]? = other.keys[i]?

/-- Besides the chains above them, `path` and `other` agree on the type of the node and on whether
its name begins in lower case, on the flag of the parent, and on whether the grandparent has a
source. -/
structure Agrees (count : Nat) (path other : Path) : Prop extends
    ChainAgrees count path other where
  type_eq : path.type = other.type
  lowercase_eq :
    path.node.name.any Text.startsLowercase = other.node.name.any Text.startsLowercase
  computed_eq : path.parent?.map Node.computed = other.parent?.map Node.computed
  source_eq : path.ancestors[1]?.map (·.hasChild (.known .source)) =
    other.ancestors[1]?.map (·.hasChild (.known .source))

theorem parent?_eq_ancestors (path : Path) : path.parent? = path.ancestors[0]? := by
  rw [parent?, ancestors]
  cases path.above <;> rfl

theorem isIn_iff_ancestors {path : Path} {type : NodeType} {field : Field} :
    path.isIn type field = true ↔
      path.ancestors[0]?.map Node.type = some type ∧ path.keys[0]? = some field := by
  obtain ⟨node, above⟩ := path
  cases above with
  | nil => simp [isIn_root, ancestors]
  | cons step above => simp [isIn_iff, ancestors, keys]

variable {count : Nat} {path other : Path}

theorem ChainAgrees.parent_eq (hagrees : ChainAgrees count path other) :
    path.ancestors[0]?.map Node.type = other.ancestors[0]?.map Node.type :=
  hagrees.ancestors_eq 0 (by omega)

theorem ChainAgrees.grandparent_eq (hagrees : ChainAgrees count path other) :
    path.ancestors[1]?.map Node.type = other.ancestors[1]?.map Node.type :=
  hagrees.ancestors_eq 1 (by omega)

theorem ChainAgrees.key_eq (hagrees : ChainAgrees count path other) :
    path.keys[0]? = other.keys[0]? :=
  hagrees.keys_eq 0 (by omega)

theorem ChainAgrees.isIn_eq (hagrees : ChainAgrees count path other) (type : NodeType)
    (field : Field) : path.isIn type field = other.isIn type field := by
  rw [Bool.eq_iff_iff, isIn_iff_ancestors, isIn_iff_ancestors, hagrees.parent_eq, hagrees.key_eq]

theorem ChainAgrees.isWrapped_iff (hagrees : ChainAgrees count path other) :
    path.IsWrapped ↔ other.IsWrapped := by
  simp only [IsWrapped, hagrees.isIn_eq, hagrees.grandparent_eq]

theorem ChainAgrees.atBindingSite_iff (hagrees : ChainAgrees count path other) :
    path.AtBindingSite ↔ other.AtBindingSite := by
  simp only [AtBindingSite, hagrees.isIn_eq]

theorem ancestors_succ {outer : Path} {step : Step} (habove : path.above = step :: outer.above)
    (i : Nat) : path.ancestors[i + 1]? = outer.ancestors[i]? := by
  rw [ancestors, habove, List.map_cons, List.getElem?_cons_succ, ancestors]

theorem keys_succ {outer : Path} {step : Step} (habove : path.above = step :: outer.above)
    (i : Nat) : path.keys[i + 1]? = outer.keys[i]? := by
  rw [keys, habove, List.map_cons, List.getElem?_cons_succ, keys]

/-- Where one path has an enclosing pattern, so has the other, and these agree again. -/
theorem ChainAgrees.enclosingPattern? {next : Path} (hagrees : ChainAgrees (count + 1) path other)
    (hnext : path.enclosingPattern? = some next) :
    ∃ next', other.enclosingPattern? = some next' ∧ ChainAgrees count next next' := by
  have hwrapped : other.IsWrapped :=
    hagrees.isWrapped_iff.mp (isWrapped_of_enclosingPattern? hnext)
  obtain ⟨next', hnext'⟩ : ∃ next', other.enclosingPattern? = some next' := by
    rw [← Option.ne_none_iff_exists']
    exact fun hnone => enclosingPattern?_eq_none_iff.mp hnone hwrapped
  obtain ⟨step, habove⟩ := above_of_enclosingPattern? hnext
  obtain ⟨step', habove'⟩ := above_of_enclosingPattern? hnext'
  refine ⟨next', hnext', ?_, ?_⟩
  · intro i hi
    have hancestor := hagrees.ancestors_eq (i + 1) (by omega)
    rwa [ancestors_succ habove, ancestors_succ habove'] at hancestor
  · intro i hi
    have hkey := hagrees.keys_eq (i + 1) (by omega)
    rwa [keys_succ habove, keys_succ habove'] at hkey

/-- Both ways out of all patterns have the same length and end alike. -/
theorem ChainAgrees.climbs {outer : Path} (hclimbs : path.Climbs count outer)
    (hlast : ¬outer.IsWrapped) (hagrees : ChainAgrees count path other) :
    ∃ outer', other.Climbs count outer' ∧ ¬outer'.IsWrapped ∧
      (outer.AtBindingSite ↔ outer'.AtBindingSite) := by
  induction hclimbs generalizing other with
  | stay path =>
      exact ⟨other, .stay other, fun hwrapped => hlast (hagrees.isWrapped_iff.mpr hwrapped),
        hagrees.atBindingSite_iff⟩
  | up hnext _ ih =>
      obtain ⟨next', hnext', hagrees'⟩ := hagrees.enclosingPattern? hnext
      obtain ⟨outer', hclimbs', hlast', hsite⟩ := ih hlast hagrees'
      exact ⟨outer', .up hnext' hclimbs', hlast', hsite⟩

theorem ChainAgrees.reachesBindingSite_eq {outer : Path} (hclimbs : path.Climbs count outer)
    (hlast : ¬outer.IsWrapped) (hagrees : ChainAgrees count path other) :
    reachesBindingSite path.above = reachesBindingSite other.above := by
  obtain ⟨outer', hclimbs', hlast', hsite⟩ := hagrees.climbs hclimbs hlast
  rw [Bool.eq_iff_iff, hclimbs.reachesBindingSite_iff hlast,
    hclimbs'.reachesBindingSite_iff hlast', hsite]

end Path

theorem Step.isPatternPair_congr {step step' : Step} {above above' : List Step}
    (htype : step.parent.type = step'.parent.type)
    (hnext : above.head?.map (·.parent.type) = above'.head?.map (·.parent.type)) :
    step.isPatternPair above = step'.isPatternPair above' := by
  rw [Bool.eq_iff_iff, isPatternPair_iff, isPatternPair_iff, htype, hnext]

/-- What a rule reads. -/
theorem Rule.appliesAt_congr {step step' : Step} {above above' : List Step}
    (htype : step.parent.type = step'.parent.type) (hfield : step.field = step'.field)
    (hcomputed : step.parent.computed = step'.parent.computed)
    (hnext : above.head?.map (·.parent.type) = above'.head?.map (·.parent.type))
    (hsource : above.head?.map (·.parent.hasChild (.known .source)) =
      above'.head?.map (·.parent.hasChild (.known .source)))
    (hreaches : Path.reachesBindingSite (step :: above) =
      Path.reachesBindingSite (step' :: above')) (rule : Rule) :
    rule.appliesAt step above = rule.appliesAt step' above' := by
  have hjoins (constructs : List Construct) (parts : List Part) :
      step.joins constructs parts = step'.joins constructs parts := by
    rw [Step.joins, Step.joins, htype, hfield]
  have hpair := Step.isPatternPair_congr htype hnext
  have hany : above.head?.any (·.parent.hasChild (.known .source)) =
      above'.head?.any (·.parent.hasChild (.known .source)) := by
    cases above <;> cases above' <;> simp_all
  cases rule <;> simp only [appliesAt, htype, hfield, hcomputed, hjoins, hpair, hany, hreaches]

namespace Path

variable {count : Nat} {path other : Path}

/-- Either both paths lead up, by slots of the same name from parents of the same type, or neither
does. -/
theorem Agrees.step_cases (hagrees : Agrees count path other) :
    (path.above = [] ∧ other.above = []) ∨
      ∃ step above step' above', path.above = step :: above ∧ other.above = step' :: above' ∧
        step.parent.type = step'.parent.type ∧ step.field = step'.field ∧
        step.parent.computed = step'.parent.computed := by
  have htype := hagrees.parent_eq
  have hfield := hagrees.key_eq
  have hcomputed := hagrees.computed_eq
  rw [ancestors, ancestors] at htype
  rw [keys, keys] at hfield
  rw [parent?, parent?] at hcomputed
  cases habove : path.above with
  | nil =>
      cases habove' : other.above with
      | nil => exact Or.inl ⟨rfl, rfl⟩
      | cons step' above' => simp [habove, habove'] at htype
  | cons step above =>
      cases habove' : other.above with
      | nil => simp [habove, habove'] at htype
      | cons step' above' =>
          simp only [habove, habove', List.map_cons, List.getElem?_cons_zero, Option.map_some,
            Option.some.injEq, List.head?_cons] at htype hfield hcomputed
          exact Or.inr ⟨step, above, step', above', rfl, rfl, htype, hfield, hcomputed⟩

theorem Agrees.applies_eq {outer : Path} (hclimbs : path.Climbs count outer)
    (hlast : ¬outer.IsWrapped) (hagrees : Agrees count path other) (rule : Rule) :
    rule.applies path = rule.applies other := by
  have hreaches := hagrees.reachesBindingSite_eq hclimbs hlast
  have hnext := hagrees.grandparent_eq
  have hsource := hagrees.source_eq
  rcases hagrees.step_cases with
    ⟨habove, habove'⟩ | ⟨step, above, step', above', habove, habove', htype, hfield, hcomputed⟩
  · rw [Rule.applies, Rule.applies, habove, habove']
  · rw [grandparent_eq_head habove, grandparent_eq_head habove'] at hnext hsource
    rw [habove, habove'] at hreaches
    rw [Rule.applies, Rule.applies, habove, habove']
    exact Rule.appliesAt_congr htype hfield hcomputed hnext hsource hreaches rule

theorem Agrees.rule?_eq {outer : Path} (hclimbs : path.Climbs count outer)
    (hlast : ¬outer.IsWrapped) (hagrees : Agrees count path other) : path.rule? = other.rule? := by
  rw [rule?, rule?]
  congr 1
  funext rule
  exact hagrees.applies_eq hclimbs hlast rule

theorem Agrees.plainRole_eq {outer : Path} (hclimbs : path.Climbs count outer)
    (hlast : ¬outer.IsWrapped) (hagrees : Agrees count path other) :
    path.plainRole = other.plainRole := by
  rw [plainRole, plainRole, hagrees.rule?_eq hclimbs hlast]

theorem Agrees.targetWrappers?_eq {outer : Path} (hclimbs : path.Climbs count outer)
    (hlast : ¬outer.IsWrapped) (hagrees : Agrees count path other) :
    path.targetWrappers? = other.targetWrappers? := by
  obtain ⟨outer', hclimbs', hlast', -⟩ := hagrees.climbs hclimbs hlast
  rw [targetWrappers?, targetWrappers?, hagrees.type_eq, hagrees.rule?_eq hclimbs hlast,
    hclimbs.wrapperCount_eq hlast, hclimbs'.wrapperCount_eq hlast']

theorem Agrees.jsxRole_eq (hagrees : Agrees count path other) : path.jsxRole = other.jsxRole := by
  have hnamespace : path.above.head?.any (·.parent.type = .known .jsxNamespacedName) =
      other.above.head?.any (·.parent.type = .known .jsxNamespacedName) := by
    rcases hagrees.step_cases with
      ⟨habove, habove'⟩ | ⟨step, above, step', above', habove, habove', htype, -, -⟩
    · rw [habove, habove']
    · rw [habove, habove', List.head?_cons, List.head?_cons, Option.any_some, Option.any_some,
        htype]
  rw [jsxRole, jsxRole, hagrees.isIn_eq, hagrees.isIn_eq, hagrees.isIn_eq, hnamespace,
    hagrees.lowercase_eq]

theorem Agrees.role_eq {outer : Path} (hclimbs : path.Climbs count outer)
    (hlast : ¬outer.IsWrapped) (hagrees : Agrees count path other) : path.role = other.role := by
  rw [role, role, hagrees.type_eq, hagrees.plainRole_eq hclimbs hlast, hagrees.jsxRole_eq]

theorem Agrees.slotDialect?_eq (hagrees : Agrees count path other) :
    path.slotDialect? = other.slotDialect? := by
  rcases hagrees.step_cases with
    ⟨habove, habove'⟩ | ⟨step, above, step', above', habove, habove', htype, hfield, -⟩
  · rw [slotDialect?, slotDialect?, habove, habove']
  · rw [slotDialect?, slotDialect?, habove, habove']
    simp only [htype, hfield]

theorem Agrees.typeParameterDialect_eq (hagrees : Agrees count path other) :
    path.typeParameterDialect.mapError Located.fault =
      other.typeParameterDialect.mapError Located.fault := by
  have hparent : path.parent?.map Node.type = other.parent?.map Node.type := by
    rw [parent?_eq_ancestors, parent?_eq_ancestors, hagrees.parent_eq]
  rw [typeParameterDialect, typeParameterDialect, hparent, hagrees.type_eq]
  split
  · rfl
  · rfl
  · split <;> rfl

/-- The dialects are the same, or both are missing for the same reason. -/
theorem Agrees.dialect_eq (hagrees : Agrees count path other) :
    path.dialect.mapError Located.fault = other.dialect.mapError Located.fault := by
  rw [dialect, dialect, hagrees.type_eq, hagrees.slotDialect?_eq]
  split
  · exact hagrees.typeParameterDialect_eq
  · exact hagrees.typeParameterDialect_eq
  · rfl
  · rfl

/-- The labels of an identifier depend on nothing beyond the second node above the patterns around
it, and up to there only on the types of the nodes, the names of the slots, the flag of the parent,
whether the grandparent has a source, and whether the name begins in lower case. -/
theorem labels_eq_of_agrees {count : Nat} {path other outer : Path}
    (hclimbs : path.Climbs count outer) (hlast : outer.enclosingPattern? = none)
    (hagrees : Agrees count path other) :
    path.role = other.role ∧
      path.dialect.mapError Located.fault = other.dialect.mapError Located.fault :=
  ⟨hagrees.role_eq hclimbs (enclosingPattern?_eq_none_iff.mp hlast), hagrees.dialect_eq⟩

/-- A name in `let [a] = b`, where `rest` leads up from the declaration. -/
def declaredElement (name : String) (rest : List Step) : Path :=
  ⟨.identifier name,
    ⟨.known .elements, .ofType (.known .arrayPattern)⟩ ::
    ⟨.known .id, .ofType (.known .variableDeclarator)⟩ ::
    ⟨.known .declarations, .ofType (.known .variableDeclaration)⟩ :: rest⟩

/-- Neither the name nor what holds the declaration matters. -/
theorem agrees_declaredElement (rest rest' : List Step) :
    Agrees 1 (declaredElement "a" rest) (declaredElement "b" rest') where
  ancestors_eq i hi := by
    match i, hi with
    | 0, _ => rfl
    | 1, _ => rfl
    | 2, _ => rfl
  keys_eq i hi := by
    match i, hi with
    | 0, _ => rfl
    | 1, _ => rfl
  type_eq := rfl
  lowercase_eq := by
    show (some "a").any Text.startsLowercase = (some "b").any Text.startsLowercase
    decide
  computed_eq := rfl
  source_eq := rfl

theorem labels_eq_declaredElement :
    (declaredElement "a" []).role = .binding ∧
      (declaredElement "b" [⟨.known .body, .ofType (.known .program)⟩]).role = .binding ∧
      (declaredElement "b" [⟨.known .body, .ofType (.known .program)⟩]).dialect.mapError
        Located.fault = .ok .javaScript := by
  obtain ⟨hrole, hdialect⟩ := labels_eq_of_agrees (.up rfl (.stay _)) rfl
    (agrees_declaredElement [] [⟨.known .body, .ofType (.known .program)⟩])
  have hbinding : (declaredElement "a" []).role = .binding := by decide
  exact ⟨hbinding, hrole.symm.trans hbinding, hdialect.symm.trans rfl⟩

end Path

end NameRoles
