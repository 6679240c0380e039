import Mathlib.Data.List.Forall2
import NameRoles.Classify.Identifiers
import NameRoles.Proofs.Walk

/-! Classifying a tree fails only at a type parameter that is not marked as TypeScript and stands
neither in a Flow list of type parameters nor in a mapped type; the first such node in the order of
the walk gives the fault. Every other tree has one entry for each of its names, labelled by the path
from the name to the root. -/

namespace NameRoles

namespace Path

/-- A type parameter that is not marked as TypeScript and whose parent, if it has one, tells no
dialect. -/
def IsStray (path : Path) : Prop :=
  path.node.type = .known .typeParameter ∧
    ∀ parent, path.parent? = some parent →
      parent.type ≠ .known .typeParameterDeclaration ∧ parent.type ≠ .known .tsMappedType

/-- The fault of a stray type parameter. It names the type of the parent, if there is a parent. -/
def strayFault (path : Path) : Located ClassifyFault :=
  ⟨.strayTypeParameter (path.parent?.map fun parent => parent.type.text), path.node.span⟩

/-- Whether the node at a path is of one of the types that carry a name. -/
def CarriesName (path : Path) : Prop :=
  path.node.type = .known .identifier ∨ path.node.type = .known .jsxIdentifier ∨
    path.node.type = .known .typeParameter ∨ path.node.type = .known .tsTypeParameter

instance (path : Path) : Decidable path.CarriesName :=
  inferInstanceAs (Decidable (_ ∨ _ ∨ _ ∨ _))

/-- An entry that says of the name at a path what it is and how it is labelled there. -/
structure Records (path : Path) (entry : Identifier) : Prop where
  name_eq : entry.name = path.node.name.getD ""
  role_eq : entry.role = path.role
  dialect_eq : path.dialect = .ok entry.dialect
  span_eq : entry.span = path.node.span

theorem isIdentifierLike_iff (path : Path) : path.isIdentifierLike = true ↔ path.CarriesName := by
  rw [isIdentifierLike, CarriesName, type]
  cases path.node.type with
  | known construct => cases construct <;> simp [NodeType.satisfies, Construct.isIdentifierLike]
  | other name => simp [NodeType.satisfies]

theorem dialect_of_isStray {path : Path} (hstray : path.IsStray) :
    path.dialect = .error path.strayFault := by
  obtain ⟨htype, hparent⟩ := hstray
  rw [dialect, type, htype]
  show path.typeParameterDialect = _
  rw [typeParameterDialect, type, htype, strayFault]
  cases hheld : path.parent? with
  | none => rfl
  | some parent =>
      obtain ⟨hflow, hmapped⟩ := hparent parent hheld
      simp only [Option.map_some]
      split
      · rename_i heq
        exact absurd (Option.some.inj heq) hflow
      · rename_i heq
        exact absurd (Option.some.inj heq) hmapped
      · rfl

theorem typeParameterDialect_of_not_isStray {path : Path} (hstray : ¬path.IsStray)
    (htype : path.type = .known .typeParameter ∨ path.type = .known .tsTypeParameter) :
    ∃ dialect, path.typeParameterDialect = .ok dialect := by
  rw [typeParameterDialect]
  split
  · exact ⟨_, rfl⟩
  · exact ⟨_, rfl⟩
  · rename_i hflow hmapped
    rcases htype with htype | htype
    · refine absurd ⟨htype, fun parent hparent => ⟨fun h => hflow ?_, fun h => hmapped ?_⟩⟩ hstray
      · rw [hparent, Option.map_some, h]
      · rw [hparent, Option.map_some, h]
    · rw [if_pos htype]
      exact ⟨_, rfl⟩

theorem dialect_of_not_isStray {path : Path} (hstray : ¬path.IsStray) :
    ∃ dialect, path.dialect = .ok dialect := by
  rw [dialect]
  split
  · rename_i htype
    exact typeParameterDialect_of_not_isStray hstray (Or.inl htype)
  · rename_i htype
    exact typeParameterDialect_of_not_isStray hstray (Or.inr htype)
  · exact ⟨_, rfl⟩
  · exact ⟨_, rfl⟩

theorem isStray_iff_dialect {path : Path} :
    path.IsStray ↔ ∃ error, path.dialect = .error error := by
  constructor
  · intro hstray
    exact ⟨path.strayFault, dialect_of_isStray hstray⟩
  · rintro ⟨error, herror⟩
    by_contra hstray
    obtain ⟨dialect, hdialect⟩ := dialect_of_not_isStray hstray
    rw [hdialect] at herror
    cases herror

/-- The entry of the name at a path, if there is a name and it has a dialect. -/
def record? (path : Path) : Option Identifier :=
  if path.CarriesName then
    path.dialect.toOption.map fun dialect =>
      ⟨path.node.name.getD "", path.role, dialect, path.node.span⟩
  else none

/-- What is reported about the node at a path. -/
def reports (path : Path) : List Event :=
  (path.targetWrappers?.map Event.targetReachedSite).toList

theorem reports_of_type_ne {path : Path} (htype : path.type ≠ .known .identifier) :
    path.reports = [] := by
  rw [reports, targetWrappers?, if_neg]
  · rfl
  · simp [htype]

theorem record?_of_not_carriesName {path : Path} (hname : ¬path.CarriesName) :
    path.record? = none :=
  if_neg hname

theorem record?_of_not_isStray {path : Path} (hname : path.CarriesName) (hstray : ¬path.IsStray) :
    ∃ entry, path.record? = some entry ∧ path.Records entry := by
  obtain ⟨dialect, hdialect⟩ := dialect_of_not_isStray hstray
  refine ⟨⟨path.node.name.getD "", path.role, dialect, path.node.span⟩, ?_, rfl, rfl, hdialect, rfl⟩
  rw [record?, if_pos hname, hdialect]
  rfl

end Path

namespace Classified

/-- One step of the walk at a path that is no stray type parameter. -/
theorem enter_of_not_isStray (classified : Classified) {path : Path} (hstray : ¬path.IsStray) :
    classified.enter path =
      (⟨classified.identifiers ++ path.record?.toList, classified.events ++ path.reports⟩,
        .ok ()) := by
  rw [enter]
  by_cases hname : path.CarriesName
  · rw [if_pos (path.isIdentifierLike_iff.mpr hname)]
    obtain ⟨dialect, hdialect⟩ := Path.dialect_of_not_isStray hstray
    rw [Path.labels, Path.record?, if_pos hname, hdialect]
    simp [Except.map, Except.toOption, Path.reports]
  · rw [if_neg fun hlike => hname (path.isIdentifierLike_iff.mp hlike),
      Path.record?_of_not_carriesName hname,
      Path.reports_of_type_ne fun htype => hname (Or.inl htype)]
    simp

theorem enter_of_isStray (classified : Classified) {path : Path} (hstray : path.IsStray) :
    classified.enter path = (classified, .error path.strayFault) := by
  have hname : path.CarriesName := Or.inr (Or.inr (Or.inl hstray.1))
  have hreports : path.reports = [] := Path.reports_of_type_ne (by simp [Path.type, hstray.1])
  rw [enter, if_pos (path.isIdentifierLike_iff.mpr hname), Path.labels,
    Path.dialect_of_isStray hstray]
  rw [Path.reports] at hreports
  simp [Except.map, hreports]

/-- The walk along paths none of which is a stray type parameter. -/
theorem foldUntil_enter (classified : Classified) {paths : List Path}
    (hstray : ∀ path ∈ paths, ¬path.IsStray) :
    Path.foldUntil enter classified paths =
      (⟨classified.identifiers ++ paths.filterMap Path.record?,
        classified.events ++ paths.flatMap Path.reports⟩, .ok ()) := by
  induction paths generalizing classified with
  | nil => simp [Path.foldUntil]
  | cons path paths ih =>
      have hhead := enter_of_not_isStray classified (hstray path List.mem_cons_self)
      rw [Path.foldUntil_cons_ok enter paths hhead,
        ih _ fun other hmem => hstray other (List.mem_cons_of_mem _ hmem)]
      have hidentifiers : classified.identifiers ++ path.record?.toList ++
          paths.filterMap Path.record? =
            classified.identifiers ++ (path :: paths).filterMap Path.record? := by
        apply Array.ext'
        cases hentry : path.record? <;> simp [hentry]
      have hevents : classified.events ++ path.reports ++ paths.flatMap Path.reports =
          classified.events ++ (path :: paths).flatMap Path.reports := by
        apply Array.ext'
        simp
      rw [hidentifiers, hevents]

theorem foldUntil_enter_isStray (classified : Classified) {before : List Path} {path : Path}
    (after : List Path) (hbefore : ∀ earlier ∈ before, ¬earlier.IsStray) (hstray : path.IsStray) :
    Path.foldUntil enter classified (before ++ path :: after) =
      (⟨classified.identifiers ++ before.filterMap Path.record?,
        classified.events ++ before.flatMap Path.reports⟩, .error path.strayFault) := by
  rw [Path.foldUntil_append enter _ (foldUntil_enter classified hbefore),
    Path.foldUntil_cons_error enter _ (enter_of_isStray _ hstray)]

end Classified

namespace Path

/-- The entries of paths none of which is a stray type parameter are one for each name. -/
theorem forall₂_records {paths : List Path} (hstray : ∀ path ∈ paths, ¬path.IsStray) :
    List.Forall₂ Records (paths.filter (·.CarriesName)) (paths.filterMap record?) := by
  induction paths with
  | nil => exact List.Forall₂.nil
  | cons path paths ih =>
      have htail := ih fun other hmem => hstray other (List.mem_cons_of_mem _ hmem)
      by_cases hname : path.CarriesName
      · obtain ⟨entry, hentry, hrecords⟩ :=
          record?_of_not_isStray hname (hstray path List.mem_cons_self)
        rw [List.filter_cons_of_pos (by simpa using hname), List.filterMap_cons_some hentry]
        exact List.Forall₂.cons hrecords htail
      · rw [List.filter_cons_of_neg (by simpa using hname),
          List.filterMap_cons_none (record?_of_not_carriesName hname)]
        exact htail

/-- Paths among which there is a stray type parameter have a first one. -/
theorem exists_first_isStray {paths : List Path} (hstray : ∃ path ∈ paths, path.IsStray) :
    ∃ before path after, paths = before ++ path :: after ∧
      (∀ earlier ∈ before, ¬earlier.IsStray) ∧ path.IsStray := by
  classical
  obtain ⟨path, hfound⟩ : ∃ path, paths.find? (fun path => path.IsStray) = some path := by
    rw [← Option.isSome_iff_exists, List.find?_isSome]
    simpa using hstray
  obtain ⟨hfirst, before, after, heq, hbefore⟩ := List.find?_eq_some_iff_append.mp hfound
  exact ⟨before, path, after, heq, by simpa using hbefore, by simpa using hfirst⟩

end Path

namespace Node

/-- A classification that fails has reported about the nodes before the first stray type
parameter. -/
theorem classify_of_first_isStray {root : Node} {before after : List Path} {path : Path}
    (heq : root.occurrences = before ++ path :: after)
    (hbefore : ∀ earlier ∈ before, ¬earlier.IsStray) (hstray : path.IsStray) :
    root.classify =
      ⟨[.classificationOpened, .classificationEntered] ++ before.flatMap Path.reports ++
        [.classificationLeft], .error path.strayFault⟩ := by
  rw [classify, tryTraverse_eq_foldUntil, heq,
    Classified.foldUntil_enter_isStray _ after hbefore hstray]
  simp

/-- A classification that succeeds has reported about all nodes, and at last the number of its
entries. -/
theorem classify_of_not_isStray {root : Node}
    (hstray : ∀ path ∈ root.occurrences, ¬path.IsStray) :
    root.classify =
      ⟨[.classificationOpened, .classificationEntered] ++ root.occurrences.flatMap Path.reports ++
        [.identifiersCounted (root.occurrences.filterMap Path.record?).length,
          .classificationLeft], .ok (root.occurrences.filterMap Path.record?)⟩ := by
  rw [classify, tryTraverse_eq_foldUntil, Classified.foldUntil_enter _ hstray]
  simp

theorem classify_result_of_first_isStray {root : Node} {before after : List Path} {path : Path}
    (heq : root.occurrences = before ++ path :: after)
    (hbefore : ∀ earlier ∈ before, ¬earlier.IsStray) (hstray : path.IsStray) :
    root.classify.result = .error path.strayFault := by
  rw [classify_of_first_isStray heq hbefore hstray]

theorem classify_result_of_not_isStray {root : Node}
    (hstray : ∀ path ∈ root.occurrences, ¬path.IsStray) :
    root.classify.result = .ok (root.occurrences.filterMap Path.record?) := by
  rw [classify_of_not_isStray hstray]

theorem not_isStray_of_classify_ok {root : Node} {entries : List Identifier}
    (hentries : root.classify.result = .ok entries) : ∀ path ∈ root.occurrences, ¬path.IsStray := by
  intro path hpath hstray
  obtain ⟨before, first, after, heq, hbefore, hfirst⟩ :=
    Path.exists_first_isStray ⟨path, hpath, hstray⟩
  rw [classify_result_of_first_isStray heq hbefore hfirst] at hentries
  cases hentries

/-- The fault of a classification is that of the first stray type parameter. -/
theorem exists_first_isStray_of_classify_error {root : Node} {error : Located ClassifyFault}
    (herror : root.classify.result = .error error) :
    ∃ before path after, root.occurrences = before ++ path :: after ∧
      (∀ earlier ∈ before, ¬earlier.IsStray) ∧ path.IsStray ∧ error = path.strayFault := by
  by_cases hstray : ∃ path ∈ root.occurrences, path.IsStray
  · obtain ⟨before, path, after, heq, hbefore, hfirst⟩ := Path.exists_first_isStray hstray
    rw [classify_result_of_first_isStray heq hbefore hfirst] at herror
    cases herror
    exact ⟨before, path, after, heq, hbefore, hfirst, rfl⟩
  · push Not at hstray
    rw [classify_result_of_not_isStray hstray] at herror
    cases herror

/-- Classifying a tree fails if and only if the tree has a stray type parameter, and then with the
fault of the first one. Otherwise it yields one entry for each node that carries a name, in the
order of the nodes, with the labels that the node has at its path to the root. -/
theorem classify_result (root : Node) :
    ((∃ error, root.classify.result = .error error) ↔
      ∃ path ∈ root.occurrences, path.IsStray) ∧
    (∀ before path after, root.occurrences = before ++ path :: after →
      (∀ earlier ∈ before, ¬earlier.IsStray) → path.IsStray →
        root.classify.result = .error ⟨.strayTypeParameter
          (path.parent?.map fun parent => parent.type.text), path.node.span⟩) ∧
    ((∀ path ∈ root.occurrences, ¬path.IsStray) →
      ∃ entries, root.classify.result = .ok entries ∧
        List.Forall₂ Path.Records (root.occurrences.filter (·.CarriesName)) entries) := by
  refine ⟨⟨?_, ?_⟩, ?_, ?_⟩
  · rintro ⟨error, herror⟩
    by_contra hnone
    push Not at hnone
    rw [classify_result_of_not_isStray hnone] at herror
    cases herror
  · intro hstray
    obtain ⟨before, path, after, heq, hbefore, hfirst⟩ := Path.exists_first_isStray hstray
    exact ⟨_, classify_result_of_first_isStray heq hbefore hfirst⟩
  · intro before path after heq hbefore hstray
    exact classify_result_of_first_isStray heq hbefore hstray
  · intro hstray
    exact ⟨_, classify_result_of_not_isStray hstray, Path.forall₂_records hstray⟩

end Node

end NameRoles
