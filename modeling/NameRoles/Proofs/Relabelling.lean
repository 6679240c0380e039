import NameRoles.Proofs.Classification
import NameRoles.Proofs.Wrapping

/-! Names, spans and the texts of unknown types and slots. A relabelling gives all of them anew in a
tree and leaves the types and slots that are known by name, the flags and the shape alone. The
classification is relabelled with the tree, entry by entry or in its fault, as long as no JSX name
changes between beginning in lower case and not. -/

namespace NameRoles

/-- New names, spans and texts. -/
structure Relabelling where
  name : String → String
  span : Span → Span
  typeText : String → String
  fieldText : String → String

def NodeType.relabel (labels : Relabelling) : NodeType → NodeType
  | known construct => known construct
  | other name => other (labels.typeText name)

def Field.relabel (labels : Relabelling) : Field → Field
  | known part => known part
  | other name => other (labels.fieldText name)

mutual

/-- A tree with new labels everywhere. -/
def Node.relabel (labels : Relabelling) : Node → Node
  | ⟨span, type, name, computed, slots⟩ =>
      ⟨labels.span span, type.relabel labels, name.map labels.name, computed,
        relabelSlots labels slots⟩

def Node.relabelSlots (labels : Relabelling) : List Slot → List Slot
  | [] => []
  | .single field child :: slots =>
      .single (field.relabel labels) (child.relabel labels) :: relabelSlots labels slots
  | .list field items :: slots =>
      .list (field.relabel labels) (relabelItems labels items) :: relabelSlots labels slots

def Node.relabelItems (labels : Relabelling) : List (Option Node) → List (Option Node)
  | [] => []
  | none :: items => none :: relabelItems labels items
  | some child :: items => some (child.relabel labels) :: relabelItems labels items

end

def Slot.relabel (labels : Relabelling) : Slot → Slot
  | single field child => single (field.relabel labels) (child.relabel labels)
  | list field items => list (field.relabel labels) (Node.relabelItems labels items)

def Step.relabel (labels : Relabelling) (step : Step) : Step :=
  ⟨step.field.relabel labels, step.parent.relabel labels⟩

def Path.relabel (labels : Relabelling) (path : Path) : Path :=
  ⟨path.node.relabel labels, path.above.map (Step.relabel labels)⟩

/-- The entry of a relabelled node, given the name of the node. A missing name stays empty. -/
def Identifier.relabel (labels : Relabelling) (name : Option String) (entry : Identifier) :
    Identifier :=
  { entry with name := (name.map labels.name).getD "", span := labels.span entry.span }

/-- The name of a JSX identifier begins in lower case as before. -/
def Relabelling.KeepsCase (labels : Relabelling) (path : Path) : Prop :=
  path.type = .known .jsxIdentifier → ∀ name, path.node.name = some name →
    Text.startsLowercase (labels.name name) = Text.startsLowercase name

variable {labels : Relabelling}

@[simp] theorem NodeType.relabel_eq_known_iff {type : NodeType} {construct : Construct} :
    type.relabel labels = .known construct ↔ type = .known construct := by
  cases type <;> simp [relabel]

@[simp] theorem NodeType.satisfies_relabel (type : NodeType) (property : Construct → Bool) :
    (type.relabel labels).satisfies property = type.satisfies property := by
  cases type <;> rfl

@[simp] theorem Field.relabel_eq_known_iff {field : Field} {part : Part} :
    field.relabel labels = .known part ↔ field = .known part := by
  cases field <;> simp [relabel]

namespace Node

@[simp] theorem type_relabel (node : Node) :
    (node.relabel labels).type = node.type.relabel labels := by
  cases node
  rfl

@[simp] theorem name_relabel (node : Node) :
    (node.relabel labels).name = node.name.map labels.name := by
  cases node
  rfl

@[simp] theorem span_relabel (node : Node) :
    (node.relabel labels).span = labels.span node.span := by
  cases node
  rfl

@[simp] theorem computed_relabel (node : Node) :
    (node.relabel labels).computed = node.computed := by
  cases node
  rfl

theorem relabelSlots_eq (slots : List Slot) :
    relabelSlots labels slots = slots.map (Slot.relabel labels) := by
  induction slots with
  | nil => rfl
  | cons slot slots ih =>
      rw [List.map_cons, ← ih]
      cases slot <;> rfl

theorem slots_relabel (node : Node) :
    (node.relabel labels).slots = node.slots.map (Slot.relabel labels) := by
  cases node
  exact relabelSlots_eq _

theorem filterMap_relabelItems (items : List (Option Node)) :
    (relabelItems labels items).filterMap id = (items.filterMap id).map (relabel labels) := by
  induction items with
  | nil => rfl
  | cons item items ih =>
      cases item with
      | none => exact ih
      | some child => exact congrArg (child.relabel labels :: ·) ih

end Node

theorem Slot.field_relabel (slot : Slot) :
    (slot.relabel labels).field = slot.field.relabel labels := by
  cases slot <;> rfl

theorem Slot.children_relabel (slot : Slot) :
    (slot.relabel labels).children = slot.children.map (Node.relabel labels) := by
  cases slot with
  | single field child => rfl
  | list field items => exact Node.filterMap_relabelItems items

theorem Slot.isSome_single?_relabel (slot : Slot) (part : Part) :
    ((slot.relabel labels).single? (.known part)).isSome = (slot.single? (.known part)).isSome := by
  cases slot with
  | single field child =>
      rw [relabel, single?, single?]
      by_cases hfield : field = .known part
      · rw [if_pos hfield, if_pos (Field.relabel_eq_known_iff.mpr hfield)]
        rfl
      · rw [if_neg hfield, if_neg fun heq => hfield (Field.relabel_eq_known_iff.mp heq)]
  | list field items => rfl

@[simp] theorem Node.hasChild_relabel (node : Node) (part : Part) :
    (node.relabel labels).hasChild (.known part) = node.hasChild (.known part) := by
  rw [hasChild_eq_any, hasChild_eq_any, slots_relabel, List.any_map]
  congr 1
  funext slot
  exact slot.isSome_single?_relabel part

namespace Path

theorem type_relabel (path : Path) : (path.relabel labels).type = path.type.relabel labels :=
  path.node.type_relabel

theorem children_relabel (path : Path) :
    (path.relabel labels).children = path.children.map (relabel labels) := by
  rw [children, children, List.map_map, Node.children, Node.children, List.map_flatMap,
    List.map_flatMap, relabel, Node.slots_relabel, List.flatMap_map]
  congr 1
  funext slot
  rw [Slot.children_relabel, Slot.field_relabel, List.map_map, List.map_map, List.map_map]
  rfl

/-- A relabelled tree has the relabelled paths, in the same order. -/
theorem preorder_relabel (path : Path) :
    (path.relabel labels).preorder = path.preorder.map (relabel labels) := by
  induction path using induction_children with
  | path path ih =>
      rw [preorder_eq, preorder_eq, children_relabel, List.flatMap_map, List.map_cons,
        List.map_flatMap]
      congr 1
      exact List.flatMap_congr ih

end Path

theorem Node.occurrences_relabel (root : Node) :
    (root.relabel labels).occurrences = root.occurrences.map (Path.relabel labels) := by
  rw [occurrences, occurrences, ← Path.preorder_eq_pathsUnder, ← Path.preorder_eq_pathsUnder,
    ← Path.preorder_relabel]
  rfl

namespace Step

@[simp] theorem type_parent_relabel (step : Step) :
    (step.relabel labels).parent.type = step.parent.type.relabel labels :=
  step.parent.type_relabel

@[simp] theorem field_relabel (step : Step) :
    (step.relabel labels).field = step.field.relabel labels :=
  rfl

/-- A property that no relabelling of a step changes still holds, or fails, of the first step up. -/
theorem any_head?_relabel {property : Step → Bool}
    (hproperty : ∀ step, property (relabel labels step) = property step) (steps : List Step) :
    (steps.map (relabel labels)).head?.any property = steps.head?.any property := by
  cases steps with
  | nil => rfl
  | cons step above => exact hproperty step

@[simp] theorem joins_relabel (step : Step) (constructs : List Construct) (parts : List Part) :
    (step.relabel labels).joins constructs parts = step.joins constructs parts := by
  simp [joins]

@[simp] theorem isPatternPair_relabel (step : Step) (above : List Step) :
    (step.relabel labels).isPatternPair (above.map (relabel labels)) =
      step.isPatternPair above := by
  rw [isPatternPair, isPatternPair, any_head?_relabel fun next => by simp]
  simp

theorem wraps_relabel (step : Step) (above : List Step) :
    (step.relabel labels).wraps (above.map (relabel labels)) = step.wraps above := by
  simp [wraps]

theorem isBindingSite_relabel (step : Step) :
    (step.relabel labels).isBindingSite = step.isBindingSite := by
  simp [isBindingSite]

end Step

namespace Path

/-- The way out of all patterns is as long as before and ends at the same place. -/
theorem climbPatterns_relabel (climbed : Nat) (steps : List Step) :
    climbPatterns climbed (steps.map (Step.relabel labels)) =
      ((climbPatterns climbed steps).1,
        (climbPatterns climbed steps).2.map (Step.relabel labels)) := by
  induction steps generalizing climbed with
  | nil => rfl
  | cons step above ih =>
      rw [List.map_cons, climbPatterns, climbPatterns, Step.wraps_relabel]
      split
      · exact ih (climbed + 1)
      · rfl

theorem wrapperCount_relabel (path : Path) :
    (path.relabel labels).wrapperCount = path.wrapperCount := by
  rw [wrapperCount, wrapperCount, relabel, climbPatterns_relabel]

theorem reachesBindingSite_relabel (steps : List Step) :
    reachesBindingSite (steps.map (Step.relabel labels)) = reachesBindingSite steps := by
  rw [reachesBindingSite, reachesBindingSite, climbPatterns_relabel]
  cases climbPatterns 0 steps with
  | mk wrappers above =>
      exact congrArg (decide (0 < wrappers) && ·)
        (Step.any_head?_relabel Step.isBindingSite_relabel above)

end Path

/-- A rule reads nothing that a relabelling changes. -/
theorem Rule.appliesAt_relabel (rule : Rule) (step : Step) (above : List Step) :
    rule.appliesAt (step.relabel labels) (above.map (Step.relabel labels)) =
      rule.appliesAt step above := by
  have hcomputed : (step.relabel labels).parent.computed = step.parent.computed :=
    step.parent.computed_relabel
  have hsource : (above.map (Step.relabel labels)).head?.any
        (·.parent.hasChild (.known .source)) =
      above.head?.any (·.parent.hasChild (.known .source)) :=
    Step.any_head?_relabel (fun next => next.parent.hasChild_relabel .source) above
  have hreaches : Path.reachesBindingSite
        (step.relabel labels :: above.map (Step.relabel labels)) =
      Path.reachesBindingSite (step :: above) :=
    Path.reachesBindingSite_relabel (step :: above)
  cases rule <;>
    simp only [appliesAt, Step.type_parent_relabel, Step.field_relabel, Step.joins_relabel,
      Step.isPatternPair_relabel, NodeType.satisfies_relabel, NodeType.relabel_eq_known_iff,
      Field.relabel_eq_known_iff, hcomputed, hsource, hreaches]

namespace Path

theorem applies_relabel (path : Path) (rule : Rule) :
    rule.applies (path.relabel labels) = rule.applies path := by
  obtain ⟨node, above⟩ := path
  cases above with
  | nil => rfl
  | cons step above => exact rule.appliesAt_relabel step above

theorem rule?_relabel (path : Path) : (path.relabel labels).rule? = path.rule? := by
  rw [rule?, rule?]
  congr 1
  funext rule
  exact path.applies_relabel rule

theorem plainRole_relabel (path : Path) : (path.relabel labels).plainRole = path.plainRole := by
  rw [plainRole, plainRole, rule?_relabel]

theorem isIn_relabel (path : Path) (construct : Construct) (part : Part) :
    (path.relabel labels).isIn (.known construct) (.known part) =
      path.isIn (.known construct) (.known part) := by
  obtain ⟨node, above⟩ := path
  cases above with
  | nil => rfl
  | cons step above =>
      rw [Bool.eq_iff_iff, relabel, List.map_cons, isIn_iff, isIn_iff, Step.type_parent_relabel,
        Step.field_relabel, NodeType.relabel_eq_known_iff, Field.relabel_eq_known_iff]

theorem jsxRole_relabel {path : Path} (hcase : labels.KeepsCase path)
    (htype : path.type = .known .jsxIdentifier) :
    (path.relabel labels).jsxRole = path.jsxRole := by
  have hnamespace : (path.relabel labels).above.head?.any
        (·.parent.type = .known .jsxNamespacedName) =
      path.above.head?.any (·.parent.type = .known .jsxNamespacedName) :=
    Step.any_head?_relabel (fun step => by simp) path.above
  have hlowercase : (path.relabel labels).node.name.any Text.startsLowercase =
      path.node.name.any Text.startsLowercase := by
    rw [relabel, Node.name_relabel]
    cases hname : path.node.name with
    | none => rfl
    | some name => exact hcase htype name hname
  rw [jsxRole, jsxRole, isIn_relabel, isIn_relabel, isIn_relabel, hnamespace, hlowercase]

theorem role_relabel {path : Path} (hcase : labels.KeepsCase path) :
    (path.relabel labels).role = path.role := by
  rw [role, role, type_relabel, plainRole_relabel]
  cases htype : path.type with
  | other name => rfl
  | known construct =>
      rw [NodeType.relabel]
      split
      · rfl
      · rfl
      · rfl
      · rename_i heq
        exact jsxRole_relabel hcase (htype.trans heq)
      · rfl

theorem slotDialect?_relabel (path : Path) :
    (path.relabel labels).slotDialect? = path.slotDialect? := by
  obtain ⟨node, above⟩ := path
  cases above with
  | nil => rfl
  | cons step above =>
      simp only [slotDialect?, relabel, List.map_cons, Step.type_parent_relabel,
        Step.field_relabel]
      cases step.parent.type <;> cases step.field <;> rfl

theorem parent?_relabel (path : Path) :
    (path.relabel labels).parent? = path.parent?.map (Node.relabel labels) := by
  rw [parent?, parent?, relabel, List.head?_map, Option.map_map, Option.map_map]
  rfl

/-- The faults may name different parents; only whether there is one is compared. -/
theorem toOption_typeParameterDialect_relabel (path : Path) :
    (path.relabel labels).typeParameterDialect.toOption = path.typeParameterDialect.toOption := by
  have hparent : (path.relabel labels).parent?.map Node.type =
      (path.parent?.map Node.type).map (NodeType.relabel labels) := by
    rw [parent?_relabel, Option.map_map, Option.map_map]
    congr 1
    funext node
    exact node.type_relabel
  rw [typeParameterDialect, typeParameterDialect, hparent, type_relabel]
  simp only [NodeType.relabel_eq_known_iff]
  cases path.parent?.map Node.type with
  | none =>
      simp only [Option.map_none]
      split <;> rfl
  | some parent =>
      cases parent with
      | other name =>
          simp only [Option.map_some, NodeType.relabel]
          split <;> rfl
      | known construct =>
          simp only [Option.map_some, NodeType.relabel]
          split
          · rfl
          · rfl
          · split <;> rfl

theorem toOption_dialect_relabel (path : Path) :
    (path.relabel labels).dialect.toOption = path.dialect.toOption := by
  rw [dialect, dialect, type_relabel, slotDialect?_relabel]
  cases path.type with
  | other name => rfl
  | known construct =>
      rw [NodeType.relabel]
      split
      · exact path.toOption_typeParameterDialect_relabel
      · exact path.toOption_typeParameterDialect_relabel
      · rfl
      · rfl

theorem carriesName_relabel_iff {path : Path} :
    (path.relabel labels).CarriesName ↔ path.CarriesName := by
  simp only [CarriesName, relabel, Node.type_relabel, NodeType.relabel_eq_known_iff]

theorem record?_relabel {path : Path} (hcase : labels.KeepsCase path) :
    (path.relabel labels).record? =
      path.record?.map (Identifier.relabel labels path.node.name) := by
  rw [record?, record?, toOption_dialect_relabel, role_relabel hcase]
  by_cases hname : path.CarriesName
  · rw [if_pos hname, if_pos (carriesName_relabel_iff.mpr hname), Option.map_map, relabel]
    simp only [Node.name_relabel, Node.span_relabel]
    rfl
  · rw [if_neg hname, if_neg fun hrelabelled => hname (carriesName_relabel_iff.mp hrelabelled)]
    rfl

theorem reports_relabel (path : Path) : (path.relabel labels).reports = path.reports := by
  rw [reports, reports, targetWrappers?, targetWrappers?, type_relabel, rule?_relabel,
    wrapperCount_relabel]
  simp only [NodeType.relabel_eq_known_iff]

theorem isStray_relabel_iff {path : Path} : (path.relabel labels).IsStray ↔ path.IsStray := by
  rw [IsStray, IsStray, parent?_relabel, relabel, Node.type_relabel, NodeType.relabel_eq_known_iff]
  cases path.parent? <;> simp

theorem strayFault_relabel (path : Path) :
    (path.relabel labels).strayFault =
      ⟨.strayTypeParameter (path.parent?.map fun parent => (parent.type.relabel labels).text),
        labels.span path.node.span⟩ := by
  rw [strayFault, parent?_relabel, Option.map_map, relabel, Node.span_relabel]
  simp only [Function.comp_def, Node.type_relabel]

/-- The entries of relabelled paths are the relabelled entries, one for each name. -/
theorem filterMap_record?_relabel {paths : List Path} (hstray : ∀ path ∈ paths, ¬path.IsStray)
    (hcase : ∀ path ∈ paths, labels.KeepsCase path) :
    (paths.map (relabel labels)).filterMap record? =
      List.zipWith (fun path entry => entry.relabel labels path.node.name)
        (paths.filter (·.CarriesName)) (paths.filterMap record?) := by
  induction paths with
  | nil => rfl
  | cons path paths ih =>
      have htail := ih (fun other hmem => hstray other (List.mem_cons_of_mem _ hmem))
        (fun other hmem => hcase other (List.mem_cons_of_mem _ hmem))
      have hhead := record?_relabel (hcase path List.mem_cons_self)
      by_cases hname : path.CarriesName
      · obtain ⟨entry, hentry, -⟩ :=
          record?_of_not_isStray hname (hstray path List.mem_cons_self)
        rw [hentry] at hhead
        rw [List.map_cons, List.filterMap_cons_some hhead, htail,
          List.filter_cons_of_pos (by simpa using hname), List.filterMap_cons_some hentry,
          List.zipWith_cons_cons]
      · have hentry := record?_of_not_carriesName hname
        rw [hentry] at hhead
        rw [List.map_cons, List.filterMap_cons_none hhead, htail,
          List.filter_cons_of_neg (by simpa using hname), List.filterMap_cons_none hentry]

theorem forall_not_isStray_relabel {paths : List Path} (hstray : ∀ path ∈ paths, ¬path.IsStray) :
    ∀ path ∈ paths.map (relabel labels), ¬path.IsStray := by
  intro path hpath
  obtain ⟨before, hbefore, rfl⟩ := List.mem_map.mp hpath
  exact fun hrelabelled => hstray before hbefore (isStray_relabel_iff.mp hrelabelled)

theorem flatMap_reports_relabel (paths : List Path) :
    (paths.map (relabel labels)).flatMap reports = paths.flatMap reports := by
  rw [List.flatMap_map]
  congr 1
  funext path
  exact path.reports_relabel

end Path

namespace Node

theorem classify_relabel_of_not_isStray {root : Node}
    (hstray : ∀ path ∈ root.occurrences, ¬path.IsStray)
    (hcase : ∀ path ∈ root.occurrences, labels.KeepsCase path) :
    (root.relabel labels).classify =
      ⟨root.classify.events,
        .ok (List.zipWith (fun path entry => entry.relabel labels path.node.name)
          (root.occurrences.filter (·.CarriesName))
          (root.occurrences.filterMap Path.record?))⟩ := by
  have hlength := (Path.forall₂_records hstray).length_eq
  have hstray' : ∀ path ∈ (root.relabel labels).occurrences, ¬path.IsStray := by
    rw [occurrences_relabel]
    exact Path.forall_not_isStray_relabel hstray
  rw [classify_of_not_isStray hstray', classify_of_not_isStray hstray, occurrences_relabel,
    Path.flatMap_reports_relabel, Path.filterMap_record?_relabel hstray hcase,
    List.length_zipWith, hlength, Nat.min_self]

theorem classify_relabel_of_first_isStray {root : Node} {before after : List Path} {path : Path}
    (heq : root.occurrences = before ++ path :: after)
    (hbefore : ∀ earlier ∈ before, ¬earlier.IsStray) (hstray : path.IsStray) :
    (root.relabel labels).classify =
      ⟨root.classify.events, .error (path.relabel labels).strayFault⟩ := by
  have heq' : (root.relabel labels).occurrences =
      before.map (Path.relabel labels) ++ path.relabel labels ::
        after.map (Path.relabel labels) := by
    rw [occurrences_relabel, heq, List.map_append, List.map_cons]
  rw [classify_of_first_isStray heq' (Path.forall_not_isStray_relabel hbefore)
    (Path.isStray_relabel_iff.mpr hstray), classify_of_first_isStray heq hbefore hstray,
    Path.flatMap_reports_relabel]

/-- The classification of a relabelled tree. It reports the same events. If the classification of
the tree succeeds, so does this one, with as many entries in the same order; they have the same
roles and dialects, and the names and spans are new. If the other one fails, so does this one, at
the same node and for the same reason; the span is new, and so is the name of the parent's type if
that is unknown. -/
theorem classify_relabel (labels : Relabelling) (root : Node)
    (hcase : ∀ path ∈ root.occurrences, labels.KeepsCase path) :
    (root.relabel labels).classify.events = root.classify.events ∧
    (∀ entries, root.classify.result = .ok entries →
      List.Forall₂ Path.Records (root.occurrences.filter (·.CarriesName)) entries ∧
      ∃ entries', (root.relabel labels).classify.result = .ok entries' ∧
        entries'.length = entries.length ∧
        entries' = List.zipWith (fun path entry =>
            ⟨(path.node.name.map labels.name).getD "", entry.role, entry.dialect,
              labels.span entry.span⟩)
          (root.occurrences.filter (·.CarriesName)) entries) ∧
    (∀ error, root.classify.result = .error error →
      ∃ before path after, root.occurrences = before ++ path :: after ∧
        (∀ earlier ∈ before, ¬earlier.IsStray) ∧ path.IsStray ∧
        error = ⟨.strayTypeParameter (path.parent?.map fun parent => parent.type.text),
          path.node.span⟩ ∧
        (root.relabel labels).classify.result =
          .error ⟨.strayTypeParameter
            (path.parent?.map fun parent => (parent.type.relabel labels).text),
            labels.span error.span⟩) := by
  refine ⟨?_, ?_, ?_⟩
  · by_cases hstray : ∃ path ∈ root.occurrences, path.IsStray
    · obtain ⟨before, path, after, heq, hbefore, hfirst⟩ := Path.exists_first_isStray hstray
      rw [classify_relabel_of_first_isStray heq hbefore hfirst]
    · push Not at hstray
      rw [classify_relabel_of_not_isStray hstray hcase]
  · intro entries hentries
    have hstray := not_isStray_of_classify_ok hentries
    have hrecords := Path.forall₂_records hstray
    rw [classify_result_of_not_isStray hstray] at hentries
    cases hentries
    refine ⟨hrecords, _, ?_, ?_, rfl⟩
    · rw [classify_relabel_of_not_isStray hstray hcase]
      rfl
    · rw [List.length_zipWith, hrecords.length_eq, Nat.min_self]
  · intro error herror
    obtain ⟨before, path, after, heq, hbefore, hfirst, rfl⟩ :=
      exists_first_isStray_of_classify_error herror
    refine ⟨before, path, after, heq, hbefore, hfirst, rfl, ?_⟩
    rw [classify_relabel_of_first_isStray heq hbefore hfirst, Path.strayFault_relabel]
    rfl

/-- Numbers all names, moves all spans, and marks all unknown types and slots. -/
def numbering : Relabelling where
  name name := name ++ "2"
  span span := ⟨span.start + 1, span.stop + 1⟩
  typeText text := "new " ++ text
  fieldText text := "new " ++ text

/-- The declaration `let [a] = <b/>`, up to the name of the element, within an unknown construct. -/
def declaredMarkup : Node :=
  (ofType (.other "Custom")).withChild (.other "held")
    (((ofType (.known .variableDeclarator)).withChild (.known .id)
      ((ofType (.known .arrayPattern)).withChildren (.known .elements) [identifier "a"])).withChild
        (.known .init) (jsxIdentifier "b"))

theorem keepsCase_numbering (path : Path) : numbering.KeepsCase path := by
  intro _ name _
  show (name ++ "2").toList.head?.any Text.isLowercase = name.toList.head?.any Text.isLowercase
  rw [String.toList_append]
  cases name.toList with
  | nil => decide
  | cons first rest => rfl

theorem classify_relabel_declaredMarkup :
    declaredMarkup.classify.result =
        .ok [⟨"a", .binding, .javaScript, ⟨0, 0⟩⟩, ⟨"b", .static, .jsx, ⟨0, 0⟩⟩] ∧
      (declaredMarkup.relabel numbering).classify.result =
        .ok [⟨"a2", .binding, .javaScript, ⟨1, 1⟩⟩, ⟨"b2", .static, .jsx, ⟨1, 1⟩⟩] ∧
      .targetReachedSite 1 ∈ (declaredMarkup.relabel numbering).classify.events := by
  have hresult : declaredMarkup.classify.result =
      .ok [⟨"a", .binding, .javaScript, ⟨0, 0⟩⟩, ⟨"b", .static, .jsx, ⟨0, 0⟩⟩] := by
    decide +kernel
  obtain ⟨hevents, hok, -⟩ :=
    classify_relabel numbering declaredMarkup fun path _ => keepsCase_numbering path
  obtain ⟨-, entries, hentries, -, hzip⟩ := hok _ hresult
  refine ⟨hresult, ?_, ?_⟩
  · rw [hentries, hzip]
    decide +kernel
  · rw [hevents]
    decide +kernel

end Node

end NameRoles
