import Mathlib.Data.List.Perm.Basic
import Mathlib.Logic.Relation
import NameRoles.Proofs.Classification
import NameRoles.Proofs.LoadedNodes
import NameRoles.Proofs.Locality

/-! The order of siblings. A tree may be edited by moving the slots of a node or the items of a
list, and by putting in or taking out holes and empty lists; neither changes what the classification
reads of the nodes above an identifier, which is no more than bare nodes tell. Moving changes at
most the order of the entries, and holes and empty lists change nothing. -/

namespace NameRoles

/-- What an edit does: it moves children, or it changes holes and empty lists only. -/
inductive EditKind where
  | moving
  | padding

/-- An edit of some slots: their order or that of the items of a list is changed, a hole or an empty
list is put in, or an edit of this kind is made in a child. -/
inductive SlotEdit : EditKind → List Slot → List Slot → Prop
  | slots {slots slots' : List Slot} (hperm : slots.Perm slots') : SlotEdit .moving slots slots'
  | items (field : Field) {items items' : List (Option Node)} (hperm : items.Perm items') :
      SlotEdit .moving [.list field items] [.list field items']
  | hole (field : Field) (before after : List (Option Node)) :
      SlotEdit .padding [.list field (before ++ after)] [.list field (before ++ none :: after)]
  | emptyList (field : Field) : SlotEdit .padding [] [.list field []]
  | inSingle {kind : EditKind} (field : Field) (child : Node) {slots : List Slot}
      (hedit : SlotEdit kind child.slots slots) :
      SlotEdit kind [.single field child] [.single field { child with slots }]
  | inItem {kind : EditKind} (field : Field) (before after : List (Option Node)) (child : Node)
      {slots : List Slot} (hedit : SlotEdit kind child.slots slots) :
      SlotEdit kind [.list field (before ++ some child :: after)]
        [.list field (before ++ some { child with slots } :: after)]
  | among {kind : EditKind} (before after : List Slot) {slots slots' : List Slot}
      (hedit : SlotEdit kind slots slots') :
      SlotEdit kind (before ++ slots ++ after) (before ++ slots' ++ after)

namespace Node

/-- An edit somewhere in a tree. -/
def Edited (kind : EditKind) (first second : Node) : Prop :=
  ∃ slots, SlotEdit kind first.slots slots ∧ second = { first with slots }

/-- Any number of edits, each made or undone. -/
def Rearranged : Node → Node → Prop :=
  Relation.EqvGen fun first second => ∃ kind, Edited kind first second

/-- Any number of edits, each made or undone, that move nothing. -/
def Repadded : Node → Node → Prop :=
  Relation.EqvGen (Edited .padding)

/-- A node with nothing below it, but for an empty source if the node has a source. -/
def bare (node : Node) : Node :=
  { node with
    slots := if node.hasChild (.known .source) then
        [.single (.known .source) (ofType (.known .stringLiteral))]
      else [] }

theorem hasChild_bare (node : Node) :
    node.bare.hasChild (.known .source) = node.hasChild (.known .source) := by
  by_cases hsource : node.hasChild (.known .source) = true
  · rw [bare, if_pos hsource, hsource]
    rfl
  · rw [bare, if_neg hsource, Bool.eq_false_iff.mpr hsource]
    rfl

theorem bare_bare (node : Node) : node.bare.bare = node.bare := by
  rw [bare, hasChild_bare]
  rfl

end Node

/-- A step to a bare parent. -/
def Step.bare (step : Step) : Step :=
  ⟨step.field, step.parent.bare⟩

namespace Path

/-- A path all of whose nodes are bare. -/
def bare (path : Path) : Path :=
  ⟨path.node.bare, path.above.map Step.bare⟩

/-- A path tells no more than bare nodes do. -/
theorem agrees_bare (count : Nat) (path : Path) : Agrees count path path.bare := by
  have hancestor (i : Nat) : path.bare.ancestors[i]? = path.ancestors[i]?.map Node.bare := by
    simp [ancestors, bare, Step.bare, Function.comp_def]
  refine ⟨⟨?_, ?_⟩, rfl, rfl, ?_, ?_⟩
  · intro i _
    rw [hancestor, Option.map_map]
    rfl
  · intro i _
    simp [keys, bare, Step.bare, Function.comp_def]
  · rw [parent?_eq_ancestors, parent?_eq_ancestors, hancestor, Option.map_map]
    rfl
  · rw [hancestor, Option.map_map]
    congr 1
    funext node
    exact node.hasChild_bare.symm

theorem role_bare (path : Path) : path.bare.role = path.role := by
  obtain ⟨count, outer, hclimbs, hlast⟩ := path.exists_climbs
  exact ((path.agrees_bare count).role_eq hclimbs hlast).symm

theorem targetWrappers?_bare (path : Path) : path.bare.targetWrappers? = path.targetWrappers? := by
  obtain ⟨count, outer, hclimbs, hlast⟩ := path.exists_climbs
  exact ((path.agrees_bare count).targetWrappers?_eq hclimbs hlast).symm

theorem parent?_bare (path : Path) : path.bare.parent? = path.parent?.map Node.bare := by
  rw [parent?, parent?, bare, List.head?_map, Option.map_map, Option.map_map]
  rfl

theorem dialect_bare (path : Path) : path.bare.dialect = path.dialect := by
  have hparent : path.bare.parent?.map Node.type = path.parent?.map Node.type := by
    rw [parent?_bare, Option.map_map]
    rfl
  have hparameter : path.bare.typeParameterDialect = path.typeParameterDialect := by
    rw [typeParameterDialect, typeParameterDialect, hparent]
    rfl
  rw [dialect, dialect, hparameter, ← (path.agrees_bare 0).slotDialect?_eq]
  rfl

theorem record?_bare (path : Path) : path.bare.record? = path.record? := by
  rw [record?, record?, dialect_bare, role_bare]
  rfl

theorem isStray_bare_iff {path : Path} : path.bare.IsStray ↔ path.IsStray := by
  rw [isStray_iff_dialect, isStray_iff_dialect, dialect_bare]

end Path

theorem Classified.enter_bare (classified : Classified) (path : Path) :
    classified.enter path.bare = classified.enter path := by
  rw [enter, enter, Path.targetWrappers?_bare, Path.labels, Path.labels, Path.dialect_bare,
    Path.role_bare]
  rfl

/-- A walk that classifies what it meets may as well be given bare paths. -/
theorem Classified.foldUntil_enter_bare (classified : Classified) (paths : List Path) :
    Path.foldUntil enter classified (paths.map Path.bare) =
      Path.foldUntil enter classified paths := by
  induction paths generalizing classified with
  | nil => rfl
  | cons path paths ih =>
      rw [List.map_cons, Path.foldUntil, Path.foldUntil, enter_bare]
      simp only [ih]

namespace Node

/-- The bare paths of a node and of all nodes below it. -/
def barePaths (above : List Step) (node : Node) : List Path :=
  (⟨node, above⟩ : Path).preorder.map Path.bare

/-- The bare paths of all nodes in a slot of `parent`. -/
def barePathsIn (parent : Node) (above : List Step) (slot : Slot) : List Path :=
  slot.children.flatMap (barePaths (⟨slot.field, parent⟩ :: above))

theorem barePaths_eq (above : List Step) (node : Node) :
    node.barePaths above =
      Path.bare ⟨node, above⟩ :: node.slots.flatMap (node.barePathsIn above) := by
  rw [barePaths, Path.preorder_eq_slots, List.map_cons, List.map_flatMap]
  congr 1
  congr 1
  funext slot
  rw [List.map_flatMap]
  rfl

/-- Bare paths do not depend on what the bare nodes above have lost. -/
theorem barePaths_congr {above above' : List Step}
    (habove : above.map Step.bare = above'.map Step.bare) (node : Node) :
    node.barePaths above = node.barePaths above' := by
  induction node using induction_children generalizing above above' with
  | node node ih =>
      rw [barePaths_eq, barePaths_eq, Path.bare, Path.bare, habove]
      congr 1
      apply List.flatMap_congr
      intro slot hslot
      apply List.flatMap_congr
      intro child hchild
      apply ih child (List.mem_flatMap.mpr ⟨slot, hslot, hchild⟩)
      rw [List.map_cons, List.map_cons, habove]

theorem barePathsIn_bare (parent : Node) (above : List Step) :
    parent.bare.barePathsIn above = parent.barePathsIn above := by
  funext slot
  apply List.flatMap_congr
  intro child _
  apply barePaths_congr
  rw [List.map_cons, List.map_cons, Step.bare, Step.bare, bare_bare]

end Node

/-- How the paths of edited slots are related to those before. -/
def EditKind.Relates : EditKind → List Path → List Path → Prop
  | moving, first, second => first.Perm second
  | padding, first, second => first = second

namespace EditKind.Relates

variable {kind : EditKind} {first second : List Path}

theorem perm (hrelates : kind.Relates first second) : first.Perm second := by
  cases kind with
  | moving => exact hrelates
  | padding => exact List.Perm.of_eq hrelates

theorem among (hrelates : kind.Relates first second) (before after : List Path) :
    kind.Relates (before ++ first ++ after) (before ++ second ++ after) := by
  cases kind with
  | moving => exact (List.Perm.append_left before hrelates).append_right after
  | padding =>
      obtain rfl : first = second := hrelates
      exact Eq.refl _

end EditKind.Relates

namespace SlotEdit

variable {kind : EditKind} {slots slots' : List Slot}

/-- Edits leave alone whether there is a single child of a name. -/
theorem any_single?_eq (hedit : SlotEdit kind slots slots') (field : Field) :
    (slots.any fun slot => (slot.single? field).isSome) =
      slots'.any fun slot => (slot.single? field).isSome := by
  induction hedit with
  | slots hperm => exact hperm.any_eq
  | items | hole | emptyList | inItem => rfl
  | inSingle name child _ _ =>
      rw [List.any_cons, List.any_cons, Slot.single?, Slot.single?]
      split <;> rfl
  | among before after _ ih =>
      rw [List.any_append, List.any_append, List.any_append, List.any_append, ih]

theorem bare_eq {node : Node} (hedit : SlotEdit kind node.slots slots) :
    ({ node with slots } : Node).bare = node.bare := by
  have hsource : ({ node with slots } : Node).hasChild (.known .source) =
      node.hasChild (.known .source) := by
    rw [Node.hasChild_eq_any, Node.hasChild_eq_any, hedit.any_single?_eq]
  rw [Node.bare, Node.bare, hsource]

/-- What an edit does to the bare paths of a node follows from what it does to those in its
slots. -/
theorem relates_barePaths {node : Node} (hedit : SlotEdit kind node.slots slots)
    (hslots : ∀ parent above, kind.Relates (node.slots.flatMap (Node.barePathsIn parent above))
      (slots.flatMap (Node.barePathsIn parent above))) (above : List Step) :
    kind.Relates (node.barePaths above) (({ node with slots } : Node).barePaths above) := by
  have hparent : ({ node with slots } : Node).barePathsIn above = node.barePathsIn above := by
    rw [← Node.barePathsIn_bare, hedit.bare_eq, Node.barePathsIn_bare]
  have hself : Path.bare ⟨{ node with slots }, above⟩ = Path.bare ⟨node, above⟩ := by
    rw [Path.bare, Path.bare, hedit.bare_eq]
  have hbelow := (hslots node above).among [Path.bare ⟨node, above⟩] []
  rw [List.append_nil, List.append_nil] at hbelow
  rw [Node.barePaths_eq, Node.barePaths_eq, hparent, hself]
  exact hbelow

/-- One edit moves the paths of the nodes at most. -/
theorem relates (hedit : SlotEdit kind slots slots') (parent : Node) (above : List Step) :
    kind.Relates (slots.flatMap (parent.barePathsIn above))
      (slots'.flatMap (parent.barePathsIn above)) := by
  induction hedit generalizing parent above with
  | slots hperm => exact hperm.flatMap_right _
  | items field hperm =>
      rw [List.flatMap_singleton, List.flatMap_singleton]
      exact (hperm.filterMap id).flatMap_right _
  | hole field before after =>
      have hitems : (before ++ none :: after).filterMap id = (before ++ after).filterMap id := by
        rw [List.filterMap_append, List.filterMap_append, List.filterMap_cons_none rfl]
      rw [List.flatMap_singleton, List.flatMap_singleton, Node.barePathsIn, Node.barePathsIn,
        Slot.children, Slot.children, hitems]
      exact Eq.refl _
  | emptyList field => exact Eq.refl _
  | inSingle field child hedit ih =>
      rw [List.flatMap_singleton, List.flatMap_singleton, Node.barePathsIn, Node.barePathsIn,
        Slot.children, Slot.children, List.flatMap_singleton, List.flatMap_singleton]
      exact hedit.relates_barePaths ih _
  | inItem field before after child hedit ih =>
      have hitem (held : Node) : (before ++ some held :: after).filterMap id =
          before.filterMap id ++ [held] ++ after.filterMap id := by
        rw [List.filterMap_append, List.filterMap_cons_some (id_eq _), List.append_assoc]
        rfl
      rw [List.flatMap_singleton, List.flatMap_singleton, Node.barePathsIn, Node.barePathsIn,
        Slot.children, Slot.children, hitem, hitem]
      simp only [List.flatMap_append, List.flatMap_singleton]
      exact (hedit.relates_barePaths ih _).among _ _
  | among before after _ ih =>
      rw [List.flatMap_append, List.flatMap_append, List.flatMap_append, List.flatMap_append]
      exact (ih parent above).among _ _

end SlotEdit

namespace Node

variable {first second : Node}

theorem Edited.relates {kind : EditKind} (hedited : first.Edited kind second) :
    kind.Relates (first.barePaths []) (second.barePaths []) := by
  obtain ⟨slots, hedit, rfl⟩ := hedited
  exact hedit.relates_barePaths hedit.relates []

theorem Rearranged.perm_barePaths (hrearranged : first.Rearranged second) :
    (first.barePaths []).Perm (second.barePaths []) := by
  induction hrearranged with
  | rel first second hedited =>
      obtain ⟨kind, hedited⟩ := hedited
      exact hedited.relates.perm
  | refl node => exact List.Perm.refl _
  | symm first second _ ih => exact ih.symm
  | trans first second third _ _ ih ih' => exact ih.trans ih'

theorem Repadded.barePaths_eq (hrepadded : first.Repadded second) :
    first.barePaths [] = second.barePaths [] := by
  induction hrepadded with
  | rel first second hedited => exact hedited.relates
  | refl node => rfl
  | symm first second _ ih => exact ih.symm
  | trans first second third _ _ ih ih' => exact ih.trans ih'

theorem barePaths_eq_occurrences (root : Node) :
    root.barePaths [] = root.occurrences.map Path.bare := by
  rw [barePaths, Path.preorder_eq_pathsUnder, occurrences]

/-- The classification of a tree is settled by its bare paths. -/
theorem classify_congr (hpaths : first.barePaths [] = second.barePaths []) :
    first.classify = second.classify := by
  have hwalk (root : Node) (classified : Classified) :
      root.tryTraverse Classified.enter classified =
        Path.foldUntil Classified.enter classified (root.barePaths []) := by
    rw [tryTraverse_eq_foldUntil, barePaths_eq_occurrences, Classified.foldUntil_enter_bare]
  rw [classify, classify, hwalk, hwalk, hpaths]

theorem exists_isStray_iff (root : Node) :
    (∃ path ∈ root.occurrences, path.IsStray) ↔ ∃ path ∈ root.barePaths [], path.IsStray := by
  rw [barePaths_eq_occurrences]
  simp only [List.mem_map, exists_exists_and_eq_and, Path.isStray_bare_iff]

theorem exists_classify_ok_iff (root : Node) :
    (∃ entries, root.classify.result = .ok entries) ↔
      ¬∃ path ∈ root.barePaths [], path.IsStray := by
  rw [← exists_isStray_iff]
  constructor
  · rintro ⟨entries, hentries⟩ ⟨path, hpath, hstray⟩
    exact not_isStray_of_classify_ok hentries path hpath hstray
  · intro hnone
    push Not at hnone
    exact ⟨_, classify_result_of_not_isStray hnone⟩

theorem entries_eq_of_classify_ok {root : Node} {entries : List Identifier}
    (hentries : root.classify.result = .ok entries) :
    entries = (root.barePaths []).filterMap Path.record? := by
  rw [classify_result_of_not_isStray (not_isStray_of_classify_ok hentries)] at hentries
  cases hentries
  rw [barePaths_eq_occurrences, List.filterMap_map]
  congr 1
  funext path
  exact path.record?_bare.symm

/-- The classification does not depend on the order of siblings. Whatever is moved within a tree, at
any depth, it fails or succeeds as before, and the entries are the same with the same
multiplicities. If only holes and empty lists are put in or taken out, nothing changes, neither the
order of the entries nor the fault. -/
theorem classify_rearranged (first second : Node) :
    (first.Rearranged second →
      ((∃ entries, first.classify.result = .ok entries) ↔
        ∃ entries, second.classify.result = .ok entries) ∧
      ∀ entries entries', first.classify.result = .ok entries →
        second.classify.result = .ok entries' → entries.Perm entries') ∧
    (first.Repadded second → first.classify = second.classify) := by
  refine ⟨fun hrearranged => ⟨?_, ?_⟩, fun hrepadded => classify_congr hrepadded.barePaths_eq⟩
  · have hperm := hrearranged.perm_barePaths
    rw [exists_classify_ok_iff, exists_classify_ok_iff]
    simp only [hperm.mem_iff]
  · intro entries entries' hentries hentries'
    rw [entries_eq_of_classify_ok hentries, entries_eq_of_classify_ok hentries']
    exact hrearranged.perm_barePaths.filterMap _

/-- The specifier `a as b` of an export, with its names in the given order. -/
def exportSpecifier (slots : List Slot) : Node :=
  { ofType (.known .exportSpecifier) with slots }

def oldExportName : Slot :=
  .single (.known .localName) (identifier "a")

def newExportName : Slot :=
  .single (.known .exported) (identifier "b")

def exportSource : Slot :=
  .single (.known .source) (ofType (.known .stringLiteral))

/-- The export `{a as b} from "c"`. -/
def writtenExport : Node :=
  { ofType (.known .exportNamedDeclaration) with
    slots := [.list (.known .specifiers) [some (exportSpecifier [oldExportName, newExportName])],
      exportSource] }

/-- The same export with the source in front, a hole before the specifier, and the names of the
specifier exchanged. -/
def movedExport : Node :=
  { ofType (.known .exportNamedDeclaration) with
    slots := [exportSource,
      .list (.known .specifiers) [none, some (exportSpecifier [newExportName, oldExportName])]] }

theorem rearranged_writtenExport : writtenExport.Rearranged movedExport := by
  refine .trans _ _ _ (.rel _ _ ⟨.moving, _, .slots (.swap exportSource _ []), rfl⟩) ?_
  refine .trans _ _ _ (.rel _ _ ⟨.padding, _,
    .among [exportSource] [] (.hole _ [] [some (exportSpecifier [oldExportName, newExportName])]),
    rfl⟩) ?_
  exact .rel _ _ ⟨.moving, _, .among [exportSource] [] (.inItem _ [none] [] _
    (.slots (.swap newExportName oldExportName []))), rfl⟩

/-- The same export with holes around the specifier and an empty list before the source. -/
def paddedExport : Node :=
  { ofType (.known .exportNamedDeclaration) with
    slots := [.list (.known .specifiers)
        [none, some (exportSpecifier [oldExportName, newExportName]), none],
      .list (.known .attributes) [], exportSource] }

theorem repadded_writtenExport : writtenExport.Repadded paddedExport := by
  refine .trans _ _ _ (.rel _ _ ⟨_, .among [] [exportSource]
    (.hole _ [] [some (exportSpecifier [oldExportName, newExportName])]), rfl⟩) ?_
  refine .trans _ _ _ (.rel _ _ ⟨_, .among [] [exportSource]
    (.hole _ [none, some (exportSpecifier [oldExportName, newExportName])] []), rfl⟩) ?_
  exact .rel _ _ ⟨_, .among [.list _ [none, some _, none]] [exportSource]
    (.emptyList (.known .attributes)), rfl⟩

/-- The old name stays static, although the source that makes it so has moved. Holes and an empty
list leave the classification as it is. -/
theorem classify_rearranged_writtenExport :
    (∃ entries entries', writtenExport.classify.result = .ok entries ∧
      movedExport.classify.result = .ok entries' ∧
      ⟨"a", .static, .javaScript, Span.none⟩ ∈ entries ∧ entries ≠ entries' ∧
      entries.Perm entries') ∧
    writtenExport ≠ paddedExport ∧ writtenExport.classify = paddedExport.classify := by
  have hwritten : writtenExport.classify.result =
      .ok [⟨"a", .static, .javaScript, Span.none⟩, ⟨"b", .static, .javaScript, Span.none⟩] := by
    decide +kernel
  have hmoved : movedExport.classify.result =
      .ok [⟨"b", .static, .javaScript, Span.none⟩, ⟨"a", .static, .javaScript, Span.none⟩] := by
    decide +kernel
  refine ⟨⟨_, _, hwritten, hmoved, List.mem_cons_self, by decide, ?_⟩, by decide +kernel, ?_⟩
  · exact ((classify_rearranged _ _).1 rearranged_writtenExport).2 _ _ hwritten hmoved
  · exact (classify_rearranged _ _).2 repadded_writtenExport

end Node

end NameRoles
