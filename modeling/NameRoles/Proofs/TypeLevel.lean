import NameRoles.Classify.Dialect
import NameRoles.Proofs.Rules
import NameRoles.Proofs.Wrapping

/-! Roles and dialects agree on what belongs to types. Constructs come in groups, two of which are
the type-level syntax of a dialect. The dialect of a slot, where it has one, is that of the group of
its construct; and wherever an identifier can be more than a reference, the slot has the dialect of
the group. Patterns belong to neither group, so a declared target is never at the type level. -/

namespace NameRoles

namespace Construct

/-- The dialect of the type-level syntax that a construct belongs to. -/
def groupDialect? (construct : Construct) : Option Dialect :=
  if construct ∈ flow then some .flow
  else if construct ∈ typeScript then some .typeScript
  else none

theorem groupDialect?_of_mem_flow {construct : Construct} (hflow : construct ∈ flow) :
    construct.groupDialect? = some .flow :=
  if_pos hflow

theorem groupDialect?_of_mem_typeScript {construct : Construct}
    (htypeScript : construct ∈ typeScript) : construct.groupDialect? = some .typeScript := by
  have hdisjoint : ∀ other ∈ typeScript, other ∉ flow := by decide
  rw [groupDialect?, if_neg (hdisjoint construct htypeScript), if_pos htypeScript]

theorem groupDialect?_of_not_mem {construct : Construct}
    (hgroups : construct ∉ flow ++ typeScript) : construct.groupDialect? = none := by
  rw [List.mem_append, not_or] at hgroups
  rw [groupDialect?, if_neg hgroups.1, if_neg hgroups.2]

/-- The slots of a construct have no other dialect than that of its group. -/
theorem groupDialect?_of_typeDialect? {construct : Construct} {part? : Option Part}
    {dialect : Dialect} (hdialect : construct.typeDialect? part? = some dialect) :
    construct.groupDialect? = some dialect := by
  unfold typeDialect? at hdialect
  split at hdialect <;> cases hdialect <;> rfl

/-- A slot in which an identifier can be more than a reference has the dialect of the group. -/
theorem typeDialect?_of_slotRole? {construct : Construct} {part? : Option Part} {role : Role}
    (hrole : construct.slotRole? part? = some role) :
    construct.typeDialect? part? = construct.groupDialect? := by
  unfold slotRole? at hrole
  split at hrole <;> cases hrole <;> rfl

/-- Patterns are not at the type level. -/
theorem groupDialect?_of_targetPart? {construct : Construct} {part : Part}
    (hpart : construct.targetPart? = some part) : construct.groupDialect? = none := by
  unfold targetPart? at hpart
  split at hpart <;> cases hpart <;> rfl

end Construct

/-- The part that a slot name stands for, if it is known. -/
def Field.part? : Field → Option Part
  | known part => some part
  | other _ => none

theorem Step.slotRole?_of_parent {step : Step} {construct : Construct}
    (hparent : step.parent.type = .known construct) :
    step.slotRole? = construct.slotRole? step.field.part? := by
  simp only [slotRole?, hparent]
  cases step.field <;> rfl

/-- The dialect of the type-level syntax that a type belongs to. -/
def NodeType.groupDialect? : NodeType → Option Dialect
  | known construct => construct.groupDialect?
  | other _ => none

namespace Path

/-- The dialect of the type-level syntax that holds the node at a path. -/
def groupDialect? (path : Path) : Option Dialect :=
  (path.parent?.map Node.type).bind NodeType.groupDialect?

variable {path : Path}

theorem groupDialect?_of_parent {construct : Construct}
    (hparent : path.parent?.map Node.type = some (.known construct)) :
    path.groupDialect? = construct.groupDialect? := by
  rw [groupDialect?, hparent]
  rfl

theorem groupDialect?_cons {node : Node} {step : Step} {construct : Construct} (above : List Step)
    (hparent : step.parent.type = .known construct) :
    groupDialect? ⟨node, step :: above⟩ = construct.groupDialect? :=
  groupDialect?_of_parent (by rw [← hparent]; rfl)

theorem slotDialect?_of_parent {node : Node} {step : Step} {construct : Construct}
    (above : List Step) (hparent : step.parent.type = .known construct) :
    slotDialect? ⟨node, step :: above⟩ = construct.typeDialect? step.field.part? := by
  simp only [slotDialect?, hparent]
  cases step.field <;> rfl

theorem groupDialect?_of_slotDialect? {dialect : Dialect}
    (hdialect : path.slotDialect? = some dialect) : path.groupDialect? = some dialect := by
  obtain ⟨node, above⟩ := path
  cases above with
  | nil => cases hdialect
  | cons step above =>
      cases hparent : step.parent.type with
      | known construct =>
          rw [slotDialect?_of_parent above hparent] at hdialect
          rw [groupDialect?_cons above hparent]
          exact Construct.groupDialect?_of_typeDialect? hdialect
      | other name =>
          simp only [slotDialect?, hparent] at hdialect
          cases hdialect

/-- Where a rule applies, the slot has the dialect of the group. -/
theorem slotDialect?_of_applies {rule : Rule} (happlies : rule.applies path = true) :
    path.slotDialect? = path.groupDialect? := by
  obtain ⟨node, above⟩ := path
  cases above with
  | nil => cases happlies
  | cons step above =>
      have hrole := Rule.slotRole?_of_appliesAt happlies
      cases hparent : step.parent.type with
      | known construct =>
          rw [Step.slotRole?_of_parent hparent] at hrole
          rw [slotDialect?_of_parent above hparent, groupDialect?_cons above hparent]
          exact Construct.typeDialect?_of_slotRole? hrole
      | other name =>
          simp only [Step.slotRole?, hparent] at hrole
          cases hrole

theorem exists_applies_of_plainRole (hrole : path.plainRole ≠ .reference) :
    ∃ rule : Rule, rule.applies path = true := by
  by_contra hnone
  exact hrole (plainRole_of_not_applies (not_exists.mp hnone))

theorem groupDialect?_of_isDeclaredTarget (htarget : path.isDeclaredTarget = true) :
    path.groupDialect? = none := by
  obtain ⟨node, above⟩ := path
  cases above with
  | nil => cases htarget
  | cons step above =>
      have hwraps := (Step.wraps_iff node).mp (wraps_of_reachesBindingSite htarget)
      obtain ⟨construct, part, hin, hpart⟩ := targetPart?_of_isWrapped hwraps
      rw [groupDialect?_of_parent (parent_type_of_isIn hin)]
      exact Construct.groupDialect?_of_targetPart? hpart

theorem dialect_of_identifier (htype : path.type = .known .identifier) :
    path.dialect = .ok (path.slotDialect?.getD .javaScript) := by
  rw [dialect, htype]

theorem groupDialect?_of_dialect {dialect : Dialect} (htype : path.type = .known .identifier)
    (hdialect : path.dialect = .ok dialect) (hne : dialect ≠ .javaScript) :
    path.groupDialect? = some dialect := by
  rw [dialect_of_identifier htype] at hdialect
  cases hslot : path.slotDialect? with
  | none =>
      rw [hslot] at hdialect
      cases hdialect
      exact absurd rfl hne
  | some found =>
      rw [hslot] at hdialect
      cases hdialect
      exact groupDialect?_of_slotDialect? hslot

/-- An identifier that declares or names something has the dialect of the group that holds it. -/
theorem dialect_of_role {role : Role} (htype : path.type = .known .identifier)
    (hrole : path.role = role) (hne : role ≠ .reference) :
    path.dialect = .ok (path.groupDialect?.getD .javaScript) := by
  rw [role_of_identifier htype] at hrole
  obtain ⟨rule, happlies⟩ := exists_applies_of_plainRole (hrole ▸ hne)
  rw [dialect_of_identifier htype, slotDialect?_of_applies happlies]

theorem groupDialect?_of_not_mem_groups
    (hgroups : ∀ construct ∈ Construct.flow ++ Construct.typeScript,
      path.parent?.map Node.type ≠ some (.known construct)) : path.groupDialect? = none := by
  cases hparent : path.parent?.map Node.type with
  | none =>
      rw [groupDialect?, hparent]
      rfl
  | some type =>
      cases type with
      | known construct =>
          rw [groupDialect?_of_parent hparent]
          apply Construct.groupDialect?_of_not_mem
          intro hmem
          exact hgroups construct hmem hparent
      | other name =>
          rw [groupDialect?, hparent]
          rfl

/-- The roles and the dialects of plain identifiers agree on what is at the type level. Outside of
the constructs of Flow and TypeScript an identifier is plain JavaScript. Within them, one that is
more than a reference has the dialect of the construct. One that has the dialect of types is no
target that a pattern declares. -/
theorem dialect_agrees_role (path : Path) (htype : path.type = .known .identifier) :
    ((∀ construct ∈ Construct.flow ++ Construct.typeScript,
        path.parent?.map Node.type ≠ some (.known construct)) →
      path.dialect = .ok .javaScript) ∧
    (∀ construct ∈ Construct.flow, path.parent?.map Node.type = some (.known construct) →
      path.role = .binding ∨ path.role = .static → path.dialect = .ok .flow) ∧
    (∀ construct ∈ Construct.typeScript, path.parent?.map Node.type = some (.known construct) →
      path.role = .binding ∨ path.role = .static → path.dialect = .ok .typeScript) ∧
    (path.dialect = .ok .flow ∨ path.dialect = .ok .typeScript →
      path.isDeclaredTarget = false) := by
  have hdecides : path.role = .binding ∨ path.role = .static →
      path.dialect = .ok (path.groupDialect?.getD .javaScript) := by
    rintro (hrole | hrole)
    · exact dialect_of_role htype hrole (by decide)
    · exact dialect_of_role htype hrole (by decide)
  refine ⟨?_, ?_, ?_, ?_⟩
  · intro hgroups
    cases hslot : path.slotDialect? with
    | none =>
        rw [dialect_of_identifier htype, hslot]
        rfl
    | some dialect =>
        have hgroup := groupDialect?_of_slotDialect? hslot
        rw [groupDialect?_of_not_mem_groups hgroups] at hgroup
        cases hgroup
  · intro construct hflow hparent hrole
    rw [hdecides hrole, groupDialect?_of_parent hparent,
      Construct.groupDialect?_of_mem_flow hflow]
    rfl
  · intro construct htypeScript hparent hrole
    rw [hdecides hrole, groupDialect?_of_parent hparent,
      Construct.groupDialect?_of_mem_typeScript htypeScript]
    rfl
  · intro hdialect
    have hgroup : path.groupDialect? ≠ none := by
      rcases hdialect with hdialect | hdialect
      · simp [groupDialect?_of_dialect htype hdialect (by decide)]
      · simp [groupDialect?_of_dialect htype hdialect (by decide)]
    rw [Bool.eq_false_iff]
    intro htarget
    exact hgroup (groupDialect?_of_isDeclaredTarget htarget)

/-- An identifier that stands in a part of a construct. -/
def heldIn (construct : Construct) (part : Part) : Path :=
  ⟨Node.identifier "a", [⟨.known part, Node.ofType (.known construct)⟩]⟩

/-- The parameter of a function type names something in Flow, the key of a mapped type declares
something in TypeScript, and a variable is plain JavaScript. -/
theorem dialect_agrees_role_heldIn :
    (heldIn .functionTypeParam .name).role = .static ∧
      (heldIn .functionTypeParam .name).dialect = .ok .flow ∧
      (heldIn .tsMappedType .key).role = .binding ∧
      (heldIn .tsMappedType .key).dialect = .ok .typeScript ∧
      (heldIn .tsMappedType .key).isDeclaredTarget = false ∧
      (heldIn .variableDeclarator .id).dialect = .ok .javaScript := by
  have hstatic : (heldIn .functionTypeParam .name).role = .static := by decide
  have hbinding : (heldIn .tsMappedType .key).role = .binding := by decide
  obtain ⟨-, hflow, -, -⟩ := dialect_agrees_role (heldIn .functionTypeParam .name) rfl
  obtain ⟨-, -, htypeScript, htarget⟩ := dialect_agrees_role (heldIn .tsMappedType .key) rfl
  obtain ⟨hplain, -, -, -⟩ := dialect_agrees_role (heldIn .variableDeclarator .id) rfl
  have hkey := htypeScript .tsMappedType (by decide) rfl (.inl hbinding)
  exact ⟨hstatic, hflow .functionTypeParam (by decide) rfl (.inr hstatic), hbinding, hkey,
    htarget (.inr hkey), hplain (by decide)⟩

end Path

end NameRoles
