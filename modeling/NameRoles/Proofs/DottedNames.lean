import NameRoles.Proofs.Classification
import NameRoles.Proofs.TypeLevel

/-! Dotted names such as `a.b.c`. Each dialect has constructs of its own that append a name to a
dotted name; they hold what comes before the last dot in one part and the last name in another. A
walk visits the names as they are written, and only the first of them is a reference, also if it
begins in lower case. -/

namespace NameRoles

/-- The ways to write a dotted name. -/
inductive DottedForm where
  /-- Properties, as in `a.b` and `a?.b`. -/
  | access
  /-- The name of an element, as in `<a.b/>`. -/
  | markup
  | flow
  | typeScript

namespace DottedForm

/-- The constructs that append a name. -/
def constructs : DottedForm → List Construct
  | access => [.memberExpression, .optionalMemberExpression]
  | markup => [.jsxMemberExpression]
  | flow => [.qualifiedTypeIdentifier]
  | typeScript => [.tsQualifiedName]

/-- The construct of a single name. -/
def leaf : DottedForm → Construct
  | markup => .jsxIdentifier
  | access | flow | typeScript => .identifier

/-- The part that holds what comes before the last dot. -/
def front : DottedForm → Part
  | access | markup => .object
  | flow => .qualification
  | typeScript => .left

/-- The part that holds the last name. -/
def last : DottedForm → Part
  | access | markup => .property
  | flow => .id
  | typeScript => .right

/-- The dialect of the names. -/
def dialect : DottedForm → Dialect
  | access => .javaScript
  | markup => .jsx
  | flow => .flow
  | typeScript => .typeScript

/-- The names of a dotted name with their labels. -/
def labelled (form : DottedForm) (first : String) (rest : List String) :
    List (String × Role × Dialect) :=
  (first, .reference, form.dialect) :: rest.map fun name => (name, .static, form.dialect)

/-- The dialect that the constructs give to their parts. Those outside of types give none. -/
def partDialect? : DottedForm → Option Dialect
  | access | markup => none
  | flow => some .flow
  | typeScript => some .typeScript

theorem typeDialect?_of_mem (form : DottedForm) :
    ∀ construct ∈ form.constructs, ∀ part ∈ [form.front, form.last],
      construct.typeDialect? (some part) = form.partDialect? := by
  cases form <;> decide

theorem slotRole?_of_mem (form : DottedForm) :
    ∀ construct ∈ form.constructs, construct.slotRole? (some form.front) = none := by
  cases form <;> decide

end DottedForm

namespace Node

/-- A single name, with nothing below it. -/
structure IsName (form : DottedForm) (name : String) (node : Node) : Prop where
  type_eq : node.type = .known form.leaf
  name_eq : node.name = some name
  children_eq : node.children = []

/-- `node.Spells form first rest`: the node is the dotted name that begins with `first` and goes on
with `rest`. A property that is appended must not be computed. -/
inductive Spells (form : DottedForm) : Node → String → List String → Prop
  | name {node : Node} {first : String} (hname : node.IsName form first) : node.Spells form first []
  | dot {node front last : Node} {construct : Construct} {first name : String} {rest : List String}
      (hconstruct : construct ∈ form.constructs) (htype : node.type = .known construct)
      (hcomputed : form = .access → node.computed = false)
      (hchildren : node.children = [(.known form.front, front), (.known form.last, last)])
      (hfront : front.Spells form first rest) (hlast : last.IsName form name) :
      node.Spells form first (rest ++ [name])

theorem Spells.isName {form : DottedForm} {node : Node} {first : String}
    (hspells : node.Spells form first []) : node.IsName form first := by
  generalize hrest : [] = rest at hspells
  cases hspells with
  | name hname => exact hname
  | dot => simp at hrest

end Node

namespace Path

variable {form : DottedForm} {construct : Construct} {path : Path} {held : Node}

theorem labels_eq_ok {role : Role} {dialect : Dialect} (hrole : path.role = role)
    (hdialect : path.dialect = .ok dialect) : path.labels = .ok (role, dialect) := by
  rw [labels, hrole, hdialect]
  rfl

theorem role_of_jsxIdentifier (htype : path.type = .known .jsxIdentifier) :
    path.role = path.jsxRole := by
  rw [role, htype]

/-- Both parts of a construct that appends a name have the dialect of the form. -/
theorem dialect_of_dotted {part : Part} (hconstruct : construct ∈ form.constructs)
    (htype : path.type = .known construct) (hpart : part ∈ [form.front, form.last])
    (hheld : held.type = .known form.leaf) :
    (path.child (.known part) held).dialect = .ok form.dialect := by
  have hslot : (path.child (.known part) held).slotDialect? =
      construct.typeDialect? (some part) :=
    slotDialect?_of_parent path.above htype
  have hleaf : (path.child (.known part) held).type = .known form.leaf := hheld
  rw [form.typeDialect?_of_mem construct hconstruct part hpart] at hslot
  rw [dialect, hleaf, hslot]
  cases form <;> rfl

/-- No rule for plain identifiers applies before a dot. -/
theorem plainRole_front (held : Node) (hconstruct : construct ∈ form.constructs)
    (htype : path.type = .known construct) :
    (path.child (.known form.front) held).plainRole = .reference := by
  apply plainRole_of_not_applies
  intro rule happlies
  have hrole := Rule.slotRole?_of_appliesAt happlies
  rw [Step.slotRole?_of_parent htype] at hrole
  have hnone := form.slotRole?_of_mem construct hconstruct
  exact Option.some_ne_none _ (hrole.symm.trans hnone)

/-- The case of a name before a dot is not looked at. -/
theorem jsxRole_front (held : Node) (htype : path.type = .known .jsxMemberExpression) :
    (path.child (.known .object) held).jsxRole = .reference := by
  have hparent : path.node.type = .known .jsxMemberExpression := htype
  simp [jsxRole, isIn, Step.isIn, Path.child, hparent]

theorem jsxRole_last (held : Node) (htype : path.type = .known .jsxMemberExpression) :
    (path.child (.known .property) held).jsxRole = .static := by
  have hparent : path.node.type = .known .jsxMemberExpression := htype
  simp [jsxRole, isIn, Step.isIn, Path.child, hparent]

/-- A name before a dot is a reference. -/
theorem role_front (hconstruct : construct ∈ form.constructs)
    (htype : path.type = .known construct) (hheld : held.type = .known form.leaf) :
    (path.child (.known form.front) held).role = .reference := by
  have hleaf : (path.child (.known form.front) held).type = .known form.leaf := hheld
  have hplain := plainRole_front held hconstruct htype
  cases form with
  | access => rwa [role_of_identifier hleaf]
  | markup =>
      cases List.mem_singleton.mp hconstruct
      rw [role_of_jsxIdentifier hleaf]
      exact jsxRole_front held htype
  | flow => rwa [role_of_identifier hleaf]
  | typeScript => rwa [role_of_identifier hleaf]

/-- A name behind a dot is static. -/
theorem role_last (hconstruct : construct ∈ form.constructs)
    (htype : path.type = .known construct)
    (hcomputed : form = .access → path.node.computed = false)
    (hheld : held.type = .known form.leaf) :
    (path.child (.known form.last) held).role = .static := by
  have hleaf : (path.child (.known form.last) held).type = .known form.leaf := hheld
  cases form with
  | access =>
      have hmember : ∀ other ∈ DottedForm.access.constructs, other.isMemberExpression = true := by
        decide
      have hparent : path.node.type = .known construct := htype
      rw [role_of_identifier hleaf]
      apply plainRole_of_applies .memberProperty
      simp [Rule.applies, Path.child, Rule.appliesAt, DottedForm.last, NodeType.satisfies, hparent,
        hmember construct hconstruct, hcomputed rfl]
  | markup =>
      cases List.mem_singleton.mp hconstruct
      rw [role_of_jsxIdentifier hleaf]
      exact jsxRole_last held htype
  | flow =>
      cases List.mem_singleton.mp hconstruct
      have hjoins : Step.joins ⟨.known .id, path.node⟩
          [.objectTypeIndexer, .qualifiedTypeIdentifier, .tsEnumMember] [.id] = true :=
        Step.joins_iff.mpr ⟨.qualifiedTypeIdentifier, by decide, .id, by decide, htype, rfl⟩
      rw [role_of_identifier hleaf]
      apply plainRole_of_applies .typePart
      simp [Rule.applies, Path.child, Rule.appliesAt, DottedForm.last, hjoins]
  | typeScript =>
      cases List.mem_singleton.mp hconstruct
      have hjoins : Step.joins ⟨.known .right, path.node⟩ [.tsQualifiedName] [.right] = true :=
        Step.joins_singleton.mpr ⟨htype, rfl⟩
      rw [role_of_identifier hleaf]
      apply plainRole_of_applies .typePart
      simp [Rule.applies, Path.child, Rule.appliesAt, DottedForm.last, hjoins]

theorem labels_front (hconstruct : construct ∈ form.constructs)
    (htype : path.type = .known construct) (hheld : held.type = .known form.leaf) :
    (path.child (.known form.front) held).labels = .ok (.reference, form.dialect) :=
  labels_eq_ok (role_front hconstruct htype hheld)
    (dialect_of_dotted hconstruct htype (List.mem_cons_self) hheld)

theorem labels_last (hconstruct : construct ∈ form.constructs)
    (htype : path.type = .known construct)
    (hcomputed : form = .access → path.node.computed = false)
    (hheld : held.type = .known form.leaf) :
    (path.child (.known form.last) held).labels = .ok (.static, form.dialect) :=
  labels_eq_ok (role_last hconstruct htype hcomputed hheld)
    (dialect_of_dotted hconstruct htype (List.mem_cons_of_mem _ List.mem_cons_self) hheld)

/-- The name at a path, if there is one, with its labels. -/
def nameAndLabels (path : Path) :
    Option String × Except (Located ClassifyFault) (Role × Dialect) :=
  (path.node.name, path.labels)

/-- The names at and below a path, in the order of the walk. -/
def names (path : Path) : List Path :=
  path.preorder.filter (·.CarriesName)

theorem names_of_carriesName (hname : path.CarriesName) (hchildren : path.node.children = []) :
    path.names = [path] := by
  rw [names, preorder_eq, children, hchildren, List.map_nil, List.flatMap_nil,
    List.filter_cons_of_pos (by simpa using hname), List.filter_nil]

theorem names_of_not_carriesName (hname : ¬path.CarriesName) :
    path.names = path.children.flatMap names := by
  rw [names, preorder_eq, List.filter_cons_of_neg (by simpa using hname), List.filter_flatMap]
  rfl

theorem not_carriesName_of_dotted (hconstruct : construct ∈ form.constructs)
    (htype : path.type = .known construct) : ¬path.CarriesName := by
  have hlike : ∀ other ∈ form.constructs, other.isIdentifierLike = false := by
    cases form <;> decide
  rw [← isIdentifierLike_iff, isIdentifierLike, htype, NodeType.satisfies,
    hlike construct hconstruct]
  exact Bool.false_ne_true

theorem carriesName_of_leaf (htype : path.type = .known form.leaf) : path.CarriesName := by
  rw [← isIdentifierLike_iff, isIdentifierLike, htype, NodeType.satisfies]
  cases form <;> rfl

/-- The names of a dotted name are those before the last dot and the one behind it. -/
theorem names_of_dot {front last : Node} {name : String} (hconstruct : construct ∈ form.constructs)
    (htype : path.type = .known construct)
    (hchildren : path.node.children = [(.known form.front, front), (.known form.last, last)])
    (hlast : last.IsName form name) :
    path.names = (path.child (.known form.front) front).names ++
      [path.child (.known form.last) last] := by
  have hleaf : (path.child (.known form.last) last).names =
      [path.child (.known form.last) last] :=
    names_of_carriesName (carriesName_of_leaf hlast.type_eq) hlast.children_eq
  rw [names_of_not_carriesName (not_carriesName_of_dotted hconstruct htype), children, hchildren,
    ← hleaf]
  simp

/-- The labels of the names of a dotted name. A single name has the labels that its place gives
it. -/
theorem labels_names {first : String} {rest : List String}
    (hspells : path.node.Spells form first rest) :
    path.names.map nameAndLabels =
      (some first, if rest = [] then path.labels else .ok (.reference, form.dialect)) ::
        rest.map fun name => (some name, .ok (.static, form.dialect)) := by
  generalize hnode : path.node = node at hspells
  induction hspells generalizing path with
  | name hname =>
      subst hnode
      rw [names_of_carriesName (carriesName_of_leaf hname.type_eq) hname.children_eq,
        List.map_singleton, nameAndLabels, hname.name_eq, if_pos rfl, List.map_nil]
  | @dot node front last construct first name rest hconstruct htype hcomputed hchildren hfront
      hlast ih =>
      subst hnode
      have hfirst : (if rest = [] then (path.child (.known form.front) front).labels
          else .ok (.reference, form.dialect)) = .ok (.reference, form.dialect) := by
        split
        · rename_i hrest
          subst hrest
          exact labels_front hconstruct htype hfront.isName.type_eq
        · rfl
      have hname : (path.child (.known form.last) last).nameAndLabels =
          (some name, .ok (.static, form.dialect)) :=
        Prod.ext hlast.name_eq (labels_last hconstruct htype hcomputed hlast.type_eq)
      rw [names_of_dot hconstruct htype hchildren hlast, List.map_append, ih rfl, hfirst,
        List.map_singleton, hname, if_neg (List.append_ne_nil_of_right_ne_nil rest (by simp)),
        List.map_append, List.map_singleton, List.cons_append]

/-- The labels of the names of a dotted name that has a dot do not depend on its place. -/
theorem labels_names_of_ne_nil {first : String} {rest : List String}
    (hspells : path.node.Spells form first rest) (hrest : rest ≠ []) :
    path.names.map nameAndLabels =
      (form.labelled first rest).map fun labelled => (some labelled.1, .ok labelled.2) := by
  rw [labels_names hspells, if_neg hrest, DottedForm.labelled, List.map_cons, List.map_map]
  rfl

theorem not_isStray_of_spells {first : String} {rest : List String}
    (hspells : path.node.Spells form first rest) (hrest : rest ≠ []) :
    ∀ other ∈ path.preorder, ¬other.IsStray := by
  intro other hother hstray
  have hcarries : other.CarriesName := Or.inr (Or.inr (Or.inl hstray.1))
  have hname : other ∈ path.names := List.mem_filter.mpr ⟨hother, by simpa using hcarries⟩
  have hlabels : nameAndLabels other ∈ path.names.map nameAndLabels := List.mem_map_of_mem hname
  rw [labels_names_of_ne_nil hspells hrest, nameAndLabels, labels,
    dialect_of_isStray hstray] at hlabels
  obtain ⟨labelled, -, heq⟩ := List.mem_map.mp hlabels
  cases (Prod.mk.inj heq).2

/-- Entries of names whose labels are known. -/
theorem map_labels_of_records {names : List Path} {entries : List Identifier}
    {labelled : List (String × Role × Dialect)} (hrecords : List.Forall₂ Records names entries)
    (hlabels : names.map nameAndLabels =
      labelled.map fun labelled => (some labelled.1, .ok labelled.2)) :
    entries.map (fun entry => (entry.name, entry.role, entry.dialect)) = labelled := by
  induction hrecords generalizing labelled with
  | nil => exact (List.map_eq_nil_iff.mp hlabels.symm).symm
  | @cons name entry names entries hrecord _ ih =>
      cases labelled with
      | nil => cases hlabels
      | cons head labelled =>
          obtain ⟨text, role, dialect⟩ := head
          obtain ⟨hhead, htail⟩ := List.cons.inj hlabels
          obtain ⟨hname, hlabel⟩ := Prod.mk.inj hhead
          rw [labels_eq_ok hrecord.role_eq.symm hrecord.dialect_eq] at hlabel
          obtain ⟨hrole, hdialect⟩ := Prod.mk.inj (Except.ok.inj hlabel)
          rw [List.map_cons, ih htail, hrecord.name_eq, hname, hrole, hdialect, Option.getD_some]

/-- What stands in a concatenation stands in one of the parts, with what follows it there. -/
theorem exists_part_of_flatMap_eq {α β : Type} {part : α → List β} {items : List α}
    {before tail : List β} {found : β} (heq : items.flatMap part = before ++ found :: tail) :
    ∃ item ∈ items, ∃ start rest after,
      part item = start ++ found :: rest ∧ tail = rest ++ after := by
  induction items generalizing before with
  | nil => simp at heq
  | cons item items ih =>
      have hlater {start : List β} (hstart : items.flatMap part = start ++ found :: tail) :
          ∃ other ∈ item :: items, ∃ start rest after,
            part other = start ++ found :: rest ∧ tail = rest ++ after := by
        obtain ⟨other, hother, hpart⟩ := ih hstart
        exact ⟨other, List.mem_cons_of_mem _ hother, hpart⟩
      rw [List.flatMap_cons, List.append_eq_append_iff] at heq
      rcases heq with ⟨start, -, hstart⟩ | ⟨rest, hitem, hrest⟩
      · exact hlater hstart
      · cases rest with
        | nil =>
            have hstart : items.flatMap part = [] ++ found :: tail := hrest.symm
            exact hlater hstart
        | cons first rest =>
            obtain ⟨rfl, htail⟩ := List.cons.inj hrest
            exact ⟨item, List.mem_cons_self, before, rest, _, hitem, htail⟩

/-- Wherever a path is visited, all that is below it follows at once. -/
theorem exists_preorder_append {start : Path} {before tail : List Path}
    (heq : start.preorder = before ++ path :: tail) :
    ∃ after, path :: tail = path.preorder ++ after := by
  induction start using induction_children generalizing before tail with
  | path start ih =>
      rw [preorder_eq] at heq
      cases before with
      | nil =>
          obtain ⟨rfl, htail⟩ := List.cons.inj heq
          exact ⟨[], by rw [List.append_nil, preorder_eq, htail]⟩
      | cons first before =>
          obtain ⟨child, hchild, earlier, rest, later, hpreorder, rfl⟩ :=
            exists_part_of_flatMap_eq (List.cons.inj heq).2
          obtain ⟨after, hafter⟩ := ih child hchild hpreorder
          exact ⟨after ++ later, by rw [← List.cons_append, hafter, List.append_assoc]⟩

end Path

namespace Node

/-- A dotted name in a tree. Wherever it is visited, all its nodes are visited before anything else.
The first of its names is a reference, the others are static, and all have the dialect of the form.
Unless the rest of the tree has a stray type parameter, the classification of the tree has the
entries of these names in this order, between those of what is visited before and after. -/
theorem classify_dottedName {root : Node} {path : Path} {before tail : List Path}
    {form : DottedForm} {first : String} {rest : List String}
    (hpath : root.paths = before ++ path :: tail) (hspells : path.node.Spells form first rest)
    (hrest : rest ≠ []) :
    ∃ after, root.paths = before ++ path.preorder ++ after ∧
      path.names.map Path.nameAndLabels =
        (form.labelled first rest).map (fun labelled => (some labelled.1, .ok labelled.2)) ∧
      ((∀ other ∈ before ++ after, ¬other.IsStray) →
        ∃ earlier within later, root.classify.result = .ok (earlier ++ within ++ later) ∧
          List.Forall₂ Path.Records (before.filter (·.CarriesName)) earlier ∧
          List.Forall₂ Path.Records path.names within ∧
          List.Forall₂ Path.Records (after.filter (·.CarriesName)) later ∧
          within.map (fun entry => (entry.name, entry.role, entry.dialect)) =
            form.labelled first rest) := by
  have hlabels := Path.labels_names_of_ne_nil hspells hrest
  obtain ⟨after, hafter⟩ := Path.exists_preorder_append (root.paths_eq_preorder.symm.trans hpath)
  rw [hafter, ← List.append_assoc] at hpath
  refine ⟨after, hpath, hlabels, fun hothers => ?_⟩
  have hbefore : ∀ other ∈ before, ¬other.IsStray := fun other hother =>
    hothers other (List.mem_append_left _ hother)
  have hafter : ∀ other ∈ after, ¬other.IsStray := fun other hother =>
    hothers other (List.mem_append_right _ hother)
  have hwithin := Path.not_isStray_of_spells hspells hrest
  have hall : ∀ other ∈ root.occurrences, ¬other.IsStray := by
    rw [← paths_eq_occurrences, hpath]
    simp only [List.mem_append]
    rintro other ((hother | hother) | hother)
    · exact hbefore other hother
    · exact hwithin other hother
    · exact hafter other hother
  have hrecords := Path.forall₂_records hwithin
  refine ⟨before.filterMap Path.record?, path.preorder.filterMap Path.record?,
    after.filterMap Path.record?, ?_, Path.forall₂_records hbefore, hrecords,
    Path.forall₂_records hafter, Path.map_labels_of_records hrecords hlabels⟩
  rw [classify_result_of_not_isStray hall, ← paths_eq_occurrences, hpath, List.filterMap_append,
    List.filterMap_append]

/-- Appends a name to a dotted name. -/
def dot (form : DottedForm) (construct : Construct) (front : Node) (name : String) : Node :=
  ((ofType (.known construct)).withChild (.known form.front) front).withChild (.known form.last)
    ((ofType (.known form.leaf)).named name)

theorem spells_dot {form : DottedForm} {construct : Construct} {front : Node} {first : String}
    {rest : List String} (name : String) (hconstruct : construct ∈ form.constructs)
    (hfront : front.Spells form first rest) :
    (front.dot form construct name).Spells form first (rest ++ [name]) :=
  .dot hconstruct rfl (fun _ => rfl) rfl hfront ⟨rfl, rfl, rfl⟩

/-- The dotted name `x.y?.z`. -/
def optionalAccess : Node :=
  ((identifier "x").dot .access .memberExpression "y").dot .access .optionalMemberExpression "z"

/-- The dotted name of the element `<a.b/>`. -/
def lowercaseElement : Node :=
  (jsxIdentifier "a").dot .markup .jsxMemberExpression "b"

def patternOfAccess : Node :=
  (ofType (.known .arrayPattern)).withItems (.known .elements) [none, some optionalAccess]

/-- The declaration in `let [, x.y?.z] = c`, where a name alone would be a binding. -/
def declaredAccess : Node :=
  (ofType (.known .variableDeclarator)).withChild (.known .id) patternOfAccess

def pathOfAccess : Path :=
  ((Path.root declaredAccess).child (.known .id) patternOfAccess).child (.known .elements)
    optionalAccess

theorem spells_optionalAccess : optionalAccess.Spells .access "x" ["y", "z"] :=
  spells_dot "z" (by decide) (spells_dot "y" (by decide) (.name ⟨rfl, rfl, rfl⟩))

theorem paths_declaredAccess :
    declaredAccess.paths = [Path.root declaredAccess,
        (Path.root declaredAccess).child (.known .id) patternOfAccess] ++
      pathOfAccess :: pathOfAccess.children.flatMap Path.preorder := by
  have hdeclaration : (Path.root declaredAccess).children =
      [(Path.root declaredAccess).child (.known .id) patternOfAccess] := rfl
  have hpattern : ((Path.root declaredAccess).child (.known .id) patternOfAccess).children =
      [pathOfAccess] := rfl
  rw [paths_eq_preorder, Path.preorder_eq, hdeclaration, List.flatMap_singleton, Path.preorder_eq,
    hpattern, List.flatMap_singleton, Path.preorder_eq]
  rfl

theorem classify_dottedName_optionalAccess :
    (∃ tail, declaredAccess.paths = [Path.root declaredAccess,
        (Path.root declaredAccess).child (.known .id) patternOfAccess] ++ pathOfAccess :: tail) ∧
      optionalAccess.Spells .access "x" ["y", "z"] ∧
      pathOfAccess.names.map Path.nameAndLabels =
        [(some "x", .ok (.reference, .javaScript)), (some "y", .ok (.static, .javaScript)),
         (some "z", .ok (.static, .javaScript))] ∧
      (∃ earlier within later,
        declaredAccess.classify.result = .ok (earlier ++ within ++ later) ∧
          within.map (fun entry => (entry.name, entry.role, entry.dialect)) =
            [("x", .reference, .javaScript), ("y", .static, .javaScript),
             ("z", .static, .javaScript)]) ∧
      (Path.root lowercaseElement).names.map Path.nameAndLabels =
        [(some "a", .ok (.reference, .jsx)), (some "b", .ok (.static, .jsx))] := by
  obtain ⟨after, heq, hlabels, hclassify⟩ :=
    classify_dottedName paths_declaredAccess spells_optionalAccess (List.cons_ne_nil _ _)
  have hroot : lowercaseElement.paths = [] ++ Path.root lowercaseElement ::
      (Path.root lowercaseElement).children.flatMap Path.preorder := by
    rw [paths_eq_preorder, Path.preorder_eq, List.nil_append]
  have helement : lowercaseElement.Spells .markup "a" ["b"] :=
    spells_dot "b" (by decide) (.name ⟨rfl, rfl, rfl⟩)
  obtain ⟨-, -, hmarkup, -⟩ := classify_dottedName hroot helement (List.cons_ne_nil _ _)
  refine ⟨⟨_, paths_declaredAccess⟩, spells_optionalAccess, hlabels, ?_, hmarkup⟩
  have hok : declaredAccess.classify.result =
      .ok [⟨"x", .reference, .javaScript, Span.none⟩, ⟨"y", .static, .javaScript, Span.none⟩,
        ⟨"z", .static, .javaScript, Span.none⟩] := by
    decide +kernel
  obtain ⟨earlier, within, later, hresult, -, -, -, hwithin⟩ := hclassify fun other hother => by
    apply not_isStray_of_classify_ok hok
    rw [← paths_eq_occurrences, heq]
    simp only [List.mem_append] at hother ⊢
    exact hother.imp_left Or.inl
  exact ⟨earlier, within, later, hresult, hwithin⟩

end Node

end NameRoles
