import NameRoles.Proofs.DepthLimit
import NameRoles.Proofs.Storable

/-! Writing trees down as documents. The document of a tree has, for each node, its type, its
offsets, its name, its flag and then its slots in order. A tree whose nodes are storable is loaded
from its document, and no other tree is loaded from any document. -/

namespace NameRoles

/-- The members that write down a node apart from its slots. A name is written if there is one, and
the flag if it is set. -/
def Node.headMembers (node : Node) : List (String × Json) :=
  [("type", .string node.type.text), ("start", .number (Number.ofNat node.span.start)),
    ("end", .number (Number.ofNat node.span.stop))] ++
  (node.name.map fun text => ("name", Json.string text)).toList ++
  if node.computed then [("computed", .bool true)] else []

mutual

/-- The document that writes down a tree: for each node its type, its offsets, its name, its flag
and then its slots in order. -/
def Node.document : Node → Json
  | ⟨span, type, name, computed, slots⟩ =>
      .object (Node.headMembers ⟨span, type, name, computed, slots⟩ ++ Node.slotMembers slots)

def Node.slotMembers : List Slot → List (String × Json)
  | [] => []
  | .single field child :: slots => (field.text, child.document) :: Node.slotMembers slots
  | .list field items :: slots =>
      (field.text, .array (Node.itemDocuments items)) :: Node.slotMembers slots

def Node.itemDocuments : List (Option Node) → List Json
  | [] => []
  | none :: items => .null :: Node.itemDocuments items
  | some child :: items => child.document :: Node.itemDocuments items

end

/-- What is written down of a slot. -/
def Slot.document : Slot → Json
  | .single _ child => child.document
  | .list _ items => .array (items.map fun item => item.elim .null Node.document)

/-- The member that writes down a slot. -/
def Slot.member (slot : Slot) : String × Json :=
  (slot.field.text, slot.document)

namespace Node

theorem itemDocuments_eq (items : List (Option Node)) :
    itemDocuments items = items.map fun item => item.elim .null document := by
  induction items with
  | nil => rfl
  | cons item items ih => cases item <;> rw [itemDocuments, ih] <;> rfl

theorem slotMembers_eq (slots : List Slot) : slotMembers slots = slots.map Slot.member := by
  induction slots with
  | nil => rfl
  | cons slot slots ih =>
      cases slot with
      | single field child =>
          rw [slotMembers, ih]
          rfl
      | list field items =>
          rw [slotMembers, ih, itemDocuments_eq]
          rfl

theorem document_eq (node : Node) :
    node.document = .object (node.headMembers ++ node.slots.map Slot.member) := by
  cases node
  rw [document, slotMembers_eq]

theorem members_document (node : Node) :
    node.document.members = node.headMembers ++ node.slots.map Slot.member := by
  rw [document_eq]
  rfl

theorem member?_document (node : Node) (key : String) :
    node.document.member? key =
      (node.headMembers.lookup key).or ((node.slots.map Slot.member).lookup key) := by
  rw [Json.member?, members_document, List.lookup_append]

theorem hasType_document (node : Node) : node.document.HasType := by
  refine ⟨node.type.text, ?_⟩
  rw [member?_document]
  rfl

theorem isNull_document (node : Node) : node.document.isNull = false := by
  cases node
  rfl

theorem exists_slot_of_lookup {slots : List Slot} {key : String} {value : Json}
    (hlookup : (slots.map Slot.member).lookup key = some value) :
    ∃ slot ∈ slots, slot.field.text = key ∧ slot.document = value := by
  obtain ⟨before, after, heq, -⟩ := List.lookup_eq_some_iff.mp hlookup
  have hmem : (key, value) ∈ slots.map Slot.member := by
    rw [heq]
    simp
  obtain ⟨slot, hslot, hpair⟩ := List.mem_map.mp hmem
  cases hpair
  exact ⟨slot, hslot, rfl, rfl⟩

theorem lookup_name_headMembers (node : Node) :
    node.headMembers.lookup "name" = node.name.map .string := by
  obtain ⟨span, type, name, computed, slots⟩ := node
  cases name <;> cases computed <;> rfl

theorem lookup_computed_headMembers (node : Node) :
    node.headMembers.lookup "computed" = if node.computed then some (.bool true) else none := by
  obtain ⟨span, type, name, computed, slots⟩ := node
  cases name <;> cases computed <;> rfl

variable {node : Node}

theorem nodeType_document (hstorable : node.Storable) : node.document.nodeType = node.type := by
  have htext : node.document.typeText? = some node.type.text := by
    rw [Json.typeText?_eq_some_iff, member?_document]
    rfl
  rw [Json.nodeType, htext, Option.getD_some]
  exact NodeType.reading.ofText_text hstorable.type_unknown

theorem span_document (hstart : node.span.start < UInt64.size)
    (hstop : node.span.stop < UInt64.size) : node.document.span = node.span := by
  have hfirst : node.document.offset? "start" = some node.span.start := by
    rw [Json.offset?_eq_some_iff, Json.HasOffset, member?_document]
    exact ⟨hstart, rfl⟩
  have hlast : node.document.offset? "end" = some node.span.stop := by
    rw [Json.offset?_eq_some_iff, Json.HasOffset, member?_document]
    exact ⟨hstop, rfl⟩
  rw [Json.span, hfirst, hlast]
  rfl

theorem Storable.ofText_text_field (hstorable : node.Storable) {slot : Slot}
    (hslot : slot ∈ node.slots) : Field.ofText slot.field.text = slot.field :=
  Field.reading.ofText_text (hstorable.field_unknown slot hslot)

theorem field_eq_name_iff (hstorable : node.Storable) {slot : Slot} (hslot : slot ∈ node.slots) :
    slot.field = .known .name ↔ slot.field.text = "name" := by
  constructor
  · intro hfield
    rw [hfield]
    rfl
  · intro htext
    rw [← hstorable.ofText_text_field hslot, htext]
    rfl

/-- A storable node with a child as its name is no type parameter. -/
theorem isTypeParameter_of_single_mem_slots (hstorable : node.Storable) {field : Field}
    {child : Node} (hslot : .single field child ∈ node.slots) (htext : field.text = "name") :
    node.type.isTypeParameter = false := by
  obtain rfl := (field_eq_name_iff hstorable hslot).mpr htext
  rw [← Bool.not_eq_true]
  intro hparameter
  refine hstorable.no_child_of_parameter ?_ child hslot
  simpa [NodeType.isTypeParameter] using hparameter

/-- The name is read back, since no child of a type parameter is taken for the object around a name.
-/
theorem nameText?_document (hstorable : node.Storable) :
    node.document.nameText? node.type = node.name := by
  rw [Json.nameText?, member?_document, lookup_name_headMembers]
  cases hname : node.name with
  | some text => rfl
  | none =>
      rw [Option.map_none, Option.none_or]
      cases hlookup : (node.slots.map Slot.member).lookup "name" with
      | none => rfl
      | some value =>
          obtain ⟨slot, hslot, htext, rfl⟩ := exists_slot_of_lookup hlookup
          cases slot with
          | list field items => rfl
          | single field child =>
              have hparameter := isTypeParameter_of_single_mem_slots hstorable hslot htext
              rw [Slot.document, document_eq]
              simp only [hparameter, Bool.false_eq_true, if_false]

theorem computedFlag_document : node.document.computedFlag = node.computed := by
  rw [Json.computedFlag, member?_document, lookup_computed_headMembers]
  cases hcomputed : node.computed with
  | true => rfl
  | false =>
      rw [if_neg Bool.false_ne_true, Option.none_or]
      cases hlookup : (node.slots.map Slot.member).lookup "computed" with
      | none => rfl
      | some value =>
          obtain ⟨slot, hslot, -, rfl⟩ := exists_slot_of_lookup hlookup
          cases slot with
          | list field items => rfl
          | single field child =>
              rw [Slot.document, document_eq]

theorem mem_headMembers {member : String × Json} :
    member ∈ node.headMembers ↔
      (member = ("type", .string node.type.text) ∨
        member = ("start", .number (Number.ofNat node.span.start)) ∨
        member = ("end", .number (Number.ofNat node.span.stop))) ∨
      (∃ text, node.name = some text ∧ member = ("name", .string text)) ∨
      node.computed = true ∧ member = ("computed", .bool true) := by
  rw [headMembers, List.mem_append, List.mem_append, or_assoc]
  refine or_congr (by simp) (or_congr ?_ ?_)
  · cases node.name <;> simp
  · cases node.computed <;> simp

/-- What is written down of a node apart from its slots are strings, numbers and booleans. -/
theorem not_bearsChildren_of_mem_headMembers {value : Json} {member : String × Json}
    (hmember : member ∈ node.headMembers) : ¬value.BearsChildren member.1 member.2 := by
  intro hbears
  rcases hbears.eq_object_or_eq_array with ⟨members, heq⟩ | ⟨items, heq⟩ <;>
    rcases mem_headMembers.mp hmember with (rfl | rfl | rfl) | ⟨text, -, rfl⟩ | ⟨-, rfl⟩ <;>
    cases heq

theorem wellKeyed_of_mem_headMembers {member : String × Json}
    (hmember : member ∈ node.headMembers) : member.2.WellKeyed := by
  rcases mem_headMembers.mp hmember with (rfl | rfl | rfl) | ⟨text, -, rfl⟩ | ⟨-, rfl⟩ <;>
    constructor

/-- The members for the slots of a storable node are those that hold its children. -/
theorem bearsChildren_document (hstorable : node.Storable) {slot : Slot}
    (hslot : slot ∈ node.slots) : node.document.BearsChildren slot.field.text slot.document := by
  refine ⟨hstorable.not_metadata slot hslot, ?_⟩
  cases slot with
  | single field child =>
      left
      refine ⟨hasType_document child, ?_⟩
      rintro ⟨htext, hparameter⟩
      rw [← Json.isTypeParameter_iff, nodeType_document hstorable,
        isTypeParameter_of_single_mem_slots hstorable hslot htext] at hparameter
      cases hparameter
  | list field items =>
      right
      refine ⟨_, rfl, ?_⟩
      intro value hvalue
      obtain ⟨item, -, rfl⟩ := List.mem_map.mp hvalue
      cases item with
      | none => exact .inl rfl
      | some child => exact .inr (hasType_document child)

theorem filter_members_document (hstorable : node.Storable) :
    (node.document.members.filter fun member => node.document.BearsChildren member.1 member.2) =
      node.slots.map Slot.member := by
  have hhead : (node.headMembers.filter fun member =>
      node.document.BearsChildren member.1 member.2) = [] := by
    rw [List.filter_eq_nil_iff]
    intro member hmember
    simpa using not_bearsChildren_of_mem_headMembers hmember
  have hslots : ((node.slots.map Slot.member).filter fun member =>
      node.document.BearsChildren member.1 member.2) = node.slots.map Slot.member := by
    rw [List.filter_eq_self]
    intro member hmember
    obtain ⟨slot, hslot, rfl⟩ := List.mem_map.mp hmember
    exact decide_eq_true (bearsChildren_document hstorable hslot)
  rw [members_document, List.filter_append, hhead, hslots, List.nil_append]

/-- A slot is read back from what is written down of it, if its children are. -/
theorem slot_document {slot : Slot} (hfield : Field.ofText slot.field.text = slot.field)
    (hchildren : ∀ child ∈ slot.children, child.document.tree = child) :
    slot.document.slot Json.tree (Field.ofText slot.field.text) = slot := by
  rw [hfield]
  cases slot with
  | single field child =>
      have hchild := hchildren child (List.mem_singleton.mpr rfl)
      have hslot : child.document.slot Json.tree field = .single field child.document.tree := by
        rw [document_eq]
        rfl
      rw [Slot.document, Slot.field, hslot, hchild]
  | list field items =>
      rw [Slot.document, Json.slot, List.map_map, Slot.field]
      congr 1
      refine (List.map_congr_left ?_).trans (List.map_id items)
      intro item hitem
      cases item with
      | none => rfl
      | some child =>
          have hchild := hchildren child (by simpa [Slot.children] using hitem)
          simp [isNull_document, hchild]

/-- The slots of a storable node are in the order in which they are visited. Where its type has no
such order, all slots have the same rank. -/
theorem arrange_eq_self (hstorable : node.Storable) : Load.arrange node = node := by
  have hslots : (Load.arrange node).slots = node.slots := by
    rw [Load.slots_arrange fun slot hslot => hstorable.ofText_text_field hslot]
    apply List.mergeSort_of_pairwise
    by_cases hnil : node.type.visitOrder = []
    · apply List.pairwise_of_forall
      intro first second
      rw [NodeType.visitRank, NodeType.visitRank, hnil]
      rfl
    · apply (hstorable.ordered hnil).imp
      intro first second hle
      exact decide_eq_true hle
  obtain ⟨span, type, name, computed, slots⟩ := node
  exact congrArg (Node.mk span type name computed) hslots

theorem nodeWith_document (hstorable : node.Storable) (hstart : node.span.start < UInt64.size)
    (hstop : node.span.stop < UInt64.size)
    (hchildren : ∀ child ∈ node.slots.flatMap Slot.children, child.document.tree = child) :
    node.document.nodeWith Json.tree = node := by
  have hslots : (node.document.nodeWith Json.tree).slots = node.slots := by
    rw [Json.slots_nodeWith, filter_members_document hstorable, List.map_map]
    refine (List.map_congr_left ?_).trans (List.map_id node.slots)
    intro slot hslot
    apply slot_document (hstorable.ofText_text_field hslot)
    intro child hchild
    exact hchildren child (List.mem_flatMap.mpr ⟨slot, hslot, hchild⟩)
  calc node.document.nodeWith Json.tree
      = ⟨node.document.span, node.document.nodeType,
          node.document.nameText? node.document.nodeType, node.document.computedFlag,
          (node.document.nodeWith Json.tree).slots⟩ := rfl
    _ = ⟨node.span, node.type, node.name, node.computed, node.slots⟩ := by
        rw [span_document hstart hstop, nodeType_document hstorable,
          nameText?_document hstorable, computedFlag_document, hslots]
    _ = node := by
        cases node
        rfl

/-- A tree of storable nodes with offsets that can be written is the tree of its document. -/
theorem tree_document {root : Node} (hstorable : ∀ node ∈ root.nodes, node.Storable)
    (hspans : ∀ node ∈ root.nodes,
      node.span.start < UInt64.size ∧ node.span.stop < UInt64.size) :
    root.document.tree = root := by
  induction root using induction_children with
  | node root ih =>
      have hroot := hstorable root (mem_nodes_self root)
      obtain ⟨hstart, hstop⟩ := hspans root (mem_nodes_self root)
      rw [Json.tree_eq, nodeWith_document hroot hstart hstop, arrange_eq_self hroot]
      intro child hchild
      exact ih child hchild
        (fun node hnode => hstorable node (mem_nodes_of_mem_children hchild hnode))
        (fun node hnode => hspans node (mem_nodes_of_mem_children hchild hnode))

/-- A storable node has no slot with the key of one of its other members. -/
theorem key_ne_of_mem_headMembers (hstorable : node.Storable) {member : String × Json} {slot : Slot}
    (hmember : member ∈ node.headMembers) (hslot : slot ∈ node.slots) :
    member.1 ≠ slot.field.text := by
  intro htext
  have hfield := hstorable.ofText_text_field hslot
  rw [← htext] at hfield
  have hmetadata := hstorable.not_metadata slot hslot
  rw [← htext] at hmetadata
  rcases mem_headMembers.mp hmember with hfixed | ⟨text, hname, rfl⟩ | ⟨hcomputed, rfl⟩
  · rcases hfixed with rfl | rfl | rfl <;> exact hmetadata (by simp [Json.metadataKeys])
  · exact hstorable.no_slot_of_name (by simp [hname]) slot hslot hfield.symm
  · exact hstorable.no_slot_of_computed hcomputed slot hslot hfield.symm

theorem nodup_keys_document (hstorable : node.Storable) :
    (node.document.members.map Prod.fst).Nodup := by
  have hhead : (node.headMembers.map Prod.fst).Nodup := by
    rw [headMembers]
    cases node.name <;> cases node.computed <;> simp
  have hslots : ((node.slots.map Slot.field).map Field.text).Nodup := by
    apply List.Nodup.map_on _ hstorable.distinct
    intro field hfield other hother htext
    obtain ⟨slot, hslot, rfl⟩ := List.mem_map.mp hfield
    obtain ⟨next, hnext, rfl⟩ := List.mem_map.mp hother
    rw [← hstorable.ofText_text_field hslot, htext, hstorable.ofText_text_field hnext]
  rw [members_document, List.map_append, List.nodup_append]
  rw [List.map_map] at hslots ⊢
  refine ⟨hhead, hslots, ?_⟩
  intro key hkey other hother
  obtain ⟨member, hmember, rfl⟩ := List.mem_map.mp hkey
  obtain ⟨slot, hslot, rfl⟩ := List.mem_map.mp hother
  exact key_ne_of_mem_headMembers hstorable hmember hslot

theorem wellKeyed_slot_document {slot : Slot}
    (hchildren : ∀ child ∈ slot.children, child.document.WellKeyed) : slot.document.WellKeyed := by
  cases slot with
  | single field child => exact hchildren child (List.mem_singleton.mpr rfl)
  | list field items =>
      rw [Slot.document, Json.wellKeyed_array_iff]
      intro value hvalue
      obtain ⟨item, hitem, rfl⟩ := List.mem_map.mp hvalue
      cases item with
      | none => exact .null
      | some child => exact hchildren child (by simpa [Slot.children] using hitem)

/-- No object in the document of a tree of storable nodes has two members with the same key. -/
theorem wellKeyed_document {root : Node} (hstorable : ∀ node ∈ root.nodes, node.Storable) :
    root.document.WellKeyed := by
  induction root using induction_children with
  | node root ih =>
      have hkeys := nodup_keys_document (hstorable root (mem_nodes_self root))
      rw [members_document] at hkeys
      rw [document_eq, Json.wellKeyed_object_iff]
      refine ⟨hkeys, ?_⟩
      intro member hmember
      rcases List.mem_append.mp hmember with hhead | hwritten
      · exact wellKeyed_of_mem_headMembers hhead
      · obtain ⟨slot, hslot, rfl⟩ := List.mem_map.mp hwritten
        apply wellKeyed_slot_document
        intro child hchild
        have hmem : child ∈ root.slots.flatMap Slot.children :=
          List.mem_flatMap.mpr ⟨slot, hslot, hchild⟩
        exact ih child hmem
          (fun node hnode => hstorable node (mem_nodes_of_mem_children hmem hnode))

/-- A document of nodes alone is loaded if unknown types are kept and its tree is not too high. -/
theorem load_eq_ok_tree {options : LoadOptions} {document : Json} (htype : document.HasType)
    (hkeep : options.unknownTypes = .keep) (hheight : document.tree.height ≤ options.maxDepth) :
    (Node.load options document).result = .ok document.tree := by
  refine load_result_eq_ok_iff_allows.mpr ⟨⟨htype, hheight, ?_⟩, rfl⟩
  intro hreject
  rw [hkeep] at hreject
  cases hreject

/-- A tree of storable nodes is loaded from its document. -/
theorem load_document {options : LoadOptions} {root : Node}
    (hstorable : ∀ node ∈ root.nodes, node.Storable)
    (hspans : ∀ node ∈ root.nodes,
      node.span.start < UInt64.size ∧ node.span.stop < UInt64.size)
    (hkeep : options.unknownTypes = .keep) (hroom : root.height ≤ options.maxDepth) :
    (Node.load options root.document).result = .ok root := by
  have htree := tree_document hstorable hspans
  have hload := load_eq_ok_tree (hasType_document root) hkeep (htree.symm ▸ hroom)
  rwa [htree] at hload

/-- Every node of a loaded tree is storable. -/
theorem storable_of_load_eq_ok {options : LoadOptions} {document : Json} {root : Node}
    (hkeyed : document.WellKeyed) (hload : (Node.load options document).result = .ok root) :
    ∀ node ∈ root.nodes, node.Storable := by
  obtain ⟨-, rfl⟩ := load_result_eq_ok_iff.mp hload
  rw [Json.forall_mem_nodes_tree 0]
  intro item hitem
  exact Json.storable_tree (hkeyed.of_mem_serialized hitem)

/-- The trees that can be loaded are those in which every node is storable. Each of them is loaded
from the document that writes it down, wherever unknown types are kept and its height is allowed. -/
theorem load_image {root : Node} (hheight : root.height < UInt64.size)
    (hspans : ∀ node ∈ root.nodes,
      node.span.start < UInt64.size ∧ node.span.stop < UInt64.size) :
    ((∃ document options, document.WellKeyed ∧ options.maxDepth < UInt64.size ∧
        (Node.load options document).result = .ok root) ↔
      ∀ node ∈ root.nodes, node.Storable) ∧
    ((∀ node ∈ root.nodes, node.Storable) →
      root.document.WellKeyed ∧
        ∀ options, options.unknownTypes = .keep → root.height ≤ options.maxDepth →
          (Node.load options root.document).result = .ok root) := by
  refine ⟨⟨?_, ?_⟩, ?_⟩
  · rintro ⟨document, options, hkeyed, -, hload⟩
    exact storable_of_load_eq_ok hkeyed hload
  · intro hstorable
    exact ⟨root.document, ⟨.keep, root.height⟩, wellKeyed_document hstorable, hheight,
      load_document hstorable hspans rfl (Nat.le_refl _)⟩
  · intro hstorable
    refine ⟨wellKeyed_document hstorable, ?_⟩
    intro options hkeep hroom
    exact load_document hstorable hspans hkeep hroom

/-- The new name of `a as b` in an import. -/
def newName : Node :=
  ⟨⟨14, 15⟩, .known .identifier, some "b", false, []⟩

/-- The old name of `a as b` in an import. -/
def oldName : Node :=
  ⟨⟨9, 10⟩, .known .identifier, some "a", false, []⟩

/-- The import `a as b`, with an empty place in a list that has no known name. -/
def renamedImport : Node :=
  ⟨⟨9, 15⟩, .known .importSpecifier, none, true,
    [.single (.known .localName) newName, .single (.known .imported) oldName,
      .list (.other "hints") [none]]⟩

/-- The import `a as b` with its names in the order in which they are written. -/
def writtenImport : Node :=
  ⟨⟨9, 15⟩, .known .importSpecifier, none, true,
    [.single (.known .imported) oldName, .single (.known .localName) newName]⟩

theorem nodes_renamedImport : renamedImport.nodes = [renamedImport, newName, oldName] := by
  simp [nodes_eq, renamedImport, newName, oldName, Slot.children]

theorem nodes_writtenImport : writtenImport.nodes = [writtenImport, oldName, newName] := by
  simp [nodes_eq, writtenImport, newName, oldName, Slot.children]

theorem storable_renamedImport : renamedImport.Storable := by
  have hunknown : Part.ofText? "hints" = none := by decide
  constructor <;>
    simp [renamedImport, hunknown, Slot.field, Field.text, Part.text, Json.metadataKeys,
      NodeType.visitOrder, Construct.visitOrder, NodeType.visitRank]

theorem not_storable_writtenImport : ¬writtenImport.Storable := by
  intro hstorable
  have hordered := hstorable.ordered (by decide)
  revert hordered
  simp [writtenImport, Slot.field, Field.text, Part.text, NodeType.visitOrder,
    Construct.visitOrder, NodeType.visitRank]

/-- Of an import, only the tree whose names are in the order of visiting is loaded. -/
theorem load_image_renamedImport :
    (∀ node ∈ renamedImport.nodes, node.Storable) ∧
      (Node.load ⟨.keep, 2⟩ renamedImport.document).result = .ok renamedImport ∧
      ¬∃ document options, document.WellKeyed ∧ options.maxDepth < UInt64.size ∧
        (Node.load options document).result = .ok writtenImport := by
  have hstorable : ∀ node ∈ renamedImport.nodes, node.Storable := by
    rw [nodes_renamedImport, List.forall_mem_cons]
    refine ⟨storable_renamedImport, ?_⟩
    simp only [List.forall_mem_cons, List.not_mem_nil, false_imp_iff, implies_true, and_true]
    constructor <;> constructor <;> simp [newName, oldName]
  have hspans : ∀ node ∈ renamedImport.nodes,
      node.span.start < UInt64.size ∧ node.span.stop < UInt64.size := by
    rw [nodes_renamedImport]
    decide
  have hwrittenSpans : ∀ node ∈ writtenImport.nodes,
      node.span.start < UInt64.size ∧ node.span.stop < UInt64.size := by
    rw [nodes_writtenImport]
    decide
  have hheight : renamedImport.height < UInt64.size := by decide
  have hwrittenHeight : writtenImport.height < UInt64.size := by decide
  obtain ⟨-, hload⟩ := load_image hheight hspans
  obtain ⟨hstored, -⟩ := load_image hwrittenHeight hwrittenSpans
  refine ⟨hstorable, (hload hstorable).2 ⟨.keep, 2⟩ rfl (by decide), ?_⟩
  intro hloaded
  exact not_storable_writtenImport (hstored.mp hloaded _ (mem_nodes_self writtenImport))

end Node

end NameRoles
