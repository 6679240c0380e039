import Mathlib.Data.Set.Function
import NameRoles.Proofs.DepthLimit

/-! Nothing is lost between names and what they stand for. A name that is read is written back as it
was, a value is read back from its name unless it keeps a known name as an unknown one, and no two
values that can be read have the same name. Types and slots of loaded trees can therefore be told
apart by the strings in the documents. -/

namespace NameRoles

/-- The laws of names, some of which are known. `ofText` reads a name and `text` writes it; `known?`
finds what a known name stands for, and `other` keeps any name as an unknown one. -/
structure FaithfulNames {α κ : Type} (ofText : String → α) (text : α → String)
    (known? : String → Option κ) (other : String → α) : Prop where
  text_ofText (name : String) : text (ofText name) = name
  ofText_eq_other_iff (name : String) : ofText name = other name ↔ known? name = none
  ofText_text_iff (value : α) :
    ofText (text value) = value ↔ ¬∃ name, value = other name ∧ (known? name).isSome = true
  injOn_text : Set.InjOn text (Set.range ofText)

/-- Names that are read by a table are faithful. -/
theorem NameTable.Reading.faithfulNames {κ α : Type} {table : NameTable κ}
    (reading : table.Reading α) :
    FaithfulNames reading.ofText reading.text table.find? reading.other where
  text_ofText := reading.text_ofText
  ofText_eq_other_iff name := by
    rw [reading.ofText_eq_other_iff, and_iff_right rfl]
  ofText_text_iff value := by
    constructor
    · rintro hvalue ⟨name, rfl, hknown⟩
      rw [reading.text_other, reading.ofText_eq_other_iff] at hvalue
      rw [hvalue.2] at hknown
      cases hknown
    · intro hvalue
      apply reading.ofText_text
      intro name hname
      rw [← Option.not_isSome_iff_eq_none]
      exact fun hknown => hvalue ⟨name, hname, hknown⟩
  injOn_text := by
    rintro _ ⟨name, rfl⟩ _ ⟨second, rfl⟩ heq
    rw [reading.text_ofText, reading.text_ofText] at heq
    rw [heq]

namespace Json

/-- Whether a serialized node becomes the given node when a document that it is part of is
loaded. -/
def BecomesIn (options : LoadOptions) (document value : Json) (node : Node) : Prop :=
  ∃ root path, (Node.load options document).result = .ok root ∧
    (value, node) ∈ (document.nodesAt path).zip (root.nodesAt path)

theorem BecomesIn.hasType_and_eq_tree {options : LoadOptions} {document value : Json} {node : Node}
    (hbecomes : BecomesIn options document value node) : value.HasType ∧ node = value.tree := by
  obtain ⟨root, path, hload, hmem⟩ := hbecomes
  obtain ⟨⟨htype, -⟩, rfl⟩ := Node.load_result_eq_ok_iff_allows.mp hload
  rw [nodesAt_tree, ← List.map_prod_left_eq_zip, List.mem_map] at hmem
  obtain ⟨found, hfound, heq⟩ := hmem
  cases heq
  exact ⟨hasType_of_mem_nodesAt htype hfound, rfl⟩

/-- The type of a loaded node is one that can be read. -/
theorem type_tree_mem_range (value : Json) : value.tree.type ∈ Set.range NodeType.ofText :=
  ⟨_, (type_tree value).symm⟩

theorem type_tree_eq_iff {value value' : Json} (htype : value.HasType) (htype' : value'.HasType) :
    value.tree.type = value'.tree.type ↔ value.member? "type" = value'.member? "type" := by
  have hinjective : value.tree.type.text = value'.tree.type.text ↔
      value.tree.type = value'.tree.type :=
    NodeType.reading.faithfulNames.injOn_text.eq_iff value.type_tree_mem_range
      value'.type_tree_mem_range
  rw [(describes_tree htype).type, (describes_tree htype').type, ← hinjective]
  simp

/-- A slot that has a name is what the name is read as. -/
theorem field_of_mem_slotsNamed {key : String} {value : Json} {slot : Slot}
    (hslot : slot ∈ value.tree.slotsNamed key) : slot.field = Field.ofText key := by
  obtain ⟨hmem, hkey⟩ := List.mem_filter.mp hslot
  exact (text_field_eq_iff key hmem).mp (of_decide_eq_true hkey)

theorem childMembers_ne_nil {key : String} {value : Json} {slot : Slot}
    (hslot : slot ∈ value.tree.slotsNamed key) : value.childMembers key ≠ [] := by
  intro hempty
  rw [slotsNamed_tree, hempty] at hslot
  cases hslot

end Json

/-- The names of types and of slots are faithful. Of two nodes that are loaded, from whatever
documents, the types are equal if and only if the strings in the documents are. Their slots stand
for members that hold children, and have equal names if and only if the keys are equal. -/
theorem Node.load_faithfulNames :
    FaithfulNames NodeType.ofText NodeType.text Construct.ofText? NodeType.other ∧
    FaithfulNames Field.ofText Field.text Part.ofText? Field.other ∧
    ∀ (options options' : LoadOptions) (document document' value value' : Json)
      (node node' : Node), Json.BecomesIn options document value node →
      Json.BecomesIn options' document' value' node' →
        (node.type = node'.type ↔ value.member? "type" = value'.member? "type") ∧
        ∀ key slot, slot ∈ node.slotsNamed key → value.childMembers key ≠ [] ∧
          ∀ key' slot', slot' ∈ node'.slotsNamed key' →
            (slot.field = slot'.field ↔ key = key') := by
  refine ⟨NodeType.reading.faithfulNames, Field.reading.faithfulNames, ?_⟩
  intro options options' document document' value value' node node' hbecomes hbecomes'
  obtain ⟨htype, rfl⟩ := hbecomes.hasType_and_eq_tree
  obtain ⟨htype', rfl⟩ := hbecomes'.hasType_and_eq_tree
  refine ⟨Json.type_tree_eq_iff htype htype', fun key slot hslot =>
    ⟨Json.childMembers_ne_nil hslot, fun key' slot' hslot' => ?_⟩⟩
  rw [Json.field_of_mem_slotsNamed hslot, Json.field_of_mem_slotsNamed hslot']
  exact Field.ofText_inj

namespace Node

def nameDocument : Json :=
  .object [("type", .string "Identifier")]

/-- A node of an unknown type, with a slot of a known and one of an unknown name. -/
def pairDocument : Json :=
  .object [("type", .string "Pair"), ("left", nameDocument), ("center", nameDocument)]

def pairTree : Node :=
  ((ofType (.other "Pair")).withChild (.known .left) (ofType (.known .identifier))).withChild
    (.other "center") (ofType (.known .identifier))

theorem becomesIn_self {options : LoadOptions} {document : Json} {root : Node}
    (hload : (Node.load options document).result = .ok root) :
    Json.BecomesIn options document document root :=
  ⟨root, [], hload, List.mem_singleton_self _⟩

/-- A known name that is kept as an unknown one is not read back. The types and the slots of the
loaded nodes differ as their names do. -/
theorem load_faithfulNames_pairDocument :
    NodeType.ofText (NodeType.other "Identifier").text ≠ .other "Identifier" ∧
      Json.BecomesIn {} pairDocument pairDocument pairTree ∧
      Json.BecomesIn {} nameDocument nameDocument (ofType (.known .identifier)) ∧
      pairTree.type ≠ (ofType (.known .identifier)).type ∧
      pairDocument.childMembers "left" ≠ [] ∧ Field.known .left ≠ .other "center" := by
  obtain ⟨htypes, -, hloaded⟩ := load_faithfulNames
  have hpair : Json.BecomesIn {} pairDocument pairDocument pairTree :=
    becomesIn_self (by decide +kernel)
  have hname : Json.BecomesIn {} nameDocument nameDocument (ofType (.known .identifier)) :=
    becomesIn_self (by decide +kernel)
  have hleft : Slot.single (.known .left) (ofType (.known .identifier)) ∈
      pairTree.slotsNamed "left" := List.mem_cons_self
  have hcenter : Slot.single (.other "center") (ofType (.known .identifier)) ∈
      pairTree.slotsNamed "center" := List.mem_cons_self
  obtain ⟨htype, -⟩ := hloaded {} {} _ _ _ _ _ _ hpair hname
  obtain ⟨-, hslots⟩ := hloaded {} {} _ _ _ _ _ _ hpair hpair
  obtain ⟨hmembers, hfields⟩ := hslots "left" _ hleft
  refine ⟨?_, hpair, hname, ?_, hmembers, ?_⟩
  · intro hread
    exact (htypes.ofText_text_iff _).mp hread ⟨"Identifier", rfl, by decide +kernel⟩
  · rw [ne_eq, htype]
    simp [pairDocument, nameDocument, Json.member?, Json.members]
  · exact fun heq => absurd ((hfields "center" _ hcenter).mp heq) (by decide)

end Node

end NameRoles
