import Mathlib.Data.List.Nodup
import NameRoles.Tree.Field

/-! Names of types and slots. Both are read from a table of names: a name in the table stands for
its entry, and any other name is kept, so nothing is lost when a name is read. The other way round,
a type or a slot name is read back from its text unless it keeps, as an unknown name, one that
stands in the table. -/

namespace NameRoles

/-- A table of names, in which every entry stands and no two entries have the same name. `find?`
looks an entry up by its name. -/
structure NameTable (κ : Type) where
  all : List κ
  name : κ → String
  find? : String → Option κ
  mem_all (entry : κ) : entry ∈ all
  nodup_names : (all.map name).Nodup
  find?_eq (wanted : String) : find? wanted = all.find? (name · == wanted)

namespace NameTable

variable {κ α : Type} (table : NameTable κ)

theorem name_of_find? {name : String} {entry : κ} (hfound : table.find? name = some entry) :
    table.name entry = name := by
  rw [table.find?_eq] at hfound
  simpa using List.find?_some hfound

/-- Every entry is found by its name. -/
theorem find?_name (entry : κ) : table.find? (table.name entry) = some entry := by
  cases hfound : table.find? (table.name entry) with
  | none =>
      rw [table.find?_eq, List.find?_eq_none] at hfound
      exact absurd (beq_self_eq_true _) (hfound entry (table.mem_all entry))
  | some other =>
      have hname := table.name_of_find? hfound
      rw [List.inj_on_of_nodup_map table.nodup_names (table.mem_all other) (table.mem_all entry)
        hname]

/-- A type whose values are the entries of a table and all names as unknown ones. `ofText` reads a
name, and `text` is the name of a value. -/
structure Reading (α : Type) where
  known : κ → α
  other : String → α
  ofText : String → α
  text : α → String
  ofText_of_some {name : String} {entry : κ} (hfound : table.find? name = some entry) :
    ofText name = known entry
  ofText_of_none {name : String} (hfound : table.find? name = none) : ofText name = other name
  text_known (entry : κ) : text (known entry) = table.name entry
  text_other (name : String) : text (other name) = name
  known_ne_other (entry : κ) (name : String) : known entry ≠ other name
  known_or_other (value : α) : (∃ entry, value = known entry) ∨ ∃ name, value = other name

namespace Reading

variable {table} (reading : table.Reading α)

theorem text_ofText (name : String) : reading.text (reading.ofText name) = name := by
  cases hfound : table.find? name with
  | none => rw [reading.ofText_of_none hfound, reading.text_other]
  | some entry =>
      rw [reading.ofText_of_some hfound, reading.text_known]
      exact table.name_of_find? hfound

theorem ofText_inj {name second : String} :
    reading.ofText name = reading.ofText second ↔ name = second := by
  constructor
  · intro heq
    rw [← reading.text_ofText name, heq, reading.text_ofText]
  · exact congrArg reading.ofText

theorem ofText_eq_other_iff {name second : String} :
    reading.ofText name = reading.other second ↔ name = second ∧ table.find? name = none := by
  constructor
  · intro heq
    have hname : name = second := by
      rw [← reading.text_ofText name, heq, reading.text_other]
    refine ⟨hname, ?_⟩
    cases hfound : table.find? name with
    | none => rfl
    | some entry =>
        rw [reading.ofText_of_some hfound] at heq
        exact absurd heq (reading.known_ne_other entry second)
  · rintro ⟨rfl, hunknown⟩
    exact reading.ofText_of_none hunknown

/-- A value is read back from its name unless it keeps a name of the table as an unknown one. -/
theorem ofText_text {value : α} (hother : ∀ name, value = reading.other name →
    table.find? name = none) : reading.ofText (reading.text value) = value := by
  rcases reading.known_or_other value with ⟨entry, rfl⟩ | ⟨name, rfl⟩
  · rw [reading.text_known]
    exact reading.ofText_of_some (table.find?_name entry)
  · rw [reading.text_other]
    exact reading.ofText_of_none (hother name rfl)

end Reading

end NameTable

def Construct.table : NameTable Construct where
  all := all
  name := text
  find? := ofText?
  mem_all construct := by cases construct <;> decide +kernel
  nodup_names := by decide +kernel
  find?_eq _ := rfl

def Part.table : NameTable Part where
  all := all
  name := text
  find? := ofText?
  mem_all part := by cases part <;> decide +kernel
  nodup_names := by decide +kernel
  find?_eq _ := rfl

/-- Types are read by the names of the constructs. -/
def NodeType.reading : Construct.table.Reading NodeType where
  known := known
  other := other
  ofText := ofText
  text := text
  ofText_of_some {name _} (hfound : Construct.ofText? name = some _) := by rw [ofText, hfound]
  ofText_of_none {name} (hfound : Construct.ofText? name = none) := by rw [ofText, hfound]
  text_known _ := rfl
  text_other _ := rfl
  known_ne_other _ _ := NodeType.noConfusion
  known_or_other type := by cases type <;> simp

/-- Slot names are read by the names of the parts. -/
def Field.reading : Part.table.Reading Field where
  known := known
  other := other
  ofText := ofText
  text := text
  ofText_of_some {name _} (hfound : Part.ofText? name = some _) := by rw [ofText, hfound]
  ofText_of_none {name} (hfound : Part.ofText? name = none) := by rw [ofText, hfound]
  text_known _ := rfl
  text_other _ := rfl
  known_ne_other _ _ := Field.noConfusion
  known_or_other field := by cases field <;> simp

theorem NodeType.text_ofText (name : String) : (ofText name).text = name :=
  reading.text_ofText name

theorem Field.text_ofText (name : String) : (ofText name).text = name :=
  reading.text_ofText name

theorem Field.ofText_inj {name second : String} : ofText name = ofText second ↔ name = second :=
  reading.ofText_inj

end NameRoles
