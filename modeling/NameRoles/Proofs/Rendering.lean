import NameRoles.Json.Writer

/-! How values are written as texts. Blanks may stand around every value and every key; a character
of a string may stand for itself or be escaped, by a letter, by its code unit, or by a pair of
surrogates, with hexadecimal digits in either case; an unsigned 64-bit integer is written by its
decimal digits; items and members stand in order. A value has many texts, one of which is written
for it, and nothing here depends on how a text is read. -/

namespace NameRoles.Json

/-- The characters that may stand between two tokens. -/
def whitespace : List Char :=
  [' ', '\t', '\n', '\r']

theorem forall_whitespace_iff {p : Char → Prop} :
    (∀ c ∈ whitespace, p c) ↔ p ' ' ∧ p '\t' ∧ p '\n' ∧ p '\r' := by
  simp [whitespace]

def Blanks (text : List Char) : Prop :=
  ∀ c ∈ text, c ∈ whitespace

instance (text : List Char) : Decidable (Blanks text) :=
  List.decidableBAll (· ∈ whitespace) text

/-- A hexadecimal digit in lower or upper case, and its value. -/
def HexDigit (digit : Char) (value : Nat) : Prop :=
  value < 16 ∧ (digit = value.digitChar ∨ digit = value.digitChar.toUpper)

instance (digit : Char) (value : Nat) : Decidable (HexDigit digit value) :=
  inferInstanceAs (Decidable (_ ∧ _))

/-- The four hexadecimal digits of a code unit. -/
inductive CodeUnit : List Char → Nat → Prop
  | digits {a b c d : Char} {w x y z : Nat} (ha : HexDigit a w) (hb : HexDigit b x)
      (hc : HexDigit c y) (hd : HexDigit d z) :
      CodeUnit [a, b, c, d] (0x1000 * w + 0x100 * x + 0x10 * y + z)

/-- The letters that escape a character, each with the character. -/
def letterEscapes : List (Char × Char) :=
  [('"', '"'), ('\\', '\\'), ('/', '/'), ('b', '\x08'), ('f', '\x0c'), ('n', '\n'), ('r', '\r'),
    ('t', '\t')]

/-- A text that stands for a character within a string. -/
inductive Spells : List Char → Char → Prop
  | plain {c : Char} (hquote : c ≠ '"') (hbackslash : c ≠ '\\') (hcontrol : 0x20 ≤ c.toNat) :
      Spells [c] c
  | letter {letter c : Char} (hletter : (letter, c) ∈ letterEscapes) : Spells ['\\', letter] c
  | unit {digits : List Char} {c : Char} (hdigits : CodeUnit digits c.toNat) :
      Spells ('\\' :: 'u' :: digits) c
  | pair {leading trailing : List Char} {c : Char} (hplane : 0x10000 ≤ c.toNat)
      (hleading : CodeUnit leading (0xD800 + (c.toNat - 0x10000) / 0x400))
      (htrailing : CodeUnit trailing (0xDC00 + (c.toNat - 0x10000) % 0x400)) :
      Spells ('\\' :: 'u' :: leading ++ '\\' :: 'u' :: trailing) c

/-- A text that stands for characters, one after the other. -/
inductive SpellsOut : List Char → List Char → Prop
  | nil : SpellsOut [] []
  | cons {spelling text : List Char} {c : Char} {rest : List Char} (hfirst : Spells spelling c)
      (hrest : SpellsOut text rest) : SpellsOut (spelling ++ text) (c :: rest)

theorem spellsOut_self {chars : List Char}
    (hplain : chars.all (fun c => c != '"' && c != '\\' && decide (0x20 ≤ c.toNat)) = true) :
    SpellsOut chars chars := by
  induction chars with
  | nil => exact .nil
  | cons c chars ih =>
      simp only [List.all_cons, Bool.and_eq_true, bne_iff_ne, decide_eq_true_eq] at hplain
      obtain ⟨⟨⟨hquote, hbackslash⟩, hcontrol⟩, hrest⟩ := hplain
      exact .cons (.plain hquote hbackslash hcontrol) (ih hrest)

/-- A string in quotes. -/
inductive Quotes : List Char → String → Prop
  | mk {text : List Char} {value : String} (hvalue : SpellsOut text value.toList) :
      Quotes ('"' :: text ++ ['"']) value

section Layout

variable {α : Type} (Writes : List Char → α → Prop)

/-- A text with blanks around it. -/
inductive Padded : List Char → α → Prop
  | mk {before text after : List Char} {value : α} (hbefore : Blanks before)
      (hvalue : Writes text value) (hafter : Blanks after) :
      Padded (before ++ text ++ after) value

/-- A key and a value with a colon between them. -/
inductive Keyed : List Char → String × α → Prop
  | mk {keyText text : List Char} {key : String} {value : α} (hkey : Padded Quotes keyText key)
      (hvalue : Padded Writes text value) : Keyed (keyText ++ ':' :: text) (key, value)

/-- One or more texts with commas between them. -/
inductive Separated : List Char → List α → Prop
  | last {text : List Char} {value : α} (hvalue : Writes text value) : Separated text [value]
  | next {text rest : List Char} {value : α} {values : List α} (hvalue : Writes text value)
      (hrest : Separated rest values) : Separated (text ++ ',' :: rest) (value :: values)

end Layout

/-- A text that stands for a value, without blanks around it. -/
inductive Renders : List Char → Json → Prop
  | null : Renders ['n', 'u', 'l', 'l'] .null
  | true : Renders ['t', 'r', 'u', 'e'] (.bool true)
  | false : Renders ['f', 'a', 'l', 's', 'e'] (.bool false)
  | number {n : Nat} (hsize : n < UInt64.size) :
      Renders (Nat.toDigits 10 n) (.number (.ofNat n))
  | string {text : List Char} {value : String} (hvalue : Quotes text value) :
      Renders text (.string value)
  | emptyArray {blanks : List Char} (hblanks : Blanks blanks) :
      Renders ('[' :: blanks ++ [']']) (.array [])
  | array {text : List Char} {items : List Json} (hitems : Separated (Padded Renders) text items) :
      Renders ('[' :: text ++ [']']) (.array items)
  | emptyObject {blanks : List Char} (hblanks : Blanks blanks) :
      Renders ('{' :: blanks ++ ['}']) (.object [])
  | object {text : List Char} {members : List (String × Json)}
      (hmembers : Separated (Keyed Renders) text members) :
      Renders ('{' :: text ++ ['}']) (.object members)

/-- Whether every number in a value is an unsigned 64-bit integer. -/
inductive Integral : Json → Prop
  | null : Integral .null
  | bool (value : Bool) : Integral (.bool value)
  | number {n : Nat} (hsize : n < UInt64.size) : Integral (.number (.ofNat n))
  | string (value : String) : Integral (.string value)
  | array {items : List Json} (hitems : ∀ item ∈ items, Integral item) : Integral (.array items)
  | object {members : List (String × Json)} (hmembers : ∀ member ∈ members, Integral member.2) :
      Integral (.object members)

section Writing

theorem codeUnit_control {n : Nat} (hcontrol : n < 0x20) :
    CodeUnit (List.replicate (4 - (Nat.toDigits 16 n).length) '0' ++ Nat.toDigits 16 n) n := by
  have hdigits : ∀ n < 0x20, List.replicate (4 - (Nat.toDigits 16 n).length) '0' ++
      Nat.toDigits 16 n = ['0', '0', (n / 16).digitChar, (n % 16).digitChar] := by
    decide
  have hvalue : 0x1000 * 0 + 0x100 * 0 + 0x10 * (n / 16) + n % 16 = n := by omega
  have hunit : CodeUnit ['0', '0', (n / 16).digitChar, (n % 16).digitChar]
      (0x1000 * 0 + 0x100 * 0 + 0x10 * (n / 16) + n % 16) :=
    .digits ⟨by decide, .inl rfl⟩ ⟨by decide, .inl rfl⟩ ⟨by omega, .inl rfl⟩ ⟨by omega, .inl rfl⟩
  rwa [hvalue, ← hdigits n hcontrol] at hunit

theorem toList_escapeCode (c : Char) : (escapeCode c).toList = '\\' :: 'u' ::
    (List.replicate (4 - (Nat.toDigits 16 c.toNat).length) '0' ++ Nat.toDigits 16 c.toNat) := by
  simp [escapeCode]

theorem spells_escapeChar (c : Char) : Spells (escapeChar c).toList c := by
  unfold escapeChar
  split
  · subst c; exact .letter (by decide)
  split
  · subst c; exact .letter (by decide)
  split
  · subst c; exact .letter (by decide)
  split
  · subst c; exact .letter (by decide)
  split
  · subst c; exact .letter (by decide)
  split
  · next hcontrol =>
      rw [toList_escapeCode]
      exact .unit (codeUnit_control hcontrol)
  · next hquote hbackslash _ _ _ hcontrol =>
      rw [show c.toString.toList = [c] by simp]
      exact .plain hquote hbackslash (by omega)

theorem exists_spellsOut (chars : List Char) :
    ∃ text, SpellsOut text chars ∧ ∀ written : String,
      (chars.foldl (fun written c => written ++ escapeChar c) written).toList =
        written.toList ++ text := by
  induction chars with
  | nil => exact ⟨[], .nil, fun written => (List.append_nil _).symm⟩
  | cons c chars ih =>
      obtain ⟨text, hspells, happends⟩ := ih
      refine ⟨_, .cons (spells_escapeChar c) hspells, fun written => ?_⟩
      rw [List.foldl_cons, happends, String.toList_append, List.append_assoc]

theorem exists_quotes (value : String) :
    ∃ text, Quotes text value ∧
      ∀ written, (writeString written value).toList = written.toList ++ text := by
  obtain ⟨text, hspells, happends⟩ := exists_spellsOut value.toList
  refine ⟨_, .mk hspells, fun written => ?_⟩
  simp only [writeString, String.toList_push, happends, List.append_assoc, List.cons_append,
    List.nil_append]

theorem padded_self {α : Type} {Writes : List Char → α → Prop} {text : List Char} {value : α}
    (hvalue : Writes text value) : Padded Writes text value := by
  have hnil : Blanks [] := fun c hc => absurd hc List.not_mem_nil
  have hpadded := Padded.mk hnil hvalue hnil
  rwa [List.nil_append, List.append_nil] at hpadded

/-- Values that are written with a comma before each but the first are separated. -/
theorem exists_separated {α : Type} {Writes : List Char → α → Prop} {append : String → α → String}
    {value : α} {values : List α}
    (hwrites : ∀ v ∈ value :: values, ∃ text, Writes text v ∧
      ∀ written, (append written v).toList = written.toList ++ text) :
    ∃ text, Separated Writes text (value :: values) ∧ ∀ written,
      (values.foldl (fun written v => append (written.push ',') v)
        (append written value)).toList = written.toList ++ text := by
  induction values generalizing value with
  | nil =>
      obtain ⟨text, hvalue, happends⟩ := hwrites value List.mem_cons_self
      exact ⟨text, .last hvalue, happends⟩
  | cons next values ih =>
      obtain ⟨text, hvalue, happends⟩ := hwrites value List.mem_cons_self
      obtain ⟨rest, hrest, hfollows⟩ := ih fun v hv => hwrites v (List.mem_cons_of_mem value hv)
      refine ⟨_, .next hvalue hrest, fun written => ?_⟩
      rw [List.foldl_cons, hfollows, String.toList_push, happends, List.append_assoc,
        List.append_assoc, List.singleton_append]

theorem writeItems_eq_foldl (written : String) (items : List Json) :
    writeItems written items =
      items.foldl (fun written item => write (written.push ',') item) written := by
  induction items generalizing written with
  | nil => rw [writeItems, List.foldl_nil]
  | cons item items ih => rw [writeItems, ih, List.foldl_cons]

/-- Appends a key and its value. -/
def writeMember (written : String) (member : String × Json) : String :=
  write ((writeString written member.1).push ':') member.2

theorem writeMembers_eq_foldl (written : String) (members : List (String × Json)) :
    writeMembers written members =
      members.foldl (fun written member => writeMember (written.push ',') member) written := by
  induction members generalizing written with
  | nil => rw [writeMembers, List.foldl_nil]
  | cons member members ih => rw [writeMembers, ih, List.foldl_cons, writeMember]

theorem exists_keyed {member : String × Json}
    (hvalue : ∃ text, Renders text member.2 ∧
      ∀ written, (write written member.2).toList = written.toList ++ text) :
    ∃ text, Keyed Renders text member ∧
      ∀ written, (writeMember written member).toList = written.toList ++ text := by
  obtain ⟨text, hrenders, happends⟩ := hvalue
  obtain ⟨keyText, hquotes, hkey⟩ := exists_quotes member.1
  refine ⟨_, .mk (padded_self hquotes) (padded_self hrenders), fun written => ?_⟩
  rw [writeMember, happends, String.toList_push, hkey, List.append_assoc, List.append_assoc,
    List.singleton_append]

theorem toList_numeral_ofNat (n : Nat) : (numeral (.ofNat n)).toList = Nat.toDigits 10 n := by
  simp [numeral, Number.ofNat]

theorem exists_renders {value : Json} (hintegral : value.Integral) :
    ∃ text, Renders text value ∧
      ∀ written, (write written value).toList = written.toList ++ text := by
  induction hintegral with
  | null => exact ⟨_, .null, fun written => by rw [write, String.toList_append]; rfl⟩
  | bool value =>
      cases value with
      | true => exact ⟨_, .true, fun written => by rw [write, String.toList_append]; rfl⟩
      | false => exact ⟨_, .false, fun written => by rw [write, String.toList_append]; rfl⟩
  | number hsize =>
      refine ⟨_, .number hsize, fun written => ?_⟩
      rw [write, String.toList_append, toList_numeral_ofNat]
  | string value =>
      obtain ⟨text, hquotes, happends⟩ := exists_quotes value
      exact ⟨text, .string hquotes, fun written => by rw [write, happends]⟩
  | array hitems ih =>
      rename_i items
      cases items with
      | nil =>
          refine ⟨_, .emptyArray fun c hc => absurd hc List.not_mem_nil, fun written => ?_⟩
          rw [write, String.toList_append]
          rfl
      | cons item items =>
          have hpadded : ∀ entry ∈ item :: items, ∃ text, Padded Renders text entry ∧
              ∀ written, (write written entry).toList = written.toList ++ text := by
            intro entry hentry
            obtain ⟨text, hrenders, happends⟩ := ih entry hentry
            exact ⟨text, padded_self hrenders, happends⟩
          obtain ⟨text, hseparated, happends⟩ := exists_separated hpadded
          refine ⟨_, .array hseparated, fun written => ?_⟩
          rw [write, writeItems_eq_foldl, String.toList_push, happends, String.toList_push]
          simp
  | object hmembers ih =>
      rename_i members
      cases members with
      | nil =>
          refine ⟨_, .emptyObject fun c hc => absurd hc List.not_mem_nil, fun written => ?_⟩
          rw [write, String.toList_append]
          rfl
      | cons member members =>
          obtain ⟨text, hseparated, happends⟩ :=
            exists_separated fun member hmember => exists_keyed (ih member hmember)
          refine ⟨_, .object hseparated, fun written => ?_⟩
          have hwrite : write written (.object (member :: members)) =
            (members.foldl (fun written member => writeMember (written.push ',') member)
              (writeMember (written.push '{') member)).push '}' := by
            rw [write, writeMembers_eq_foldl, writeMember]
          rw [hwrite, String.toList_push, happends, String.toList_push]
          simp

/-- What is written for a value is a text of it. -/
theorem renders_render {value : Json} (hintegral : value.Integral) :
    Renders value.render.toList value := by
  obtain ⟨text, hrenders, happends⟩ := exists_renders hintegral
  rw [render, happends ""]
  exact hrenders

end Writing

end NameRoles.Json
