import NameRoles.Json.Reader
import NameRoles.Proofs.Rendering

/-! Reading strings and numbers. Each way of writing a character within a string is read back as the
character, and the decimal digits of an unsigned 64-bit integer are read back as the integer unless
something follows that belongs to a number. The text may go on behind what is read. -/

namespace NameRoles.Json

section Strings

variable {digits spelling text : List Char} {unit : Nat} {c : Char}

theorem HexDigit.read {digit : Char} {value : Nat} (hdigit : HexDigit digit value) :
    hexDigit? digit = some value ∧ digit.utf8Size = 1 := by
  have hcases : ∀ value < 16,
      (hexDigit? value.digitChar = some value ∧ value.digitChar.utf8Size = 1) ∧
      hexDigit? value.digitChar.toUpper = some value ∧ value.digitChar.toUpper.utf8Size = 1 := by
    decide
  obtain ⟨hlt, rfl | rfl⟩ := hdigit
  · exact (hcases value hlt).1
  · exact (hcases value hlt).2

theorem readUnit_codeUnit (hdigits : CodeUnit digits unit) (rest : List Char) :
    readUnit (digits ++ rest) = .ok (unit, rest) := by
  obtain ⟨ha, hb, hc, hd⟩ := hdigits
  rename_i a b c d w x y z
  have hbytes : byteLength [a, b, c, d] = 4 := by
    simp [byteLength, ha.read.2, hb.read.2, hc.read.2, hd.read.2]
  have hvalue : hexValue? [a, b, c, d] = some (0x1000 * w + 0x100 * x + 0x10 * y + z) := by
    simp only [hexValue?, List.foldlM_cons, List.foldlM_nil, ha.read.1, hb.read.1, hc.read.1,
      hd.read.1, Option.map_some, Option.bind_eq_bind, Option.bind_some, Option.pure_def,
      Option.some.injEq]
    omega
  have htake : ([a, b, c, d] ++ rest).take 4 = [a, b, c, d] := rfl
  rw [readUnit, htake, hbytes, hvalue]
  rfl

theorem toNat_valid (c : Char) : c.toNat < 0xD800 ∨ 0xDFFF < c.toNat ∧ c.toNat < 0x110000 :=
  c.valid

theorem readCodePoint_unit (hdigits : CodeUnit digits c.toNat) (rest : List Char) :
    readCodePoint (digits ++ rest) = .ok (c, rest) := by
  have hvalid := toNat_valid c
  have hleading : isLeadingSurrogate c.toNat = false := by
    simp only [isLeadingSurrogate, Bool.and_eq_false_iff, decide_eq_false_iff_not]
    omega
  have htrailing : isTrailingSurrogate c.toNat = false := by
    simp only [isTrailingSurrogate, Bool.and_eq_false_iff, decide_eq_false_iff_not]
    omega
  rw [readCodePoint, readUnit_codeUnit hdigits]
  show (if isTrailingSurrogate c.toNat = true then _ else _) = _
  rw [htrailing, hleading, if_neg Bool.false_ne_true, if_neg Bool.false_ne_true, Char.ofNat_toNat]

theorem readCodePoint_surrogates {leading trailing : List Char} {first second : Nat}
    (hleading : CodeUnit leading first) (htrailing : CodeUnit trailing second)
    (hfirst : isLeadingSurrogate first = true) (hsecond : isTrailingSurrogate second = true)
    (rest : List Char) :
    readCodePoint (leading ++ '\\' :: 'u' :: (trailing ++ rest)) =
      .ok (joinSurrogates first second, rest) := by
  have hnot : isTrailingSurrogate first = false := by
    simp only [isLeadingSurrogate, Bool.and_eq_true, decide_eq_true_eq] at hfirst
    simp only [isTrailingSurrogate, Bool.and_eq_false_iff, decide_eq_false_iff_not]
    omega
  have hmark (mark : Char) (text : List Char) : readPairMark mark (mark :: text) = .ok text :=
    if_pos rfl
  have hsecondHalf : readTrailing first ('\\' :: 'u' :: (trailing ++ rest)) =
      .ok (joinSurrogates first second, rest) := by
    rw [readTrailing, hmark]
    simp only [bind, Except.bind, hmark, readUnit_codeUnit htrailing, hsecond, if_true]
  rw [readCodePoint, readUnit_codeUnit hleading]
  simp only [bind, Except.bind, hnot, hfirst, hsecondHalf, if_true, Bool.false_eq_true, if_false]

/-- The two halves of a character beyond the basic plane. -/
theorem readCodePoint_pair {leading trailing : List Char} (hplane : 0x10000 ≤ c.toNat)
    (hleading : CodeUnit leading (0xD800 + (c.toNat - 0x10000) / 0x400))
    (htrailing : CodeUnit trailing (0xDC00 + (c.toNat - 0x10000) % 0x400)) (rest : List Char) :
    readCodePoint (leading ++ '\\' :: 'u' :: (trailing ++ rest)) = .ok (c, rest) := by
  have hvalid := toNat_valid c
  rw [readCodePoint_surrogates hleading htrailing]
  · have hcode : 0x10000 + (0xD800 + (c.toNat - 0x10000) / 0x400 - 0xD800) * 0x400 +
        (0xDC00 + (c.toNat - 0x10000) % 0x400 - 0xDC00) = c.toNat := by
      omega
    rw [joinSurrogates, hcode, Char.ofNat_toNat]
  · simp only [isLeadingSurrogate, Bool.and_eq_true, decide_eq_true_eq]
    omega
  · simp only [isTrailingSurrogate, Bool.and_eq_true, decide_eq_true_eq]
    omega

theorem readEscape_letter {letter : Char} (hletter : (letter, c) ∈ letterEscapes)
    (rest : List Char) : readEscape (letter :: rest) = .ok (c, rest) := by
  have hcases : ∀ escape ∈ letterEscapes,
      escape.1 ≠ 'u' ∧ shortEscape? escape.1 = some escape.2 := by
    decide
  obtain ⟨hne, hshort⟩ := hcases _ hletter
  rw [readEscape, if_neg hne, hshort]

theorem readEscape_codePoint {rest : List Char} (hpoint : readCodePoint text = .ok (c, rest)) :
    readEscape ('u' :: text) = .ok (c, rest) := by
  rw [readEscape, if_pos rfl, hpoint]

theorem readString_escape {escape rest : List Char} (hescape : readEscape escape = .ok (c, rest))
    (done : List Char) : readString done ('\\' :: escape) = readString (c :: done) rest := by
  rw [readString, if_neg (by decide), if_pos rfl]
  split
  · rename_i herror
    rw [hescape] at herror
    cases herror
  · rename_i hok
    rw [hescape] at hok
    cases hok
    rfl

/-- Every way of writing a character stands for the character. -/
theorem readString_spells (hspells : Spells spelling c) (done rest : List Char) :
    readString done (spelling ++ rest) = readString (c :: done) rest := by
  cases hspells with
  | plain hquote hbackslash hcontrol =>
      rw [List.singleton_append, readString, if_neg hquote, if_neg hbackslash,
        if_neg (Nat.not_lt.mpr hcontrol)]
  | letter hletter => exact readString_escape (readEscape_letter hletter rest) done
  | unit hdigits =>
      exact readString_escape (readEscape_codePoint (readCodePoint_unit hdigits rest)) done
  | pair hplane hleading htrailing =>
      have hpoint := readCodePoint_pair hplane hleading htrailing rest
      rw [List.append_assoc]
      exact readString_escape (readEscape_codePoint hpoint) done

theorem readString_spellsOut {value : List Char} (hspells : SpellsOut text value)
    (done rest : List Char) :
    readString done (text ++ '"' :: rest) = .ok (String.ofList (done.reverse ++ value), rest) := by
  induction hspells generalizing done with
  | nil => rw [List.nil_append, readString, if_pos rfl, List.append_nil]
  | cons hfirst _ ih =>
      rw [List.append_assoc, readString_spells hfirst, ih, List.reverse_cons, List.append_assoc,
        List.singleton_append]

/-- A quoted string is read back, whatever follows it. -/
theorem readString_quotes {value : String} (hquotes : Quotes text value) (rest : List Char) :
    ∃ inside, text = '"' :: inside ∧ readString [] (inside ++ rest) = .ok (value, rest) := by
  obtain ⟨hvalue⟩ := hquotes
  refine ⟨_, List.cons_append, ?_⟩
  rw [List.append_assoc, List.singleton_append, readString_spellsOut hvalue, List.reverse_nil,
    List.nil_append, String.ofList_toList]

end Strings

section Numbers

/-- Whether a text does not go on with anything that belongs to a number before it. -/
def EndsNumeral (rest : List Char) : Prop :=
  ∀ c ∈ rest.head?, c.isDigit = false ∧ c ≠ '.' ∧ c ≠ 'e' ∧ c ≠ 'E'

theorem digitsValue_toDigits (n : Nat) : digitsValue (Nat.toDigits 10 n) = n :=
  Nat.ofDigitChars_ten_toDigits

theorem ne_of_isDigit {c other : Char} (hdigit : c.isDigit = true)
    (hother : other.isDigit = false) : c ≠ other := by
  rintro rfl
  exact Bool.false_ne_true (hother.symm.trans hdigit)

theorem exists_toDigits_eq_cons (n : Nat) : ∃ c digits, Nat.toDigits 10 n = c :: digits ∧
    c.isDigit = true ∧ ∀ d ∈ digits, d.isDigit = true := by
  obtain ⟨c, digits, htext⟩ := List.exists_cons_of_ne_nil (Nat.toDigits_ne_nil (b := 10) (n := n))
  have hdigits : ∀ d ∈ c :: digits, d.isDigit = true := fun d hd =>
    Nat.isDigit_of_mem_toDigits (by decide) (by decide) (htext ▸ hd)
  exact ⟨c, digits, htext, List.forall_mem_cons.mp hdigits⟩

theorem head_toDigits_ne {n : Nat} (hpos : 0 < n) : (Nat.toDigits 10 n).head? ≠ some '0' := by
  induction n using Nat.strongRecOn with
  | ind n ih =>
      rw [Nat.toDigits_eq_if (by decide)]
      split
      · intro hzero
        have hdigit := Option.some.inj hzero
        rw [Nat.digitChar_eq_zero] at hdigit
        omega
      · rw [List.head?_append, Option.or_of_isSome (by simp [Nat.toDigits_ne_nil])]
        exact ih (n / 10) (by omega) (by omega)

/-- A leading zero is the only digit. -/
theorem eq_nil_of_leadingZero {n : Nat} {digits : List Char}
    (htext : Nat.toDigits 10 n = '0' :: digits) : digits = [] := by
  rcases Nat.eq_zero_or_pos n with rfl | hpos
  · exact (List.cons.inj htext).2.symm
  · exact absurd (by rw [htext, List.head?_cons]) (head_toDigits_ne hpos)

theorem takeWhile_isDigit {digits rest : List Char} (hdigits : ∀ c ∈ digits, c.isDigit = true)
    (hrest : EndsNumeral rest) : (digits ++ rest).takeWhile Char.isDigit = digits := by
  rw [List.takeWhile_append_of_pos hdigits]
  cases rest with
  | nil => simp
  | cons c rest => simp [(hrest c rfl).1]

theorem dropWhile_isDigit {digits rest : List Char} (hdigits : ∀ c ∈ digits, c.isDigit = true)
    (hrest : EndsNumeral rest) : (digits ++ rest).dropWhile Char.isDigit = rest := by
  rw [List.dropWhile_append_of_pos hdigits]
  cases rest with
  | nil => rfl
  | cons c rest => simp [(hrest c rfl).1]

theorem readFraction_of_endsNumeral {rest : List Char} (hrest : EndsNumeral rest) :
    readFraction rest = .ok ([], rest) := by
  cases rest with
  | nil => rfl
  | cons c rest =>
      obtain ⟨-, hpoint, -, -⟩ := hrest c rfl
      rw [readFraction]
      simpa using hpoint

theorem startsExponent_of_endsNumeral {rest : List Char} (hrest : EndsNumeral rest) :
    startsExponent rest = false := by
  cases rest with
  | nil => rfl
  | cons c rest =>
      obtain ⟨-, -, hlower, hupper⟩ := hrest c rfl
      simp [startsExponent, hlower, hupper]

theorem le_foldl_digitValue (digits : List Char) (value : Nat) :
    value ≤ digits.foldl (fun value c => 10 * value + digitValue c) value := by
  induction digits generalizing value with
  | nil => exact Nat.le_refl _
  | cons c digits ih =>
      have hle := ih (10 * value + digitValue c)
      rw [List.foldl_cons]
      omega

/-- All digits of a number that fits into 64 bits are used. -/
theorem absorbDigits_eq {digits : List Char} {value : Nat}
    (hsize : digits.foldl (fun value c => 10 * value + digitValue c) value < UInt64.size) :
    absorbDigits value digits =
      (digits.foldl (fun value c => 10 * value + digitValue c) value, []) := by
  induction digits generalizing value with
  | nil => rfl
  | cons c digits ih =>
      rw [List.foldl_cons] at hsize ⊢
      have hle := le_foldl_digitValue digits (10 * value + digitValue c)
      have hextended : 10 * value + digitValue c < UInt64.size := Nat.lt_of_le_of_lt hle hsize
      simp only [absorbDigits, if_pos hextended]
      exact ih hsize

theorem scaledSignificand_whole {digits : List Char} (hsize : digitsValue digits < UInt64.size) :
    scaledSignificand digits [] = (digitsValue digits, 0) := by
  have hall : absorbDigits 0 digits = (digitsValue digits, []) := absorbDigits_eq hsize
  simp [scaledSignificand, hall, absorbDigits]

/-- Rounding to a double at most doubles a number: it goes up by one unit at most, and the unit is
no larger than the leading bit. -/
theorem roundToDouble_le (n : Nat) : roundToDouble n ≤ 2 * n + 1 := by
  have hunit : Nat.pow 2 (n.log2 + 1 - 53) ≤ n + 1 := by
    rcases Nat.eq_zero_or_pos n with rfl | hpos
    · decide
    · calc Nat.pow 2 (n.log2 + 1 - 53) ≤ 2 ^ n.log2 := Nat.pow_le_pow_right (by decide) (by omega)
        _ ≤ n := Nat.log2_self_le (by omega)
        _ ≤ n + 1 := Nat.le_succ n
  unfold roundToDouble
  generalize Nat.pow 2 (n.log2 + 1 - 53) = unit at hunit ⊢
  have hquotient : n / unit * unit ≤ n := Nat.div_mul_le_self n unit
  have hparity : n / unit % 2 * unit ≤ unit := by
    calc n / unit % 2 * unit ≤ 1 * unit := Nat.mul_le_mul_right unit (by omega)
      _ = unit := Nat.one_mul unit
  dsimp only
  split
  · omega
  · split
    · rw [Nat.succ_mul]
      omega
    · rw [Nat.add_mul]
      omega

theorem exceedsDouble_eq_false {n : Nat} (hsize : n < UInt64.size) :
    exceedsDouble n 0 = false := by
  have hround := roundToDouble_le n
  have hone : roundToDouble (Nat.pow 10 0) = 1 := by decide +kernel
  have hlimit : 2 * UInt64.size + 1 < doubleLimit := by decide +kernel
  show (n != 0 && (decide (308 < 0) ||
    decide (doubleLimit ≤ roundToDouble n * roundToDouble (Nat.pow 10 0)))) = false
  rw [hone, Nat.mul_one, decide_eq_false (by omega : ¬ doubleLimit ≤ roundToDouble n)]
  simp

/-- The decimal digits of an unsigned 64-bit integer are read as that integer. -/
theorem readNumber_toDigits {n : Nat} {rest : List Char} (hsize : n < UInt64.size)
    (hrest : EndsNumeral rest) :
    readNumber (Nat.toDigits 10 n ++ rest) = .ok (.ofNat n, rest) := by
  have hvalue := digitsValue_toDigits n
  obtain ⟨c, digits, htext, hdigit, htail⟩ := exists_toDigits_eq_cons n
  rw [htext] at hvalue ⊢
  have hsign : c ≠ '-' := ne_of_isDigit hdigit rfl
  have hlead : (c == '0' && (digits ++ rest).head?.any Char.isDigit) = false := by
    by_cases hzero : c = '0'
    · obtain rfl := eq_nil_of_leadingZero (hzero ▸ htext)
      cases rest with
      | nil => simp
      | cons d rest => simp [(hrest d rfl).1]
    · simp [hzero]
  have hwhole : readNumber (c :: digits ++ rest) = readUnsigned false (c :: (digits ++ rest)) := by
    simp [readNumber, hsign]
  have hscaled : scaledSignificand (c :: digits) [] = (n, 0) := by
    rw [scaledSignificand_whole (hvalue ▸ hsize), hvalue]
  rw [hwhole, readUnsigned, if_neg (by simp [hdigit]),
    if_neg (ne_true_of_eq_false hlead)]
  simp only [takeWhile_isDigit htail hrest, dropWhile_isDigit htail hrest,
    readFraction_of_endsNumeral hrest, startsExponent_of_endsNumeral hrest, hscaled,
    exceedsDouble_eq_false hsize, hvalue, Bool.false_eq_true, if_false]
  rfl

end Numbers

end NameRoles.Json
