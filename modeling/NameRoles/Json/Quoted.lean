import NameRoles.Json.Fault

/-! Reading quoted strings. A character outside the basic plane may be written as two escapes, a
leading and a trailing surrogate; a surrogate on its own is refused. -/

namespace NameRoles.Json

def hexDigit? (c : Char) : Option Nat :=
  if '0' ≤ c ∧ c ≤ '9' then some (c.toNat - '0'.toNat)
  else if 'a' ≤ c ∧ c ≤ 'f' then some (c.toNat - 'a'.toNat + 10)
  else if 'A' ≤ c ∧ c ≤ 'F' then some (c.toNat - 'A'.toNat + 10)
  else none

def hexValue? (digits : List Char) : Option Nat :=
  digits.foldlM (fun value c => (hexDigit? c).map (16 * value + ·)) 0

/-- Reads the four bytes of an escaped code unit, which have to be hexadecimal digits. -/
def readUnit (text : List Char) : Except Stop (Nat × List Char) :=
  if byteLength (text.take 4) < 4 then .error (.behind .endInString [])
  else
    match hexValue? (text.take 4) with
    | some unit => .ok (unit, text.drop 4)
    | none => .error ⟨.invalidEscape, text, 4⟩

/-- Reads one character of the mark between the two halves of a surrogate pair. -/
def readPairMark (mark : Char) : List Char → Except Stop (List Char)
  | [] => .error (.behind .endInString [])
  | c :: rest => if c = mark then .ok rest else .error (.next .brokenSurrogatePair (c :: rest))

/-- A leading surrogate stands first in a pair. -/
def isLeadingSurrogate (unit : Nat) : Bool :=
  0xD800 ≤ unit && unit ≤ 0xDBFF

/-- A trailing surrogate stands second in a pair. -/
def isTrailingSurrogate (unit : Nat) : Bool :=
  0xDC00 ≤ unit && unit ≤ 0xDFFF

/-- The character that a surrogate pair stands for. -/
def joinSurrogates (leading trailing : Nat) : Char :=
  Char.ofNat (0x10000 + (leading - 0xD800) * 0x400 + (trailing - 0xDC00))

/-- Reads the escape of the second half of a surrogate pair, its mark included. -/
def readTrailing (leading : Nat) (text : List Char) : Except Stop (Char × List Char) := do
  let rest ← readPairMark '\\' text
  let rest ← readPairMark 'u' rest
  let (trailing, rest) ← readUnit rest
  if isTrailingSurrogate trailing then .ok (joinSurrogates leading trailing, rest)
  else .error (.behind .loneSurrogate rest)

/-- Reads an escaped character by its code units, behind `\u`. -/
def readCodePoint (text : List Char) : Except Stop (Char × List Char) := do
  let (unit, rest) ← readUnit text
  if isTrailingSurrogate unit then .error (.behind .loneSurrogate rest)
  else if isLeadingSurrogate unit then readTrailing unit rest
  else .ok (Char.ofNat unit, rest)

/-- The character that a one-letter escape stands for. -/
def shortEscape? : Char → Option Char
  | '"' => some '"'
  | '\\' => some '\\'
  | '/' => some '/'
  | 'b' => some '\x08'
  | 'f' => some '\x0c'
  | 'n' => some '\n'
  | 'r' => some '\r'
  | 't' => some '\t'
  | _ => none

/-- Reads an escaped character, behind the backslash. -/
def readEscape : List Char → Except Stop (Char × List Char)
  | [] => .error (.behind .endInString [])
  | c :: rest =>
    if c = 'u' then readCodePoint rest
    else
      match shortEscape? c with
      | some meant => .ok (meant, rest)
      | none => .error (.next .invalidEscape (c :: rest))

theorem length_readUnit_le {text rest : List Char} {unit : Nat}
    (h : readUnit text = .ok (unit, rest)) : rest.length ≤ text.length := by
  unfold readUnit at h
  split at h
  · cases h
  · split at h
    · cases h
      simp
    · cases h

theorem length_readPairMark_le {mark : Char} {text rest : List Char}
    (h : readPairMark mark text = .ok rest) : rest.length ≤ text.length := by
  unfold readPairMark at h
  split at h
  · cases h
  · split at h
    · cases h
      simp
    · cases h

theorem length_readTrailing_le {leading : Nat} {text rest : List Char} {c : Char}
    (h : readTrailing leading text = .ok (c, rest)) : rest.length ≤ text.length := by
  unfold readTrailing at h
  cases hfirst : readPairMark '\\' text with
  | error stop => simp [hfirst, bind, Except.bind] at h
  | ok first =>
    cases hsecond : readPairMark 'u' first with
    | error stop => simp [hfirst, hsecond, bind, Except.bind] at h
    | ok second =>
      cases hunit : readUnit second with
      | error stop => simp [hfirst, hsecond, hunit, bind, Except.bind] at h
      | ok unit =>
        have := length_readPairMark_le hfirst
        have := length_readPairMark_le hsecond
        have := length_readUnit_le hunit
        simp only [hfirst, hsecond, hunit, bind, Except.bind] at h
        split at h
        · simp only [Except.ok.injEq, Prod.mk.injEq] at h
          rw [← h.2]
          omega
        · cases h

theorem length_readCodePoint_le {text rest : List Char} {c : Char}
    (h : readCodePoint text = .ok (c, rest)) : rest.length ≤ text.length := by
  unfold readCodePoint at h
  cases hunit : readUnit text with
  | error stop => simp [hunit, bind, Except.bind] at h
  | ok unit =>
    have := length_readUnit_le hunit
    simp only [hunit, bind, Except.bind] at h
    split at h
    · cases h
    · split at h
      · have := length_readTrailing_le h
        omega
      · simp only [Except.ok.injEq, Prod.mk.injEq] at h
        rw [← h.2]
        omega

/-- An escape takes at least one character. -/
theorem length_readEscape_lt {text rest : List Char} {c : Char}
    (h : readEscape text = .ok (c, rest)) : rest.length < text.length := by
  unfold readEscape at h
  split at h
  · cases h
  · simp only [List.length_cons]
    split at h
    · have := length_readCodePoint_le h
      omega
    · split at h
      · cases h
        omega
      · cases h

/-- Reads a string behind its opening quote. What has been read stands in `done`, last character
first. -/
def readString (done : List Char) : List Char → Except Stop (String × List Char)
  | [] => .error (.behind .endInString [])
  | c :: rest =>
    if c = '"' then .ok (String.ofList done.reverse, rest)
    else if c = '\\' then
      match _h : readEscape rest with
      | .error stop => .error stop
      | .ok (meant, rest) => readString (meant :: done) rest
    else if c.toNat < 0x20 then .error (.next .controlCharacter (c :: rest))
    else readString (c :: done) rest
termination_by text => text.length
decreasing_by
  · have := length_readEscape_lt _h
    simp only [List.length_cons]
    omega
  · simp

/-- A string takes at least its closing quote. -/
theorem length_readString_lt {done text rest : List Char} {value : String}
    (h : readString done text = .ok (value, rest)) : rest.length < text.length := by
  fun_induction readString done text with
  | case1 => cases h
  | case2 => cases h; simp
  | case3 => cases h
  | case4 done tail c rest' hescape _ ih =>
    have := length_readEscape_lt hescape
    have := ih h
    simp only [List.length_cons]
    omega
  | case5 => cases h
  | case6 done c tail _ _ _ ih =>
    have := ih h
    simp only [List.length_cons]
    omega

end NameRoles.Json
