import NameRoles.Json.Basic
import NameRoles.Json.Fault

/-! Reading number literals. A literal is refused if its value lies beyond the range of a double
precision number. The value that decides this is the product of two rounded factors: the leading
digits that fit into 64 bits, and the power of ten that belongs to them. -/

namespace NameRoles.Json

def digitValue (c : Char) : Nat :=
  c.toNat - '0'.toNat

def digitsValue (digits : List Char) : Nat :=
  digits.foldl (fun value c => 10 * value + digitValue c) 0

/-- The nearest number with at most 53 significant bits; a tie goes to the even neighbour. -/
def roundToDouble (n : Nat) : Nat :=
  let unit := Nat.pow 2 (n.log2 + 1 - 53)
  let quotient := n / unit
  let twice := 2 * (n % unit)
  if twice < unit then quotient * unit
  else if unit < twice then (quotient + 1) * unit
  else (quotient + quotient % 2) * unit

/-- Half a step above the largest double, where rounding first leaves the range. -/
def doubleLimit : Nat :=
  Nat.pow 2 1024 - Nat.pow 2 970

/-- Whether `significand` times ten to the `exponent` leaves the range of a double. -/
def exceedsDouble (significand : Nat) (exponent : Int) : Bool :=
  match exponent with
  | .ofNat power =>
    significand != 0 &&
      (decide (308 < power) ||
        decide (doubleLimit ≤ roundToDouble significand * roundToDouble (Nat.pow 10 power)))
  | .negSucc _ => false

/-- Appends digits to a significand for as long as it fits into 64 bits. The second result is what
did not fit. -/
def absorbDigits (significand : Nat) : List Char → Nat × List Char
  | [] => (significand, [])
  | c :: digits =>
    let extended := 10 * significand + digitValue c
    if extended < UInt64.size then absorbDigits extended digits else (significand, c :: digits)

/-- The significand of a literal and the power of ten that its point and its unused digits give. -/
def scaledSignificand (whole fraction : List Char) : Nat × Int :=
  let (leading, dropped) := absorbDigits 0 whole
  let (significand, unused) := absorbDigits leading fraction
  (significand, (dropped.length : Int) - ((fraction.length - unused.length : Nat) : Int))

/-- The largest exponent that is read digit by digit. -/
def exponentLimit : Nat :=
  2147483647

/-- The text behind the digit that carries an exponent over its limit, if one does. -/
def exponentOverrun (value : Nat) : List Char → Option (List Char)
  | [] => none
  | c :: rest =>
    if c.isDigit then
      let extended := 10 * value + digitValue c
      if exponentLimit < extended then some rest else exponentOverrun extended rest
    else none

/-- Reads a point and the digits behind it. Without a point there is nothing to read. -/
def readFraction : List Char → Except Stop (List Char × List Char)
  | '.' :: rest =>
    let digits := rest.takeWhile Char.isDigit
    let rest := rest.dropWhile Char.isDigit
    if digits.isEmpty then
      .error (.next (if rest.isEmpty then .endInValue else .invalidNumber) rest)
    else .ok (digits, rest)
  | text => .ok ([], text)

/-- Splits off the sign of an exponent. -/
def exponentSign : List Char → Bool × List Char
  | '+' :: rest => (false, rest)
  | '-' :: rest => (true, rest)
  | text => (false, text)

/-- Reads the sign and the digits of an exponent whose mark has been read. -/
def readExponent (significand : Nat) (text : List Char) : Except Stop (Int × List Char) :=
  let (negative, digits) := exponentSign text
  match digits with
  | [] => .error (.behind .endInValue [])
  | c :: rest =>
    if !c.isDigit then .error (.next .invalidNumber (c :: rest))
    else
      match exponentOverrun 0 digits, significand != 0 && !negative with
      | some rest, true => .error (.behind .numberOutOfRange rest)
      | _, _ =>
        let value : Int := digitsValue (digits.takeWhile Char.isDigit)
        .ok (if negative then -value else value, digits.dropWhile Char.isDigit)

/-- Whether a text begins with the mark of an exponent. -/
def startsExponent : List Char → Bool
  | 'e' :: _ => true
  | 'E' :: _ => true
  | _ => false

/-- Reads what follows the sign of a number literal. -/
def readUnsigned (negative : Bool) : List Char → Except Stop (Number × List Char)
  | [] => .error (.behind .endInValue [])
  | c :: rest =>
    if !c.isDigit then .error (.next .invalidNumber (c :: rest))
    else if c == '0' && rest.head?.any Char.isDigit then .error (.next .invalidNumber rest)
    else
      let whole := c :: rest.takeWhile Char.isDigit
      match readFraction (rest.dropWhile Char.isDigit) with
      | .error stop => .error stop
      | .ok (fraction, rest) =>
        let (significand, scale) := scaledSignificand whole fraction
        if startsExponent rest then
          match readExponent significand rest.tail with
          | .error stop => .error stop
          | .ok (exponent, rest) =>
            if exceedsDouble significand (scale + exponent) then
              .error (.behind .numberOutOfRange rest)
            else .ok (⟨negative, digitsValue whole, fraction, some exponent⟩, rest)
        else if exceedsDouble significand scale then .error (.behind .numberOutOfRange rest)
        else .ok (⟨negative, digitsValue whole, fraction, none⟩, rest)

/-- Reads a number literal at the head of a text. -/
def readNumber : List Char → Except Stop (Number × List Char)
  | '-' :: rest => readUnsigned true rest
  | text => readUnsigned false text

theorem length_dropWhile_le (p : Char → Bool) (text : List Char) :
    (text.dropWhile p).length ≤ text.length :=
  (List.dropWhile_sublist p).length_le

theorem length_readFraction_le {text rest digits : List Char}
    (h : readFraction text = .ok (digits, rest)) : rest.length ≤ text.length := by
  unfold readFraction at h
  split at h
  · next tail =>
    dsimp only at h
    split at h
    · cases h
    · cases h
      have := length_dropWhile_le Char.isDigit tail
      simp only [List.length_cons]
      omega
  · cases h
    exact Nat.le_refl _

theorem length_exponentSign_le (text : List Char) : (exponentSign text).2.length ≤ text.length := by
  unfold exponentSign
  split <;> simp

theorem length_readExponent_le {significand : Nat} {text rest : List Char} {exponent : Int}
    (h : readExponent significand text = .ok (exponent, rest)) : rest.length ≤ text.length := by
  have sign := length_exponentSign_le text
  unfold readExponent at h
  split at h
  split at h
  · cases h
  · split at h
    · cases h
    · split at h
      · cases h
      · cases h
        refine Nat.le_trans (length_dropWhile_le _ _) ?_
        simp_all

/-- A number literal takes at least one character. -/
theorem length_readUnsigned_lt {negative : Bool} {text rest : List Char} {number : Number}
    (h : readUnsigned negative text = .ok (number, rest)) : rest.length < text.length := by
  unfold readUnsigned at h
  split at h
  · cases h
  · next c tail =>
    have digits := length_dropWhile_le Char.isDigit tail
    simp only [List.length_cons]
    split at h
    · cases h
    · split at h
      · cases h
      · split at h
        · cases h
        · next fraction afterFraction hfraction =>
          have hle := length_readFraction_le hfraction
          simp only at h
          split at h
          · split at h
            · cases h
            · next hexponent =>
              have := length_readExponent_le hexponent
              split at h
              · cases h
              · cases h
                simp only [List.length_tail] at this
                omega
          · split at h
            · cases h
            · cases h
              omega

theorem length_readNumber_lt {text rest : List Char} {number : Number}
    (h : readNumber text = .ok (number, rest)) : rest.length < text.length := by
  unfold readNumber at h
  split at h
  · have := length_readUnsigned_lt h
    simp only [List.length_cons]
    omega
  · exact length_readUnsigned_lt h

end NameRoles.Json
