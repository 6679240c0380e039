/-! JSON values. Objects keep their members in the order in which they are written, because the
order of the members of a serialized syntax tree is the order of its children. -/

namespace NameRoles

/-- A number literal by its parts. Integers written without a point and without an exponent are
the only numbers that name an offset, so the form of the literal is kept beside its digits. -/
structure Number where
  negative : Bool
  whole : Nat
  /-- The digits after the point; empty if there is no point. -/
  fraction : List Char
  exponent : Option Int
deriving DecidableEq, Inhabited

/-- The number literal that consists of the digits of `n` alone. -/
def Number.ofNat (n : Nat) : Number :=
  ⟨false, n, [], none⟩

/-- The value of a literal without sign, point and exponent. -/
def Number.natural? (number : Number) : Option Nat :=
  if !number.negative && number.fraction.isEmpty && number.exponent.isNone then
    some number.whole
  else
    none

inductive Json where
  | null
  | bool (value : Bool)
  | number (value : Number)
  | string (value : String)
  | array (items : List Json)
  | object (members : List (String × Json))
deriving Inhabited

namespace Json

/-- The members of an object; none for any other value. -/
def members : Json → List (String × Json)
  | object members => members
  | _ => []

/-- The value of the first member with the given key. -/
def member? (key : String) (value : Json) : Option Json :=
  value.members.lookup key

def text? : Json → Option String
  | string value => some value
  | _ => none

/-- The value of an integer literal without sign. -/
def natural? : Json → Option Nat
  | number value => value.natural?
  | _ => none

mutual

/-- The number of values in a value, itself included. -/
def size : Json → Nat
  | array items => sizeItems items + 1
  | object members => sizeMembers members + 1
  | _ => 1

def sizeItems : List Json → Nat
  | [] => 0
  | item :: items => item.size + sizeItems items

def sizeMembers : List (String × Json) → Nat
  | [] => 0
  | (_, value) :: members => value.size + sizeMembers members

end

end Json

end NameRoles
