/-! The ways in which a text can fail to be JSON, and where it fails. A position counts lines from
one and bytes within the line; it stands behind the last byte that was looked at. -/

namespace NameRoles.Json

/-- Why reading a JSON text stopped. -/
inductive Fault where
  | endInValue
  | endInList
  | endInObject
  | endInString
  | expectedWord
  | expectedValue
  | expectedColon
  | expectedListSeparator
  | expectedMemberSeparator
  | trailingComma
  | keyNotString
  | invalidNumber
  | numberOutOfRange
  | controlCharacter
  | invalidEscape
  | loneSurrogate
  | brokenSurrogatePair
  | trailingCharacters
deriving DecidableEq

def Fault.message : Fault → String
  | endInValue => "EOF while parsing a value"
  | endInList => "EOF while parsing a list"
  | endInObject => "EOF while parsing an object"
  | endInString => "EOF while parsing a string"
  | expectedWord => "expected ident"
  | expectedValue => "expected value"
  | expectedColon => "expected `:`"
  | expectedListSeparator => "expected `,` or `]`"
  | expectedMemberSeparator => "expected `,` or `\x7d`"
  | trailingComma => "trailing comma"
  | keyNotString => "key must be a string"
  | invalidNumber => "invalid number"
  | numberOutOfRange => "number out of range"
  | controlCharacter => "control character (\\u0000-\\u001F) found while parsing a string"
  | invalidEscape => "invalid escape"
  | loneSurrogate => "lone leading surrogate in hex escape"
  | brokenSurrogatePair => "unexpected end of hex escape"
  | trailingCharacters => "trailing characters"

/-- Where reading stopped and why: the text that was not read, and how many of its bytes the fault
covers. -/
structure Stop where
  fault : Fault
  rest : List Char
  covered : Nat

/-- A fault behind everything that was read. -/
def Stop.behind (fault : Fault) (rest : List Char) : Stop :=
  ⟨fault, rest, 0⟩

/-- A fault of the next byte. At the end of the text there is none to cover. -/
def Stop.next (fault : Fault) (rest : List Char) : Stop :=
  ⟨fault, rest, if rest.isEmpty then 0 else 1⟩

structure Position where
  line : Nat
  column : Nat
deriving DecidableEq

/-- Moves a position over the given number of bytes of a text. -/
def Position.advance (position : Position) : List Char → Nat → Position
  | _, 0 => position
  | [], _ => position
  | c :: rest, bytes =>
    if c = '\n' then advance ⟨position.line + 1, 0⟩ rest (bytes - 1)
    else
      advance ⟨position.line, position.column + min bytes c.utf8Size⟩ rest (bytes - c.utf8Size)

/-- The number of bytes of a text in UTF-8. -/
def byteLength (text : List Char) : Nat :=
  text.foldl (fun bytes c => bytes + c.utf8Size) 0

structure TextError where
  fault : Fault
  position : Position
deriving DecidableEq

/-- The place of a fault within the whole text. -/
def Stop.locate (stop : Stop) (text : List Char) : TextError :=
  let offset := byteLength text - byteLength stop.rest + stop.covered
  ⟨stop.fault, Position.advance ⟨1, 0⟩ text offset⟩

def TextError.message (error : TextError) : String :=
  s!"{error.fault.message} at line {error.position.line} column {error.position.column}"

end NameRoles.Json
