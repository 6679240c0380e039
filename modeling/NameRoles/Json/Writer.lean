import NameRoles.Json.Basic

/-! Writing JSON values as texts without blanks. Every function appends to the text that has been
written before. -/

namespace NameRoles.Json

/-- The escape of a control character by its code. -/
def escapeCode (c : Char) : String :=
  let digits := Nat.toDigits 16 c.toNat
  "\\u" ++ String.ofList (List.replicate (4 - digits.length) '0' ++ digits)

/-- A character as it stands in a quoted string. -/
def escapeChar (c : Char) : String :=
  if c = '"' then "\\\""
  else if c = '\\' then "\\\\"
  else if c = '\n' then "\\n"
  else if c = '\r' then "\\r"
  else if c = '\t' then "\\t"
  else if c.toNat < 0x20 then escapeCode c
  else c.toString

/-- Appends a quoted string. -/
def writeString (written value : String) : String :=
  (value.toList.foldl (fun written c => written ++ escapeChar c) (written.push '"')).push '"'

def numeral (number : Number) : String :=
  let sign := if number.negative then "-" else ""
  let point := if number.fraction.isEmpty then "" else "." ++ String.ofList number.fraction
  let mark := match number.exponent with
    | some exponent => "e" ++ toString exponent
    | none => ""
  sign ++ toString number.whole ++ point ++ mark

mutual

def write (written : String) : Json → String
  | null => written ++ "null"
  | bool true => written ++ "true"
  | bool false => written ++ "false"
  | number value => written ++ numeral value
  | string value => writeString written value
  | array [] => written ++ "[]"
  | array (item :: items) => (writeItems (write (written.push '[') item) items).push ']'
  | object [] => written ++ "\x7b\x7d"
  | object ((key, value) :: members) =>
    let key := (writeString (written.push '\x7b') key).push ':'
    (writeMembers (write key value) members).push '\x7d'

/-- Appends further items of an array. -/
def writeItems (written : String) : List Json → String
  | [] => written
  | item :: items => writeItems (write (written.push ',') item) items

/-- Appends further members of an object. -/
def writeMembers (written : String) : List (String × Json) → String
  | [] => written
  | (key, value) :: members =>
    writeMembers (write ((writeString (written.push ',') key).push ':') value) members

end

def render (value : Json) : String :=
  write "" value

end NameRoles.Json
