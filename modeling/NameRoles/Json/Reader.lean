import NameRoles.Json.Numeral
import NameRoles.Json.Quoted

/-! Reading JSON texts. The reader keeps the arrays and objects that are still open in a list of
frames, so that values may nest to any depth. It is strict: blanks are spaces, tabs, line feeds and
carriage returns, and nothing but blanks may follow the value. -/

namespace NameRoles.Json

/-- Whether a character may stand between two tokens. -/
def isBlank (c : Char) : Bool :=
  c == ' ' || c == '\n' || c == '\t' || c == '\r'

/-- Drops the blanks at the head of a text. -/
def skipBlanks (text : List Char) : List Char :=
  text.dropWhile isBlank

theorem length_skipBlanks_le (text : List Char) : (skipBlanks text).length ≤ text.length :=
  length_dropWhile_le isBlank text

def readWord : List Char → List Char → Except Stop (List Char)
  | [], text => .ok text
  | _ :: _, [] => .error (.behind .endInValue [])
  | letter :: word, c :: rest =>
    if c = letter then readWord word rest else .error (.next .expectedWord (c :: rest))

theorem length_readWord_le {word text rest : List Char} (h : readWord word text = .ok rest) :
    rest.length ≤ text.length := by
  fun_induction readWord word text with
  | case1 => cases h; exact Nat.le_refl _
  | case2 => cases h
  | case3 word c tail ih =>
    have := ih h
    simp only [List.length_cons]
    omega
  | case4 => cases h

/-- Reads a string, a number or one of the words `null`, `true` and `false`. -/
def readScalar : List Char → Except Stop (Json × List Char)
  | [] => .error (.next .endInValue [])
  | c :: rest =>
    if c = 'n' then (readWord ['u', 'l', 'l'] rest).map (null, ·)
    else if c = 't' then (readWord ['r', 'u', 'e'] rest).map (bool true, ·)
    else if c = 'f' then (readWord ['a', 'l', 's', 'e'] rest).map (bool false, ·)
    else if c = '"' then (readString [] rest).map fun (value, rest) => (string value, rest)
    else if c = '-' || c.isDigit then
      (readNumber (c :: rest)).map fun (value, rest) => (number value, rest)
    else .error (.next .expectedValue (c :: rest))

private theorem map_eq_ok {α β : Type} {result : Except Stop α} {f : α → β} {b : β}
    (h : result.map f = .ok b) : ∃ a, result = .ok a ∧ f a = b := by
  cases result with
  | error => cases h
  | ok a => exact ⟨a, rfl, by cases h; rfl⟩

/-- A scalar takes at least one character. -/
theorem length_readScalar_lt {text rest : List Char} {value : Json}
    (h : readScalar text = .ok (value, rest)) : rest.length < text.length := by
  unfold readScalar at h
  split at h
  · cases h
  · simp only [List.length_cons]
    split at h
    · obtain ⟨_, hword, heq⟩ := map_eq_ok h
      cases heq
      have := length_readWord_le hword
      omega
    · split at h
      · obtain ⟨_, hword, heq⟩ := map_eq_ok h
        cases heq
        have := length_readWord_le hword
        omega
      · split at h
        · obtain ⟨_, hword, heq⟩ := map_eq_ok h
          cases heq
          have := length_readWord_le hword
          omega
        · split at h
          · obtain ⟨_, hstring, heq⟩ := map_eq_ok h
            cases heq
            have := length_readString_lt hstring
            omega
          · split at h
            · obtain ⟨_, hnumber, heq⟩ := map_eq_ok h
              cases heq
              have := length_readNumber_lt hnumber
              simpa using this
            · cases h

/-- Reads the key of a member and the colon behind it. -/
def readKey : List Char → Except Stop (String × List Char)
  | '"' :: rest =>
    match readString [] rest with
    | .error stop => .error stop
    | .ok (key, rest) =>
      match skipBlanks rest with
      | [] => .error (.next .endInObject [])
      | c :: rest => if c = ':' then .ok (key, rest) else .error (.next .expectedColon (c :: rest))
  | text => .error (.next .keyNotString text)

theorem length_readKey_lt {text rest : List Char} {key : String}
    (h : readKey text = .ok (key, rest)) : rest.length < text.length := by
  unfold readKey at h
  split at h
  · split at h
    · cases h
    · next hstring =>
      have := length_readString_lt hstring
      split at h
      · cases h
      · next afterKey _ _ _ hskip =>
        have := length_skipBlanks_le afterKey
        split at h
        · cases h
          simp only [hskip, List.length_cons] at this ⊢
          omega
        · cases h
  · cases h

/-- An array or object that is still open. Items and members stand last first; `key` belongs to the
member whose value is being read. -/
inductive Frame where
  | list (items : List Json)
  | members (done : List (String × Json)) (key : String)

/-- Adds a member to members that stand last first. A key that occurred before keeps its place and
takes the new value. -/
def putMember (key : String) (value : Json) (members : List (String × Json)) :
    List (String × Json) :=
  if members.any (·.1 == key) then
    members.map fun member => if member.1 == key then (key, value) else member
  else (key, value) :: members

/-- What the reader does next: begin a value, or hand a finished one to the innermost frame. -/
inductive Phase where
  | begin
  | finish (value : Json)

/-- A phase, the open frames with the innermost first, and the text that is left. -/
abbrev State := Phase × List Frame × List Char

/-- Begins a value: reads a scalar, or opens an array or object. -/
def beginValue (frames : List Frame) (text : List Char) : Except Stop State :=
  match skipBlanks text with
  | '[' :: rest =>
    match skipBlanks rest with
    | [] => .error (.next .endInList [])
    | ']' :: rest => .ok (.finish (array []), frames, rest)
    | rest => .ok (.begin, .list [] :: frames, rest)
  | '{' :: rest =>
    match skipBlanks rest with
    | [] => .error (.next .endInObject [])
    | '}' :: rest => .ok (.finish (object []), frames, rest)
    | rest => (readKey rest).map fun (key, rest) => (.begin, .members [] key :: frames, rest)
  | rest => (readScalar rest).map fun (value, rest) => (.finish value, frames, rest)

/-- Goes on behind an item of an array, which either ends or has another item. -/
def continueList (items : List Json) (frames : List Frame) (text : List Char) :
    Except Stop State :=
  match skipBlanks text with
  | [] => .error (.next .endInList [])
  | ']' :: rest => .ok (.finish (array items.reverse), frames, rest)
  | ',' :: rest =>
    match skipBlanks rest with
    | [] => .error (.next .endInValue [])
    | ']' :: rest => .error (.next .trailingComma (']' :: rest))
    | rest => .ok (.begin, .list items :: frames, rest)
  | rest => .error (.next .expectedListSeparator rest)

/-- Goes on behind a member of an object, which either ends or has another member. -/
def continueMembers (members : List (String × Json)) (frames : List Frame) (text : List Char) :
    Except Stop State :=
  match skipBlanks text with
  | [] => .error (.next .endInObject [])
  | '}' :: rest => .ok (.finish (object members.reverse), frames, rest)
  | ',' :: rest =>
    match skipBlanks rest with
    | [] => .error (.next .endInValue [])
    | '}' :: rest => .error (.next .trailingComma ('}' :: rest))
    | rest => (readKey rest).map fun (key, rest) => (.begin, .members members key :: frames, rest)
  | rest => .error (.next .expectedMemberSeparator rest)

/-- Hands a finished value to the innermost frame. -/
def finishValue (value : Json) (frame : Frame) (frames : List Frame) (text : List Char) :
    Except Stop State :=
  match frame with
  | .list items => continueList (value :: items) frames text
  | .members done key => continueMembers (putMember key value done) frames text

/-- Beginning a value takes at least one character. -/
theorem length_beginValue_lt {frames : List Frame} {text : List Char} {state : State}
    (h : beginValue frames text = .ok state) : state.2.2.length < text.length := by
  have blanks := length_skipBlanks_le text
  unfold beginValue at h
  split at h
  · next rest hskip =>
    have := length_skipBlanks_le rest
    simp only [hskip, List.length_cons] at blanks
    split at h
    · cases h
    · next hrest =>
      cases h
      simp only [hrest, List.length_cons] at this
      dsimp only
      omega
    · cases h
      dsimp only
      omega
  · next rest hskip =>
    have := length_skipBlanks_le rest
    simp only [hskip, List.length_cons] at blanks
    split at h
    · cases h
    · next hrest =>
      cases h
      simp only [hrest, List.length_cons] at this
      dsimp only
      omega
    · obtain ⟨⟨_, _⟩, hkey, heq⟩ := map_eq_ok h
      have := length_readKey_lt hkey
      cases heq
      dsimp only
      omega
  · obtain ⟨⟨_, _⟩, hscalar, heq⟩ := map_eq_ok h
    have := length_readScalar_lt hscalar
    cases heq
    dsimp only
    omega

/-- Going on behind a value takes at least one character. -/
theorem length_finishValue_lt {value : Json} {frame : Frame} {frames : List Frame}
    {text : List Char} {state : State} (h : finishValue value frame frames text = .ok state) :
    state.2.2.length < text.length := by
  have blanks := length_skipBlanks_le text
  unfold finishValue at h
  split at h
  · unfold continueList at h
    split at h
    · cases h
    · next hskip =>
      cases h
      simp only [hskip, List.length_cons] at blanks
      dsimp only
      omega
    · next rest hskip =>
      have := length_skipBlanks_le rest
      simp only [hskip, List.length_cons] at blanks
      split at h
      · cases h
      · cases h
      · cases h
        dsimp only
        omega
    · cases h
  · unfold continueMembers at h
    split at h
    · cases h
    · next hskip =>
      cases h
      simp only [hskip, List.length_cons] at blanks
      dsimp only
      omega
    · next rest hskip =>
      have := length_skipBlanks_le rest
      simp only [hskip, List.length_cons] at blanks
      split at h
      · cases h
      · cases h
      · obtain ⟨⟨_, _⟩, hkey, heq⟩ := map_eq_ok h
        have := length_readKey_lt hkey
        cases heq
        dsimp only
        omega
    · cases h

/-- Reads up to the end of the outermost open frame, or one value if none is open. -/
def readFrames (phase : Phase) (frames : List Frame) (text : List Char) :
    Except Stop (Json × List Char) :=
  match phase, frames with
  | .begin, frames =>
    match _h : beginValue frames text with
    | .error stop => .error stop
    | .ok (phase, frames, rest) => readFrames phase frames rest
  | .finish value, [] => .ok (value, text)
  | .finish value, frame :: frames =>
    match _h : finishValue value frame frames text with
    | .error stop => .error stop
    | .ok (phase, frames, rest) => readFrames phase frames rest
termination_by text.length
decreasing_by
  · exact length_beginValue_lt _h
  · exact length_finishValue_lt _h

/-- Reads a text that consists of one value and blanks around it. -/
def readText (text : List Char) : Except Stop Json :=
  match readFrames .begin [] text with
  | .error stop => .error stop
  | .ok (value, rest) =>
    match skipBlanks rest with
    | [] => .ok value
    | rest => .error (.next .trailingCharacters rest)

/-- The value that a JSON text denotes. -/
def parse (text : String) : Except TextError Json :=
  (readText text.toList).mapError (·.locate text.toList)

end NameRoles.Json
