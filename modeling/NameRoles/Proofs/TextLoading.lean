import Mathlib.Data.List.DropRight
import NameRoles.Document.Load
import NameRoles.Proofs.KeyPaths
import NameRoles.Proofs.ScalarTexts

/-! Loading a text is loading the value that it stands for. The reader never looks behind what it
has read, apart from the end of a number, so each value is read back within any open frames and
before any text, however deep it nests. Behind the whole value only blanks may follow. -/

namespace NameRoles.Json

section Blanks

variable {blanks : List Char} {c : Char}

theorem isBlank_iff : isBlank c = true ↔ c ∈ whitespace := by
  simp only [isBlank, whitespace, Bool.or_eq_true, beq_iff_eq, List.mem_cons, List.not_mem_nil]
  tauto

theorem skipBlanks_append (hblanks : Blanks blanks) (text : List Char) :
    skipBlanks (blanks ++ text) = skipBlanks text :=
  List.dropWhile_append_of_pos fun c hc => isBlank_iff.mpr (hblanks c hc)

theorem skipBlanks_blanks (hblanks : Blanks blanks) : skipBlanks blanks = [] := by
  have hskip := skipBlanks_append hblanks []
  rwa [List.append_nil] at hskip

theorem skipBlanks_cons (hc : c ∉ whitespace) (rest : List Char) :
    skipBlanks (c :: rest) = c :: rest :=
  List.dropWhile_cons_of_neg fun hblank => hc (isBlank_iff.mp hblank)

theorem skipBlanks_skipBlanks (text : List Char) : skipBlanks (skipBlanks text) = skipBlanks text :=
  List.dropWhile_idempotent isBlank text

theorem skipBlanks_ne_nil {text : List Char} (hmem : c ∈ text) (hc : c ∉ whitespace) :
    skipBlanks text ≠ [] := by
  intro hnil
  exact hc (isBlank_iff.mp (List.dropWhile_eq_nil_iff.mp hnil c hmem))

end Blanks

section Steps

variable {frames : List Frame} {text rest : List Char} {value : Json} {key next : String} {c : Char}
  {done : List (String × Json)} {items : List Json}

theorem readFrames_begin (frames : List Frame) (text : List Char) :
    readFrames .begin frames text =
      (beginValue frames text).bind fun (phase, frames, rest) => readFrames phase frames rest := by
  rw [readFrames]
  split
  · next herror => rw [herror]; rfl
  · next hok => rw [hok]; rfl

theorem readFrames_finish (value : Json) (frame : Frame) (frames : List Frame) (text : List Char) :
    readFrames (.finish value) (frame :: frames) text =
      (finishValue value frame frames text).bind fun (phase, frames, rest) =>
        readFrames phase frames rest := by
  rw [readFrames]
  split
  · next herror => rw [herror]; rfl
  · next hok => rw [hok]; rfl

/-- Only what stands behind the blanks at the head of a text matters to a value that begins. -/
theorem readFrames_begin_congr {other : List Char} (hskip : skipBlanks text = skipBlanks other) :
    readFrames .begin frames text = readFrames .begin frames other := by
  rw [readFrames_begin, readFrames_begin, beginValue, hskip, beginValue]

/-- Blanks behind a value are skipped while a frame is open. -/
theorem readFrames_finish_append {blanks : List Char} {frame : Frame} (hblanks : Blanks blanks) :
    readFrames (.finish value) (frame :: frames) (blanks ++ text) =
      readFrames (.finish value) (frame :: frames) text := by
  rw [readFrames_finish, readFrames_finish]
  cases frame with
  | list items => simp only [finishValue, continueList, skipBlanks_append hblanks]
  | members done key => simp only [finishValue, continueMembers, skipBlanks_append hblanks]

theorem readFrames_scalar (hblank : c ∉ whitespace) (hlist : c ≠ '[') (hobject : c ≠ '{')
    (hread : readScalar (c :: text) = .ok (value, rest)) :
    readFrames .begin frames (c :: text) = readFrames (.finish value) frames rest := by
  have hbegin : beginValue frames (c :: text) = .ok (.finish value, frames, rest) := by
    rw [beginValue, skipBlanks_cons hblank]
    simp [hlist, hobject, hread, Except.map]
  rw [readFrames_begin, hbegin]
  rfl

theorem readFrames_emptyList {blanks : List Char} (hblanks : Blanks blanks) :
    readFrames .begin frames ('[' :: blanks ++ ']' :: rest) =
      readFrames (.finish (.array [])) frames rest := by
  have hskip : skipBlanks (blanks ++ ']' :: rest) = ']' :: rest := by
    rw [skipBlanks_append hblanks, skipBlanks_cons (by decide)]
  have hbegin : beginValue frames ('[' :: (blanks ++ ']' :: rest)) =
      .ok (.finish (.array []), frames, rest) := by
    simp [beginValue, skipBlanks_cons (c := '[') (by decide), hskip]
  rw [List.cons_append, readFrames_begin, hbegin]
  rfl

theorem readFrames_openList (hskip : skipBlanks text = c :: rest) (hclose : c ≠ ']') :
    readFrames .begin frames ('[' :: text) = readFrames .begin (.list [] :: frames) text := by
  have hbegin : beginValue frames ('[' :: text) = .ok (.begin, .list [] :: frames, c :: rest) := by
    simp [beginValue, skipBlanks_cons (c := '[') (by decide), hskip, hclose]
  rw [readFrames_begin, hbegin]
  exact readFrames_begin_congr (by rw [← hskip, skipBlanks_skipBlanks])

theorem readFrames_nextItem (hskip : skipBlanks text = c :: rest) (hclose : c ≠ ']') :
    readFrames (.finish value) (.list items :: frames) (',' :: text) =
      readFrames .begin (.list (value :: items) :: frames) text := by
  have hnext : continueList (value :: items) frames (',' :: text) =
      .ok (.begin, .list (value :: items) :: frames, c :: rest) := by
    simp [continueList, skipBlanks_cons (c := ',') (by decide), hskip, hclose]
  rw [readFrames_finish, finishValue, hnext]
  exact readFrames_begin_congr (by rw [← hskip, skipBlanks_skipBlanks])

theorem readFrames_closeList :
    readFrames (.finish value) (.list items :: frames) (']' :: rest) =
      readFrames (.finish (.array (value :: items).reverse)) frames rest := by
  rw [readFrames_finish, finishValue, continueList, skipBlanks_cons (by decide)]
  rfl

theorem readFrames_emptyObject {blanks : List Char} (hblanks : Blanks blanks) :
    readFrames .begin frames ('{' :: blanks ++ '}' :: rest) =
      readFrames (.finish (.object [])) frames rest := by
  have hskip : skipBlanks (blanks ++ '}' :: rest) = '}' :: rest := by
    rw [skipBlanks_append hblanks, skipBlanks_cons (by decide)]
  have hbegin : beginValue frames ('{' :: (blanks ++ '}' :: rest)) =
      .ok (.finish (.object []), frames, rest) := by
    simp [beginValue, skipBlanks_cons (c := '{') (by decide), hskip]
  rw [List.cons_append, readFrames_begin, hbegin]
  rfl

theorem exists_quote_of_readKey (hkey : readKey text = .ok (key, rest)) :
    ∃ inside, text = '"' :: inside := by
  unfold readKey at hkey
  split at hkey
  · exact ⟨_, rfl⟩
  · cases hkey

theorem readFrames_openObject (hkey : readKey (skipBlanks text) = .ok (key, rest)) :
    readFrames .begin frames ('{' :: text) =
      readFrames .begin (.members [] key :: frames) rest := by
  obtain ⟨inside, hskip⟩ := exists_quote_of_readKey hkey
  rw [hskip] at hkey
  have hbegin : beginValue frames ('{' :: text) =
      .ok (.begin, .members [] key :: frames, rest) := by
    simp [beginValue, skipBlanks_cons (c := '{') (by decide), hskip, hkey, Except.map]
  rw [readFrames_begin, hbegin]
  rfl

theorem readFrames_nextMember (hkey : readKey (skipBlanks text) = .ok (next, rest)) :
    readFrames (.finish value) (.members done key :: frames) (',' :: text) =
      readFrames .begin (.members (putMember key value done) next :: frames) rest := by
  obtain ⟨inside, hskip⟩ := exists_quote_of_readKey hkey
  rw [hskip] at hkey
  have hnext : continueMembers (putMember key value done) frames (',' :: text) =
      .ok (.begin, .members (putMember key value done) next :: frames, rest) := by
    simp [continueMembers, skipBlanks_cons (c := ',') (by decide), hskip, hkey, Except.map]
  rw [readFrames_finish, finishValue, hnext]
  rfl

theorem readFrames_closeObject :
    readFrames (.finish value) (.members done key :: frames) ('}' :: rest) =
      readFrames (.finish (.object (putMember key value done).reverse)) frames rest := by
  rw [readFrames_finish, finishValue, continueMembers, skipBlanks_cons (by decide)]
  rfl

end Steps

section Scalars

variable {text : List Char} {value : Json} {c : Char}

theorem readWord_append (word rest : List Char) : readWord word (word ++ rest) = .ok rest := by
  induction word with
  | nil => rfl
  | cons letter word ih =>
      rw [List.cons_append, readWord, if_pos rfl]
      exact ih

theorem readScalar_null (rest : List Char) :
    readScalar ('n' :: (['u', 'l', 'l'] ++ rest)) = .ok (.null, rest) := by
  rw [readScalar, if_pos rfl, readWord_append]
  rfl

theorem readScalar_true (rest : List Char) :
    readScalar ('t' :: (['r', 'u', 'e'] ++ rest)) = .ok (.bool true, rest) := by
  rw [readScalar, if_neg (by decide), if_pos rfl, readWord_append]
  rfl

theorem readScalar_false (rest : List Char) :
    readScalar ('f' :: (['a', 'l', 's', 'e'] ++ rest)) = .ok (.bool false, rest) := by
  rw [readScalar, if_neg (by decide), if_neg (by decide), if_pos rfl, readWord_append]
  rfl

theorem readScalar_string {inside rest : List Char} {string : String}
    (hread : readString [] inside = .ok (string, rest)) :
    readScalar ('"' :: inside) = .ok (.string string, rest) := by
  rw [readScalar, if_neg (by decide), if_neg (by decide), if_neg (by decide), if_pos rfl, hread]
  rfl

theorem not_mem_whitespace_of_isDigit (hdigit : c.isDigit = true) : c ∉ whitespace := by
  have hblanks : ∀ blank ∈ whitespace, blank.isDigit = false :=
    forall_whitespace_iff.mpr (by decide)
  exact fun hmem => ne_of_isDigit hdigit (hblanks c hmem) rfl

theorem readScalar_number {rest : List Char} {number : Number} (hdigit : c.isDigit = true)
    (hread : readNumber (c :: text) = .ok (number, rest)) :
    readScalar (c :: text) = .ok (.number number, rest) := by
  rw [readScalar, if_neg (ne_of_isDigit hdigit rfl), if_neg (ne_of_isDigit hdigit rfl),
    if_neg (ne_of_isDigit hdigit rfl), if_neg (ne_of_isDigit hdigit rfl), if_pos (by simp [hdigit]),
    hread]
  rfl

/-- The first character of a value is no blank and does not close an array. -/
theorem exists_first (htext : Renders text value) :
    ∃ c rest, text = c :: rest ∧ c ∉ whitespace ∧ c ≠ ']' := by
  cases htext with
  | number hsize =>
      rename_i n
      obtain ⟨c, digits, htext, hdigit, -⟩ := exists_toDigits_eq_cons n
      exact ⟨c, digits, htext, not_mem_whitespace_of_isDigit hdigit, ne_of_isDigit hdigit rfl⟩
  | string hvalue =>
      obtain ⟨inside, rfl, -⟩ := readString_quotes hvalue []
      exact ⟨'"', inside, rfl, by decide, by decide⟩
  | _ => exact ⟨_, _, rfl, by decide, by decide⟩

end Scalars

section Containers

variable {text rest : List Char} {value : Json} {frames : List Frame}

/-- Whether every text of a value is read back, whatever frames are open and whatever follows. A
number must not go on. -/
def ReadsBack (value : Json) : Prop :=
  ∀ text, Renders text value →
    ∀ frames rest, (∀ number, value = .number number → EndsNumeral rest) →
      readFrames .begin frames (text ++ rest) = readFrames (.finish value) frames rest

theorem endsNumeral_cons {c : Char} (hc : c.isDigit = false ∧ c ≠ '.' ∧ c ≠ 'e' ∧ c ≠ 'E')
    (rest : List Char) : EndsNumeral (c :: rest) := by
  intro first hfirst
  obtain rfl := Option.some.inj hfirst
  exact hc

theorem EndsNumeral.append {blanks : List Char} (hblanks : Blanks blanks)
    (hrest : EndsNumeral rest) : EndsNumeral (blanks ++ rest) := by
  cases blanks with
  | nil => exact hrest
  | cons blank blanks =>
      have hwhitespace : ∀ c ∈ whitespace, c.isDigit = false ∧ c ≠ '.' ∧ c ≠ 'e' ∧ c ≠ 'E' :=
        forall_whitespace_iff.mpr (by decide)
      exact endsNumeral_cons (hwhitespace blank (hblanks blank List.mem_cons_self)) _

/-- A value with blanks around it is read up to the blanks behind it. -/
theorem ReadsBack.padded (hreads : ReadsBack value) (htext : Padded Renders text value)
    (hrest : ∀ number, value = .number number → EndsNumeral rest) (frames : List Frame) :
    ∃ after, Blanks after ∧
      readFrames .begin frames (text ++ rest) =
        readFrames (.finish value) frames (after ++ rest) := by
  obtain ⟨hbefore, hvalue, hafter⟩ := htext
  rename_i before text after
  refine ⟨after, hafter, ?_⟩
  calc readFrames .begin frames (before ++ text ++ after ++ rest)
      = readFrames .begin frames (text ++ (after ++ rest)) := by
        apply readFrames_begin_congr
        rw [List.append_assoc, List.append_assoc, skipBlanks_append hbefore]
    _ = readFrames (.finish value) frames (after ++ rest) :=
        hreads text hvalue _ _ fun number hnumber => (hrest number hnumber).append hafter

/-- Within a frame the blanks behind a value are read with it. -/
theorem ReadsBack.framed {frame : Frame} (hreads : ReadsBack value)
    (htext : Padded Renders text value) (hrest : EndsNumeral rest) :
    readFrames .begin (frame :: frames) (text ++ rest) =
      readFrames (.finish value) (frame :: frames) rest := by
  obtain ⟨after, hafter, hread⟩ := hreads.padded htext (fun _ _ => hrest) (frame :: frames)
  rw [hread, readFrames_finish_append hafter]

theorem skipBlanks_padded (htext : Padded Renders text value) (rest : List Char) :
    ∃ c tail, skipBlanks (text ++ rest) = c :: tail ∧ c ≠ ']' := by
  obtain ⟨hbefore, hvalue, -⟩ := htext
  obtain ⟨c, tail, rfl, hblank, hclose⟩ := exists_first hvalue
  rw [List.append_assoc, List.append_assoc, skipBlanks_append hbefore, List.cons_append,
    skipBlanks_cons hblank]
  exact ⟨c, _, rfl, hclose⟩

theorem skipBlanks_items {items : List Json} (htext : Separated (Padded Renders) text items)
    (rest : List Char) : ∃ c tail, skipBlanks (text ++ rest) = c :: tail ∧ c ≠ ']' := by
  cases htext with
  | last hvalue => exact skipBlanks_padded hvalue rest
  | next hvalue hrest =>
      rw [List.append_assoc]
      exact skipBlanks_padded hvalue _

/-- The items of an array are read one after the other. -/
theorem readFrames_items {items : List Json} (htext : Separated (Padded Renders) text items)
    (hreads : ∀ item ∈ items, ReadsBack item) (done : List Json) :
    readFrames .begin (.list done :: frames) (text ++ ']' :: rest) =
      readFrames (.finish (.array (done.reverse ++ items))) frames rest := by
  induction htext generalizing done with
  | last hvalue =>
      rw [(hreads _ List.mem_cons_self).framed hvalue (endsNumeral_cons (by decide) _),
        readFrames_closeList, List.reverse_cons]
  | next hvalue htext ih =>
      obtain ⟨c, tail, hskip, hclose⟩ := skipBlanks_items htext (']' :: rest)
      rw [List.append_assoc, List.cons_append,
        (hreads _ List.mem_cons_self).framed hvalue (endsNumeral_cons (by decide) _),
        readFrames_nextItem hskip hclose,
        ih (fun item hitem => hreads item (List.mem_cons_of_mem _ hitem)), List.reverse_cons,
        List.append_assoc, List.singleton_append]

theorem readKey_keyed {key : String} (htext : Keyed Renders text (key, value)) (rest : List Char) :
    ∃ valueText, Padded Renders valueText value ∧
      readKey (skipBlanks (text ++ rest)) = .ok (key, valueText ++ rest) := by
  obtain ⟨⟨hbefore, hquotes, hafter⟩, hvalue⟩ := htext
  rename_i valueText before quoted after
  obtain ⟨inside, rfl, hread⟩ := readString_quotes hquotes (after ++ ':' :: (valueText ++ rest))
  refine ⟨valueText, hvalue, ?_⟩
  have hskip : skipBlanks (before ++ '"' :: inside ++ after ++ ':' :: valueText ++ rest) =
      '"' :: (inside ++ (after ++ ':' :: (valueText ++ rest))) := by
    simp only [List.append_assoc, List.cons_append, skipBlanks_append hbefore]
    exact skipBlanks_cons (by decide) _
  rw [hskip, readKey, hread]
  dsimp only
  rw [skipBlanks_append hafter, skipBlanks_cons (by decide)]
  rfl

/-- A member whose key has not occurred stands behind all others. -/
theorem putMember_of_nodup {member : String × Json} {done members : List (String × Json)}
    (hkeys : ((done.reverse ++ member :: members).map Prod.fst).Nodup) :
    putMember member.1 member.2 done = member :: done := by
  rw [List.map_append, List.map_cons, List.nodup_append] at hkeys
  obtain ⟨-, -, hfresh⟩ := hkeys
  have hany : done.any (·.1 == member.1) = false := by
    rw [List.any_eq_false]
    intro earlier hearlier heq
    have hmem : earlier.1 ∈ done.reverse.map Prod.fst :=
      List.mem_map_of_mem (List.mem_reverse.mpr hearlier)
    exact hfresh _ hmem _ List.mem_cons_self (eq_of_beq heq)
  rw [putMember, hany]
  rfl

/-- The members of an object are read one after the other. The keys of those read before and of
those still to come are distinct throughout, so every member is new. -/
theorem readFrames_members {members : List (String × Json)}
    (htext : Separated (Keyed Renders) text members)
    (hreads : ∀ member ∈ members, ReadsBack member.2) (done : List (String × Json))
    (hkeys : ((done.reverse ++ members).map Prod.fst).Nodup) :
    ∃ key valueText, readKey (skipBlanks (text ++ '}' :: rest)) = .ok (key, valueText) ∧
      readFrames .begin (.members done key :: frames) valueText =
        readFrames (.finish (.object (done.reverse ++ members))) frames rest := by
  induction htext generalizing done with
  | last hvalue =>
      rename_i text member
      obtain ⟨valueText, hpadded, hkey⟩ := readKey_keyed hvalue ('}' :: rest)
      refine ⟨_, _, hkey, ?_⟩
      rw [(hreads _ List.mem_cons_self).framed hpadded (endsNumeral_cons (by decide) _),
        readFrames_closeObject, putMember_of_nodup hkeys, List.reverse_cons]
  | next hvalue htext ih =>
      rename_i text following member members
      obtain ⟨valueText, hpadded, hkey⟩ :=
        readKey_keyed hvalue (',' :: (following ++ '}' :: rest))
      have htotal : (((member :: done).reverse ++ members).map Prod.fst).Nodup := by
        rwa [List.reverse_cons, List.append_assoc, List.singleton_append]
      obtain ⟨next, nextText, hnext, hrun⟩ :=
        ih (fun other hother => hreads other (List.mem_cons_of_mem _ hother)) (member :: done)
          htotal
      refine ⟨_, _, by rw [List.append_assoc, List.cons_append]; exact hkey, ?_⟩
      rw [(hreads _ List.mem_cons_self).framed hpadded (endsNumeral_cons (by decide) _),
        readFrames_nextMember hnext, putMember_of_nodup hkeys, hrun, List.reverse_cons,
        List.append_assoc, List.singleton_append]

/-- Every text of a value whose objects have distinct keys is read back, however deep it nests. -/
theorem readsBack_of_wellKeyed (hkeyed : value.WellKeyed) : ReadsBack value := by
  induction hkeyed with
  | null =>
      rintro text ⟨⟩ frames rest -
      exact readFrames_scalar (by decide) (by decide) (by decide) (readScalar_null rest)
  | bool value =>
      rintro text (_ | _) frames rest -
      · exact readFrames_scalar (by decide) (by decide) (by decide) (readScalar_true rest)
      · exact readFrames_scalar (by decide) (by decide) (by decide) (readScalar_false rest)
  | number value =>
      intro text htext frames rest hends
      cases htext with
      | number hsize =>
          rename_i n
          have hread := readNumber_toDigits hsize (hends _ rfl)
          obtain ⟨c, digits, htext, hdigit, -⟩ := exists_toDigits_eq_cons n
          rw [htext] at hread ⊢
          exact readFrames_scalar (not_mem_whitespace_of_isDigit hdigit) (ne_of_isDigit hdigit rfl)
            (ne_of_isDigit hdigit rfl) (readScalar_number hdigit hread)
  | string value =>
      intro text htext frames rest _
      cases htext with
      | string hvalue =>
          obtain ⟨inside, rfl, hread⟩ := readString_quotes hvalue rest
          exact readFrames_scalar (by decide) (by decide) (by decide) (readScalar_string hread)
  | array hitems ih =>
      intro text htext frames rest _
      cases htext with
      | emptyArray hblanks =>
          rw [List.append_assoc]
          exact readFrames_emptyList hblanks
      | array htext =>
          obtain ⟨c, tail, hskip, hclose⟩ := skipBlanks_items htext (']' :: rest)
          rw [List.append_assoc]
          exact (readFrames_openList hskip hclose).trans (readFrames_items htext ih [])
  | object hkeys hmembers ih =>
      intro text htext frames rest _
      cases htext with
      | emptyObject hblanks =>
          rw [List.append_assoc]
          exact readFrames_emptyObject hblanks
      | object htext =>
          obtain ⟨key, valueText, hkey, hrun⟩ := readFrames_members htext ih [] hkeys
          rw [List.append_assoc]
          exact (readFrames_openObject hkey).trans hrun

end Containers

section Texts

variable {text : List Char} {document : Json}

/-- Reading the outermost value stops at the blanks behind it. -/
theorem readFrames_document (hkeyed : document.WellKeyed) (htext : Padded Renders text document)
    {rest : List Char} (hends : ∀ number, document = .number number → EndsNumeral rest) :
    ∃ after, Blanks after ∧
      readFrames .begin [] (text ++ rest) = .ok (document, after ++ rest) := by
  obtain ⟨after, hafter, hread⟩ := (readsBack_of_wellKeyed hkeyed).padded htext hends []
  refine ⟨after, hafter, ?_⟩
  rw [hread, readFrames]

theorem readText_rendered (hkeyed : document.WellKeyed) (htext : Padded Renders text document) :
    readText text = .ok document := by
  have hends : EndsNumeral [] := fun c hc => absurd hc (Option.not_mem_none c)
  obtain ⟨after, hafter, hread⟩ := readFrames_document hkeyed htext fun _ _ => hends
  rw [List.append_nil, List.append_nil] at hread
  rw [readText, hread]
  dsimp only
  rw [skipBlanks_blanks hafter]

/-- A text that goes on behind an object is refused. -/
theorem readText_trailing {members : List (String × Json)} {suffix : List Char} {c : Char}
    (hkeyed : (object members).WellKeyed) (htext : Padded Renders text (.object members))
    (hmem : c ∈ suffix) (hc : c ∉ whitespace) :
    readText (text ++ suffix) = .error (.next .trailingCharacters (skipBlanks suffix)) := by
  obtain ⟨after, hafter, hread⟩ := readFrames_document hkeyed htext fun _ hnumber => nomatch hnumber
  obtain ⟨first, rest, hskip⟩ := List.exists_cons_of_ne_nil (skipBlanks_ne_nil hmem hc)
  rw [readText, hread]
  dsimp only
  rw [skipBlanks_append hafter, hskip]

end Texts

end NameRoles.Json

namespace NameRoles

/-- Loading a text agrees with loading the value that the text stands for: the text is read as the
value whatever its blanks, its escapes and the depth of its nesting, and so gives the same node or
the same fault. What is written for the value is such a text. Behind an object nothing but blanks
may follow, whatever the options. -/
theorem Node.loadText_rendered {document : Json} (hintegral : document.Integral)
    (hkeyed : document.WellKeyed) :
    Json.Renders document.render.toList document ∧
    ∀ text : String, Json.Padded Json.Renders text.toList document →
      Json.parse text = .ok document ∧
      (∀ options, Node.loadText options text = Node.load options document) ∧
      ∀ members, document = .object members →
        ∀ suffix : String, (∃ c ∈ suffix.toList, c ∉ Json.whitespace) →
          ∃ position, ∀ options, Node.loadText options (text ++ suffix) =
            ⟨[], .error ⟨.malformedJson (Json.TextError.message ⟨.trailingCharacters, position⟩),
              ⟨0, 0⟩⟩⟩ := by
  refine ⟨Json.renders_render hintegral, fun text htext => ?_⟩
  have hparse : Json.parse text = .ok document := by
    rw [Json.parse, Json.readText_rendered hkeyed htext]
    rfl
  refine ⟨hparse, fun options => by rw [Node.loadText, hparse], ?_⟩
  rintro members rfl suffix ⟨c, hmem, hc⟩
  have hsuffix : Json.parse (text ++ suffix) = .error
      ((Json.Stop.next .trailingCharacters (Json.skipBlanks suffix.toList)).locate
        (text ++ suffix).toList) := by
    rw [Json.parse, String.toList_append, Json.readText_trailing hkeyed htext hmem hc]
    rfl
  exact ⟨_, fun options => by rw [Node.loadText, hsuffix]; rfl⟩

/-- A node whose type has a character outside the basic plane, with the largest integer. -/
def signedNode : Json :=
  .object [("type", .string "a\nb😀"), ("end", .array [.number (.ofNat 18446744073709551615)])]

/-- A text of the node with blanks between its tokens and a character of each spelling. -/
def signedText : String :=
  "\t\x7b \"type\" : \"a\\n\\u0062\\uD83d\\uDE00\",\"end\":[ 18446744073709551615]\x7d\r\n"

theorem Json.quotes_signedType : Quotes "\"a\\n\\u0062\\uD83d\\uDE00\"".toList "a\nb😀" := by
  have hplain : Spells ['a'] 'a' := .plain (by decide) (by decide) (by decide)
  have hletter : Spells ['\\', 'n'] '\n' := .letter (by decide)
  have hunit : CodeUnit ['0', '0', '6', '2'] 'b'.toNat :=
    .digits (w := 0) (x := 0) (y := 6) (z := 2) (by decide) (by decide) (by decide) (by decide)
  have hleading : CodeUnit ['D', '8', '3', 'd'] (0xD800 + ('😀'.toNat - 0x10000) / 0x400) :=
    .digits (w := 13) (x := 8) (y := 3) (z := 13) (by decide) (by decide) (by decide) (by decide)
  have htrailing : CodeUnit ['D', 'E', '0', '0'] (0xDC00 + ('😀'.toNat - 0x10000) % 0x400) :=
    .digits (w := 13) (x := 14) (y := 0) (z := 0) (by decide) (by decide) (by decide) (by decide)
  have hpair : Spells ("\\uD83d".toList ++ "\\uDE00".toList) '😀' :=
    .pair (by decide) hleading htrailing
  have hspells : SpellsOut "a\\n\\u0062\\uD83d\\uDE00".toList "a\nb😀".toList :=
    .cons hplain (.cons hletter (.cons (.unit hunit) (.cons hpair .nil)))
  exact .mk hspells

theorem Json.padded_signedText : Padded Renders signedText.toList signedNode := by
  have hspace : Blanks [' '] := by decide
  have hnil : Blanks [] := by decide
  have htypeSpells : SpellsOut "type".toList "type".toList := spellsOut_self (by decide)
  have htypeKey : Padded Quotes " \"type\" ".toList "type" :=
    .mk hspace (Quotes.mk htypeSpells) hspace
  have htype : Keyed Renders " \"type\" : \"a\\n\\u0062\\uD83d\\uDE00\"".toList
      ("type", .string "a\nb😀") :=
    .mk htypeKey (.mk hspace (Renders.string quotes_signedType) hnil)
  have hendSpells : SpellsOut "end".toList "end".toList := spellsOut_self (by decide)
  have hendKey : Padded Quotes "\"end\"".toList "end" := .mk hnil (Quotes.mk hendSpells) hnil
  have hnumber : Padded Renders " 18446744073709551615".toList
      (.number (.ofNat 18446744073709551615)) :=
    .mk hspace (Renders.number (n := 18446744073709551615) (by decide)) hnil
  have hend : Keyed Renders "\"end\":[ 18446744073709551615]".toList
      ("end", .array [.number (.ofNat 18446744073709551615)]) :=
    .mk hendKey (.mk hnil (Renders.array (.last hnumber)) hnil)
  have htab : Blanks ['\t'] := by decide
  have hbreak : Blanks ['\r', '\n'] := by decide
  exact .mk htab (Renders.object (.next htype (.last hend))) hbreak

theorem Json.integral_signedNode : signedNode.Integral := by
  have hnumber : Integral (.number (.ofNat 18446744073709551615)) := .number (by decide)
  refine .object fun member hmember => ?_
  rcases List.mem_pair.mp hmember with rfl | rfl
  · exact .string _
  · exact .array fun item hitem => List.eq_of_mem_singleton hitem ▸ hnumber

theorem Json.wellKeyed_signedNode : signedNode.WellKeyed := by
  simp [signedNode, wellKeyed_object_iff, wellKeyed_array_iff, WellKeyed.number, WellKeyed.string]

theorem Node.loadText_rendered_signedText :
    signedNode.Integral ∧ signedNode.WellKeyed ∧
    Json.Padded Json.Renders signedText.toList signedNode ∧
    (∀ options, Node.loadText options signedText = Node.load options signedNode) ∧
    ∃ position, ∀ options, Node.loadText options (signedText ++ " ]") =
      ⟨[], .error ⟨.malformedJson (Json.TextError.message ⟨.trailingCharacters, position⟩),
        ⟨0, 0⟩⟩⟩ := by
  have hloads := (Node.loadText_rendered Json.integral_signedNode Json.wellKeyed_signedNode).2
    signedText Json.padded_signedText
  exact ⟨Json.integral_signedNode, Json.wellKeyed_signedNode, Json.padded_signedText, hloads.2.1,
    hloads.2.2 _ rfl " ]" ⟨']', by decide, by decide⟩⟩

end NameRoles
