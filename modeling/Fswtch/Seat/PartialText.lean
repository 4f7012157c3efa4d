import Fswtch.Lib.JsonText
import Fswtch.Lib.SuffixFeed
import Fswtch.Seat.Durations
import Fswtch.Seat.SpeakText

/-! The text of a tool call while its arguments stream in, as the orchestrator reads it: the
escapes of the value are decoded as far as it has come. -/

namespace Fswtch.Seat.PartialText
open Fswtch.Lib.JsonText Fswtch.Lib.SuffixFeed Fswtch.Seat.SentenceSplit Fswtch.Seat.DoubaoStream
open Fswtch.Seat.Durations (withoutPlus)

/-- The number that hexadecimal digits behind those of `value` make up, within 32 bits. -/
def hexDigits (value : Nat) : Text → Option Nat
  | [] => some value
  | ch :: rest => (hexDigit ch).bind fun digit =>
      if value * 16 + digit < 2 ^ 32 then hexDigits (value * 16 + digit) rest else none

def fromStrRadix16 (src : Text) : Option Nat :=
  if withoutPlus src = [] then none else hexDigits 0 (withoutPlus src)

def fromU32 (code : Nat) : Option Char := if code.isValidChar then some (Char.ofNat code) else none

def codeChar (hex : Text) : Option Char := (fromStrRadix16 hex).bind fromU32

def escaped (ch : Char) : Char := (shortEscape ch).getD ch

def valueStart (colonSeen : Bool) : Text → Option Text
  | [] => none
  | ch :: rest =>
    if colonSeen = false then
      if isWhitespace ch then valueStart false rest
      else if ch = ':' then valueStart true rest
      else none
    else if isWhitespace ch then valueStart true rest
    else if ch = '"' then some rest
    else none

/-- The walk over the value, to its closing quote or as far as it has come. -/
def walk : Text → Text
  | [] => []
  | ['\\'] => []
  | '\\' :: 'u' :: a :: b :: c :: d :: rest => (codeChar [a, b, c, d]).toList ++ walk rest
  -- Fewer than four characters have come; the escape takes them as they are.
  | '\\' :: 'u' :: hex => (codeChar hex).toList
  | '\\' :: ch :: rest => escaped ch :: walk rest
  | ch :: rest => if ch = '"' then [] else ch :: walk rest

/-- The value of the first `"text"` key, without its opening quote. -/
def textValue (accumulated : Text) : Option Text :=
  (afterFirst "\"text\"".toList accumulated).bind (valueStart false)

def extractPartialTextFromJson (accumulated : Text) : Option Text := (textValue accumulated).map walk

theorem walk_unicode (rest : Text) :
    walk ('\\' :: 'u' :: rest) = (codeChar (rest.take 4)).toList ++ walk (rest.drop 4) := by
  rcases rest with _ | ⟨a, _ | ⟨b, _ | ⟨c, _ | ⟨d, rest⟩⟩⟩⟩
  · rfl
  · exact (List.append_nil _).symm
  · exact (List.append_nil _).symm
  · exact (List.append_nil _).symm
  · rfl

theorem walk_escape {ch : Char} (short : ch ≠ 'u') (rest : Text) :
    walk ('\\' :: ch :: rest) = escaped ch :: walk rest := by
  rw [walk.eq_5 ch rest (fun _ _ _ _ _ same _ => short same) short]

theorem walk_plain {ch : Char} (unquoted : ch ≠ '"') (unescaped : ch ≠ '\\') (rest : Text) :
    walk (ch :: rest) = ch :: walk rest := by
  rw [walk.eq_6 ch rest (fun same _ => unescaped same) (fun _ _ _ _ _ same _ => unescaped same)
    (fun _ same _ => unescaped same) (fun _ _ same _ => unescaped same), if_neg unquoted]

/-- Whole units of a value, and the text that they are read as. -/
inductive Reads : Text → Text → Prop
  | nil : Reads [] []
  | plain (ch : Char) (rest text : Text) (unquoted : ch ≠ '"') (unescaped : ch ≠ '\\') (later : Reads rest text) :
      Reads (ch :: rest) (ch :: text)
  | escape (ch : Char) (rest text : Text) (short : ch ≠ 'u') (later : Reads rest text) :
      Reads ('\\' :: ch :: rest) (escaped ch :: text)
  | unicode (a b c d : Char) (rest text : Text) (later : Reads rest text) :
      Reads ('\\' :: 'u' :: a :: b :: c :: d :: rest) ((codeChar [a, b, c, d]).toList ++ text)

/-- Where the walk ends: with the text, at the closing quote, or inside an escape. -/
inductive Ends : Text → Prop
  | nil : Ends []
  | quote (rest : Text) : Ends ('"' :: rest)
  | backslash : Ends ['\\']
  | unicode (digits : Text) (cut : digits.length < 4) : Ends ('\\' :: 'u' :: digits)

theorem walk_append {front text : Text} (reads : Reads front text) (back : Text) :
    walk (front ++ back) = text ++ walk back := by
  induction reads with
  | nil => rfl
  | plain ch rest text unquoted unescaped _ ih =>
    rw [List.cons_append, walk_plain unquoted unescaped, ih, List.cons_append]
  | escape ch rest text short _ ih => rw [List.cons_append, List.cons_append, walk_escape short, ih, List.cons_append]
  | unicode a b c d rest text _ ih =>
    show (codeChar [a, b, c, d]).toList ++ walk (rest ++ back) = _
    rw [ih, List.append_assoc]

theorem value_cases (value : Text) : ∃ front text back, Reads front text ∧ Ends back ∧ value = front ++ back := by
  fun_induction walk value with
  | case1 => exact ⟨[], [], [], .nil, .nil, rfl⟩
  | case2 => exact ⟨[], [], ['\\'], .nil, .backslash, rfl⟩
  | case3 a b c d rest ih =>
    obtain ⟨front, text, back, reads, ends, rfl⟩ := ih
    exact ⟨_, _, back, .unicode a b c d front text reads, ends, rfl⟩
  | case4 hex short =>
    refine ⟨[], [], _, .nil, .unicode hex ?_, rfl⟩
    rcases hex with _ | ⟨a, _ | ⟨b, _ | ⟨c, _ | ⟨d, rest⟩⟩⟩⟩
    · simp
    · simp
    · simp
    · simp
    · exact absurd rfl (short a b c d rest)
  | case5 ch rest _ short ih =>
    obtain ⟨front, text, back, reads, ends, rfl⟩ := ih
    exact ⟨_, _, back, .escape ch front text short reads, ends, rfl⟩
  | case6 rest => exact ⟨[], [], _, .nil, .quote rest, rfl⟩
  | case7 ch rest lone _ _ escape unquoted ih =>
    obtain ⟨front, text, back, reads, ends, rfl⟩ := ih
    have unescaped : ch ≠ '\\' := by
      intro same
      cases following : front ++ back with
      | nil => exact lone same following
      | cons next rest => exact escape next rest same following
    exact ⟨_, _, back, .plain ch front text unquoted unescaped reads, ends, rfl⟩

inductive Begins (ch : Char) : Text → Prop
  | plain (rest : Text) (unquoted : ch ≠ '"') (unescaped : ch ≠ '\\') : Begins ch (ch :: rest)
  | escape (letter : Char) (rest : Text) (short : letter ≠ 'u') (stands : escaped letter = ch) :
      Begins ch ('\\' :: letter :: rest)
  | unicode (rest : Text) (stands : codeChar (rest.take 4) = some ch) : Begins ch ('\\' :: 'u' :: rest)
  | skip (rest : Text) (nothing : codeChar (rest.take 4) = none) (later : Begins ch (rest.drop 4)) :
      Begins ch ('\\' :: 'u' :: rest)

theorem Begins.walk {ch : Char} {value : Text} (begins : Begins ch value) : [ch] <+: walk value := by
  induction begins with
  | plain rest unquoted unescaped =>
    rw [walk_plain unquoted unescaped]
    exact List.prefix_append [ch] _
  | escape letter rest short stands =>
    rw [walk_escape short, stands]
    exact List.prefix_append [ch] _
  | unicode rest stands =>
    rw [walk_unicode, stands]
    exact List.prefix_append [ch] _
  | skip rest nothing _ ih =>
    rw [walk_unicode, nothing]
    exact ih

theorem begins_of_unicode {ch : Char} {rest : Text}
    (first : [ch] <+: (codeChar (rest.take 4)).toList ++ walk (rest.drop 4))
    (later : [ch] <+: walk (rest.drop 4) → Begins ch (rest.drop 4)) : Begins ch ('\\' :: 'u' :: rest) := by
  cases read : codeChar (rest.take 4) with
  | none =>
    rw [read] at first
    exact .skip rest read (later first)
  | some other =>
    rw [read] at first
    obtain ⟨rfl, _⟩ := List.cons_prefix_cons.mp first
    exact .unicode rest read

theorem begins_iff {ch : Char} {value : Text} : Begins ch value ↔ [ch] <+: walk value := by
  refine ⟨Begins.walk, fun first => ?_⟩
  obtain ⟨front, text, back, reads, ends, rfl⟩ := value_cases value
  induction reads with
  | nil =>
    cases ends with
    | nil => cases List.prefix_nil.mp first
    | quote rest => cases List.prefix_nil.mp first
    | backslash => cases List.prefix_nil.mp first
    | unicode digits cut =>
      rw [List.nil_append, walk_unicode] at first
      refine begins_of_unicode first fun later => ?_
      rw [List.drop_eq_nil_of_le (by omega)] at later
      cases List.prefix_nil.mp later
  | plain other rest text unquoted unescaped _ ih =>
    rw [List.cons_append, walk_plain unquoted unescaped] at first
    obtain ⟨rfl, _⟩ := List.cons_prefix_cons.mp first
    exact .plain _ unquoted unescaped
  | escape letter rest text short _ ih =>
    rw [List.cons_append, List.cons_append, walk_escape short] at first
    obtain ⟨same, _⟩ := List.cons_prefix_cons.mp first
    exact .escape letter _ short same.symm
  | unicode a b c d rest text _ ih => exact begins_of_unicode first ih

theorem valueStart_append {colonSeen : Bool} {text value : Text} (found : valueStart colonSeen text = some value)
    (more : Text) : valueStart colonSeen (text ++ more) = some (value ++ more) := by
  fun_induction valueStart colonSeen text with
  | case1 => cases found
  | case2 ch rest blank ih =>
    rw [List.cons_append, valueStart, if_pos rfl, if_pos blank]
    exact ih found
  | case3 rest blank ih =>
    rw [List.cons_append, valueStart, if_pos rfl, if_neg blank, if_pos rfl]
    exact ih found
  | case4 => cases found
  | case5 colonSeen ch rest seen blank ih =>
    rw [List.cons_append, valueStart, if_neg seen, if_pos blank]
    exact ih found
  | case6 colonSeen rest seen blank =>
    cases found
    rw [List.cons_append, valueStart, if_neg seen, if_neg blank, if_pos rfl]
  | case7 => cases found

theorem textValue_append {s value : Text} (found : textValue s = some value) (t : Text) :
    textValue (s ++ t) = some (value ++ t) := by
  obtain ⟨afterKey, key, start⟩ := Option.bind_eq_some_iff.mp found
  rw [textValue, afterFirst_append key t, Option.bind_some]
  exact valueStart_append start t

def Grows (s t : Text) : Prop :=
  ∀ p, extractPartialTextFromJson s = some p → ∃ q, extractPartialTextFromJson (s ++ t) = some q ∧ p <+: q

/-- The value, as far as it has come, stops behind `\u` and fewer than four characters. -/
def StopsBehindU (value digits : Text) : Prop :=
  ∃ front text, Reads front text ∧ value = front ++ '\\' :: 'u' :: digits ∧ digits.length < 4

def StopsInUnicode (s digits : Text) : Prop := ∃ value, textValue s = some value ∧ StopsBehindU value digits

theorem StopsInUnicode.length_lt {s digits : Text} (stops : StopsInUnicode s digits) : digits.length < 4 := by
  obtain ⟨_, _, _, _, _, _, cut⟩ := stops
  exact cut

theorem extract_absent {s : Text} (absent : textValue s = none) : extractPartialTextFromJson s = none := by
  rw [extractPartialTextFromJson, absent, Option.map_none]

theorem grows_of_absent {s : Text} (absent : textValue s = none) (t : Text) : Grows s t := by
  intro p read
  cases (extract_absent absent).symm.trans read

theorem grows_iff {s value : Text} (found : textValue s = some value) (t : Text) :
    Grows s t ↔ walk value <+: walk (value ++ t) := by
  unfold Grows extractPartialTextFromJson
  rw [found, textValue_append found t]
  constructor
  · intro grows
    obtain ⟨q, same, before⟩ := grows _ rfl
    cases same
    exact before
  · intro before p same
    cases same
    exact ⟨_, rfl, before⟩

theorem hexDigits_quote (value : Nat) (digits : Text) : hexDigits value (digits ++ ['"']) = none := by
  induction digits generalizing value with
  | nil => rfl
  | cons ch rest ih =>
    rw [List.cons_append, hexDigits]
    cases hexDigit ch with
    | none => rfl
    | some digit =>
      rw [Option.bind_some]
      split
      next => exact ih _
      next => rfl

theorem codeChar_quote (digits : Text) : codeChar (digits ++ ['"']) = none := by
  have quoted : ∃ rest, withoutPlus (digits ++ ['"']) = rest ++ ['"'] := by
    unfold withoutPlus
    split
    next rest same =>
      cases digits with
      | nil => cases same
      | cons ch digits =>
        cases same
        exact ⟨digits, rfl⟩
    next => exact ⟨digits, rfl⟩
  obtain ⟨rest, same⟩ := quoted
  rw [codeChar, fromStrRadix16, same, if_neg (List.append_ne_nil_of_right_ne_nil rest (List.cons_ne_nil _ _)),
    hexDigits_quote]
  rfl

theorem walk_cut {digits : Text} (cut : digits.length < 4) :
    walk ('\\' :: 'u' :: digits) = (codeChar digits).toList := by
  rw [walk_unicode, List.take_of_length_le (by omega), List.drop_eq_nil_of_le (by omega)]
  exact List.append_nil _

theorem walk_prefix_iff (value t : Text) :
    walk value <+: walk (value ++ t) ↔
      ∀ digits ch, StopsBehindU value digits → codeChar digits = some ch → Begins ch ('\\' :: 'u' :: (digits ++ t)) := by
  constructor
  · rintro before digits ch ⟨front, text, reads, rfl, cut⟩ stands
    rw [List.append_assoc, walk_append reads, walk_append reads, List.prefix_append_right_inj, walk_cut cut,
      stands] at before
    exact begins_iff.mpr before
  · intro begins
    obtain ⟨front, text, back, reads, ends, rfl⟩ := value_cases value
    rw [List.append_assoc, walk_append reads, walk_append reads, List.prefix_append_right_inj]
    cases ends with
    | nil => exact List.nil_prefix
    | quote rest => exact List.prefix_refl []
    | backslash => exact List.nil_prefix
    | unicode digits cut =>
      rw [walk_cut cut]
      cases stands : codeChar digits with
      | none => exact List.nil_prefix
      | some ch => exact begins_iff.mp (begins digits ch ⟨front, text, reads, rfl, cut⟩ stands)

theorem grows_iff_begins (s t : Text) :
    Grows s t ↔
      ∀ digits ch, StopsInUnicode s digits → codeChar digits = some ch → Begins ch ('\\' :: 'u' :: (digits ++ t)) := by
  cases found : textValue s with
  | none =>
    refine iff_of_true (grows_of_absent found t) ?_
    rintro digits ch ⟨value, same, _⟩
    cases found.symm.trans same
  | some value =>
    rw [grows_iff found, walk_prefix_iff]
    constructor
    · rintro begins digits ch ⟨other, same, stops⟩
      cases found.symm.trans same
      exact begins digits ch stops
    · intro begins digits ch stops
      exact begins digits ch ⟨value, found, stops⟩

/-- A closing quote in the place of the digits that are missing leaves nothing of the character. -/
theorem not_begins_quote {digits : Text} (cut : digits.length < 4) (ch : Char) :
    ¬Begins ch ('\\' :: 'u' :: (digits ++ ['"'])) := by
  have short : (digits ++ ['"']).length ≤ 4 := by
    rw [List.length_append]
    exact cut
  rw [begins_iff, walk_unicode, List.take_of_length_le short, List.drop_eq_nil_of_le short, codeChar_quote]
  intro first
  cases List.prefix_nil.mp first

def textSoFar (accumulated : Text) : Text := (extractPartialTextFromJson accumulated).getD []

theorem grows_iff_textSoFar (s t : Text) : Grows s t ↔ textSoFar s <+: textSoFar (s ++ t) := by
  cases found : textValue s with
  | none =>
    refine iff_of_true (grows_of_absent found t) ?_
    rw [textSoFar, extract_absent found]
    exact List.nil_prefix
  | some value =>
    rw [grows_iff found, textSoFar, textSoFar, extractPartialTextFromJson, extractPartialTextFromJson, found,
      textValue_append found t]
    rfl

/-- As long as no delta stops in an escape that reads as a character, the new suffixes over the
deltas of a call make up its text. -/
theorem newSuffixes_textSoFar {deltas : List Text}
    (whole : ∀ front digits, front <+: deltas → StopsInUnicode front.flatten digits → codeChar digits = none) :
    ∃ suffixes, newSuffixes textSoFar [] deltas = some suffixes ∧ suffixes.flatten = textSoFar deltas.flatten := by
  have grows : ∀ front delta, front ++ [delta] <+: deltas → Grows front.flatten delta := by
    intro front delta before
    refine (grows_iff_begins front.flatten delta).mpr fun digits ch stops stands => ?_
    cases (whole front digits ((List.prefix_append front [delta]).trans before) stops).symm.trans stands
  have stripped : (newSuffixes textSoFar [] deltas).isSome :=
    (newSuffixes_isSome_iff [] deltas).mpr fun front delta before =>
      (grows_iff_textSoFar front.flatten delta).mp (grows front delta before)
  obtain ⟨suffixes, stripped⟩ := Option.isSome_iff_exists.mp stripped
  exact ⟨suffixes, stripped, newSuffixes_flatten stripped⟩

/-- What is extracted only grows, whatever comes after `s`, exactly when `s` does not stop in an
escape `\uXXXX` whose digits so far read as a character. Where it does, it still grows by those
`t` behind which the escape, or what follows it when it reads as nothing, begins with that character.
Where no delta of a call stops so, what is forwarded makes up the text. -/
theorem extractPartialTextFromJson_grows_iff (s : Text) :
    ((∀ t, Grows s t) ↔ ∀ digits, StopsInUnicode s digits → codeChar digits = none) ∧
      (∀ t, Grows s t ↔
        ∀ digits ch, StopsInUnicode s digits → codeChar digits = some ch →
          Begins ch ('\\' :: 'u' :: (digits ++ t))) ∧
      ∀ deltas : List Text,
        (∀ front digits, front <+: deltas → StopsInUnicode front.flatten digits → codeChar digits = none) →
        ∃ suffixes, newSuffixes textSoFar [] deltas = some suffixes ∧ suffixes.flatten = textSoFar deltas.flatten := by
  refine ⟨⟨fun grows digits stops => ?_, fun nothing t => ?_⟩, grows_iff_begins s, fun _ => newSuffixes_textSoFar⟩
  · cases stands : codeChar digits with
    | none => rfl
    | some ch =>
      have begins := (grows_iff_begins s ['"']).mp (grows ['"']) digits ch stops stands
      exact absurd begins (not_begins_quote stops.length_lt ch)
  · refine (grows_iff_begins s t).mpr fun digits ch stops stands => ?_
    cases (nothing digits stops).symm.trans stands

/-- A delta that ends behind three of four digits: the text was `Ӷ`, and is `你` now. -/
theorem extractPartialTextFromJson_cut : ¬∀ s t, Grows s t := by
  intro grows
  obtain ⟨q, read, before⟩ := grows "\x7b\"text\":\"\\u4f6".toList "0".toList "Ӷ".toList (by decide)
  have other : extractPartialTextFromJson ("\x7b\"text\":\"\\u4f6".toList ++ "0".toList) = some "你".toList := by decide
  cases read.symm.trans other
  revert before
  decide

end Fswtch.Seat.PartialText
