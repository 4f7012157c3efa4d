import Mathlib.Data.List.GetD
import Fswtch.Lib.ChunkedText

/-! The match data of a regular expression. A capture is copied into a buffer of 256 bytes and,
where that fails, into one of 257; a substitution is written into a buffer whose size is that of
the template many times over. -/

namespace Fswtch.Switch.Regex
open Fswtch.Lib.ByteReader (utf8 fromUtf8 fromUtf8_eq_some)
open Fswtch.Lib.ChunkedText (utf8_cons)

inductive SwitchError where
  | generr
  deriving DecidableEq

/-- What a copy leaves: the code, the buffer and the size. -/
structure Copied where
  rc : Int
  buffer : List UInt8
  size : Nat

/-- `switch_regex_copy_substring`. A copy that has room for the text and its terminator sets the
size to that of the text; any other fails and leaves the size as it is. -/
structure Pcre2 (μ : Type) where
  group : μ → Nat → Option (List UInt8)
  copySubstring : μ → Nat → List UInt8 → Nat → Copied
  copies : ∀ data index buffer size bytes, group data index = some bytes → bytes.length < size →
    copySubstring data index buffer size =
      ⟨0, bytes ++ 0 :: buffer.drop (bytes.length + 1), bytes.length⟩
  fails : ∀ data index buffer size, (∀ bytes, group data index = some bytes → size ≤ bytes.length) →
    (copySubstring data index buffer size).rc < 0 ∧ (copySubstring data index buffer size).size = size

/-- `switch_regex_perform` counts the groups up to the last one that participated. The subject is a
C string. -/
structure RegexMatch {μ : Type} (pcre : Pcre2 μ) where
  raw : μ
  groupCount : Int32
  counted : ∀ index, groupCount.toInt ≤ (index : Nat) → pcre.group raw index = none
  terminated : ∀ index bytes, pcre.group raw index = some bytes → 0 ∉ bytes

variable {μ : Type} {pcre : Pcre2 μ}

namespace RegexMatch

def text (bytes : List UInt8) : Except SwitchError String :=
  match fromUtf8 bytes with
  | some text => .ok text
  | none => .error .generr

theorem text_utf8 (s : String) : text (utf8 s) = .ok s := by
  rw [text, (fromUtf8_eq_some _ s).mpr rfl]

def groups (m : RegexMatch pcre) : UInt32 := if m.groupCount < 0 then 0 else m.groupCount.toUInt32

def capture (m : RegexMatch pcre) (index : UInt32) : Except SwitchError (Option String) :=
  if m.groups ≤ index then .ok none
  else
    let first := pcre.copySubstring m.raw index.toNat (List.replicate 256 0) 256
    if first.rc = 0 then (text (first.buffer.take first.size)).map some
    else if first.rc < 0 ∧ first.size = 0 then .ok none
    else if first.rc < 0 then
      let need := first.size + 1
      let second := pcre.copySubstring m.raw index.toNat (List.replicate need 0) need
      if second.rc ≠ 0 then .error .generr else (text (second.buffer.take second.size)).map some
    else (text (first.buffer.take first.size)).map some

structure Whole (m : RegexMatch pcre) (index : UInt32) : Prop where
  beyond : m.groups ≤ index → m.capture index = .ok none
  absent : pcre.group m.raw index.toNat = none → m.capture index = .ok none
  participated : ∀ s, pcre.group m.raw index.toNat = some (utf8 s) → m.capture index = .ok (some s)

theorem group_beyond (m : RegexMatch pcre) {index : UInt32} (beyond : m.groups ≤ index) :
    pcre.group m.raw index.toNat = none := by
  apply m.counted
  rw [groups, UInt32.le_iff_toNat_le] at beyond
  split at beyond
  next negative =>
    have below : m.groupCount.toInt < 0 := Int32.lt_iff_toInt_lt.mp negative
    omega
  next nonneg =>
    have count := Int32.toNat_toUInt32_of_le (Int32.not_lt.mp nonneg)
    rw [count] at beyond
    exact Int.toNat_le.mp beyond

theorem text_copied {data : μ} {index : Nat} {bytes : List UInt8} {size : Nat}
    (buffer : List UInt8) (found : pcre.group data index = some bytes) (room : bytes.length < size) :
    (pcre.copySubstring data index buffer size).rc = 0 ∧
      (pcre.copySubstring data index buffer size).buffer.take
        (pcre.copySubstring data index buffer size).size = bytes := by
  rw [pcre.copies data index buffer size bytes found room]
  exact ⟨rfl, List.take_left⟩

theorem capture_short (m : RegexMatch pcre) {index : UInt32} (within : ¬m.groups ≤ index)
    {bytes : List UInt8} (found : pcre.group m.raw index.toNat = some bytes) (room : bytes.length < 256) :
    m.capture index = (text bytes).map some := by
  obtain ⟨rc, taken⟩ := text_copied (List.replicate 256 0) found room
  rw [capture, if_neg within]
  simp only [rc, if_true, taken]

theorem capture_retries (m : RegexMatch pcre) {index : UInt32} (within : ¬m.groups ≤ index)
    (misses : ∀ bytes, pcre.group m.raw index.toNat = some bytes → 256 ≤ bytes.length) :
    m.capture index = if (pcre.copySubstring m.raw index.toNat (List.replicate 257 0) 257).rc ≠ 0
      then .error .generr
      else (text ((pcre.copySubstring m.raw index.toNat (List.replicate 257 0) 257).buffer.take
        (pcre.copySubstring m.raw index.toNat (List.replicate 257 0) 257).size)).map some := by
  obtain ⟨negative, size⟩ := pcre.fails m.raw index.toNat (List.replicate 256 0) 256 misses
  rw [capture, if_neg within]
  simp only [size, negative, Int.ne_of_lt negative, if_true, if_false]
  rfl

theorem capture_exact (m : RegexMatch pcre) {index : UInt32} (within : ¬m.groups ≤ index)
    {bytes : List UInt8} (found : pcre.group m.raw index.toNat = some bytes) (full : bytes.length = 256) :
    m.capture index = (text bytes).map some := by
  obtain ⟨rc, taken⟩ := text_copied (List.replicate 257 0) found (Nat.lt_succ_of_le (Nat.le_of_eq full))
  rw [capture_retries m within, rc, taken]
  · rfl
  · intro other same
    cases found.symm.trans same
    exact Nat.le_of_eq full.symm

theorem capture_error (m : RegexMatch pcre) {index : UInt32} (within : ¬m.groups ≤ index)
    (misses : ∀ bytes, pcre.group m.raw index.toNat = some bytes → 257 ≤ bytes.length) :
    m.capture index = .error .generr := by
  obtain ⟨negative, -⟩ := pcre.fails m.raw index.toNat (List.replicate 257 0) 257 misses
  rw [capture_retries m within, if_pos (Int.ne_of_lt negative)]
  exact fun bytes found => Nat.le_of_succ_le (misses bytes found)

/-- A capture is returned whole exactly where the index is out of range or the group participated
with a text of at most 256 bytes or with one that is no text. -/
theorem capture_whole_iff (m : RegexMatch pcre) (index : UInt32) :
    Whole m index ↔ m.groups ≤ index ∨ ∃ bytes, pcre.group m.raw index.toNat = some bytes ∧
      (bytes.length ≤ 256 ∨ fromUtf8 bytes = none) := by
  by_cases within : m.groups ≤ index
  · have returned : m.capture index = .ok none := if_pos within
    have none := group_beyond m within
    refine iff_of_true ⟨fun _ => returned, fun _ => returned, fun s found => ?_⟩ (.inl within)
    cases none.symm.trans found
  rw [or_iff_right within]
  constructor
  · intro whole
    cases found : pcre.group m.raw index.toNat with
    | none =>
      have failed := capture_error m within (fun bytes same => by cases found.symm.trans same)
      cases failed.symm.trans (whole.absent found)
    | some bytes =>
      refine ⟨bytes, rfl, (Nat.lt_or_ge 256 bytes.length).symm.imp_right fun long => ?_⟩
      cases decoded : fromUtf8 bytes with
      | none => rfl
      | some s =>
        rw [(fromUtf8_eq_some _ s).mp decoded] at found long
        have failed := capture_error m within (fun bytes same => by cases found.symm.trans same; exact long)
        cases failed.symm.trans (whole.participated s found)
  · rintro ⟨bytes, found, small⟩
    refine ⟨fun beyond => absurd beyond within, fun none => ?_, fun s same => ?_⟩
    · cases none.symm.trans found
    · cases found.symm.trans same
      have short : (utf8 s).length ≤ 256 := by
        refine small.resolve_right fun none => ?_
        rw [(fromUtf8_eq_some _ s).mpr rfl] at none
        cases none
      have returned : m.capture index = (text (utf8 s)).map some := by
        obtain less | equal := Nat.lt_or_eq_of_le short
        · exact capture_short m within found less
        · exact capture_exact m within found equal
      rw [returned, text_utf8]
      rfl

end RegexMatch

inductive Part where
  | literal (bytes : List UInt8)
  | reference (index : Nat)

def Part.expand (pcre : Pcre2 μ) (data : μ) : Part → List UInt8
  | .literal bytes => bytes
  | .reference index => (pcre.group data index).getD []

/-- `switch_perform_substitution`. The substitution is cut to the length less one byte, and the
terminator stands behind it. -/
structure Substitution (pcre : Pcre2 μ) where
  parts : List UInt8 → List Part
  perform : μ → List UInt8 → List UInt8 → Nat → List UInt8
  performs : ∀ data template buffer len, 0 < len → ∃ rest, perform data template buffer len =
    ((parts template).flatMap (Part.expand pcre data)).take (len - 1) ++ 0 :: rest
  literals : ∀ template bytes, 0 ∉ template → Part.literal bytes ∈ parts template → 0 ∉ bytes

namespace RegexMatch

/-- `cap` without the byte of the terminator. -/
def room (template : String) : Nat := max (min ((utf8 template).length * 8) (UInt64.size - 1)) 256

def substitute (m : RegexMatch pcre) (sub : Substitution pcre) (template : String) : Except SwitchError String :=
  -- A template with a zero byte is no C string.
  if 0 ∈ utf8 template then .error .generr
  else
    let cap := room template + 1
    let out := sub.perform m.raw (utf8 template) (List.replicate cap 0) cap
    let nul := out.findIdx (· == 0)
    text (out.take nul)

/-- The template with every reference replaced by the text of its group. -/
def full (m : RegexMatch pcre) (sub : Substitution pcre) (template : String) : List UInt8 :=
  (sub.parts (utf8 template)).flatMap (Part.expand pcre m.raw)

def Complete (m : RegexMatch pcre) (sub : Substitution pcre) (template : String) : Prop :=
  (∃ s, m.substitute sub template = .ok s ∧ utf8 s = m.full sub template) ∨
    ∃ error, m.substitute sub template = .error error

theorem full_unterminated (m : RegexMatch pcre) (sub : Substitution pcre) {template : String}
    (clean : 0 ∉ utf8 template) : 0 ∉ m.full sub template := by
  rw [full, List.mem_flatMap]
  rintro ⟨part, occurs, zero⟩
  cases part with
  | literal bytes => exact sub.literals _ bytes clean occurs zero
  | reference index =>
    rw [Part.expand] at zero
    cases found : pcre.group m.raw index with
    | none => simp [found] at zero
    | some bytes =>
      rw [found] at zero
      exact m.terminated index bytes found zero

theorem take_findIdx {front : List UInt8} (clean : 0 ∉ front) (back : List UInt8) :
    (front ++ 0 :: back).take ((front ++ 0 :: back).findIdx (· == 0)) = front := by
  induction front with
  | nil => rfl
  | cons byte front ih =>
    rw [List.mem_cons, not_or] at clean
    have other : (byte == 0) = false := beq_eq_false_iff_ne.mpr (Ne.symm clean.1)
    rw [List.cons_append, List.findIdx_cons, other, cond_false, List.take_succ_cons, ih clean.2]

theorem substitute_eq (m : RegexMatch pcre) (sub : Substitution pcre) {template : String}
    (clean : 0 ∉ utf8 template) :
    m.substitute sub template = text ((m.full sub template).take (room template)) := by
  have cut : 0 ∉ (m.full sub template).take (room template) :=
    fun occurs => full_unterminated m sub clean (List.mem_of_mem_take occurs)
  obtain ⟨rest, performed⟩ := sub.performs m.raw (utf8 template)
    (List.replicate (room template + 1) 0) (room template + 1) (Nat.succ_pos _)
  rw [substitute, if_neg clean]
  simp only [performed]
  exact congrArg text (take_findIdx cut rest)

theorem text_error_iff (bytes : List UInt8) : (∃ error, text bytes = .error error) ↔ fromUtf8 bytes = none := by
  rw [text]
  cases fromUtf8 bytes with
  | none => exact iff_of_true ⟨.generr, rfl⟩ rfl
  | some s => simp

theorem text_ok_iff (bytes : List UInt8) (s : String) : text bytes = .ok s ↔ bytes = utf8 s := by
  rw [text, ← fromUtf8_eq_some]
  cases fromUtf8 bytes <;> simp

/-- A substitution is complete or fails exactly where the template is no C string, the whole
substitution has room in the buffer or what has room there is no text. -/
theorem substitute_complete_iff (m : RegexMatch pcre) (sub : Substitution pcre) (template : String) :
    Complete m sub template ↔ 0 ∈ utf8 template ∨ (m.full sub template).length ≤ room template ∨
      fromUtf8 ((m.full sub template).take (room template)) = none := by
  by_cases clean : 0 ∈ utf8 template
  · exact iff_of_true (.inr ⟨.generr, if_pos clean⟩) (.inl clean)
  rw [or_iff_right clean, Complete, substitute_eq m sub clean, text_error_iff]
  refine or_congr_left' fun decodes => ?_
  simp only [text_ok_iff]
  constructor
  · rintro ⟨s, same, whole⟩
    rw [← whole] at same ⊢
    have count := congrArg List.length same
    rw [List.length_take] at count
    omega
  · intro fits
    rw [List.take_of_length_le fits] at decodes ⊢
    obtain ⟨s, decoded⟩ := Option.ne_none_iff_exists'.mp decodes
    exact ⟨s, (fromUtf8_eq_some _ s).mp decoded, ((fromUtf8_eq_some _ s).mp decoded).symm⟩

end RegexMatch

def copyGroup (data : List (Option (List UInt8))) (index : Nat) (buffer : List UInt8) (size : Nat) : Copied :=
  match (data.getD index none).filter (fun bytes => bytes.length < size) with
  | some bytes => ⟨0, bytes ++ 0 :: buffer.drop (bytes.length + 1), bytes.length⟩
  | none => ⟨-1, buffer, size⟩

def listed : Pcre2 (List (Option (List UInt8))) where
  group data index := data.getD index none
  copySubstring := copyGroup
  copies data index buffer size bytes found room := by
    rw [copyGroup, found]
    simp only [Option.filter_some, decide_eq_true room, if_true]
  fails data index buffer size misses := by
    have nothing : (data.getD index none).filter (fun bytes => bytes.length < size) = none := by
      rw [Option.filter_eq_none_iff]
      intro bytes found
      simpa using misses bytes found
    rw [copyGroup, nothing]
    exact ⟨Int.negSucc_lt_zero 0, rfl⟩

def ofGroups (data : List (Option (List UInt8))) (few : data.length < 2 ^ 31)
    (clean : ∀ group ∈ data, 0 ∉ group.getD []) : RegexMatch listed where
  raw := data
  groupCount := Int32.ofNat data.length
  counted index beyond := by
    rw [Int32.toInt_ofNat_of_lt few] at beyond
    exact List.getD_eq_default data none (Int.ofNat_le.mp beyond)
  terminated index bytes found := by
    refine clean (some bytes) ?_
    change data.getD index none = some bytes at found
    by_cases within : index < data.length
    · rw [List.getD_eq_getElem data none within] at found
      exact found ▸ List.getElem_mem within
    · rw [List.getD_eq_default data none (Nat.le_of_not_lt within)] at found
      cases found

def alternatives : RegexMatch listed :=
  ofGroups [some [98], none, some [98]] (by decide) (by decide)

def longGroup : RegexMatch listed :=
  ofGroups [some (List.replicate 300 97), some (List.replicate 300 97)] (by decide) (by decide)

theorem exists_letters (n : Nat) : ∃ s, utf8 s = List.replicate n 97 := by
  refine ⟨String.ofList (List.replicate n 'a'), ?_⟩
  induction n with
  | zero => rfl
  | succ n ih =>
    rw [List.replicate_succ, List.replicate_succ, utf8_cons, ih]
    rfl

/-- A group that did not participate and one of 300 bytes are both errors. -/
theorem captures_not_whole : ¬alternatives.Whole 1 ∧ ¬longGroup.Whole 1 := by
  have unset : alternatives.capture 1 = .error .generr := by decide +kernel
  have cut : longGroup.capture 1 = .error .generr := by decide +kernel
  obtain ⟨s, letters⟩ := exists_letters 300
  constructor
  · intro whole
    cases unset.symm.trans (whole.absent (by decide))
  · intro whole
    cases cut.symm.trans (whole.participated s (congrArg some letters.symm))

def single : Substitution listed where
  parts template := if template = [36, 49] then [.reference 1] else [.literal template]
  perform data template _ len :=
    ((if template = [36, 49] then [Part.reference 1] else [.literal template]).flatMap
      (Part.expand listed data)).take (len - 1) ++ [0]
  performs data template buffer len _ := ⟨[], rfl⟩
  literals template bytes clean occurs := by
    split at occurs
    · simp at occurs
    · rw [List.mem_singleton, Part.literal.injEq] at occurs
      exact occurs ▸ clean

/-- The text of 300 bytes is cut to 256 where the template is `$1`. -/
theorem longGroup_cut : ¬longGroup.Complete single "$1" := by
  obtain ⟨s, letters⟩ := exists_letters 256
  have clean : 0 ∉ utf8 "$1" := by decide
  have part : (longGroup.full single "$1").take (RegexMatch.room "$1") = utf8 s := by
    rw [letters]
    decide +kernel
  have cut : longGroup.substitute single "$1" = .ok s := by
    rw [RegexMatch.substitute_eq longGroup single clean, part, RegexMatch.text_utf8]
  rintro (⟨full, returned, whole⟩ | ⟨error, failed⟩)
  · cases cut.symm.trans returned
    have short := congrArg List.length (letters.symm.trans whole)
    revert short
    decide +kernel
  · cases cut.symm.trans failed

end Fswtch.Switch.Regex
