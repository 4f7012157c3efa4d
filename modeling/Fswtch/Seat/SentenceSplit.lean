import Fswtch.Lib.CharBytes

/-! Cutting the streamed reply into sentences. The buffer is searched for its first
boundary, drained up to there, and searched again until none is left. -/

namespace Fswtch.Seat.SentenceSplit
open Fswtch.Lib.CharBytes

abbrev Text := List Char

/-- The byte offset just past the first sentence boundary, counted from `byteIdx`. -/
def findSentenceBoundaryFrom (byteIdx : Nat) : Text → Option Nat
  | [] => none
  | ch :: rest =>
    let past := byteIdx + ch.utf8Size
    if ch = '。' ∨ ch = '！' ∨ ch = '？' then some past
    else if ch = '\n' then some past
    else if ch = '.' ∨ ch = '!' ∨ ch = '?' then
      match rest with
      | [] => some past
      | next :: _ =>
        if next = ' ' ∨ next = '\n' ∨ next = '\t' ∨ next = '\r' then some (past + next.utf8Size)
        else findSentenceBoundaryFrom past rest
    else findSentenceBoundaryFrom past rest

def findSentenceBoundary (text : Text) : Option Nat := findSentenceBoundaryFrom 0 text

theorem findSentenceBoundaryFrom_spec {byteIdx boundary : Nat} {text : Text}
    (found : findSentenceBoundaryFrom byteIdx text = some boundary) :
    ∃ front back, text = front ++ back ∧ front ≠ [] ∧ boundary = byteIdx + byteLen front := by
  fun_induction findSentenceBoundaryFrom byteIdx text with
  | case1 => cases found
  | case2 byteIdx ch rest past => exact ⟨[ch], rest, rfl, by simp, by simpa [past] using found.symm⟩
  | case3 byteIdx rest past => exact ⟨['\n'], rest, rfl, by simp, by simpa [past] using found.symm⟩
  | case4 byteIdx ch past => exact ⟨[ch], [], rfl, by simp, by simpa [past] using found.symm⟩
  | case5 byteIdx ch past _ _ _ next later =>
    refine ⟨[ch, next], later, rfl, by simp, ?_⟩
    simpa [past, Nat.add_assoc] using found.symm
  | case6 byteIdx ch past _ _ _ next later _ ih =>
    obtain ⟨front, back, same, _, rfl⟩ := ih found
    exact ⟨ch :: front, back, by rw [same]; rfl, by simp, by simp [past, Nat.add_assoc]⟩
  | case7 byteIdx ch rest past _ _ _ ih =>
    obtain ⟨front, back, rfl, _, rfl⟩ := ih found
    exact ⟨ch :: front, back, rfl, by simp, by simp [past, Nat.add_assoc]⟩

/-- The first sentence of the buffer and the rest: `drain(..boundary)`, which would panic
off a character boundary. -/
def cutSentence (buffer : Text) : Option (Text × Text) :=
  (findSentenceBoundary buffer).bind fun boundary => splitBytes boundary buffer

theorem splitBytes_findSentenceBoundary {buffer : Text} {boundary : Nat}
    (found : findSentenceBoundary buffer = some boundary) :
    ∃ sentence rest, splitBytes boundary buffer = some (sentence, rest) ∧
      buffer = sentence ++ rest ∧ sentence ≠ [] := by
  obtain ⟨sentence, rest, rfl, nonempty, rfl⟩ := findSentenceBoundaryFrom_spec found
  refine ⟨sentence, rest, ?_, rfl, nonempty⟩
  rw [Nat.zero_add]
  exact splitBytes_append sentence rest

theorem cutSentence_spec {buffer sentence rest : Text}
    (cut : cutSentence buffer = some (sentence, rest)) :
    buffer = sentence ++ rest ∧ sentence ≠ [] := by
  obtain ⟨boundary, found, split⟩ := Option.bind_eq_some_iff.mp cut
  obtain ⟨front, back, same, joined, nonempty⟩ := splitBytes_findSentenceBoundary found
  cases split.symm.trans same
  exact ⟨joined, nonempty⟩

theorem cutSentence_eq_none {buffer : Text} (uncut : cutSentence buffer = none) :
    findSentenceBoundary buffer = none := by
  cases found : findSentenceBoundary buffer with
  | none => rfl
  | some boundary =>
    obtain ⟨sentence, rest, split, _⟩ := splitBytes_findSentenceBoundary found
    simp [cutSentence, found, split] at uncut

def drainSentences (buffer : Text) : List Text × Text :=
  match _cut : cutSentence buffer with
  | none => ([], buffer)
  | some (sentence, rest) =>
    let later := drainSentences rest
    (sentence :: later.1, later.2)
termination_by buffer.length
decreasing_by
  obtain ⟨rfl, nonempty⟩ := cutSentence_spec _cut
  have positive := List.length_pos_of_ne_nil nonempty
  rw [List.length_append]
  omega

theorem drainSentences_flatten (buffer : Text) :
    (drainSentences buffer).1.flatten ++ (drainSentences buffer).2 = buffer := by
  fun_induction drainSentences buffer with
  | case1 => rfl
  | case2 buffer sentence rest cut later ih =>
    obtain ⟨rfl, _⟩ := cutSentence_spec cut
    rw [List.flatten_cons, List.append_assoc, ih]

theorem drainSentences_nonempty (buffer : Text) :
    ∀ sentence ∈ (drainSentences buffer).1, sentence ≠ [] := by
  fun_induction drainSentences buffer with
  | case1 => simp
  | case2 buffer sentence rest cut later ih =>
    simp only [List.mem_cons, forall_eq_or_imp]
    exact ⟨(cutSentence_spec cut).2, ih⟩

theorem drainSentences_rest (buffer : Text) :
    findSentenceBoundary (drainSentences buffer).2 = none := by
  fun_induction drainSentences buffer with
  | case1 buffer uncut => exact cutSentence_eq_none uncut
  | case2 buffer sentence rest cut later ih => exact ih

/-- Unicode `White_Space`, which `trim` strips. -/
def isWhitespace (ch : Char) : Bool :=
  let code := ch.toNat
  (9 ≤ code && code ≤ 13) || code == 0x20 || code == 0x85 || code == 0xA0 || code == 0x1680 ||
    (0x2000 ≤ code && code ≤ 0x200A) || code == 0x2028 || code == 0x2029 || code == 0x202F ||
    code == 0x205F || code == 0x3000

def isBlank (text : Text) : Bool := text.all isWhitespace

end Fswtch.Seat.SentenceSplit
