import Fswtch.Seat.SentenceSplit

/-! The rule by which the reply is cut: where a sentence may end, and that the search finds the
first such place and the drain leaves none. -/

namespace Fswtch.Seat.SentenceSplit
open Fswtch.Lib.CharBytes

def isTerminal (ch : Char) : Bool := ch = '。' ∨ ch = '！' ∨ ch = '？' ∨ ch = '\n'

/-- A Western mark, which ends a sentence before a space or at the end of the text. -/
def isMark (ch : Char) : Bool := ch = '.' ∨ ch = '!' ∨ ch = '?'

def isSpace (ch : Char) : Bool := ch = ' ' ∨ ch = '\n' ∨ ch = '\t' ∨ ch = '\r'

/-- A sentence may end between the two texts; `space` says what counts as white space. -/
inductive Boundary (space : Char → Bool) : Text → Text → Prop
  | terminal (front : Text) (mark : Char) (back : Text) (always : isTerminal mark = true) :
      Boundary space (front ++ [mark]) back
  | final (front : Text) (mark : Char) (western : isMark mark = true) : Boundary space (front ++ [mark]) []
  | spaced (front : Text) (mark after : Char) (back : Text) (western : isMark mark = true)
      (blank : space after = true) : Boundary space (front ++ [mark, after]) back

/-- The first place in the text at which a sentence may end. -/
structure FirstBoundary (space : Char → Bool) (text front back : Text) : Prop where
  whole : text = front ++ back
  ends : Boundary space front back
  first : ∀ front' back', text = front' ++ back' → Boundary space front' back' → front.length ≤ front'.length

def Unbounded (space : Char → Bool) (text : Text) : Prop :=
  ∀ front back, text = front ++ back → ¬Boundary space front back

theorem Boundary.cons {space : Char → Bool} {front back : Text} (boundary : Boundary space front back) (ch : Char) :
    Boundary space (ch :: front) back := by
  cases boundary with
  | terminal front mark back always => exact .terminal (ch :: front) mark back always
  | final front mark western => exact .final (ch :: front) mark western
  | spaced front mark after back western blank => exact .spaced (ch :: front) mark after back western blank

theorem Boundary.tail {space : Char → Bool} {ch next : Char} {front back : Text}
    (boundary : Boundary space (ch :: next :: front) back) :
    Boundary space (next :: front) back ∨ isMark ch = true ∧ space next = true ∧ front = [] := by
  generalize whole : ch :: next :: front = text at boundary
  cases boundary with
  | terminal inner mark back always =>
    cases inner with
    | nil => cases whole
    | cons first inner =>
      obtain ⟨rfl, same⟩ := List.cons.inj whole
      exact .inl (same ▸ .terminal inner mark back always)
  | final inner mark western =>
    cases inner with
    | nil => cases whole
    | cons first inner =>
      obtain ⟨rfl, same⟩ := List.cons.inj whole
      exact .inl (same ▸ .final inner mark western)
  | spaced inner mark after back western blank =>
    cases inner with
    | nil =>
      cases whole
      exact .inr ⟨western, blank, rfl⟩
    | cons first inner =>
      obtain ⟨rfl, same⟩ := List.cons.inj whole
      exact .inl (same ▸ .spaced inner mark after back western blank)

theorem boundary_singleton {space : Char → Bool} {ch : Char} {back : Text} :
    Boundary space [ch] back ↔ isTerminal ch = true ∨ isMark ch = true ∧ back = [] := by
  constructor
  · intro boundary
    generalize whole : [ch] = text at boundary
    cases boundary with
    | terminal front mark back always =>
      cases front with
      | nil =>
        cases whole
        exact .inl always
      | cons first front => simp at whole
    | final front mark western =>
      cases front with
      | nil =>
        cases whole
        exact .inr ⟨western, rfl⟩
      | cons first front => simp at whole
    | spaced front mark after back western blank => cases front <;> simp at whole
  · rintro (always | ⟨western, rfl⟩)
    · exact .terminal [] ch back always
    · exact .final [] ch western

theorem Boundary.ne_nil {space : Char → Bool} {front back : Text} (boundary : Boundary space front back) :
    front ≠ [] := by
  cases boundary <;> simp

/-- No sentence ends at the first character, nor at a space right after it. -/
structure Passes (space : Char → Bool) (ch : Char) (rest : Text) : Prop where
  here : ¬Boundary space [ch] rest
  next : ∀ after later, rest = after :: later → ¬(isMark ch = true ∧ space after = true)

theorem Passes.tail {space : Char → Bool} {ch : Char} {rest front back : Text} (passes : Passes space ch rest)
    (whole : ch :: rest = front ++ back) (boundary : Boundary space front back) :
    ∃ inner, front = ch :: inner ∧ rest = inner ++ back ∧ Boundary space inner back := by
  cases front with
  | nil => exact absurd rfl boundary.ne_nil
  | cons first inner =>
    obtain ⟨rfl, same⟩ := List.cons.inj whole
    refine ⟨inner, rfl, same, ?_⟩
    cases inner with
    | nil => exact absurd (same ▸ boundary) passes.here
    | cons after inner =>
      refine boundary.tail.resolve_right fun both => ?_
      exact passes.next after (inner ++ back) same ⟨both.1, both.2.1⟩

theorem FirstBoundary.cons {space : Char → Bool} {ch : Char} {rest front back : Text}
    (first : FirstBoundary space rest front back) (passes : Passes space ch rest) :
    FirstBoundary space (ch :: rest) (ch :: front) back := by
  refine ⟨by rw [first.whole, List.cons_append], first.ends.cons ch, fun front' back' whole boundary => ?_⟩
  obtain ⟨inner, rfl, same, later⟩ := passes.tail whole boundary
  exact Nat.succ_le_succ (first.first inner back' same later)

theorem Unbounded.cons {space : Char → Bool} {ch : Char} {rest : Text} (none : Unbounded space rest)
    (passes : Passes space ch rest) : Unbounded space (ch :: rest) := by
  intro front back whole boundary
  obtain ⟨inner, _, same, later⟩ := passes.tail whole boundary
  exact none inner back same later

theorem firstBoundary_singleton {space : Char → Bool} {ch : Char} {rest : Text} (boundary : Boundary space [ch] rest) :
    FirstBoundary space (ch :: rest) [ch] rest :=
  ⟨rfl, boundary, fun _ _ _ other => List.length_pos_of_ne_nil other.ne_nil⟩

theorem firstBoundary_pair {space : Char → Bool} {ch after : Char} {rest : Text} (western : isMark ch = true)
    (blank : space after = true) (plain : isTerminal ch = false) :
    FirstBoundary space (ch :: after :: rest) [ch, after] rest := by
  refine ⟨rfl, .spaced [] ch after rest western blank, fun front back whole boundary => ?_⟩
  match front with
  | [] => exact absurd rfl boundary.ne_nil
  | [only] =>
    obtain ⟨rfl, rfl⟩ := List.cons.inj whole
    rcases boundary_singleton.mp boundary with always | ⟨_, empty⟩
    · cases plain.symm.trans always
    · cases empty
  | _ :: _ :: more => simp

theorem isMark_plain {ch : Char} (western : isMark ch = true) : isTerminal ch = false := by
  simp only [isMark, decide_eq_true_eq] at western
  rcases western with rfl | rfl | rfl <;> decide

def Finds (byteIdx : Nat) (text : Text) : Option Nat → Prop
  | some boundary => ∃ front back, FirstBoundary isSpace text front back ∧ boundary = byteIdx + byteLen front
  | none => Unbounded isSpace text

theorem Finds.cons {byteIdx : Nat} {ch : Char} {rest : Text} {result : Option Nat}
    (found : Finds (byteIdx + ch.utf8Size) rest result) (passes : Passes isSpace ch rest) :
    Finds byteIdx (ch :: rest) result := by
  cases result with
  | none => exact Unbounded.cons found passes
  | some boundary =>
    obtain ⟨front, back, first, rfl⟩ := found
    exact ⟨ch :: front, back, first.cons passes, by rw [byteLen_cons, Nat.add_assoc]⟩

theorem findSentenceBoundaryFrom_finds (byteIdx : Nat) (text : Text) :
    Finds byteIdx text (findSentenceBoundaryFrom byteIdx text) := by
  fun_induction findSentenceBoundaryFrom byteIdx text with
  | case1 byteIdx =>
    intro front back whole boundary
    obtain ⟨rfl, _⟩ := List.append_eq_nil_iff.mp whole.symm
    exact boundary.ne_nil rfl
  | case2 byteIdx ch rest past chinese =>
    have always : isTerminal ch = true := by
      simp only [isTerminal, decide_eq_true_eq]
      tauto
    exact ⟨[ch], rest, firstBoundary_singleton (boundary_singleton.mpr (.inl always)), by simp [past]⟩
  | case3 byteIdx rest past _ =>
    exact ⟨['\n'], rest, firstBoundary_singleton (boundary_singleton.mpr (.inl rfl)), by simp [past]⟩
  | case4 byteIdx ch past _ _ western =>
    have mark : isMark ch = true := decide_eq_true western
    exact ⟨[ch], [], firstBoundary_singleton (boundary_singleton.mpr (.inr ⟨mark, rfl⟩)), by simp [past]⟩
  | case5 byteIdx ch past _ _ western next later blank =>
    have mark : isMark ch = true := decide_eq_true western
    refine ⟨[ch, next], later, firstBoundary_pair mark (decide_eq_true blank) (isMark_plain mark), ?_⟩
    simp [past, Nat.add_assoc]
  | case6 byteIdx ch past _ _ western next later unspaced ih =>
    have mark : isMark ch = true := decide_eq_true western
    refine ih.cons ⟨fun boundary => ?_, fun after rest same both => ?_⟩
    · rcases boundary_singleton.mp boundary with always | ⟨_, empty⟩
      · cases (isMark_plain mark).symm.trans always
      · cases empty
    · obtain ⟨rfl, _⟩ := List.cons.inj same
      exact unspaced (of_decide_eq_true both.2)
  | case7 byteIdx ch rest past chinese newline western ih =>
    have plain : isMark ch = false := decide_eq_false western
    refine ih.cons ⟨fun boundary => ?_, fun after later same both => ?_⟩
    · rcases boundary_singleton.mp boundary with always | ⟨mark, _⟩
      · simp only [isTerminal, decide_eq_true_eq] at always
        tauto
      · cases plain.symm.trans mark
    · cases plain.symm.trans both.1

theorem findSentenceBoundary_first {text : Text} {boundary : Nat} (found : findSentenceBoundary text = some boundary) :
    0 < boundary ∧ boundary ≤ byteLen text ∧
      ∃ front back, splitBytes boundary text = some (front, back) ∧ FirstBoundary isSpace text front back := by
  have finds := findSentenceBoundaryFrom_finds 0 text
  rw [show findSentenceBoundaryFrom 0 text = some boundary from found] at finds
  obtain ⟨front, back, first, rfl⟩ := finds
  rw [Nat.zero_add]
  refine ⟨?_, ?_, front, back, ?_, first⟩
  · obtain ⟨ch, rest, rfl⟩ := List.exists_cons_of_ne_nil first.ends.ne_nil
    rw [byteLen_cons]
    exact Nat.add_pos_left ch.utf8Size_pos _
  · rw [first.whole, byteLen_append]
    exact Nat.le_add_right _ _
  · rw [first.whole]
    exact splitBytes_append front back

theorem findSentenceBoundary_eq_none {text : Text} : findSentenceBoundary text = none ↔ Unbounded isSpace text := by
  have finds := findSentenceBoundaryFrom_finds 0 text
  constructor
  · intro nothing
    rwa [show findSentenceBoundaryFrom 0 text = none from nothing] at finds
  · intro unbounded
    cases found : findSentenceBoundary text with
    | none => rfl
    | some boundary =>
      obtain ⟨_, _, front, back, _, first⟩ := findSentenceBoundary_first found
      exact absurd first.ends (unbounded front back first.whole)

/-- Sentences cut off the text one after the other, each at the first boundary of what is
left, until none is left. -/
inductive Drained : Text → List Text → Text → Prop
  | none {text : Text} (unbounded : Unbounded isSpace text) : Drained text [] text
  | cut {text sentence back : Text} {sentences : List Text} {rest : Text}
      (first : FirstBoundary isSpace text sentence back) (later : Drained back sentences rest) :
      Drained text (sentence :: sentences) rest

theorem cutSentence_first {buffer sentence rest : Text} (cut : cutSentence buffer = some (sentence, rest)) :
    FirstBoundary isSpace buffer sentence rest := by
  obtain ⟨boundary, found, split⟩ := Option.bind_eq_some_iff.mp cut
  obtain ⟨_, _, front, back, same, first⟩ := findSentenceBoundary_first found
  cases split.symm.trans same
  exact first

theorem drainSentences_drained (text : Text) : Drained text (drainSentences text).1 (drainSentences text).2 := by
  fun_induction drainSentences text with
  | case1 buffer uncut => exact .none (findSentenceBoundary_eq_none.mp (cutSentence_eq_none uncut))
  | case2 buffer sentence rest cut later ih => exact .cut (cutSentence_first cut) ih

/-- An index that is found is that of the first boundary, there is no index where there is no
boundary, and the drain cuts the text at its boundaries and gives it back in pieces. -/
theorem sentences_partition (text : Text) :
    (∀ boundary, findSentenceBoundary text = some boundary → 0 < boundary ∧ boundary ≤ byteLen text ∧
        ∃ front back, splitBytes boundary text = some (front, back) ∧ FirstBoundary isSpace text front back) ∧
      (findSentenceBoundary text = none ↔ Unbounded isSpace text) ∧
      Drained text (drainSentences text).1 (drainSentences text).2 ∧
      (drainSentences text).1.flatten ++ (drainSentences text).2 = text ∧
      Unbounded isSpace (drainSentences text).2 :=
  ⟨fun _ => findSentenceBoundary_first, findSentenceBoundary_eq_none, drainSentences_drained text,
    drainSentences_flatten text, findSentenceBoundary_eq_none.mp (drainSentences_rest text)⟩

/-- With white space of any kind after a mark, as in this text an ideographic space, the rule
finds a boundary in what the drain leaves. -/
theorem ideographicSpace_not_partition :
    ¬∀ text, (∀ boundary, findSentenceBoundary text = some boundary →
        ∃ front back, splitBytes boundary text = some (front, back) ∧ FirstBoundary isWhitespace text front back) ∧
      Unbounded isWhitespace (drainSentences text).2 := by
  intro partition
  have unbounded := (partition ['.', '\u3000', 'a']).2
  have kept : (drainSentences ['.', '\u3000', 'a']).2 = ['.', '\u3000', 'a'] := by
    unfold drainSentences
    rfl
  rw [kept] at unbounded
  exact unbounded ['.', '\u3000'] ['a'] rfl (.spaced [] '.' '\u3000' ['a'] rfl rfl)

end Fswtch.Seat.SentenceSplit
