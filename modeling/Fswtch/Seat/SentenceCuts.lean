import Fswtch.Seat.ReplyText
import Fswtch.Seat.SentenceRule

/-! How the cut of a text into deltas shows in its sentences. A delta that ends right after a
Western mark ends the sentence there, whatever follows; no other cut makes a difference. -/

namespace Fswtch.Seat.SentenceSplit
open Fswtch.Seat.ReplyText

def markLast : Text → List (Char × Bool)
  | [] => []
  | ch :: rest => (ch, rest.isEmpty) :: markLast rest

def endsAt (read : Text) (ch : Char) (cut : Bool) : Bool :=
  isTerminal ch || (isMark ch && cut) || (isSpace ch && read.getLast?.any isMark)

def scan (read : Text) : List (Char × Bool) → List Text × Text
  | [] => ([], read)
  | (ch, cut) :: rest =>
    if endsAt read ch cut then
      let later := scan [] rest
      ((read ++ [ch]) :: later.1, later.2)
    else scan (read ++ [ch]) rest

theorem boundary_iff_endsAt {read rest : Text} {ch : Char} :
    Boundary isSpace (read ++ [ch]) rest ↔ endsAt read ch rest.isEmpty = true := by
  simp only [endsAt, Bool.or_eq_true, Bool.and_eq_true, List.isEmpty_iff, Option.any_eq_true]
  constructor
  · intro boundary
    generalize whole : read ++ [ch] = text at boundary
    cases boundary with
    | terminal front mark back always =>
      obtain ⟨_, same⟩ := List.append_inj' whole rfl
      cases same
      exact .inl (.inl always)
    | final front mark western =>
      obtain ⟨_, same⟩ := List.append_inj' whole rfl
      cases same
      exact .inl (.inr ⟨western, rfl⟩)
    | spaced front mark after back western blank =>
      have regrouped : read ++ [ch] = (front ++ [mark]) ++ [after] := by rw [whole, List.append_assoc]; rfl
      obtain ⟨before, same⟩ := List.append_inj' regrouped rfl
      cases same
      exact .inr ⟨blank, mark, by rw [before, List.getLast?_concat], western⟩
  · rintro ((always | ⟨western, rfl⟩) | ⟨blank, mark, last, western⟩)
    · exact .terminal read ch rest always
    · exact .final read ch western
    · obtain ⟨front, rfl⟩ := List.getLast?_eq_some_iff.mp last
      rw [List.append_assoc]
      exact .spaced front mark ch rest western blank

def Read (read rest : Text) : Prop :=
  ∀ front back, read ++ rest = front ++ back → Boundary isSpace front back → read.length < front.length

theorem read_nil (rest : Text) : Read [] rest :=
  fun _ _ _ boundary => List.length_pos_of_ne_nil boundary.ne_nil

theorem read_of_unbounded {read : Text} (unbounded : Unbounded isSpace read) (rest : Text) : Read read rest := by
  intro front back whole boundary
  by_contra short
  obtain ⟨more, same⟩ : front <+: read :=
    List.prefix_of_prefix_length_le ⟨back, whole.symm⟩ ⟨rest, rfl⟩ (Nat.le_of_not_lt short)
  apply unbounded front more same.symm
  cases boundary with
  | terminal before mark back always => exact .terminal before mark more always
  | spaced before mark after back western blank => exact .spaced before mark after more western blank
  | final before mark western =>
    have lengths := congrArg List.length whole
    have sizes := congrArg List.length same
    simp only [List.append_nil, List.length_append] at lengths sizes
    have empty : more = [] := List.eq_nil_of_length_eq_zero (by omega)
    rw [empty]
    exact .final before mark western

theorem unbounded_of_read {read : Text} (known : Read read []) : Unbounded isSpace read := by
  intro front back whole boundary
  have longer := known front back (by rw [List.append_nil, whole]) boundary
  rw [whole, List.length_append] at longer
  omega

theorem Read.ends {read rest : Text} {ch : Char} (known : Read read (ch :: rest))
    (boundary : Boundary isSpace (read ++ [ch]) rest) :
    FirstBoundary isSpace (read ++ ch :: rest) (read ++ [ch]) rest where
  whole := by rw [List.append_assoc]; rfl
  ends := boundary
  first front back whole other := by
    rw [List.length_append]
    exact known front back whole other

theorem Read.goes_on {read rest : Text} {ch : Char} (known : Read read (ch :: rest))
    (inside : ¬Boundary isSpace (read ++ [ch]) rest) : Read (read ++ [ch]) rest := by
  intro front back whole boundary
  have longer : read.length < front.length := by
    apply known front back _ boundary
    rw [← whole, List.append_assoc]
    rfl
  rw [List.length_append, List.length_singleton]
  apply Nat.lt_of_le_of_ne longer
  intro same
  obtain ⟨rfl, rfl⟩ := List.append_inj whole (by rw [List.length_append]; exact same)
  exact inside boundary

theorem FirstBoundary.unique {space : Char → Bool} {text front back front' back' : Text}
    (first : FirstBoundary space text front back) (other : FirstBoundary space text front' back') :
    front = front' ∧ back = back' := by
  have le := first.first front' back' other.whole other.ends
  have ge := other.first front back first.whole first.ends
  exact List.append_inj (first.whole.symm.trans other.whole) (Nat.le_antisymm le ge)

theorem drainSentences_first {text sentence back : Text} (first : FirstBoundary isSpace text sentence back) :
    drainSentences text = (sentence :: (drainSentences back).1, (drainSentences back).2) := by
  rw [drainSentences]
  split
  next uncut =>
    have unbounded := findSentenceBoundary_eq_none.mp (cutSentence_eq_none uncut)
    exact absurd first.ends (unbounded sentence back first.whole)
  next other rest cut =>
    obtain ⟨rfl, rfl⟩ := first.unique (cutSentence_first cut)
    rfl

theorem drainSentences_unbounded {text : Text} (unbounded : Unbounded isSpace text) : drainSentences text = ([], text) := by
  rw [drainSentences]
  split
  next => rfl
  next sentence back cut =>
    have first := cutSentence_first cut
    exact absurd first.ends (unbounded sentence back first.whole)

theorem drainSentences_scan {read text : Text} (known : Read read text) :
    drainSentences (read ++ text) = scan read (markLast text) := by
  induction text generalizing read with
  | nil =>
    rw [List.append_nil]
    exact drainSentences_unbounded (unbounded_of_read known)
  | cons ch rest ih =>
    rw [markLast, scan]
    by_cases boundary : Boundary isSpace (read ++ [ch]) rest
    · rw [if_pos (boundary_iff_endsAt.mp boundary), drainSentences_first (known.ends boundary), ← ih (read_nil rest)]
      rfl
    · rw [if_neg fun ends => boundary (boundary_iff_endsAt.mpr ends), ← ih (known.goes_on boundary), List.append_assoc]
      rfl

theorem scan_append (read : Text) (front back : List (Char × Bool)) :
    scan read (front ++ back) =
      ((scan read front).1 ++ (scan (scan read front).2 back).1, (scan (scan read front).2 back).2) := by
  fun_induction scan read front with
  | case1 read => rfl
  | case2 read ch cut rest ends later ih =>
    rw [List.cons_append, scan, if_pos ends, ih]
    rfl
  | case3 read ch cut rest unended ih => rw [List.cons_append, scan, if_neg unended, ih]

def annotate (deltas : List Text) : List (Char × Bool) := deltas.flatMap markLast

theorem onTextDelta_scan {s : StreamState} (unbounded : Unbounded isSpace s.sentenceBuffer) (delta : Text) :
    let scanned := scan s.sentenceBuffer (markLast delta)
    let next := s.onTextDelta true false delta
    next.cut = s.cut ++ scanned.1 ∧ next.sentenceBuffer = scanned.2 ∧ Unbounded isSpace next.sentenceBuffer := by
  obtain ⟨cut, _, _, buffer⟩ := onTextDelta_spec s delta
  rw [← drainSentences_scan (read_of_unbounded unbounded delta)]
  refine ⟨cut, buffer, ?_⟩
  rw [buffer]
  exact findSentenceBoundary_eq_none.mp (drainSentences_rest _)

theorem streamWithTools_scan (deltas : List Text) :
    let streamed := (streamWithTools true false deltas).1
    (streamed.cut, streamed.sentenceBuffer) = scan [] (annotate deltas) := by
  have grows : ∀ (rest : List Text) (state : StreamState × Text), Unbounded isSpace state.1.sentenceBuffer →
      let final := (rest.foldl (fun state delta => (state.1.onTextDelta true false delta, state.2 ++ delta)) state).1
      let scanned := scan state.1.sentenceBuffer (annotate rest)
      final.cut = state.1.cut ++ scanned.1 ∧ final.sentenceBuffer = scanned.2 := by
    intro rest
    induction rest with
    | nil => exact fun state _ => ⟨(List.append_nil _).symm, rfl⟩
    | cons delta rest ih =>
      intro state unbounded
      obtain ⟨cut, buffer, left⟩ := onTextDelta_scan unbounded delta
      obtain ⟨laterCut, laterBuffer⟩ := ih (state.1.onTextDelta true false delta, state.2 ++ delta) left
      have split : annotate (delta :: rest) = markLast delta ++ annotate rest := rfl
      rw [split, scan_append, ← buffer]
      exact ⟨laterCut.trans (by rw [cut, List.append_assoc]), laterBuffer⟩
  obtain ⟨cut, buffer⟩ := grows deltas ({}, []) (unbounded_of_read (read_nil []))
  exact Prod.ext cut buffer

def CutMark (marked : List (Char × Bool)) (p : Nat) : Prop :=
  ∃ mark, marked[p]? = some (mark, true) ∧ isMark mark = true

/-- A delta ends right behind the Western mark at `p`. -/
def CutAfterMark (deltas : List Text) (p : Nat) : Prop :=
  (∃ mark, deltas.flatten[p]? = some mark ∧ isMark mark = true) ∧
    ∃ front back, deltas = front ++ back ∧ front.flatten.length = p + 1

theorem markLast_map (text : Text) : (markLast text).map Prod.fst = text := by
  induction text with
  | nil => rfl
  | cons ch rest ih => rw [markLast, List.map_cons, ih]

theorem annotate_map (deltas : List Text) : (annotate deltas).map Prod.fst = deltas.flatten := by
  rw [annotate, List.map_flatMap, List.flatten_eq_flatMap]
  congr 1
  exact funext markLast_map

theorem markLast_getElem? {text : Text} {p : Nat} {ch : Char} {cut : Bool} :
    (markLast text)[p]? = some (ch, cut) ↔ text[p]? = some ch ∧ cut = decide (p + 1 = text.length) := by
  induction text generalizing p with
  | nil => simp [markLast]
  | cons first rest ih =>
    rw [markLast]
    cases p with
    | zero => cases rest <;> simp [eq_comm]
    | succ p => simp only [List.getElem?_cons_succ, ih, List.length_cons, Nat.add_right_cancel_iff]

theorem annotate_cut {deltas : List Text} {p : Nat} {ch : Char} :
    (annotate deltas)[p]? = some (ch, true) ↔
      deltas.flatten[p]? = some ch ∧ ∃ front back, deltas = front ++ back ∧ front.flatten.length = p + 1 := by
  induction deltas generalizing p with
  | nil => simp [annotate]
  | cons delta rest ih =>
    have size : (markLast delta).length = delta.length := by
      have sizes := congrArg List.length (markLast_map delta)
      rwa [List.length_map] at sizes
    rw [show annotate (delta :: rest) = markLast delta ++ annotate rest from rfl, List.flatten_cons]
    by_cases here : p < delta.length
    · rw [List.getElem?_append_left (size ▸ here), List.getElem?_append_left here, markLast_getElem?]
      apply and_congr_right'
      rw [eq_comm, decide_eq_true_iff]
      constructor
      · exact fun last => ⟨[delta], rest, rfl, by simp [last]⟩
      · rintro ⟨front, back, whole, ends⟩
        cases front with
        | nil => simp at ends
        | cons first front =>
          obtain ⟨rfl, _⟩ := List.cons.inj whole
          rw [List.flatten_cons, List.length_append] at ends
          omega
    · obtain ⟨q, rfl⟩ := Nat.exists_eq_add_of_le (Nat.le_of_not_lt here)
      rw [List.getElem?_append_right (by omega), List.getElem?_append_right (by omega), size,
        Nat.add_sub_cancel_left, ih]
      apply and_congr_right'
      constructor
      · rintro ⟨front, back, rfl, ends⟩
        refine ⟨delta :: front, back, rfl, ?_⟩
        rw [List.flatten_cons, List.length_append, ends, Nat.add_assoc]
      · rintro ⟨front, back, whole, ends⟩
        cases front with
        | nil => simp at ends
        | cons first front =>
          obtain ⟨rfl, same⟩ := List.cons.inj whole
          refine ⟨front, back, same, ?_⟩
          rw [List.flatten_cons, List.length_append] at ends
          omega

theorem cutMark_annotate {deltas : List Text} {p : Nat} : CutMark (annotate deltas) p ↔ CutAfterMark deltas p := by
  constructor
  · rintro ⟨mark, cut, western⟩
    obtain ⟨here, ends⟩ := annotate_cut.mp cut
    exact ⟨⟨mark, here, western⟩, ends⟩
  · rintro ⟨⟨mark, here, western⟩, ends⟩
    exact ⟨mark, annotate_cut.mpr ⟨here, ends⟩, western⟩

def Agree : List (Char × Bool) → List (Char × Bool) → Prop
  | (ch, cut) :: rest, (_, cut') :: rest' => (isMark ch = true → cut = cut') ∧ Agree rest rest'
  | _, _ => True

theorem agree_iff {xs ys : List (Char × Bool)} (same : xs.map Prod.fst = ys.map Prod.fst) :
    Agree xs ys ↔ ∀ p, CutMark xs p ↔ CutMark ys p := by
  induction xs generalizing ys with
  | nil =>
    obtain rfl := List.map_eq_nil_iff.mp same.symm
    exact ⟨fun _ _ => Iff.rfl, fun _ => trivial⟩
  | cons x xs ih =>
    obtain ⟨y, ys, rfl, chars, rest⟩ := List.map_eq_cons_iff.mp same.symm
    obtain ⟨ch, cut⟩ := x
    obtain ⟨_, cut'⟩ := y
    cases chars
    rw [Agree, ih rest.symm]
    refine Iff.trans ?_ Nat.and_forall_add_one
    apply and_congr
    · simp only [CutMark, List.getElem?_cons_zero, Option.some.injEq, Prod.mk.injEq]
      cases cut <;> cases cut' <;> simp
    · simp only [CutMark, List.getElem?_cons_succ]

def heard (pieces : List Text × Text) : List Text × Text := (pieces.1.filter (fun piece => !isBlank piece), pieces.2)

theorem endsAt_of_isMark {read : Text} {ch : Char} (western : isMark ch = true) (cut : Bool) : endsAt read ch cut = cut := by
  have plain : isTerminal ch = false := isMark_plain western
  have dense : isSpace ch = false := by
    simp only [isMark, decide_eq_true_eq] at western
    rcases western with rfl | rfl | rfl <;> decide
  rw [endsAt, plain, dense, western]
  simp

theorem endsAt_of_not_isMark {ch : Char} (plain : ¬isMark ch = true) (read : Text) (cut cut' : Bool) :
    endsAt read ch cut = endsAt read ch cut' := by
  rw [Bool.not_eq_true] at plain
  rw [endsAt, endsAt, plain, Bool.false_and, Bool.false_and]

theorem not_isBlank_of_isMark (read : Text) {ch : Char} (western : isMark ch = true) (more : Text) :
    isBlank (read ++ [ch] ++ more) = false := by
  have black : isWhitespace ch = false := by
    simp only [isMark, decide_eq_true_eq] at western
    rcases western with rfl | rfl | rfl <;> decide
  simp [isBlank, black]

theorem scan_first (read : Text) (marked : List (Char × Bool)) :
    (scan read marked).1 = [] ∨ ∃ more later, more ≠ [] ∧ (scan read marked).1 = (read ++ more) :: later := by
  fun_induction scan read marked with
  | case1 read => exact .inl rfl
  | case2 read ch cut rest ends later ih => exact .inr ⟨[ch], later.1, List.cons_ne_nil ch [], rfl⟩
  | case3 read ch cut rest unended ih =>
    apply ih.imp_right
    rintro ⟨more, later, _, same⟩
    exact ⟨ch :: more, later, List.cons_ne_nil ch more, by rw [same, List.append_assoc]; rfl⟩

theorem heard_ne_of_isMark {read rest : Text} {ch : Char} (western : isMark ch = true) (later : List Text)
    (marked : List (Char × Bool)) :
    heard ((read ++ [ch]) :: later, rest) ≠ heard (scan (read ++ [ch]) marked) := by
  intro same
  have loud := not_isBlank_of_isMark read western []
  rw [List.append_nil] at loud
  have pieces := congrArg Prod.fst same
  rw [heard, heard, List.filter_cons_of_pos (by rw [loud]; rfl)] at pieces
  rcases scan_first (read ++ [ch]) marked with none | ⟨more, others, nonempty, first⟩
  · rw [none] at pieces
    cases pieces
  · have louder := not_isBlank_of_isMark read western more
    rw [first, List.filter_cons_of_pos (by rw [louder]; rfl)] at pieces
    have short := (List.cons.inj pieces).1
    exact nonempty (List.self_eq_append_right.mp short)

theorem heard_cons {piece : Text} {one other : List Text × Text} :
    heard (piece :: one.1, one.2) = heard (piece :: other.1, other.2) ↔ heard one = heard other := by
  simp only [heard, Prod.mk.injEq]
  apply and_congr_left'
  rw [List.filter_cons, List.filter_cons]
  split
  next => exact List.cons_inj_right piece
  next => exact Iff.rfl

/-- Two cuts are heard alike when the same marks are cut. -/
theorem heard_scan_iff (read : Text) {xs ys : List (Char × Bool)} (same : xs.map Prod.fst = ys.map Prod.fst) :
    heard (scan read xs) = heard (scan read ys) ↔ Agree xs ys := by
  induction xs generalizing read ys with
  | nil =>
    obtain rfl := List.map_eq_nil_iff.mp same.symm
    exact ⟨fun _ => trivial, fun _ => rfl⟩
  | cons x xs ih =>
    obtain ⟨y, ys, rfl, chars, rest⟩ := List.map_eq_cons_iff.mp same.symm
    obtain ⟨ch, cut⟩ := x
    obtain ⟨_, cut'⟩ := y
    cases chars
    by_cases alike : endsAt read ch cut = endsAt read ch cut'
    · have bits : isMark ch = true → cut = cut' := by
        intro western
        rwa [endsAt_of_isMark western, endsAt_of_isMark western] at alike
      rw [Agree, and_iff_right bits, scan, scan, ← alike]
      split
      next => rw [heard_cons, ih [] rest.symm]
      next => exact ih (read ++ [ch]) rest.symm
    · have western : isMark ch = true := by
        by_contra plain
        exact alike (endsAt_of_not_isMark plain read cut cut')
      rw [endsAt_of_isMark western, endsAt_of_isMark western] at alike
      have disagree : ¬Agree ((ch, cut) :: xs) ((ch, cut') :: ys) := fun agree => alike (agree.1 western)
      apply iff_of_false _ disagree
      rw [scan, scan, endsAt_of_isMark western, endsAt_of_isMark western]
      cases cut <;> cases cut'
      · exact absurd rfl alike
      · exact (heard_ne_of_isMark western _ xs).symm
      · exact heard_ne_of_isMark western _ ys
      · exact absurd rfl alike

theorem streamWithTools_heard (deltas : List Text) :
    let streamed := (streamWithTools true false deltas).1
    (streamed.spawned, streamed.sentenceBuffer) = heard (scan [] (annotate deltas)) := by
  intro streamed
  rw [← streamWithTools_scan deltas, heard, (streamWithTools_streamed deltas).spawned]

/-- Two cuts of one text give the same sentences and the same remainder when the same Western
marks end a delta in both. -/
theorem sentences_same_iff {first second : List Text} (same : first.flatten = second.flatten) :
    (streamWithTools true false first).1.spawned = (streamWithTools true false second).1.spawned ∧
        (streamWithTools true false first).1.sentenceBuffer = (streamWithTools true false second).1.sentenceBuffer ↔
      ∀ p, CutAfterMark first p ↔ CutAfterMark second p := by
  have chars : (annotate first).map Prod.fst = (annotate second).map Prod.fst := by
    rw [annotate_map, annotate_map, same]
  rw [← Prod.mk.injEq, streamWithTools_heard, streamWithTools_heard, heard_scan_iff [] chars, agree_iff chars]
  exact forall_congr' fun p => by rw [cutMark_annotate, cutMark_annotate]

/-- A number cut in two and a space cut off its sentence make no difference. -/
theorem sentences_same_number :
    (streamWithTools true false ["Hi. ".toList, "3.14".toList]).1.spawned =
        (streamWithTools true false ["Hi".toList, ". 3".toList, ".14".toList]).1.spawned ∧
      (streamWithTools true false ["Hi. ".toList, "3.14".toList]).1.sentenceBuffer =
        (streamWithTools true false ["Hi".toList, ". 3".toList, ".14".toList]).1.sentenceBuffer := by
  apply (sentences_same_iff (by rfl)).mpr
  intro p
  rw [← cutMark_annotate, ← cutMark_annotate]
  exact (agree_iff (by rfl)).mp (by simp [Agree, annotate, markLast, isMark]) p

/-- A number cut after its point is two sentences, and uncut it is none. -/
theorem decimalNumber_split :
    ¬∀ first second : List Text, (∀ delta ∈ first ++ second, delta ≠ []) → first.flatten = second.flatten →
      (streamWithTools true false first).1.spawned = (streamWithTools true false second).1.spawned ∧
        (streamWithTools true false first).1.sentenceBuffer = (streamWithTools true false second).1.sentenceBuffer := by
  intro independent
  have same := (independent ["3.".toList, "14".toList] ["3.14".toList] (by decide) rfl).2
  have cut := congrArg Prod.snd (streamWithTools_heard ["3.".toList, "14".toList])
  have whole := congrArg Prod.snd (streamWithTools_heard ["3.14".toList])
  have differ := cut.symm.trans (same.trans whole)
  revert differ
  decide

end Fswtch.Seat.SentenceSplit
