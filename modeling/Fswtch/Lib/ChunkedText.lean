import Fswtch.Lib.ByteReader

/-! Text that arrives in chunks of bytes. Each chunk is decoded by itself, a chunk that is
not UTF-8 counts as empty, and the text is cut at its blank lines as it comes in. Where
every chunk decodes, it does not matter how the bytes were cut into chunks. -/

namespace Fswtch.Lib.ChunkedText
open Fswtch.Lib.ByteReader

def decoded (chunk : List UInt8) : List Char := ((fromUtf8 chunk).map String.toList).getD []

theorem utf8_append (first second : String) : utf8 (first ++ second) = utf8 first ++ utf8 second := by
  simp [utf8, String.toByteArray_append]

theorem utf8_ofList_append (first second : List Char) :
    utf8 (String.ofList (first ++ second)) =
      utf8 (String.ofList first) ++ utf8 (String.ofList second) := by
  rw [String.ofList_append, utf8_append]

@[simp] theorem utf8_empty : utf8 "" = [] := rfl

theorem utf8_decoded {chunk : List UInt8} (valid : (fromUtf8 chunk).isSome) :
    utf8 (String.ofList (decoded chunk)) = chunk := by
  obtain ⟨text, known⟩ := Option.isSome_iff_exists.mp valid
  rw [decoded, known]
  simpa using ((fromUtf8_eq_some chunk text).mp known).symm

theorem decoded_shorter {chunk : List UInt8} (invalid : ¬(fromUtf8 chunk).isSome) :
    (utf8 (String.ofList (decoded chunk))).length < chunk.length := by
  have none : fromUtf8 chunk = none := by simpa using invalid
  have nonempty : chunk ≠ [] := by
    rintro rfl
    have empty := (fromUtf8_eq_some [] "").mpr rfl
    cases none.symm.trans empty
  simpa [decoded, none] using List.length_pos_of_ne_nil nonempty

theorem utf8_decoded_le (chunk : List UInt8) :
    (utf8 (String.ofList (decoded chunk))).length ≤ chunk.length := by
  by_cases valid : (fromUtf8 chunk).isSome
  · exact Nat.le_of_eq (congrArg List.length (utf8_decoded valid))
  · exact Nat.le_of_lt (decoded_shorter valid)

theorem utf8_decoded_flatten (chunks : List (List UInt8)) :
    (utf8 (String.ofList (chunks.flatMap decoded))).length ≤ chunks.flatten.length ∧
      ((∀ chunk ∈ chunks, (fromUtf8 chunk).isSome) ↔
        utf8 (String.ofList (chunks.flatMap decoded)) = chunks.flatten) := by
  induction chunks with
  | nil => simp
  | cons chunk rest ih =>
    obtain ⟨bound, whole⟩ := ih
    have front := utf8_decoded_le chunk
    rw [List.flatMap_cons, List.flatten_cons, utf8_ofList_append, List.length_append, List.length_append]
    refine ⟨by omega, ?_⟩
    rw [List.forall_mem_cons, whole]
    constructor
    · rintro ⟨valid, same⟩
      rw [utf8_decoded valid, same]
    · intro same
      have lengths := congrArg List.length same
      rw [List.length_append, List.length_append] at lengths
      by_cases valid : (fromUtf8 chunk).isSome
      · rw [utf8_decoded valid] at same
        exact ⟨valid, List.append_cancel_left same⟩
      · have shorter := decoded_shorter valid
        omega

theorem decoded_eq_iff {chunks : List (List UInt8)} {text : String} (whole : chunks.flatten = utf8 text) :
    chunks.flatMap decoded = text.toList ↔ ∀ chunk ∈ chunks, (fromUtf8 chunk).isSome := by
  rw [(utf8_decoded_flatten chunks).2, whole]
  constructor
  · intro same
    rw [same, String.ofList_toList]
  · intro same
    have strings := utf8_injective same
    rw [← strings, String.toList_ofList]

theorem fromUtf8_isSome (bytes : List UInt8) :
    (fromUtf8 bytes).isSome ↔ ByteArray.IsValidUTF8 ⟨bytes.toArray⟩ := by
  unfold fromUtf8 String.fromUTF8?
  split
  next valid => simpa using valid
  next invalid => simpa using invalid

theorem utf8_cons (c : Char) (rest : List Char) :
    utf8 (String.ofList (c :: rest)) = String.utf8EncodeChar c ++ utf8 (String.ofList rest) := by
  simp [utf8, List.utf8Encode]

theorem isSome_encodeChar_append (c : Char) (bytes : List UInt8) :
    (fromUtf8 (String.utf8EncodeChar c ++ bytes)).isSome ↔ (fromUtf8 bytes).isSome := by
  have same : (⟨(String.utf8EncodeChar c ++ bytes).toArray⟩ : ByteArray) =
      [c].utf8Encode ++ ⟨bytes.toArray⟩ := by
    apply ByteArray.ext
    simp [List.utf8Encode_singleton]
  rw [fromUtf8_isSome, fromUtf8_isSome, same]
  exact ByteArray.isValidUTF8_utf8Encode_singleton_append_iff

theorem isSome_utf8_append (text : List Char) (bytes : List UInt8) :
    (fromUtf8 (utf8 (String.ofList text) ++ bytes)).isSome ↔ (fromUtf8 bytes).isSome := by
  induction text with
  | nil => rfl
  | cons c rest ih => rw [utf8_cons, List.append_assoc, isSome_encodeChar_append, ih]

theorem firstByte_of_isSome {b : UInt8} {rest : List UInt8} (valid : (fromUtf8 (b :: rest)).isSome) :
    b.IsUTF8FirstByte :=
  ((fromUtf8_isSome _).mp valid).isUTF8FirstByte_getElem_zero (by simp [ByteArray.size])

theorem exists_cut {c : Char} (wide : c.utf8Size ≠ 1) :
    ∃ front back, String.utf8EncodeChar c = front ++ back ∧ ¬(fromUtf8 front).isSome ∧
      ∀ rest, ¬(fromUtf8 (back ++ rest)).isSome := by
  have length : (String.utf8EncodeChar c).length = c.utf8Size := by simp
  have positive := c.utf8Size_pos
  match bytes : String.utf8EncodeChar c with
  | [] => simp at bytes
  | [_] => simp [bytes] at length; omega
  | first :: second :: tail =>
    have later : ¬second.IsUTF8FirstByte := by
      have index : 1 < (String.utf8EncodeChar c).length := by simp [bytes]
      have unlike := @UInt8.isUTF8FirstByte_getElem_utf8EncodeChar c 1 index
      simpa [bytes] using unlike
    have broken : ∀ rest, ¬(fromUtf8 (second :: tail ++ rest)).isSome :=
      fun rest valid => later (firstByte_of_isSome valid)
    refine ⟨[first], second :: tail, rfl, fun valid => ?_, broken⟩
    obtain ⟨text, known⟩ := Option.isSome_iff_exists.mp valid
    have decoded := (fromUtf8_eq_some _ _).mp known
    have whole := (isSome_utf8_append text.toList (second :: tail)).mp (by
      rw [String.ofList_toList, ← decoded]
      have encoded := (isSome_encodeChar_append c []).mpr (by rfl)
      simpa [bytes] using encoded)
    exact broken [] (by simpa using whole)

theorem decoded_of_invalid {chunk : List UInt8} (invalid : ¬(fromUtf8 chunk).isSome) :
    decoded chunk = [] := by
  have none : fromUtf8 chunk = none := by simpa using invalid
  rw [decoded, none]
  rfl

theorem exists_lost_cut {text : List Char} {c : Char} (member : c ∈ text) (wide : c.utf8Size ≠ 1) :
    ∃ front back, front ++ back = utf8 (String.ofList text) ∧ decoded front = [] ∧ decoded back = [] := by
  obtain ⟨before, after, rfl⟩ := List.append_of_mem member
  obtain ⟨front, back, bytes, first, second⟩ := exists_cut wide
  refine ⟨utf8 (String.ofList before) ++ front, back ++ utf8 (String.ofList after), ?_,
    decoded_of_invalid ?_, decoded_of_invalid (second _)⟩
  · rw [utf8_ofList_append, utf8_cons, bytes]
    simp
  · rwa [isSome_utf8_append]

/-- However a text of one-byte characters is cut, every chunk decodes. -/
theorem isSome_of_narrow {chunks : List (List UInt8)} {text : List Char}
    (narrow : ∀ c ∈ text, c.utf8Size = 1) (whole : chunks.flatten = utf8 (String.ofList text)) :
    ∀ chunk ∈ chunks, (fromUtf8 chunk).isSome := by
  have encoded : ∀ part : List Char, (∀ c ∈ part, c.utf8Size = 1) →
      utf8 (String.ofList part) = part.map Char.toUInt8 := by
    intro part small
    induction part with
    | nil => rfl
    | cons c rest ih =>
      rw [utf8_cons, String.utf8EncodeChar_eq_singleton (small c List.mem_cons_self),
        ih fun d member => small d (List.mem_cons_of_mem c member)]
      rfl
  induction chunks generalizing text with
  | nil => exact fun _ member => absurd member List.not_mem_nil
  | cons chunk rest ih =>
    rw [List.flatten_cons, encoded text narrow] at whole
    obtain ⟨front, back, rfl, first, second⟩ := List.map_eq_append_iff.mp whole.symm
    have narrowFront : ∀ c ∈ front, c.utf8Size = 1 := fun c member =>
      narrow c (List.mem_append_left back member)
    have narrowBack : ∀ c ∈ back, c.utf8Size = 1 := fun c member =>
      narrow c (List.mem_append_right front member)
    rw [List.forall_mem_cons]
    refine ⟨?_, ih narrowBack ?_⟩
    · rw [← first, ← encoded front narrowFront]
      exact Option.isSome_iff_exists.mpr ⟨_, (fromUtf8_eq_some _ _).mpr rfl⟩
    · rw [encoded back narrowBack, second]

def cutBlankLine : List Char → Option (List Char × List Char)
  | [] => none
  | '\n' :: '\n' :: rest => some ([], rest)
  | ch :: rest => (cutBlankLine rest).map fun halves => (ch :: halves.1, halves.2)

theorem cutBlankLine_eq_some {text block rest : List Char}
    (cut : cutBlankLine text = some (block, rest)) : text = block ++ '\n' :: '\n' :: rest := by
  fun_induction cutBlankLine text generalizing block with
  | case1 => cases cut
  | case2 => cases cut; rfl
  | case3 ch later other ih =>
    obtain ⟨halves, found, same⟩ := Option.map_eq_some_iff.mp cut
    cases same
    rw [ih found]
    rfl

theorem cutBlankLine_append {text block rest : List Char} (more : List Char)
    (cut : cutBlankLine text = some (block, rest)) :
    cutBlankLine (text ++ more) = some (block, rest ++ more) := by
  fun_induction cutBlankLine text generalizing block with
  | case1 => cases cut
  | case2 => cases cut; rfl
  | case3 ch later other ih =>
    obtain ⟨halves, found, same⟩ := Option.map_eq_some_iff.mp cut
    cases same
    have step : cutBlankLine (ch :: (later ++ more)) =
        (cutBlankLine (later ++ more)).map fun halves => (ch :: halves.1, halves.2) := by
      cases later with
      | nil => cases found
      | cons next tail =>
        refine cutBlankLine.eq_3 ch _ fun after first second => ?_
        injection second with second
        exact other tail first (by rw [second])
    rw [List.cons_append, step, ih found]
    rfl

def drainBlocks (buffer : List Char) : List (List Char) × List Char :=
  match _cut : cutBlankLine buffer with
  | none => ([], buffer)
  | some (block, rest) =>
    let later := drainBlocks rest
    (block :: later.1, later.2)
termination_by buffer.length
decreasing_by
  rw [cutBlankLine_eq_some _cut]
  simp only [List.length_append, List.length_cons]
  omega

theorem drainBlocks_none {buffer : List Char} (uncut : cutBlankLine buffer = none) :
    drainBlocks buffer = ([], buffer) := by
  unfold drainBlocks
  split
  next => rfl
  next block rest cut => cases uncut.symm.trans cut

theorem drainBlocks_some {buffer block rest : List Char} (cut : cutBlankLine buffer = some (block, rest)) :
    drainBlocks buffer = (block :: (drainBlocks rest).1, (drainBlocks rest).2) := by
  rw [drainBlocks]
  split
  next uncut => cases cut.symm.trans uncut
  next other later found =>
    cases cut.symm.trans found
    rfl

theorem drainBlocks_rest (buffer : List Char) : cutBlankLine (drainBlocks buffer).2 = none := by
  fun_induction drainBlocks buffer with
  | case1 buffer uncut => exact uncut
  | case2 buffer block rest cut later ih => exact ih

/-- More text only adds blocks, cut from what stayed and the new text. -/
theorem drainBlocks_append (buffer more : List Char) :
    drainBlocks (buffer ++ more) =
      ((drainBlocks buffer).1 ++ (drainBlocks ((drainBlocks buffer).2 ++ more)).1,
        (drainBlocks ((drainBlocks buffer).2 ++ more)).2) := by
  fun_induction drainBlocks buffer with
  | case1 buffer uncut => rfl
  | case2 buffer block rest cut later ih =>
    rw [drainBlocks_some (cutBlankLine_append more cut), ih]
    rfl

theorem drainBlocks_suffix (buffer : List Char) : ∃ front, buffer = front ++ (drainBlocks buffer).2 := by
  fun_induction drainBlocks buffer with
  | case1 buffer uncut => exact ⟨[], rfl⟩
  | case2 buffer block rest cut later ih =>
    obtain ⟨front, same⟩ := ih
    refine ⟨block ++ '\n' :: '\n' :: front, ?_⟩
    rw [cutBlankLine_eq_some cut, List.append_assoc, List.cons_append, List.cons_append, ← same]

def withoutReturns (text : List Char) : List Char := text.filter fun ch => decide (ch ≠ '\r')

theorem withoutReturns_append (first second : List Char) :
    withoutReturns (first ++ second) = withoutReturns first ++ withoutReturns second :=
  List.filter_append ..

/-- What stays in the buffer after some text arrived. -/
structure Settled (buffer : List Char) : Prop where
  stripped : withoutReturns buffer = buffer
  uncut : cutBlankLine buffer = none

theorem settled_nil : Settled [] := ⟨rfl, rfl⟩

theorem settled_drain (text : List Char) : Settled (drainBlocks (withoutReturns text)).2 := by
  refine ⟨?_, drainBlocks_rest _⟩
  obtain ⟨front, same⟩ := drainBlocks_suffix (withoutReturns text)
  have kept : ∀ ch ∈ withoutReturns text, decide (ch ≠ '\r') = true :=
    fun ch member => (List.mem_filter.mp member).2
  refine List.filter_eq_self.mpr fun ch member => kept ch ?_
  rw [same]
  exact List.mem_append_right front member

/-- Text that arrives later is drained together with what stayed. -/
theorem drain_append (first second : List Char) :
    drainBlocks (withoutReturns (first ++ second)) =
      ((drainBlocks (withoutReturns first)).1 ++
          (drainBlocks (withoutReturns ((drainBlocks (withoutReturns first)).2 ++ second))).1,
        (drainBlocks (withoutReturns ((drainBlocks (withoutReturns first)).2 ++ second))).2) := by
  rw [withoutReturns_append first, drainBlocks_append, withoutReturns_append (drainBlocks _).2,
    (settled_drain first).stripped]

variable {σ : Type} (onBlock : σ → List Char → Option σ)

/-- Text arrives, and the blocks it completes are handled in order; `none` where one fails. -/
def feed (state : List Char × σ) (text : List Char) : Option (List Char × σ) :=
  let drained := drainBlocks (withoutReturns (state.1 ++ text))
  (drained.1.foldlM onBlock state.2).map fun next => (drained.2, next)

variable {onBlock}

theorem feed_settled {state next : List Char × σ} {text : List Char}
    (fed : feed onBlock state text = some next) : Settled next.1 := by
  obtain ⟨handled, _, rfl⟩ := Option.map_eq_some_iff.mp fed
  exact settled_drain _

theorem feed_nil {state : List Char × σ} (settled : Settled state.1) :
    feed onBlock state [] = some state := by
  rw [feed, List.append_nil, settled.stripped, drainBlocks_none settled.uncut]
  rfl

theorem feed_append (state : List Char × σ) (first second : List Char) :
    feed onBlock state (first ++ second) =
      (feed onBlock state first).bind fun next => feed onBlock next second := by
  have drained := drain_append (state.1 ++ first) second
  rw [List.append_assoc] at drained
  rw [feed, drained, feed, List.foldlM_append]
  cases handled : (drainBlocks (withoutReturns (state.1 ++ first))).1.foldlM onBlock state.2 with
  | none => rfl
  | some next => rfl

theorem foldlM_feed {state : List Char × σ} (settled : Settled state.1) (texts : List (List Char)) :
    texts.foldlM (feed onBlock) state = feed onBlock state texts.flatten := by
  induction texts generalizing state with
  | nil => exact (feed_nil settled).symm
  | cons text rest ih =>
    rw [List.foldlM_cons, List.flatten_cons, feed_append]
    cases fed : feed onBlock state text with
    | none => rfl
    | some next => exact ih (feed_settled fed)

end Fswtch.Lib.ChunkedText
