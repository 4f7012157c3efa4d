import Mathlib.Algebra.BigOperators.Group.List.Basic

/-! A stream that is taken in slices and consumed in chunks of a fixed size. What does not fill
a chunk is kept and put in front of the next slice, so that it does not matter how the stream
was cut into slices. -/

namespace Fswtch.Lib.Chunks

variable {α : Type}

/-- The whole chunks at the front of a buffer, and what is left of it. -/
def cut (size : Nat) (buffer : List α) : List (List α) × List α :=
  if 0 < size ∧ size ≤ buffer.length then
    let later := cut size (buffer.drop size)
    (buffer.take size :: later.1, later.2)
  else ([], buffer)
termination_by buffer.length
decreasing_by
  rw [List.length_drop]
  omega

theorem cut_long {size : Nat} {buffer : List α} (positive : 0 < size) (long : size ≤ buffer.length) :
    cut size buffer =
      (buffer.take size :: (cut size (buffer.drop size)).1, (cut size (buffer.drop size)).2) := by
  rw [cut, if_pos ⟨positive, long⟩]

theorem cut_short {size : Nat} {buffer : List α} (short : buffer.length < size) :
    cut size buffer = ([], buffer) := by
  rw [cut, if_neg fun both => Nat.not_le.mpr short both.2]

theorem cut_flatten (size : Nat) (buffer : List α) :
    (cut size buffer).1.flatten ++ (cut size buffer).2 = buffer := by
  fun_induction cut size buffer with
  | case1 buffer whole later ih =>
    rw [List.flatten_cons, List.append_assoc, ih, List.take_append_drop]
  | case2 => rfl

theorem cut_rest {size : Nat} (positive : 0 < size) (buffer : List α) :
    (cut size buffer).2.length < size := by
  fun_induction cut size buffer with
  | case1 buffer whole later ih => exact ih
  | case2 buffer short => exact Nat.lt_of_not_le fun long => short ⟨positive, long⟩

theorem cut_chunk {size : Nat} {buffer chunk : List α} (member : chunk ∈ (cut size buffer).1) :
    chunk.length = size := by
  fun_induction cut size buffer with
  | case1 buffer whole later ih =>
    rcases List.mem_cons.mp member with rfl | later
    · exact List.length_take_of_le whole.2
    · exact ih later
  | case2 => cases member

theorem cut_count {size : Nat} (positive : 0 < size) (buffer : List α) :
    (cut size buffer).1.length = buffer.length / size := by
  fun_induction cut size buffer with
  | case1 buffer whole later ih =>
    rw [List.length_cons, ih, List.length_drop, ← Nat.div_eq_sub_div positive whole.2]
  | case2 buffer short =>
    exact (Nat.div_eq_of_lt (Nat.lt_of_not_le fun long => short ⟨positive, long⟩)).symm

theorem cut_rest_length {size : Nat} (positive : 0 < size) (buffer : List α) :
    (cut size buffer).2.length = buffer.length % size := by
  fun_induction cut size buffer with
  | case1 buffer whole later ih => rw [ih, List.length_drop, ← Nat.mod_eq_sub_mod whole.2]
  | case2 buffer short =>
    exact (Nat.mod_eq_of_lt (Nat.lt_of_not_le fun long => short ⟨positive, long⟩)).symm

/-- The chunks are as much of the buffer as fills whole ones. -/
theorem cut_front {size : Nat} (positive : 0 < size) (buffer : List α) :
    (cut size buffer).1.flatten = buffer.take (size * (buffer.length / size)) := by
  have whole := cut_flatten size buffer
  have length : (cut size buffer).1.flatten.length = size * (buffer.length / size) := by
    have both := congrArg List.length whole
    rw [List.length_append, cut_rest_length positive] at both
    have split := Nat.div_add_mod buffer.length size
    omega
  calc
    (cut size buffer).1.flatten
      = ((cut size buffer).1.flatten ++ (cut size buffer).2).take (cut size buffer).1.flatten.length :=
        List.take_left.symm
    _ = buffer.take (size * (buffer.length / size)) := by rw [whole, length]

theorem cut_chunks {size : Nat} (positive : 0 < size) {chunks : List (List α)}
    (even : ∀ chunk ∈ chunks, chunk.length = size) : cut size chunks.flatten = (chunks, []) := by
  induction chunks with
  | nil => exact cut_short positive
  | cons chunk rest ih =>
    obtain ⟨first, later⟩ := List.forall_mem_cons.mp even
    have long : size ≤ (chunk ++ rest.flatten).length := by
      rw [List.length_append, first]
      exact Nat.le_add_right size _
    rw [List.flatten_cons, cut_long positive long, List.take_left' first, List.drop_left' first, ih later]

/-- More at the end only adds chunks, cut from what was left and what came. -/
theorem cut_append (size : Nat) (buffer more : List α) :
    cut size (buffer ++ more) =
      ((cut size buffer).1 ++ (cut size ((cut size buffer).2 ++ more)).1,
        (cut size ((cut size buffer).2 ++ more)).2) := by
  fun_induction cut size buffer with
  | case1 buffer whole later ih =>
    have long : size ≤ (buffer ++ more).length := by
      rw [List.length_append]
      exact Nat.le_add_right_of_le whole.2
    rw [cut_long whole.1 long, List.take_append_of_le_length whole.2,
      List.drop_append_of_le_length whole.2, ih]
    rfl
  | case2 => rfl

variable {σ β : Type} (consume : σ → List α → σ × List β)

def consumeAll (state : σ) : List (List α) → σ × List β
  | [] => (state, [])
  | chunk :: rest =>
    let first := consume state chunk
    let later := consumeAll first.1 rest
    (later.1, first.2 ++ later.2)

def feed (size : Nat) (state : σ × List α) (slice : List α) : (σ × List α) × List β :=
  let drained := cut size (state.2 ++ slice)
  let consumed := consumeAll consume state.1 drained.1
  ((consumed.1, drained.2), consumed.2)

def feedAll (size : Nat) (state : σ × List α) : List (List α) → (σ × List α) × List β
  | [] => (state, [])
  | slice :: rest =>
    let first := feed consume size state slice
    let later := feedAll size first.1 rest
    (later.1, first.2 ++ later.2)

variable {consume}

theorem consumeAll_append (state : σ) (front back : List (List α)) :
    consumeAll consume state (front ++ back) =
      ((consumeAll consume (consumeAll consume state front).1 back).1,
        (consumeAll consume state front).2 ++
          (consumeAll consume (consumeAll consume state front).1 back).2) := by
  induction front generalizing state with
  | nil => rfl
  | cons chunk rest ih =>
    rw [List.cons_append, consumeAll, ih]
    simp only [consumeAll, List.append_assoc]

theorem feed_nil {size : Nat} {state : σ × List α} (short : state.2.length < size) :
    feed consume size state [] = (state, []) := by
  rw [feed, List.append_nil, cut_short short]
  rfl

theorem feed_append (size : Nat) (state : σ × List α) (first second : List α) :
    feed consume size state (first ++ second) =
      ((feed consume size (feed consume size state first).1 second).1,
        (feed consume size state first).2 ++
          (feed consume size (feed consume size state first).1 second).2) := by
  rw [feed, ← List.append_assoc, cut_append, consumeAll_append]
  rfl

theorem feed_rest {size : Nat} (positive : 0 < size) (state : σ × List α) (slice : List α) :
    (feed consume size state slice).1.2.length < size := cut_rest positive _

theorem feedAll_eq {size : Nat} (positive : 0 < size) {state : σ × List α}
    (short : state.2.length < size) (slices : List (List α)) :
    feedAll consume size state slices = feed consume size state slices.flatten := by
  induction slices generalizing state with
  | nil => exact (feed_nil short).symm
  | cons slice rest ih =>
    rw [feedAll, ih (feed_rest positive state slice), List.flatten_cons, feed_append]

variable (consume)

def outputs (size : Nat) (state : σ × List α) : List (List α) → List (List β)
  | [] => []
  | slice :: rest =>
    (feed consume size state slice).2 :: outputs size (feed consume size state slice).1 rest

variable {consume}

theorem outputs_flatten (size : Nat) (state : σ × List α) (slices : List (List α)) :
    (outputs consume size state slices).flatten = (feedAll consume size state slices).2 := by
  induction slices generalizing state with
  | nil => rfl
  | cons slice rest ih => rw [outputs, List.flatten_cons, ih, feedAll]

theorem outputs_length (size : Nat) (state : σ × List α) (slices : List (List α)) :
    (outputs consume size state slices).length = slices.length := by
  induction slices generalizing state with
  | nil => rfl
  | cons slice rest ih => rw [outputs, List.length_cons, ih, List.length_cons]

section Single

variable (single : ∀ state chunk, (consume state chunk).2.length = 1)

include single

theorem consumeAll_length (state : σ) (chunks : List (List α)) :
    (consumeAll consume state chunks).2.length = chunks.length := by
  induction chunks generalizing state with
  | nil => rfl
  | cons chunk rest ih =>
    rw [consumeAll, List.length_append, single, ih, List.length_cons, Nat.add_comm]

theorem feed_length {size : Nat} (positive : 0 < size) (state : σ × List α) (slice : List α) :
    (feed consume size state slice).2.length = (state.2.length + slice.length) / size := by
  rw [feed, consumeAll_length single, cut_count positive, List.length_append]

theorem outputs_getElem? {size : Nat} (positive : 0 < size) {state : σ × List α}
    (short : state.2.length < size) {slices : List (List α)} {f : Nat} (inside : f < slices.length) :
    (outputs consume size state slices)[f]? =
      some (((feedAll consume size state slices).2.take
          ((state.2.length + (slices.take (f + 1)).flatten.length) / size)).drop
        ((state.2.length + (slices.take f).flatten.length) / size)) := by
  induction slices generalizing state f with
  | nil => cases inside
  | cons slice rest ih =>
    have first := feed_length single positive state slice
    cases f with
    | zero => simp [outputs, feedAll, ← first, Nat.div_eq_of_lt short]
    | succ f =>
      have shift : ∀ n, (state.2.length + (slice.length + n)) / size =
          (feed consume size state slice).2.length +
            ((feed consume size state slice).1.2.length + n) / size := by
        intro n
        have kept : (feed consume size state slice).1.2.length =
            (state.2.length + slice.length) % size := by
          rw [feed, cut_rest_length positive, List.length_append]
        have split := Nat.div_add_mod (state.2.length + slice.length) size
        have whole : state.2.length + (slice.length + n) = (state.2.length + slice.length) % size + n +
            size * ((state.2.length + slice.length) / size) := by omega
        rw [first, kept, whole, Nat.add_mul_div_left _ _ positive, Nat.add_comm]
      rw [outputs, List.getElem?_cons_succ,
        ih (feed_rest positive state slice) (Nat.lt_of_succ_lt_succ inside), feedAll]
      simp only [List.take_succ_cons, List.flatten_cons, List.length_append]
      rw [shift, shift, List.take_length_add_append, List.drop_length_add_append]

theorem outputs_even {size width : Nat} (positive : 0 < size) (state : σ) {slices : List (List α)}
    (even : ∀ slice ∈ slices, slice.length = width) :
    outputs consume size (state, []) slices = (List.range slices.length).map fun f =>
      ((feed consume size (state, []) slices.flatten).2.take ((f + 1) * width / size)).drop
        (f * width / size) := by
  have fresh : (state, ([] : List α)).2.length < size := positive
  have length : ∀ f, f ≤ slices.length → (slices.take f).flatten.length = f * width := by
    intro f bound
    rw [List.length_flatten, List.map_congr_left fun slice member => even slice (List.mem_of_mem_take member),
      List.map_const', List.length_take, Nat.min_eq_left bound]
    simp
  apply List.ext_getElem?
  intro f
  by_cases inside : f < slices.length
  · rw [outputs_getElem? single positive fresh inside, length _ inside, length _ (Nat.le_of_lt inside),
      feedAll_eq positive fresh]
    simp [inside]
  · rw [List.getElem?_eq_none (by rw [outputs_length]; omega), List.getElem?_eq_none (by simp; omega)]

end Single

end Fswtch.Lib.Chunks
