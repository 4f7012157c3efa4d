import Fswtch.Lib.Chunks
import Mathlib.Data.Rat.Floor

/-! The sample rate converter of the DSP utilities. Samples are buffered until they fill a chunk
of the resampler, so what comes out does not depend on how the signal was cut into calls. -/

namespace Fswtch.Audio.SampleRate
open Fswtch.Lib.Chunks

/-- `rubato::Async` with a fixed input size: it takes chunks of `input_frames_next()` samples. -/
structure Rubato (F ρ : Type) where
  inputFramesNext : Nat
  positive : 0 < inputFramesNext
  process : ρ → List F → Except String (List F) × ρ

structure Rounding (F : Type) where
  round : F → F
  asI16 : F → Int16

variable {F ρ : Type}

structure SampleRateConverter (F ρ : Type) where
  inner : ρ
  residual : List F := []

section Padding

variable [OfScientific F]

def pad (chunkSize : Nat) (residual : List F) : List F :=
  residual ++ List.replicate (max residual.length chunkSize - residual.length) 0.0

theorem pad_short {size : Nat} {residual : List F} (short : residual.length ≤ size) :
    pad size residual = residual ++ List.replicate (size - residual.length) 0.0 := by
  rw [pad, Nat.max_eq_right short]

theorem pad_length {size : Nat} {residual : List F} (short : residual.length ≤ size) :
    (pad size residual).length = size := by
  rw [pad_short short, List.length_append, List.length_replicate, Nat.add_sub_cancel' short]

theorem pad_full {size : Nat} {residual : List F} (full : residual.length = size) : pad size residual = residual := by
  rw [pad_short full.le, full, Nat.sub_self, List.replicate_zero, List.append_nil]

theorem cut_silence {size : Nat} (positive : 0 < size) {residual : List F} (short : residual.length ≤ size)
    (further : Nat) :
    cut size (residual ++ List.replicate (size - residual.length + further * size) 0.0) =
      (pad size residual :: List.replicate further (List.replicate size 0.0), []) := by
  have even : ∀ chunk ∈ pad size residual :: List.replicate further (List.replicate size 0.0),
      chunk.length = size := by
    refine List.forall_mem_cons.mpr ⟨pad_length short, fun chunk member => ?_⟩
    rw [List.eq_of_mem_replicate member, List.length_replicate]
  have whole := cut_chunks positive even
  rwa [List.flatten_cons, List.flatten_replicate_replicate, pad_short short, List.append_assoc,
    ← List.replicate_add, ← pad_short short] at whole

end Padding

section Arithmetic

variable [IntCast F]

def normalise [Div F] (s : Int16) : F := (s.toInt : F) / ((32768 : Int) : F)

variable [Mul F] [Min F] [Max F]

def quantise (rounding : Rounding F) (s : F) : Int16 :=
  rounding.asI16 (min (max (rounding.round (s * ((32767 : Int) : F))) ((-32768 : Int) : F)) ((32767 : Int) : F))

/-- What one chunk adds to the output; a chunk that the resampler fails on is dropped. -/
def processChunk (rubato : Rubato F ρ) (rounding : Rounding F) (inner : ρ) (chunk : List F) :
    ρ × List Int16 :=
  let result := rubato.process inner chunk
  (result.2,
    match result.1 with
    | .ok data => data.map (quantise rounding)
    | .error _ => [])

def processChunks (rubato : Rubato F ρ) (rounding : Rounding F) (inner : ρ) (buf : List F) :
    SampleRateConverter F ρ × List Int16 :=
  if rubato.inputFramesNext ≤ buf.length then
    let first := processChunk rubato rounding inner (buf.take rubato.inputFramesNext)
    let later := processChunks rubato rounding first.1 (buf.drop rubato.inputFramesNext)
    (later.1, first.2 ++ later.2)
  else ({ inner, residual := buf }, [])
termination_by buf.length
decreasing_by
  have positive := rubato.positive
  rw [List.length_drop]
  omega

theorem processChunks_eq (rubato : Rubato F ρ) (rounding : Rounding F) (inner : ρ) (buf : List F) :
    processChunks rubato rounding inner buf =
      let drained := cut rubato.inputFramesNext buf
      let consumed := consumeAll (processChunk rubato rounding) inner drained.1
      ({ inner := consumed.1, residual := drained.2 }, consumed.2) := by
  fun_induction processChunks rubato rounding inner buf with
  | case1 inner buf long first later ih =>
    rw [cut_long rubato.positive long]
    simp only [consumeAll, first, later, ih]
  | case2 inner buf short =>
    rw [cut_short (Nat.lt_of_not_le short)]
    rfl

/-- The resampler beside a record of the samples it was fed. -/
def Rubato.recorded (rubato : Rubato F ρ) : Rubato F (ρ × List F) where
  inputFramesNext := rubato.inputFramesNext
  positive := rubato.positive
  process state chunk :=
    let result := rubato.process state.1 chunk
    (result.1, result.2, state.2 ++ chunk)

theorem processChunk_recorded (rubato : Rubato F ρ) (rounding : Rounding F) (state : ρ × List F)
    (chunk : List F) :
    (processChunk rubato.recorded rounding state chunk).1.2 = state.2 ++ chunk := rfl

theorem consumeAll_recorded (rubato : Rubato F ρ) (rounding : Rounding F) (state : ρ × List F)
    (chunks : List (List F)) :
    (consumeAll (processChunk rubato.recorded rounding) state chunks).1.2 = state.2 ++ chunks.flatten := by
  induction chunks generalizing state with
  | nil => simp [consumeAll]
  | cons chunk rest ih =>
    rw [consumeAll, ih, processChunk_recorded, List.append_assoc, List.flatten_cons]

variable [Div F]

def SampleRateConverter.process (rubato : Rubato F ρ) (rounding : Rounding F)
    (c : SampleRateConverter F ρ) (input : List Int16) : SampleRateConverter F ρ × List Int16 :=
  if input = [] ∧ c.residual = [] then (c, [])
  else processChunks rubato rounding c.inner (c.residual ++ input.map normalise)

def processAll (rubato : Rubato F ρ) (rounding : Rounding F) (c : SampleRateConverter F ρ) :
    List (List Int16) → SampleRateConverter F ρ × List Int16
  | [] => (c, [])
  | input :: rest =>
    let first := c.process rubato rounding input
    let later := processAll rubato rounding first.1 rest
    (later.1, first.2 ++ later.2)

/-- A call feeds what it is given to the buffered resampler. -/
theorem process_eq (rubato : Rubato F ρ) (rounding : Rounding F) (c : SampleRateConverter F ρ)
    (input : List Int16) :
    c.process rubato rounding input =
      let fed := feed (processChunk rubato rounding) rubato.inputFramesNext (c.inner, c.residual)
        (input.map normalise)
      ({ inner := fed.1.1, residual := fed.1.2 }, fed.2) := by
  unfold SampleRateConverter.process
  split
  next idle =>
    have short : c.residual.length < rubato.inputFramesNext := by
      rw [idle.2]
      exact rubato.positive
    have nothing : feed (processChunk rubato rounding) rubato.inputFramesNext (c.inner, c.residual)
        (input.map normalise) = ((c.inner, c.residual), []) := by
      rw [idle.1]
      exact feed_nil short
    rw [nothing]
  next => exact processChunks_eq rubato rounding c.inner _

/-- A call without input on a buffer of one chunk feeds that chunk. -/
theorem process_chunk (rubato : Rubato F ρ) (rounding : Rounding F) (inner : ρ) {chunk : List F}
    (full : chunk.length = rubato.inputFramesNext) :
    ({ inner, residual := chunk } : SampleRateConverter F ρ).process rubato rounding [] =
      ({ inner := (processChunk rubato rounding inner chunk).1 },
        (processChunk rubato rounding inner chunk).2) := by
  have some : ¬(([] : List Int16) = [] ∧ chunk = []) := by
    rintro ⟨-, rfl⟩
    exact rubato.positive.ne full
  rw [SampleRateConverter.process, if_neg some, List.map_nil, List.append_nil, processChunks_eq,
    cut_long rubato.positive full.ge, List.drop_of_length_le full.le, cut_short rubato.positive,
    List.take_of_length_le full.le]
  simp [consumeAll]

theorem processAll_feedAll (rubato : Rubato F ρ) (rounding : Rounding F) (c : SampleRateConverter F ρ)
    (inputs : List (List Int16)) :
    processAll rubato rounding c inputs =
      let fed := feedAll (processChunk rubato rounding) rubato.inputFramesNext (c.inner, c.residual)
        (inputs.map (List.map normalise))
      ({ inner := fed.1.1, residual := fed.1.2 }, fed.2) := by
  induction inputs generalizing c with
  | nil => rfl
  | cons input rest ih =>
    rw [processAll, ih, process_eq]
    rfl

/-- The calls of a new converter do together what one call with the whole signal does. -/
theorem processAll_eq (rubato : Rubato F ρ) (rounding : Rounding F) (inner : ρ)
    (inputs : List (List Int16)) :
    processAll rubato rounding { inner } inputs =
      let fed := feed (processChunk rubato rounding) rubato.inputFramesNext (inner, [])
        (inputs.flatten.map normalise)
      ({ inner := fed.1.1, residual := fed.1.2 }, fed.2) := by
  have fresh : (inner, ([] : List F)).2.length < rubato.inputFramesNext := rubato.positive
  rw [processAll_feedAll]
  simp only
  rw [feedAll_eq rubato.positive fresh, ← List.map_flatten]

/-- Two ways to cut a signal into calls give the same output, which is what the resampler makes of the signal chunk by
chunk. After the calls less than a chunk is buffered, and what the resampler was fed and the buffer are the signal,
sample by sample. -/
theorem process_framing (rubato : Rubato F ρ) (rounding : Rounding F) (inner : ρ)
    (first second : List (List Int16)) (same : first.flatten = second.flatten) :
    (processAll rubato rounding { inner } first).2 = (processAll rubato rounding { inner } second).2 ∧
      (processAll rubato rounding { inner } first).2 = (consumeAll (processChunk rubato rounding) inner
        (cut rubato.inputFramesNext (first.flatten.map normalise)).1).2 ∧
      (processAll rubato rounding { inner } first).1.residual.length < rubato.inputFramesNext ∧
      (processAll rubato.recorded rounding { inner := (inner, []) } first).1.inner.2 ++
          (processAll rubato rounding { inner } first).1.residual = first.flatten.map normalise := by
  refine ⟨?_, ?_, ?_, ?_⟩
  · rw [processAll_eq, processAll_eq, same]
  · rw [processAll_eq]
    rfl
  · rw [processAll_eq]
    exact cut_rest rubato.positive _
  · rw [processAll_eq, processAll_eq]
    simp only [feed]
    rw [consumeAll_recorded]
    exact cut_flatten _ _

end Arithmetic

def twice : Rubato ℚ Unit where
  inputFramesNext := 2
  positive := Nat.two_pos
  process _ chunk := (.ok (chunk.flatMap fun s => [s, s]), ())

def nearest : Rounding ℚ where
  round s := round s
  asI16 s := Int16.ofInt (round s)

theorem threeSamples_framing :
    (processAll twice nearest { inner := () } [[1, 2], [], [3]]).2 =
      (processAll twice nearest { inner := () } [[1], [2, 3]]).2 :=
  (process_framing twice nearest () [[1, 2], [], [3]] [[1], [2, 3]] rfl).1

section Flushing

variable [IntCast F] [Mul F] [Min F] [Max F] [Div F] [OfScientific F]

def flushPasses (rubato : Rubato F ρ) (rounding : Rounding F) :
    Nat → SampleRateConverter F ρ → SampleRateConverter F ρ × List Int16
  | 0, c => (c, [])
  | n + 1, c =>
    let result := { c with residual := pad rubato.inputFramesNext c.residual }.process rubato rounding []
    if result.2 = [] then (result.1, [])
    else
      let later := flushPasses rubato rounding n result.1
      (later.1, result.2 ++ later.2)

def SampleRateConverter.flush (rubato : Rubato F ρ) (rounding : Rounding F) (c : SampleRateConverter F ρ) :
    SampleRateConverter F ρ × List Int16 :=
  if c.residual = [] then (c, [])
  else
    let drained := flushPasses rubato rounding 4 { c with residual := pad rubato.inputFramesNext c.residual }
    ({ drained.1 with residual := [] }, drained.2)

def Answers (rubato : Rubato F ρ) (rounding : Rounding F) (c : SampleRateConverter F ρ) : Prop :=
  (processChunk rubato rounding c.inner (pad rubato.inputFramesNext c.residual)).2 ≠ []

/-- The resampler is fed what was left, filled up with silence to whole chunks, and at least one
more chunk of silence; all it answers is put out, and nothing is left for another flush. -/
structure Drained (rubato : Rubato F ρ) (rounding : Rounding F) (c : SampleRateConverter F (ρ × List F)) :
    Prop where
  fed : ∃ padding further, padding < rubato.inputFramesNext ∧ 0 < further ∧
    rubato.inputFramesNext ∣ c.residual.length + padding ∧
    let silence := List.replicate (padding + further * rubato.inputFramesNext) 0.0
    (c.flush rubato.recorded rounding).1.inner.2 = c.inner.2 ++ c.residual ++ silence ∧
      (c.flush rubato.recorded rounding).2 =
        (feed (processChunk rubato.recorded rounding) rubato.inputFramesNext (c.inner, c.residual) silence).2
  emptied : (c.flush rubato.recorded rounding).1.residual = []
  again : ((c.flush rubato.recorded rounding).1.flush rubato.recorded rounding).2 = []

/-- The passes feed the padded residual, and chunks of silence behind it for as long as the
resampler answers. -/
theorem flushPasses_eq (rubato : Rubato F ρ) (rounding : Rounding F) (n : Nat) (c : SampleRateConverter F ρ)
    (short : c.residual.length ≤ rubato.inputFramesNext) :
    ∃ further, (further = 0 ↔ n = 0 ∨ ¬Answers rubato rounding c) ∧
      flushPasses rubato rounding (n + 1) c =
        let consumed := consumeAll (processChunk rubato rounding) c.inner
          (pad rubato.inputFramesNext c.residual ::
            List.replicate further (List.replicate rubato.inputFramesNext 0.0))
        ({ inner := consumed.1 }, consumed.2) := by
  induction n generalizing c with
  | zero =>
    refine ⟨0, by simp, ?_⟩
    rw [flushPasses, process_chunk rubato rounding c.inner (pad_length short)]
    split
    next silent =>
      simp only at silent
      simp [consumeAll, silent]
    next => simp [consumeAll, flushPasses]
  | succ n ih =>
    rw [flushPasses, process_chunk rubato rounding c.inner (pad_length short)]
    split
    next silent =>
      simp only at silent
      refine ⟨0, by simp [Answers, silent], ?_⟩
      simp [consumeAll, silent]
    next answers =>
      obtain ⟨further, -, later⟩ := ih { inner := (processChunk rubato rounding c.inner _).1 } (Nat.zero_le _)
      have silence : pad rubato.inputFramesNext [] = List.replicate rubato.inputFramesNext (0.0 : F) :=
        pad_short (Nat.zero_le _)
      refine ⟨further + 1, by simp [Answers, answers], ?_⟩
      rw [later]
      simp only [silence, List.replicate_succ, consumeAll]

theorem flush_idle (rubato : Rubato F ρ) (rounding : Rounding F) {c : SampleRateConverter F ρ}
    (idle : c.residual = []) : c.flush rubato rounding = (c, []) := if_pos idle

/-- A flush of a residual feeds it padded, and more silence if the resampler answers. -/
theorem flush_eq (rubato : Rubato F ρ) (rounding : Rounding F) {c : SampleRateConverter F ρ}
    (some : c.residual ≠ []) (short : c.residual.length ≤ rubato.inputFramesNext) :
    ∃ further, (further = 0 ↔ ¬Answers rubato rounding c) ∧
      c.flush rubato rounding =
        let consumed := consumeAll (processChunk rubato rounding) c.inner
          (pad rubato.inputFramesNext c.residual ::
            List.replicate further (List.replicate rubato.inputFramesNext 0.0))
        ({ inner := consumed.1 }, consumed.2) := by
  have full : pad rubato.inputFramesNext (pad rubato.inputFramesNext c.residual) =
      pad rubato.inputFramesNext c.residual := pad_full (pad_length short)
  obtain ⟨further, answered, passes⟩ := flushPasses_eq rubato rounding 3
    { c with residual := pad rubato.inputFramesNext c.residual } (pad_length short).le
  simp only [Answers, full] at answered passes
  refine ⟨further, ?_, ?_⟩
  · rw [answered, Answers]
    simp
  · rw [SampleRateConverter.flush, if_neg some, passes]

theorem drained_iff (rubato : Rubato F ρ) (rounding : Rounding F) {c : SampleRateConverter F (ρ × List F)}
    (short : c.residual.length < rubato.inputFramesNext) :
    Drained rubato rounding c ↔ c.residual ≠ [] ∧ Answers rubato.recorded rounding c := by
  constructor
  · rintro ⟨⟨padding, further, -, more, -, record, -⟩, -, -⟩
    have long : rubato.inputFramesNext ≤ further * rubato.inputFramesNext := Nat.le_mul_of_pos_left _ more
    by_cases some : c.residual = []
    · rw [flush_idle _ _ some, some, List.append_nil, List.self_eq_append_right,
        List.replicate_eq_nil_iff] at record
      have positive := rubato.positive
      omega
    · refine ⟨some, ?_⟩
      obtain ⟨passes, answered, flushed⟩ := flush_eq rubato.recorded rounding some short.le
      by_contra silent
      -- One padded chunk is shorter than the residual with a whole chunk of silence behind it.
      rw [flushed, answered.mpr silent] at record
      have lengths := congrArg List.length record
      simp only [consumeAll, List.replicate_zero, processChunk_recorded, List.length_append,
        List.length_replicate] at lengths
      rw [show (pad rubato.recorded.inputFramesNext c.residual).length = rubato.inputFramesNext from
        pad_length short.le] at lengths
      have nonempty := List.length_pos_iff.mpr some
      omega
  · rintro ⟨some, answers⟩
    obtain ⟨further, answered, flushed⟩ := flush_eq rubato.recorded rounding some short.le
    have nonempty := List.length_pos_iff.mpr some
    have whole := cut_silence rubato.positive short.le further
    have joined := cut_flatten rubato.inputFramesNext (c.residual ++
      List.replicate (rubato.inputFramesNext - c.residual.length + further * rubato.inputFramesNext) 0.0)
    rw [whole, List.append_nil] at joined
    refine ⟨⟨rubato.inputFramesNext - c.residual.length, further, by omega, ?_, ?_, ?_, ?_⟩, ?_, ?_⟩
    · exact Nat.pos_of_ne_zero fun none => answered.mp none answers
    · rw [Nat.add_sub_cancel' short.le]
    · rw [flushed, List.append_assoc, ← joined]
      exact consumeAll_recorded rubato rounding c.inner _
    · rw [flushed, feed, whole]
      rfl
    · rw [flushed]
    · rw [flushed, flush_idle _ _ rfl]

/-- A flush behind a signal drains the tail exactly where the signal does not end with a chunk
and the resampler has samples for its padded end. -/
theorem flush_drains_iff (rubato : Rubato F ρ) (rounding : Rounding F) (inner : ρ)
    (inputs : List (List Int16)) :
    let c := (processAll rubato.recorded rounding { inner := (inner, []) } inputs).1
    Drained rubato rounding c ↔
      inputs.flatten.length % rubato.inputFramesNext ≠ 0 ∧ Answers rubato.recorded rounding c := by
  intro c
  have left : c.residual = (cut rubato.inputFramesNext (inputs.flatten.map normalise)).2 := by
    change (processAll rubato.recorded rounding { inner := (inner, []) } inputs).1.residual = _
    rw [processAll_eq]
    rfl
  have short : c.residual.length < rubato.inputFramesNext := by
    rw [left]
    exact cut_rest rubato.positive _
  have count : c.residual.length = inputs.flatten.length % rubato.inputFramesNext := by
    rw [left, cut_rest_length rubato.positive, List.length_map]
  rw [drained_iff rubato rounding short, ← count, Ne, Ne, List.length_eq_zero_iff]

end Flushing

def late : Rubato ℚ (List ℚ) where
  inputFramesNext := 2
  positive := Nat.two_pos
  process held chunk := (.ok held, chunk)

/-- A signal of one chunk stays in the resampler. -/
theorem aligned_stuck :
    let run := processAll late.recorded nearest { inner := ([0, 0], []) } [[1, 2]]
    run.2 = [0, 0] ∧ run.1.flush late.recorded nearest = (run.1, []) ∧ ¬Drained late nearest run.1 := by
  intro run
  have out : run.2 = [0, 0] := by decide +kernel
  have idle : run.1.residual = [] := by decide +kernel
  have short : run.1.residual.length < late.inputFramesNext := by
    rw [idle]
    exact late.positive
  refine ⟨out, flush_idle _ _ idle, ?_⟩
  rw [drained_iff late nearest short]
  exact fun drained => drained.1 idle

end Fswtch.Audio.SampleRate
