import Fswtch.Lib.Chunks

/-! The denoising stage. Samples are buffered until they fill a frame of the denoiser, and what a
call puts in the caller's buffer is what the frames that it completes were cleaned to. -/

namespace Fswtch.Audio.Denoise
open Fswtch.Lib.Chunks

def frameSize : Nat := 480

theorem frameSize_pos : 0 < frameSize := Nat.succ_pos 479

/-- `nnnoiseless::DenoiseState`, which keeps a state of its own between the frames. -/
structure Denoiser (F σ : Type) where
  new : σ
  processFrame : σ → List F → List F × σ

structure DenoiseStage (F σ : Type) where
  enabled : Bool
  state : σ
  inBuf : List F := []
  outBuf : List F := []
  frameOut : List F

variable {F σ : Type}

namespace DenoiseStage

def new [OfScientific F] (d : Denoiser F σ) (enabled : Bool) : DenoiseStage F σ :=
  { enabled, state := d.new, frameOut := List.replicate frameSize 0.0 }

/-- The whole frames of the input buffer, cleaned into the output buffer. -/
def drainFrames (d : Denoiser F σ) (s : DenoiseStage F σ) : DenoiseStage F σ :=
  if frameSize ≤ s.inBuf.length then
    let cleaned := d.processFrame s.state (s.inBuf.take frameSize)
    drainFrames d
      { s with
        state := cleaned.2, frameOut := cleaned.1, outBuf := s.outBuf ++ cleaned.1
        inBuf := s.inBuf.drop frameSize }
  else s
termination_by s.inBuf.length
decreasing_by
  simp only [List.length_drop]
  unfold frameSize at *
  omega

/-- The stage after a call, and what the caller's buffer holds then: it is cleared first. -/
def process (d : Denoiser F σ) (s : DenoiseStage F σ) (input _out : List F) : DenoiseStage F σ × List F :=
  if !s.enabled then (s, input)
  else
    let drained := drainFrames d { s with inBuf := s.inBuf ++ input }
    ({ drained with outBuf := [] }, drained.outBuf)

def reset [OfScientific F] (d : Denoiser F σ) (s : DenoiseStage F σ) : DenoiseStage F σ :=
  if s.enabled then
    { s with state := d.new, inBuf := [], outBuf := [], frameOut := List.replicate frameSize 0.0 }
  else s

/-- One call after the other, each with a buffer that may hold anything, and all they put out. -/
def processAll (d : Denoiser F σ) (s : DenoiseStage F σ) :
    List (List F × List F) → DenoiseStage F σ × List F
  | [] => (s, [])
  | (input, out) :: rest =>
    let first := s.process d input out
    let later := processAll d first.1 rest
    (later.1, first.2 ++ later.2)

def denoiseFrame (d : Denoiser F σ) (state : σ) (frame : List F) : σ × List F :=
  let cleaned := d.processFrame state frame
  (cleaned.2, cleaned.1)

theorem drainFrames_eq (d : Denoiser F σ) (s : DenoiseStage F σ) :
    ∃ scratch, drainFrames d s =
      let drained := cut frameSize s.inBuf
      let consumed := consumeAll (denoiseFrame d) s.state drained.1
      { s with
        state := consumed.1, inBuf := drained.2, outBuf := s.outBuf ++ consumed.2, frameOut := scratch } := by
  fun_induction drainFrames d s with
  | case1 s long cleaned ih =>
    obtain ⟨scratch, later⟩ := ih
    refine ⟨scratch, ?_⟩
    rw [later, cut_long frameSize_pos long]
    simp only [consumeAll, List.append_assoc]
    rfl
  | case2 s short =>
    refine ⟨s.frameOut, ?_⟩
    rw [cut_short (Nat.lt_of_not_le short)]
    simp [consumeAll]

theorem process_eq (d : Denoiser F σ) {s : DenoiseStage F σ} (on : s.enabled = true) (empty : s.outBuf = [])
    (input out : List F) :
    ∃ scratch, s.process d input out =
      let fed := feed (denoiseFrame d) frameSize (s.state, s.inBuf) input
      ({ s with state := fed.1.1, inBuf := fed.1.2, frameOut := scratch }, fed.2) := by
  obtain ⟨scratch, drained⟩ := drainFrames_eq d { s with inBuf := s.inBuf ++ input }
  refine ⟨scratch, ?_⟩
  unfold process
  rw [drained]
  simp [on, empty, feed]

theorem processAll_eq (d : Denoiser F σ) {s : DenoiseStage F σ} (on : s.enabled = true) (empty : s.outBuf = [])
    (calls : List (List F × List F)) :
    ∃ scratch, processAll d s calls =
      let fed := feedAll (denoiseFrame d) frameSize (s.state, s.inBuf) (calls.map Prod.fst)
      ({ s with state := fed.1.1, inBuf := fed.1.2, frameOut := scratch }, fed.2) := by
  induction calls generalizing s with
  | nil => exact ⟨s.frameOut, rfl⟩
  | cons call rest ih =>
    obtain ⟨between, first⟩ := process_eq d on empty call.1 call.2
    obtain ⟨scratch, later⟩ := @ih (s.process d call.1 call.2).1 (by rw [first]; exact on)
      (by rw [first]; exact empty)
    refine ⟨scratch, ?_⟩
    rw [processAll, later, first]
    rfl

theorem process_disabled (d : Denoiser F σ) {s : DenoiseStage F σ} (off : s.enabled = false)
    (input out : List F) : s.process d input out = (s, input) := by
  simp [process, off]

theorem processAll_disabled (d : Denoiser F σ) {s : DenoiseStage F σ} (off : s.enabled = false)
    (calls : List (List F × List F)) : processAll d s calls = (s, (calls.map Prod.fst).flatten) := by
  induction calls with
  | nil => rfl
  | cons call rest ih =>
    rw [processAll, process_disabled d off, ih]
    rfl

variable [OfScientific F]

theorem reset_enabled (d : Denoiser F σ) {s : DenoiseStage F σ} (on : s.enabled = true) :
    s.reset d = .new d true := by
  simp [reset, new, on]

theorem reset_like_new (d : Denoiser F σ) (s : DenoiseStage F σ) (calls : List (List F × List F)) :
    (processAll d (s.reset d) calls).2 = (processAll d (.new d s.enabled) calls).2 := by
  cases on : s.enabled with
  | true => rw [reset_enabled d on]
  | false =>
    have same : s.reset d = s := by simp [reset, on]
    rw [same, processAll_disabled d on, processAll_disabled d rfl]

/-- In whatever calls a signal comes, the output is that of the denoiser on its whole frames in
order; less than a frame is kept, and a reset at any point makes the stage answer like a new one. -/
theorem process_frames (d : Denoiser F σ) (calls : List (List F × List F)) :
    let signal := (calls.map Prod.fst).flatten
    let run := processAll d (.new d true) calls
    (∃ frames : List (List F), (∀ frame ∈ frames, frame.length = frameSize) ∧
        frames.flatten = signal.take (frameSize * (signal.length / frameSize)) ∧
        run.2 = (consumeAll (denoiseFrame d) d.new frames).2) ∧
      run.1.inBuf = signal.drop (frameSize * (signal.length / frameSize)) ∧
      run.1.inBuf.length < frameSize ∧
      ∀ further, processAll d (run.1.reset d) further = processAll d (.new d true) further := by
  intro signal run
  obtain ⟨scratch, ran⟩ := @processAll_eq F σ d (.new d true) rfl rfl calls
  have fresh : (d.new, ([] : List F)).2.length < frameSize := frameSize_pos
  have fed : feedAll (denoiseFrame d) frameSize (d.new, []) (calls.map Prod.fst) =
      feed (denoiseFrame d) frameSize (d.new, []) signal := feedAll_eq frameSize_pos fresh _
  have left : run.1.inBuf = (cut frameSize signal).2 := by
    change (processAll d (.new d true) calls).1.inBuf = _
    rw [ran]
    exact congrArg (fun fed => fed.1.2) fed
  refine ⟨⟨(cut frameSize signal).1, fun _ => cut_chunk, cut_front frameSize_pos signal, ?_⟩, ?_, ?_, ?_⟩
  · change (processAll d (.new d true) calls).2 = _
    rw [ran]
    exact congrArg Prod.snd fed
  · rw [left, ← List.append_right_inj (cut frameSize signal).1.flatten, cut_flatten,
      cut_front frameSize_pos, List.take_append_drop]
  · rw [left]
    exact cut_rest frameSize_pos signal
  · intro further
    have on : run.1.enabled = true := by
      change (processAll d (.new d true) calls).1.enabled = true
      rw [ran]
      rfl
    rw [reset_enabled d on]

end DenoiseStage

end Fswtch.Audio.Denoise
