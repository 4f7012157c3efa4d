import Fswtch.Lib.Slices

/-! Voice activity detection on the caller's stream. `writeFrame` routes the 8 kHz
samples into the pre-roll or the speech buffer by the state at the start of the
call, while onset and end fire later, in a loop over 256-sample frames of the
upsampled stream. The scores, the resampler and the arithmetic are parameters. -/

namespace Fswtch.Seat.SpeechSegments
open Fswtch.Lib.Slices

def pipelineSampleRate : Nat := 8000

def vadSampleRate : Nat := 16000

def earshotFrameSize : Nat := 256

abbrev Pcm := List Int16

/-- What the detector, the noise gate and the resampler compute. The detector and the
resampler keep a state of their own. -/
structure Engine (F ν ρ : Type) where
  predict : ν → Pcm → F × ν
  rms : Pcm → F
  resample : ρ → Pcm → Pcm × ρ

/-- The part of the call's state that `writeFrame` works on. -/
structure CallState (F ν ρ : Type) where
  vad : ν
  resampler : ρ
  preRoll : Pcm := []
  preRollMax : Nat := pipelineSampleRate * 300 / 1000
  inSpeech : Bool := false
  onsetAccumMs : F
  speechThreshold : F
  speechOnsetMs : F
  speechOnsetDecay : F
  minSpeechRms : F
  speechBuffer : Pcm := []
  vadStage : Pcm := []
  silenceSamples : UInt32
  currentSilence : UInt32 := 0
  bargeInConfirm : UInt32 := 0
  speechTx : Bool
  actor : Bool

/-- What a call of `writeFrame` does to the outside: at an onset it reports that speech has
started and may raise `BargeIn`; at an end it offers the segment to `speech_tx`. -/
inductive Effect where
  | speechStarted
  | bargeIn
  | trySend (speech : Pcm)
  deriving DecidableEq

variable {F ν ρ : Type}

/-- The settings of `VadConfig` and `AudioConfig` that a fresh state takes. -/
structure VadConfig (F : Type) where
  speechThreshold : F
  speechOnsetMs : F
  speechOnsetDecay : F
  minSpeechRms : F
  silenceTimeoutMs : UInt32

/-- A fresh state, the speech channel and the actor assigned as `init_call` does. -/
def CallState.new [Zero F] (config : VadConfig F) (vad : ν) (resampler : ρ) :
    CallState F ν ρ :=
  { vad, resampler
    onsetAccumMs := 0
    speechThreshold := config.speechThreshold
    speechOnsetMs := config.speechOnsetMs
    speechOnsetDecay := config.speechOnsetDecay
    minSpeechRms := config.minSpeechRms
    silenceSamples := config.silenceTimeoutMs * 16000 / 1000
    speechTx := true
    actor := true }

/-- The last `size` samples, as popping from the front until they fit leaves them. -/
def trimToFixedSize (size : Nat) (samples : Pcm) : Pcm := samples.drop (samples.length - size)

def CallState.accumulate (s : CallState F ν ρ) (samples : Pcm) : CallState F ν ρ :=
  if s.inSpeech then { s with speechBuffer := s.speechBuffer ++ samples }
  else { s with preRoll := trimToFixedSize s.preRollMax (s.preRoll ++ samples) }

def CallState.stage (engine : Engine F ν ρ) (s : CallState F ν ρ) (samples : Pcm) :
    CallState F ν ρ :=
  let out := engine.resample s.resampler samples
  { s with resampler := out.2, vadStage := s.vadStage ++ out.1 }

def CallState.startSpeech (s : CallState F ν ρ) (turnPending : Bool) : CallState F ν ρ × List Effect :=
  ({ s with
      inSpeech := true, speechBuffer := s.preRoll, preRoll := [], currentSilence := 0,
      bargeInConfirm := 0 },
    .speechStarted :: if turnPending then if s.actor then [.bargeIn] else [] else [])

def CallState.endSpeech [Zero F] (s : CallState F ν ρ) : CallState F ν ρ × List Effect :=
  let silent := { s with inSpeech := false, onsetAccumMs := 0, speechBuffer := [] }
  if s.speechBuffer = [] then (silent, [])
  else ({ silent with preRoll := [] }, if s.speechTx then [.trySend s.speechBuffer] else [])

def CallState.silentFrame [Zero F] (s : CallState F ν ρ) (frameLen : UInt32) :
    CallState F ν ρ × List Effect :=
  let quiet := { s with currentSilence := s.currentSilence + frameLen }
  if s.inSpeech then
    if s.silenceSamples ≤ quiet.currentSilence then quiet.endSpeech else (quiet, [])
  else (s, [])

/-- What a scored frame does: a voiced one or an onset keeps or opens a segment, any
other counts as silence. -/
def CallState.switchFrame [Zero F] (s : CallState F ν ρ) (turnPending isVoiced onsetFired : Bool) :
    CallState F ν ρ × List Effect :=
  if isVoiced || onsetFired then
    if !s.inSpeech && onsetFired then s.startSpeech turnPending
    else if s.inSpeech then ({ s with currentSilence := 0, bargeInConfirm := 0 }, [])
    else ({ s with bargeInConfirm := 0 }, [])
  else s.silentFrame 256

/-- A frame that was scored: what the read of `turn_pending` gives there, the verdict, the state on
either side of it and what the frame did to the outside. -/
structure Scored (F ν ρ : Type) where
  pcm : Pcm
  turnPending : Bool
  voiced : Bool
  before : CallState F ν ρ
  after : CallState F ν ρ
  effects : List Effect

/-- A call of `write_frame`. At the n-th frame it scores a read of `turn_pending` gives
`turnPending n`. -/
structure Call where
  samples : Pcm
  turnPending : Nat → Bool

section Scoring

variable [NatCast F] [Zero F] [One F] [Neg F] [Add F] [Sub F] [Mul F] [Div F]
  [LE F] [LT F] [DecidableLE F] [DecidableLT F]

def scoreFrame (engine : Engine F ν ρ) (vad : ν) (frame : Pcm) (minRms : F) : (F × F) × ν :=
  let rms := engine.rms frame
  if rms < minRms then ((-1, rms), vad)
  else
    let predicted := engine.predict vad frame
    ((predicted.1, rms), predicted.2)

def frameMs : F := ((256 : Nat) : F) * ((1000 : Nat) : F) / ((16000 : Nat) : F)

def CallState.vadFrame (engine : Engine F ν ρ) (s : CallState F ν ρ) (turnPending : Bool) (frame : Pcm) :
    Scored F ν ρ :=
  let scored := scoreFrame engine s.vad frame s.minSpeechRms
  let isVoiced := decide (s.speechThreshold ≤ scored.1.1) && decide (s.minSpeechRms ≤ scored.1.2)
  let accum :=
    if isVoiced then s.onsetAccumMs + frameMs else s.onsetAccumMs * (1 - s.speechOnsetDecay)
  let onsetFired := !s.inSpeech && decide (s.speechOnsetMs ≤ accum)
  let switched := { s with vad := scored.2, onsetAccumMs := accum }.switchFrame turnPending isVoiced onsetFired
  { pcm := frame, turnPending, voiced := isVoiced, before := s, after := switched.1, effects := switched.2 }

/-- The staged samples, a frame at a time while a whole one is there. The frames do not
look at the staging buffer, which gets back what is left. -/
def CallState.vadLoop (engine : Engine F ν ρ) (turnPending : Nat → Bool) (s : CallState F ν ρ) :
    CallState F ν ρ × List (Scored F ν ρ) :=
  go turnPending s.vadStage { s with vadStage := [] }
where
  go (turnPending : Nat → Bool) (staged : Pcm) (s : CallState F ν ρ) :
      CallState F ν ρ × List (Scored F ν ρ) :=
    if earshotFrameSize ≤ staged.length then
      let scored := s.vadFrame engine (turnPending 0) (staged.take earshotFrameSize)
      let later := go (fun n => turnPending (n + 1)) (staged.drop earshotFrameSize) scored.after
      (later.1, scored :: later.2)
    else ({ s with vadStage := staged }, [])
  termination_by staged.length
  decreasing_by
    rw [List.length_drop]
    unfold earshotFrameSize at *
    omega

/-- One call, and the frames it scores; an absent payload returns as an empty one does. -/
def CallState.writeFrame (engine : Engine F ν ρ) (s : CallState F ν ρ) (call : Call) :
    CallState F ν ρ × List (Scored F ν ρ) :=
  if call.samples = [] then (s, [])
  else ((s.accumulate call.samples).stage engine call.samples).vadLoop engine call.turnPending

end Scoring

/-- An offered segment and the length of the stream when its onset's call ended. -/
structure Offered where
  onsetEnd : Nat
  pcm : Pcm

/-- What a run has taken in and offered so far, and the frames that each of its calls scored. -/
structure Track (F ν ρ : Type) where
  stream : Pcm := []
  onsetEnd : Nat := 0
  offered : List Offered := []
  scored : List (List (Scored F ν ρ)) := []

def Track.append (track : Track F ν ρ) (samples : Pcm) : Track F ν ρ :=
  { track with stream := track.stream ++ samples }

def Track.record (track : Track F ν ρ) : Effect → Track F ν ρ
  | .speechStarted => { track with onsetEnd := track.stream.length }
  | .bargeIn => track
  | .trySend speech => { track with offered := track.offered ++ [⟨track.onsetEnd, speech⟩] }

def Track.recordAll (track : Track F ν ρ) (effects : List Effect) : Track F ν ρ :=
  effects.foldl Track.record track

def Track.call (track : Track F ν ρ) (frames : List (Scored F ν ρ)) : Track F ν ρ :=
  { track.recordAll (frames.flatMap Scored.effects) with scored := track.scored ++ [frames] }

theorem Track.call_scored (track : Track F ν ρ) (samples : Pcm) (frames : List (Scored F ν ρ)) :
    ((track.append samples).call frames).scored = track.scored ++ [frames] := rfl

theorem Track.recordAll_append (track : Track F ν ρ) (first second : List Effect) :
    track.recordAll (first ++ second) = (track.recordAll first).recordAll second :=
  List.foldl_append

theorem Track.recordAll_stream (track : Track F ν ρ) (effects : List Effect) :
    (track.recordAll effects).stream = track.stream := by
  induction effects generalizing track with
  | nil => rfl
  | cons effect rest ih =>
    have step : (track.record effect).stream = track.stream := by cases effect <;> rfl
    exact (ih (track.record effect)).trans step

/-- A segment starts at most `reach` samples before its onset's call ended. -/
def Reaches (reach start : Nat) (segment : Offered) : Prop :=
  start ≤ segment.onsetEnd ∧ segment.onsetEnd ≤ start + reach

/-- Behind the segments cut so far lies the speech buffer during speech and the
pre-roll outside it; the other of the two is empty. -/
def Segmented (reach : Nat) (s : CallState F ν ρ) (track : Track F ν ρ) : Prop :=
  s.preRollMax = reach ∧ ∃ front, Sliced Offered.pcm (Reaches reach) front track.offered ∧
    if s.inSpeech then
      s.preRoll = [] ∧ track.stream = front ++ s.speechBuffer ∧
        front.length ≤ track.onsetEnd ∧ track.onsetEnd ≤ front.length + reach
    else s.speechBuffer = [] ∧ track.stream = front ++ s.preRoll ∧ s.preRoll.length ≤ reach

theorem trimToFixedSize_split (size : Nat) (samples : Pcm) :
    samples.take (samples.length - size) ++ trimToFixedSize size samples = samples :=
  List.take_append_drop _ _

theorem trimToFixedSize_length (size : Nat) (samples : Pcm) :
    (trimToFixedSize size samples).length ≤ size := by
  unfold trimToFixedSize
  rw [List.length_drop]
  omega

theorem accumulate_segmented {reach : Nat} {s : CallState F ν ρ} {track : Track F ν ρ}
    (known : Segmented reach s track) (samples : Pcm) :
    Segmented reach (s.accumulate samples) (track.append samples) := by
  obtain ⟨fixed, front, sliced, buffers⟩ := known
  unfold CallState.accumulate
  by_cases speaking : s.inSpeech = true
  · rw [if_pos speaking] at buffers ⊢
    obtain ⟨empty, stream, late, near⟩ := buffers
    refine ⟨fixed, front, sliced, ?_⟩
    rw [if_pos speaking]
    exact ⟨empty, by simp [Track.append, stream], late, near⟩
  · rw [if_neg speaking] at buffers ⊢
    obtain ⟨empty, stream, _⟩ := buffers
    let joined := s.preRoll ++ samples
    refine ⟨fixed, front ++ joined.take (joined.length - s.preRollMax), sliced.skip _, ?_⟩
    rw [if_neg speaking]
    refine ⟨empty, ?_, fixed ▸ trimToFixedSize_length _ _⟩
    rw [List.append_assoc, trimToFixedSize_split]
    simp [Track.append, stream, joined]

theorem startSpeech_segmented {reach : Nat} {s : CallState F ν ρ} {track : Track F ν ρ}
    (known : Segmented reach s track) (silent : s.inSpeech = false) (turnPending : Bool) :
    Segmented reach (s.startSpeech turnPending).1 (track.recordAll (s.startSpeech turnPending).2) := by
  obtain ⟨fixed, front, sliced, buffers⟩ := known
  rw [if_neg (by simp [silent])] at buffers
  obtain ⟨_, stream, short⟩ := buffers
  have length := congrArg List.length stream
  rw [List.length_append] at length
  have marked : track.recordAll (s.startSpeech turnPending).2 = { track with onsetEnd := track.stream.length } := by
    unfold CallState.startSpeech
    cases turnPending <;> cases s.actor <;> rfl
  rw [marked]
  refine ⟨fixed, front, sliced, ?_⟩
  simp only [CallState.startSpeech, if_true, true_and]
  exact ⟨stream, by omega, by omega⟩

theorem endSpeech_segmented [Zero F] {reach : Nat} {s : CallState F ν ρ} {track : Track F ν ρ}
    (known : Segmented reach s track) (speaking : s.inSpeech = true) :
    Segmented reach s.endSpeech.1 (track.recordAll s.endSpeech.2) := by
  obtain ⟨fixed, front, sliced, buffers⟩ := known
  rw [if_pos speaking] at buffers
  obtain ⟨empty, stream, late, near⟩ := buffers
  unfold CallState.endSpeech
  by_cases nothing : s.speechBuffer = []
  · rw [if_pos nothing]
    refine ⟨fixed, front, sliced, ?_⟩
    rw [if_neg (by simp)]
    refine ⟨rfl, ?_, by simp [empty]⟩
    change track.stream = front ++ s.preRoll
    rw [stream, nothing, empty]
  · rw [if_neg nothing]
    by_cases open_ : s.speechTx = true
    · rw [if_pos open_]
      refine ⟨fixed, front ++ s.speechBuffer, ?_, by simp [Track.recordAll, Track.record, stream]⟩
      exact sliced.slice ⟨track.onsetEnd, s.speechBuffer⟩ ⟨late, near⟩
    · rw [if_neg open_]
      exact ⟨fixed, front ++ s.speechBuffer, sliced.skip _, by simp [Track.recordAll, stream]⟩

theorem silentFrame_segmented [Zero F] {reach : Nat} {s : CallState F ν ρ} {track : Track F ν ρ}
    (known : Segmented reach s track) (frameLen : UInt32) :
    Segmented reach (s.silentFrame frameLen).1 (track.recordAll (s.silentFrame frameLen).2) := by
  unfold CallState.silentFrame
  by_cases speaking : s.inSpeech = true
  · simp only [if_pos speaking]
    split
    · exact endSpeech_segmented (s := { s with currentSilence := s.currentSilence + frameLen })
        known speaking
    · exact known
  · simp only [if_neg speaking]
    exact known

theorem switchFrame_segmented [Zero F] {reach : Nat} {s : CallState F ν ρ} {track : Track F ν ρ}
    (known : Segmented reach s track) (turnPending isVoiced onsetFired : Bool) :
    Segmented reach (s.switchFrame turnPending isVoiced onsetFired).1
      (track.recordAll (s.switchFrame turnPending isVoiced onsetFired).2) := by
  unfold CallState.switchFrame
  split
  · split
    next onset =>
      simp only [Bool.and_eq_true, Bool.not_eq_true'] at onset
      exact startSpeech_segmented known onset.1 turnPending
    next =>
      split
      · exact known
      · exact known
  · exact silentFrame_segmented known 256

section Scoring

variable [NatCast F] [Zero F] [One F] [Neg F] [Add F] [Sub F] [Mul F] [Div F]
  [LE F] [LT F] [DecidableLE F] [DecidableLT F]

theorem vadFrame_segmented (engine : Engine F ν ρ) {reach : Nat} {s : CallState F ν ρ}
    {track : Track F ν ρ} (known : Segmented reach s track) (turnPending : Bool) (frame : Pcm) :
    Segmented reach (s.vadFrame engine turnPending frame).after
      (track.recordAll (s.vadFrame engine turnPending frame).effects) :=
  switchFrame_segmented (s := { s with
    vad := (scoreFrame engine s.vad frame s.minSpeechRms).2, onsetAccumMs := _ }) known _ _ _

theorem vadLoop_segmented (engine : Engine F ν ρ) {reach : Nat} (turnPending : Nat → Bool) (staged : Pcm)
    (s : CallState F ν ρ) : ∀ track : Track F ν ρ, Segmented reach s track →
      Segmented reach (CallState.vadLoop.go engine turnPending staged s).1
        (track.recordAll ((CallState.vadLoop.go engine turnPending staged s).2.flatMap Scored.effects)) := by
  fun_induction CallState.vadLoop.go engine turnPending staged s with
  | case1 turnPending staged s whole scored later ih =>
    intro track known
    rw [List.flatMap_cons, Track.recordAll_append]
    exact ih _ (vadFrame_segmented engine known _ _)
  | case2 => exact fun _ => id

theorem vadLoop_stage (engine : Engine F ν ρ) (turnPending : Nat → Bool) (staged : Pcm)
    (s : CallState F ν ρ) :
    (CallState.vadLoop.go engine turnPending staged s).1.vadStage.length < earshotFrameSize := by
  fun_induction CallState.vadLoop.go engine turnPending staged s with
  | case1 turnPending staged s whole scored later ih => exact ih
  | case2 turnPending staged s short => exact Nat.lt_of_not_le short

theorem writeFrame_segmented (engine : Engine F ν ρ) {reach : Nat} {s : CallState F ν ρ}
    {track : Track F ν ρ} (known : Segmented reach s track) (call : Call) :
    Segmented reach (s.writeFrame engine call).1
      ((track.append call.samples).call (s.writeFrame engine call).2) := by
  unfold CallState.writeFrame
  split
  next empty =>
    rw [empty, Track.append, List.append_nil]
    exact known
  next => exact vadLoop_segmented engine _ _ _ _ (accumulate_segmented known call.samples)

theorem writeFrame_stage (engine : Engine F ν ρ) {s : CallState F ν ρ}
    (short : s.vadStage.length < earshotFrameSize) (call : Call) :
    (s.writeFrame engine call).1.vadStage.length < earshotFrameSize := by
  unfold CallState.writeFrame
  split
  · exact short
  · exact vadLoop_stage engine _ _ _

def writeFrames (engine : Engine F ν ρ) (s : CallState F ν ρ) (track : Track F ν ρ) :
    List Call → CallState F ν ρ × Track F ν ρ
  | [] => (s, track)
  | call :: rest =>
    let called := s.writeFrame engine call
    writeFrames engine called.1 ((track.append call.samples).call called.2) rest

theorem writeFrames_segmented (engine : Engine F ν ρ) (calls : List Call) {reach : Nat}
    {s : CallState F ν ρ} {track : Track F ν ρ} (known : Segmented reach s track)
    (short : s.vadStage.length < earshotFrameSize) :
    Segmented reach (writeFrames engine s track calls).1 (writeFrames engine s track calls).2 ∧
      (writeFrames engine s track calls).1.vadStage.length < earshotFrameSize := by
  induction calls generalizing s track with
  | nil => exact ⟨known, short⟩
  | cons call rest ih =>
    exact ih (writeFrame_segmented engine known call) (writeFrame_stage engine short call)

theorem writeFrames_stream (engine : Engine F ν ρ) (calls : List Call) (s : CallState F ν ρ)
    (track : Track F ν ρ) :
    (writeFrames engine s track calls).2.stream = track.stream ++ calls.flatMap Call.samples := by
  induction calls generalizing s track with
  | nil => simp [writeFrames]
  | cons call rest ih =>
    simp [writeFrames, ih, Track.recordAll_stream, Track.append, Track.call]

/-- The segments offered by any sequence of calls are stretches of the stream, in order
and disjoint, and none starts more than the pre-roll before its onset's call ended.
The pre-roll and the staging buffer stay within their bounds. -/
theorem writeFrames_segments (engine : Engine F ν ρ) (config : VadConfig F) (vad : ν)
    (resampler : ρ) (calls : List Call) :
    let final := writeFrames engine (CallState.new config vad resampler) {} calls
    (∃ start, Located Offered.pcm (Reaches final.1.preRollMax) (calls.flatMap Call.samples)
        final.2.offered start) ∧
      final.1.preRoll.length ≤ final.1.preRollMax ∧
      final.1.vadStage.length < earshotFrameSize := by
  intro final
  have fresh : Segmented 2400 (CallState.new config vad resampler) {} :=
    ⟨rfl, [], .nil, by simp [CallState.new]⟩
  obtain ⟨⟨fixed, front, sliced, buffers⟩, short⟩ := writeFrames_segmented engine calls fresh
    (by simp [CallState.new, earshotFrameSize])
  have stream : final.2.stream = calls.flatMap Call.samples := by
    simpa using writeFrames_stream engine calls (CallState.new config vad resampler) {}
  refine ⟨?_, ?_, short⟩
  · have whole : Sliced Offered.pcm (Reaches final.1.preRollMax) (calls.flatMap Call.samples)
        final.2.offered := by
      rw [← stream]
      split at buffers
      · rw [fixed, buffers.2.1]
        exact sliced.skip _
      · rw [fixed, buffers.2.1]
        exact sliced.skip _
    exact whole.located
  · split at buffers
    · simp [final, buffers.1]
    · exact le_of_le_of_eq buffers.2.2 fixed.symm

end Scoring

end Fswtch.Seat.SpeechSegments
