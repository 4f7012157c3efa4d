import Fswtch.Apm.RenderAlignment
import Fswtch.Apm.DelayRuns

/-! The block processor: the render delay buffer, the delay controller and the echo remover. Nothing is
done about a capture block until there has been a render block. From then on the echo remover finds the render
signal where the delay says. -/

namespace Fswtch.Apm.BlockProcessor
open Fswtch.Apm.RenderDelay Fswtch.Apm.DelayEstimation Fswtch.Lib.CircularBuffer Fswtch.Lib.StepRun

inductive DelayAdjustment where
  | none
  | bufferFlush
  | newDetectedDelay

structure EchoPathVariability where
  gainChange : Bool
  delayChange : DelayAdjustment
  clockDrift : Bool

variable {c : Config} {β φ ψ σ δ μ ρ γ : Type} [Samples σ]

/-- The settings of the stages, and what they compute from samples. The delay is estimated by the processor itself. -/
structure Stages (c : Config) (β φ ψ σ δ μ ρ γ : Type) [Samples σ] where
  own : c.useExternalDelayEstimator = false := by decide
  config : AggregatorConfig σ
  hysteresisLimitBlocks : Nat := 1
  render : Parts c β φ ψ σ δ
  capture : CaptureParts c σ μ γ
  removeEcho : ρ → EchoPathVariability → Bool → Option DelayEstimate → RenderDelayBuffer β φ ψ σ δ → γ → ρ × γ

structure Processor (β φ ψ σ δ μ ρ : Type) where
  captureProperlyStarted : Bool := false
  renderProperlyStarted : Bool := false
  renderBuffer : RenderDelayBuffer β φ ψ σ δ
  delayController : RenderDelayController σ μ
  echoRemover : ρ
  renderEvent : BufferingEvent := .none
  estimatedDelay : Option DelayEstimate := none

section Calls

variable (stages : Stages c β φ ψ σ δ μ ρ γ)

def Processor.bufferRender (s : Processor β φ ψ σ δ μ ρ) (block : β) : Option (Processor β φ ψ σ δ μ ρ) := do
  let (renderBuffer, renderEvent) ← s.renderBuffer.insert stages.render block
  some { s with
    renderBuffer, renderEvent
    renderProperlyStarted := true }

def Processor.startCapture (c : Config) (s : Processor β φ ψ σ δ μ ρ) : Option (Processor β φ ψ σ δ μ ρ) :=
  if s.captureProperlyStarted then some s
  else (s.renderBuffer.reset c).map fun renderBuffer =>
    { s with
      captureProperlyStarted := true
      renderBuffer
      delayController := s.delayController.reset true }

/-- The newly arrived render blocks are made use of. The answer is whether any were lost. -/
def Processor.updateRender (c : Config) (s : Processor β φ ψ σ δ μ ρ) : Option (Processor β φ ψ σ δ μ ρ × Bool) :=
  let overrun := decide (s.renderEvent = BufferingEvent.renderOverrun)
  let controller := if overrun then s.delayController.reset true else s.delayController
  (s.renderBuffer.prepareCaptureProcessing c).map fun (renderBuffer, event) =>
    ({ s with
       renderBuffer
       renderEvent := .none
       delayController := if event = BufferingEvent.renderUnderrun then controller.reset false else controller },
      overrun)

/-- The delay found is set. The answer is whether it changed. -/
def Processor.align (s : Processor β φ ψ σ δ μ ρ) (capture : γ) : Option (Processor β φ ψ σ δ μ ρ × Bool) := do
  let (delayController, estimatedDelay) ← s.delayController.getDelay c stages.config stages.hysteresisLimitBlocks
    stages.capture s.renderBuffer.lowRate capture
  let s := { s with delayController, estimatedDelay }
  match estimatedDelay with
  | none => some (s, false)
  | some estimate => (s.renderBuffer.alignFromDelay c estimate.delay).map fun (renderBuffer, changed) =>
    ({ s with renderBuffer }, changed)

def Processor.processCapture (s : Processor β φ ψ σ δ μ ρ) (echoPathGainChange saturated : Bool) (capture : γ) :
    Option (Processor β φ ψ σ δ μ ρ × γ) :=
  if s.renderProperlyStarted then do
    let s ← s.startCapture c
    let (s, overrun) ← s.updateRender c
    let (s, changed) ← s.align stages capture
    let variability : EchoPathVariability :=
      { gainChange := echoPathGainChange
        delayChange := if changed then .newDetectedDelay else if overrun then .bufferFlush else .none
        clockDrift := s.delayController.hasClockdrift }
    let (echoRemover, result) :=
      stages.removeEcho s.echoRemover variability saturated s.estimatedDelay s.renderBuffer capture
    some ({ s with echoRemover }, result)
  else some ({ s with renderBuffer := s.renderBuffer.handleSkippedCaptureProcessing }, capture)

def create (decimator : δ) (captureMixer : μ) (echoRemover : ρ) : Option (Processor β φ ψ σ δ μ ρ) :=
  (fresh stages.render decimator).map fun renderBuffer =>
    { renderBuffer
      delayController := { delayEstimator := .new c stages.config captureMixer }
      echoRemover }

inductive Action (β γ : Type) where
  | bufferRender (block : β)
  | processCapture (echoPathGainChange saturated : Bool) (capture : γ)
  | setAudioBufferDelay (delayMs : Int)

def Processor.step (s : Processor β φ ψ σ δ μ ρ) : Action β γ → Option (Processor β φ ψ σ δ μ ρ)
  | .bufferRender block => s.bufferRender stages block
  | .processCapture echoPathGainChange saturated capture =>
    (s.processCapture stages echoPathGainChange saturated capture).map Prod.fst
  | .setAudioBufferDelay delayMs => some { s with renderBuffer := s.renderBuffer.setAudioBufferDelay c delayMs }

/-- A call, with what has been given back of the capture blocks, the newest last. -/
def answered (watched : Processor β φ ψ σ δ μ ρ × List γ) : Action β γ → Option (Processor β φ ψ σ δ μ ρ × List γ)
  | .processCapture echoPathGainChange saturated capture =>
    (watched.1.processCapture stages echoPathGainChange saturated capture).map fun (next, result) =>
      (next, watched.2 ++ [result])
  | action => (watched.1.step stages action).map fun next => (next, watched.2)

/-- The render blocks that calls bring in, as they are stored, the newest first. -/
def rendered : List (Action β γ) → List β → List β
  | [], earlier => earlier
  | .bufferRender block :: rest, earlier => rendered rest (stages.render.amplify block :: earlier)
  | _ :: rest, earlier => rendered rest earlier

end Calls

structure Processor.Sound (stages : Stages c β φ ψ σ δ μ ρ γ) (s : Processor β φ ψ σ δ μ ρ) : Prop where
  renderBuffer : RenderDelay.Sound stages.render s.renderBuffer
  delayController : s.delayController.Sound c stages.config stages.hysteresisLimitBlocks
  started : s.renderProperlyStarted = true ↔ s.renderBuffer.inserted ≠ []

/-- What is done before the echo is removed leaves the echo remover and the render signal alone. -/
structure Prepared (stages : Stages c β φ ψ σ δ μ ρ γ) (s next : Processor β φ ψ σ δ μ ρ) : Prop where
  sound : next.Sound stages
  inserted : next.renderBuffer.inserted = s.renderBuffer.inserted
  echoRemover : next.echoRemover = s.echoRemover

def Processor.Aligned (c : Config) (s : Processor β φ ψ σ δ μ ρ) : Prop :=
  ∀ estimate ∈ s.estimatedDelay, s.renderBuffer.delay = some estimate.delay ∧ estimate.delay < preEchoPlaces c

section Specs

variable {stages : Stages c β φ ψ σ δ μ ρ γ} {s : Processor β φ ψ σ δ μ ρ}

theorem bufferRender_spec (sound : s.Sound stages) (block : β) :
    ∃ next, s.bufferRender stages block = some next ∧ next.Sound stages ∧
      next.renderBuffer.inserted = stages.render.amplify block :: s.renderBuffer.inserted := by
  obtain ⟨⟨renderBuffer, event⟩, taken, kept, added⟩ := insert_spec sound.renderBuffer block
  rw [Processor.bufferRender, taken]
  refine ⟨_, rfl, ⟨kept, sound.delayController, iff_of_true rfl ?_⟩, added⟩
  exact ne_of_eq_of_ne added (List.cons_ne_nil _ _)

theorem startCapture_spec (sound : s.Sound stages) : ∃ next, s.startCapture c = some next ∧ Prepared stages s next := by
  rw [Processor.startCapture]
  split
  next => exact ⟨s, rfl, sound, rfl, rfl⟩
  next =>
    obtain ⟨renderBuffer, taken, kept, same⟩ := reset_spec sound.renderBuffer
    rw [taken, Option.map_some]
    refine ⟨_, rfl, ⟨kept, ?_, ?_⟩, same, rfl⟩
    · exact sound.delayController.reset true
    · dsimp only
      rw [same]
      exact sound.started

theorem updateRender_spec (sound : s.Sound stages) :
    ∃ next, s.updateRender c = some next ∧ Prepared stages s next.1 := by
  obtain ⟨⟨renderBuffer, event⟩, taken, kept, same⟩ := prepareCaptureProcessing_spec sound.renderBuffer
  have flushed : ∀ overrun : Bool, (if overrun = true then s.delayController.reset true else s.delayController).Sound c
      stages.config stages.hysteresisLimitBlocks := fun overrun => by
    split
    next => exact sound.delayController.reset true
    next => exact sound.delayController
  rw [Processor.updateRender, taken, Option.map_some]
  refine ⟨_, rfl, ⟨kept, ?_, ?_⟩, same, rfl⟩
  · dsimp only
    split
    next => exact (flushed _).reset false
    next => exact flushed _
  · dsimp only
    rw [same]
    exact sound.started

theorem align_spec (sound : s.Sound stages) (capture : γ) :
    ∃ next, s.align stages capture = some next ∧ Prepared stages s next.1 ∧ next.1.Aligned c := by
  have nonempty : 0 < s.renderBuffer.lowRate.size := by
    rw [sound.renderBuffer.stored.lowRateSize]
    exact Nat.zero_lt_of_lt sound.renderBuffer.stored.lowRateInside
  obtain ⟨controller, found, kept, answered⟩ := getDelay_spec stages.capture sound.delayController nonempty capture
  rw [Processor.align, found, Option.bind_eq_bind, Option.bind_some]
  cases estimated : controller.delay with
  | none => exact ⟨_, rfl, ⟨⟨sound.renderBuffer, kept, sound.started⟩, rfl, rfl⟩, nofun⟩
  | some estimate =>
    obtain ⟨⟨renderBuffer, changed⟩, taken, aligned, delay, same⟩ :=
      alignFromDelay_spec stages.own sound.renderBuffer estimate.delay
    dsimp only
    rw [taken, Option.map_some]
    refine ⟨_, rfl, ⟨⟨aligned, kept, ?_⟩, same, rfl⟩, fun other present => ?_⟩
    · dsimp only
      rw [same]
      exact sound.started
    · obtain rfl := Option.some.inj present
      exact ⟨delay, answered.inside estimate estimated⟩

/-- A capture block passes as it is until there is a render signal. Then the echo remover is given it. -/
structure Processed (stages : Stages c β φ ψ σ δ μ ρ γ) (s : Processor β φ ψ σ δ μ ρ)
    (echoPathGainChange saturated : Bool) (capture : γ) (next : Processor β φ ψ σ δ μ ρ) (result : γ) : Prop where
  silent : s.renderBuffer.inserted = [] → next = s ∧ result = capture
  removed : s.renderBuffer.inserted ≠ [] → next.Aligned c ∧
    (next.delayController.hasClockdrift = true ↔
      LatelySeen ProbablyDrifting next.delayController.delayEstimator.refinedLags) ∧ ∃ delayChange,
    (next.echoRemover, result) = stages.removeEcho s.echoRemover
      ⟨echoPathGainChange, delayChange, next.delayController.hasClockdrift⟩ saturated next.estimatedDelay
      next.renderBuffer capture

theorem processCapture_spec (sound : s.Sound stages) (echoPathGainChange saturated : Bool) (capture : γ) :
    ∃ next result, s.processCapture stages echoPathGainChange saturated capture = some (next, result) ∧
      next.Sound stages ∧ next.renderBuffer.inserted = s.renderBuffer.inserted ∧
      Processed stages s echoPathGainChange saturated capture next result := by
  rw [Processor.processCapture]
  split
  next begun =>
    obtain ⟨start, starting, started⟩ := startCapture_spec sound
    obtain ⟨⟨ready, overrun⟩, updating, updated⟩ := updateRender_spec started.sound
    obtain ⟨⟨last, changed⟩, aligning, aligned, delay⟩ := align_spec updated.sound capture
    have same : last.renderBuffer.inserted = s.renderBuffer.inserted :=
      aligned.inserted.trans (updated.inserted.trans started.inserted)
    have remover : last.echoRemover = s.echoRemover :=
      aligned.echoRemover.trans (updated.echoRemover.trans started.echoRemover)
    simp only [starting, updating, aligning, Option.bind_eq_bind, Option.bind_some]
    refine ⟨_, _, rfl, ⟨aligned.sound.renderBuffer, aligned.sound.delayController, aligned.sound.started⟩, same, ?_, ?_⟩
    · exact fun none => absurd none (sound.started.mp begun)
    · exact fun _ => ⟨delay, hasClockdrift_iff aligned.sound.delayController, _, by rw [remover]⟩
  next silent =>
    refine ⟨s, capture, rfl, sound, rfl, fun _ => ⟨rfl, rfl⟩, fun some => absurd (sound.started.mpr some) silent⟩

end Specs

section Runs

variable {stages : Stages c β φ ψ σ δ μ ρ γ} {s : Processor β φ ψ σ δ μ ρ}

theorem Processor.sound_step (sound : s.Sound stages) (action : Action β γ) :
    ∃ next, s.step stages action = some next ∧ next.Sound stages ∧
      ∀ rest, rendered stages (action :: rest) s.renderBuffer.inserted =
        rendered stages rest next.renderBuffer.inserted := by
  cases action with
  | bufferRender block =>
    obtain ⟨next, taken, kept, added⟩ := bufferRender_spec sound block
    exact ⟨next, taken, kept, fun _ => by rw [rendered, added]⟩
  | processCapture echoPathGainChange saturated capture =>
    obtain ⟨next, result, taken, kept, same, -⟩ := processCapture_spec sound echoPathGainChange saturated capture
    exact ⟨next, congrArg (Option.map Prod.fst) taken, kept, fun _ => by rw [rendered, same]; nofun⟩
  | setAudioBufferDelay delayMs =>
    have kept := setAudioBufferDelay_spec sound.renderBuffer delayMs
    exact ⟨_, rfl, ⟨kept, sound.delayController, sound.started⟩, fun _ => rfl⟩

theorem Processor.sound_create (stages : Stages c β φ ψ σ δ μ ρ γ) (decimator : δ) (captureMixer : μ)
    (echoRemover : ρ) :
    ∃ s, create stages decimator captureMixer echoRemover = some s ∧ s.Sound stages ∧ s.renderBuffer.inserted = [] := by
  obtain ⟨renderBuffer, taken, sound, empty⟩ := sound_fresh stages.render decimator
  rw [create, taken, Option.map_some]
  refine ⟨_, rfl, ⟨sound, ?_, ?_⟩, empty⟩
  · exact RenderDelayController.sound_new (EchoPathDelayEstimator.sound_new captureMixer)
  · exact iff_of_false nofun (not_not_intro empty)

theorem Processor.sound_run (sound : s.Sound stages) (actions : List (Action β γ)) :
    ∃ last, run (Processor.step stages) s actions = some last ∧ last.Sound stages ∧
      last.renderBuffer.inserted = rendered stages actions s.renderBuffer.inserted := by
  induction actions generalizing s with
  | nil => exact ⟨s, rfl, sound, rfl⟩
  | cons action rest ih =>
    obtain ⟨next, taken, sound, added⟩ := Processor.sound_step sound action
    rw [run, taken, added]
    exact ih sound

theorem step_of_answered {watched next : Processor β φ ψ σ δ μ ρ × List γ} {action : Action β γ}
    (taken : answered stages watched action = some next) : watched.1.step stages action = some next.1 := by
  unfold answered at taken
  split at taken
  next =>
    obtain ⟨⟨later, result⟩, processed, rfl⟩ := Option.map_eq_some_iff.mp taken
    exact congrArg (Option.map Prod.fst) processed
  next =>
    obtain ⟨later, stepped, rfl⟩ := Option.map_eq_some_iff.mp taken
    exact stepped

theorem run_of_answered {watched last : Processor β φ ψ σ δ μ ρ × List γ} {actions : List (Action β γ)}
    (taken : run (answered stages) watched actions = some last) :
    run (Processor.step stages) watched.1 actions = some last.1 := by
  induction actions generalizing watched with
  | nil =>
    obtain rfl := Option.some.inj taken
    rfl
  | cons action rest ih =>
    obtain ⟨next, stepped, remaining⟩ := run_cons taken
    rw [run, step_of_answered stepped]
    exact ih remaining

theorem answered_isSome (sound : s.Sound stages) (results : List γ) (action : Action β γ) :
    (answered stages (s, results) action).isSome := by
  cases action with
  | processCapture echoPathGainChange saturated capture =>
    obtain ⟨next, result, taken, -⟩ := processCapture_spec sound echoPathGainChange saturated capture
    rw [answered, taken]
    rfl
  | bufferRender block =>
    obtain ⟨next, taken, -⟩ := bufferRender_spec sound block
    rw [answered, Processor.step, taken]
    · rfl
    · nofun
  | setAudioBufferDelay delayMs => rfl

end Runs

end Fswtch.Apm.BlockProcessor
