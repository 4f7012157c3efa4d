import Fswtch.Apm.BlockProcessor
import Fswtch.Apm.CancellerRuns

/-! The echo canceller with its block processors, one after the other, each for a single render channel or for all of
them. Each is given the blocks of the render frames since it was created, and what is given back of the capture signal
is what they have made of it. -/

namespace Fswtch.Apm.Canceller
open Fswtch.Apm.Framing Fswtch.Apm.RenderDelay Fswtch.Apm.DelayEstimation Fswtch.Apm.BlockProcessor Fswtch.Lib.StepRun

abbrev Block (bands : Nat) (α : Type) := (channels : Nat) × Sheet bands channels blockSize α

section Kept

variable {bands inputs captures : Nat} {α ρ : Type}

def Render.given : Render bands inputs α → List (Block bands α)
  | .mono side => side.blocks.map fun block => ⟨1, block⟩
  | .multi side => side.blocks.map fun block => ⟨inputs, block⟩

section Frames

variable {channels : Nat}

theorem bufferRenderFrame_kept [NeZero bands] [NeZero channels]
    {bufferRender : ρ → Sheet bands channels blockSize α → ρ}
    (holds : List (Sheet bands channels blockSize α) → ρ → Prop)
    (kept : ∀ blocks processor block, holds blocks processor → holds (blocks ++ [block]) (bufferRender processor block))
    {halves : Fin 2 → Sheet bands channels subFrameLength α} {side : RenderSide bands channels α} {processor : ρ}
    (before : holds side.blocks processor) {next : RenderSide bands channels α × ρ}
    (taken : bufferRenderFrame bufferRender halves side processor = some next) : holds next.1.blocks next.2 := by
  have content : ∀ half (side : RenderSide bands channels α) (processor : ρ) next,
      bufferRenderFrameContent bufferRender half side processor = some next → holds side.blocks processor →
        holds next.1.blocks next.2 := fun half side processor next taken before => by
    obtain ⟨cut, -, same⟩ := Option.bind_eq_some_iff.mp taken
    obtain rfl := Option.some.inj same
    exact kept _ _ _ before
  obtain ⟨first, halfway, taken⟩ := Option.bind_eq_some_iff.mp taken
  obtain ⟨second, whole, taken⟩ := Option.bind_eq_some_iff.mp taken
  have both := content _ _ _ second whole (content _ _ _ first halfway before)
  dsimp only [bufferRemainingRenderFrameContent] at taken
  split at taken
  next =>
    obtain ⟨cut, -, same⟩ := Option.bind_eq_some_iff.mp taken
    obtain rfl := Option.some.inj same
    exact kept _ _ _ both
  next =>
    obtain rfl := Option.some.inj taken
    exact both

theorem processCaptureFrame_kept [NeZero bands] [NeZero captures]
    {processCapture : ρ → Sheet bands captures blockSize α → ρ × Sheet bands captures blockSize α}
    (holds : List (Sheet bands captures blockSize α) → List (Sheet bands captures blockSize α) → ρ → Prop)
    (kept : ∀ given returned processor block, holds given returned processor →
      holds (given ++ [block]) (returned ++ [(processCapture processor block).2]) (processCapture processor block).1)
    {side : CaptureSide bands captures α} {processor : ρ} {capture : Sheet bands captures frameSize α}
    (before : holds side.given side.returned processor)
    {next : CaptureSide bands captures α × ρ × Sheet bands captures frameSize α}
    (taken : processCaptureFrame processCapture side processor capture = some next) :
    holds next.1.given next.1.returned next.2.1 := by
  have content : ∀ (index : Fin 2) (side : CaptureSide bands captures α) (processor : ρ)
      (capture : Sheet bands captures frameSize α) next,
      processCaptureFrameContent processCapture index side processor capture = some next →
        holds side.given side.returned processor → holds next.1.given next.1.returned next.2.1 :=
    fun index side processor capture next taken before => by
      obtain ⟨cut, -, taken⟩ := Option.bind_eq_some_iff.mp taken
      obtain ⟨built, -, same⟩ := Option.bind_eq_some_iff.mp taken
      obtain rfl := Option.some.inj same
      exact kept _ _ _ _ before
  obtain ⟨first, halfway, taken⟩ := Option.bind_eq_some_iff.mp taken
  obtain ⟨second, whole, taken⟩ := Option.bind_eq_some_iff.mp taken
  have both := content _ _ _ _ second whole (content _ _ _ _ first halfway before)
  obtain ⟨last, remaining, same⟩ := Option.bind_eq_some_iff.mp taken
  obtain rfl := Option.some.inj same
  dsimp only [processRemainingCaptureFrameContent] at remaining
  split at remaining
  next =>
    obtain ⟨cut, -, remaining⟩ := Option.bind_eq_some_iff.mp remaining
    obtain ⟨built, -, same⟩ := Option.bind_eq_some_iff.mp remaining
    obtain rfl := Option.some.inj same
    exact kept _ _ _ _ both
  next =>
    obtain rfl := Option.some.inj remaining
    exact both

end Frames

theorem updateDetection_changed {d : MultiChannelContentDetector} {differ : α → α → Bool}
    {frame : Sheet bands inputs frameSize α} {found : MultiChannelContentDetector × Bool}
    (detected : d.updateDetection differ frame = some found) :
    found.2 = false ↔
      found.1.persistentMultichannelContentDetected = d.persistentMultichannelContentDetected := by
  unfold MultiChannelContentDetector.updateDetection at detected
  split at detected
  next =>
    obtain rfl := Option.some.inj detected
    rw [bne_eq_false_iff_eq, eq_comm]
  next =>
    split at detected
    next =>
      obtain rfl := Option.some.inj detected
      exact iff_of_true rfl rfl
    next => cases detected

end Kept

section Processors

variable {c : Bool → Config} {bands inputs captures : Nat} {α φ ψ σ δ μ ρ : Type} [Samples σ]
  (stages : (multi : Bool) → Stages (c multi) (Block bands α) φ ψ σ δ μ ρ (Sheet bands captures blockSize α))
  (decimator : δ) (captureMixer : μ) (echoRemover : ρ)

/-- A block processor of the one kind or the other, with the calls on it since it was created and what they have given
back. -/
structure Live where
  multi : Bool
  calls : List (BlockProcessor.Action (Block bands α) (Sheet bands captures blockSize α))
  processor : Processor (Block bands α) φ ψ σ δ μ ρ
  results : List (Sheet bands captures blockSize α)
  carried : ((create (stages multi) decimator captureMixer echoRemover).bind fun start =>
    run (answered (stages multi)) (start, []) calls) = some (processor, results)

def renderedOf : BlockProcessor.Action (Block bands α) (Sheet bands captures blockSize α) → Option (Block bands α)
  | .bufferRender block => some block
  | _ => none

def capturedOf : BlockProcessor.Action (Block bands α) (Sheet bands captures blockSize α) →
    Option (Sheet bands captures blockSize α)
  | .processCapture _ _ capture => some capture
  | _ => none

variable {stages decimator captureMixer echoRemover}

def Live.rendered (p : Live stages decimator captureMixer echoRemover) : List (Block bands α) :=
  p.calls.filterMap renderedOf

def Live.captured (p : Live stages decimator captureMixer echoRemover) : List (Sheet bands captures blockSize α) :=
  p.calls.filterMap capturedOf

theorem rendered_eq {multi : Bool}
    (calls : List (BlockProcessor.Action (Block bands α) (Sheet bands captures blockSize α)))
    (earlier : List (Block bands α)) : BlockProcessor.rendered (stages multi) calls earlier =
      ((calls.filterMap renderedOf).map (stages multi).render.amplify).reverse ++ earlier := by
  induction calls generalizing earlier with
  | nil => rfl
  | cons call rest ih =>
    cases call with
    | bufferRender block => simp [BlockProcessor.rendered, renderedOf, ih]
    | processCapture levelChange saturated capture => exact ih earlier
    | setAudioBufferDelay delayMs => exact ih earlier

theorem Live.sound (p : Live stages decimator captureMixer echoRemover) :
    p.processor.Sound (stages p.multi) ∧
      p.processor.renderBuffer.inserted = (p.rendered.map (stages p.multi).render.amplify).reverse := by
  obtain ⟨start, begun, sound, empty⟩ := Processor.sound_create (stages p.multi) decimator captureMixer echoRemover
  have carried := p.carried
  rw [begun, Option.bind_some] at carried
  obtain ⟨last, taken, kept, all⟩ := Processor.sound_run sound p.calls
  obtain rfl := Option.some.inj ((run_of_answered carried).symm.trans taken)
  refine ⟨kept, all.trans ?_⟩
  rw [rendered_eq, empty, List.append_nil]
  rfl

def Live.call (p : Live stages decimator captureMixer echoRemover)
    (action : BlockProcessor.Action (Block bands α) (Sheet bands captures blockSize α)) :
    Live stages decimator captureMixer echoRemover :=
  let next := (answered (stages p.multi) (p.processor, p.results) action).get
    (answered_isSome p.sound.1 p.results action)
  { multi := p.multi
    calls := p.calls ++ [action]
    processor := next.1
    results := next.2
    carried := by
      obtain ⟨start, begun, taken⟩ := Option.bind_eq_some_iff.mp p.carried
      rw [begun, Option.bind_some, run_append, taken, Option.bind_some, run,
        ← Option.some_get (answered_isSome p.sound.1 p.results action)]
      rfl }

def Live.create (multi : Bool) : Live stages decimator captureMixer echoRemover :=
  let start := (BlockProcessor.create (stages multi) decimator captureMixer echoRemover).get <| by
    obtain ⟨start, begun, -⟩ := Processor.sound_create (stages multi) decimator captureMixer echoRemover
    rw [begun]
    rfl
  { multi
    calls := []
    processor := start
    results := []
    carried := by
      obtain ⟨begin, begun, -⟩ := Processor.sound_create (stages multi) decimator captureMixer echoRemover
      simp only [start, begun, Option.bind_some, Option.get_some]
      rfl }

def Live.bufferRender (p : Live stages decimator captureMixer echoRemover) (block : Block bands α) :
    Live stages decimator captureMixer echoRemover := p.call (.bufferRender block)

def Live.processCapture (p : Live stages decimator captureMixer echoRemover) (levelChange saturated : Bool)
    (capture : Sheet bands captures blockSize α) :
    Live stages decimator captureMixer echoRemover × Sheet bands captures blockSize α :=
  let next := p.call (.processCapture levelChange saturated capture)
  (next, next.results.getLastD capture)

theorem Live.bufferRender_results (p : Live stages decimator captureMixer echoRemover) (block : Block bands α) :
    (p.bufferRender block).results = p.results := by
  have taken := (Option.some_get (answered_isSome p.sound.1 p.results (.bufferRender block))).symm
  obtain ⟨next, stepped, same⟩ := Option.map_eq_some_iff.mp taken
  exact (congrArg Prod.snd same).symm

theorem Live.processCapture_results (p : Live stages decimator captureMixer echoRemover) (levelChange saturated : Bool)
    (capture : Sheet bands captures blockSize α) :
    (p.processCapture levelChange saturated capture).1.results =
      p.results ++ [(p.processCapture levelChange saturated capture).2] := by
  have taken := (Option.some_get
    (answered_isSome p.sound.1 p.results (.processCapture levelChange saturated capture))).symm
  obtain ⟨next, processed, same⟩ := Option.map_eq_some_iff.mp taken
  have results : (p.processCapture levelChange saturated capture).1.results = p.results ++ [next.2] :=
    (congrArg Prod.snd same).symm
  rw [results, show (p.processCapture levelChange saturated capture).2 =
    (p.processCapture levelChange saturated capture).1.results.getLastD capture from rfl, results,
    List.getLastD_concat]

theorem Live.processCapture_captured (p : Live stages decimator captureMixer echoRemover) (levelChange saturated : Bool)
    (capture : Sheet bands captures blockSize α) :
    (p.processCapture levelChange saturated capture).1.captured = p.captured ++ [capture] := by
  change List.filterMap capturedOf (p.calls ++ [.processCapture levelChange saturated capture]) = _
  rw [List.filterMap_append]
  rfl

def Live.Answers (p : Live stages decimator captureMixer echoRemover) : Prop :=
  ∀ before levelChange saturated capture after,
    p.calls = before ++ .processCapture levelChange saturated capture :: after →
    ∃ s earlier next result later, ((BlockProcessor.create (stages p.multi) decimator captureMixer echoRemover).bind
        fun start => run (answered (stages p.multi)) (start, []) before) = some (s, earlier) ∧
      s.processCapture (stages p.multi) levelChange saturated capture = some (next, result) ∧
      Processed (stages p.multi) s levelChange saturated capture next result ∧
      p.results = earlier ++ result :: later ∧ earlier.length = (before.filterMap capturedOf).length

theorem run_results {multi : Bool}
    {calls : List (BlockProcessor.Action (Block bands α) (Sheet bands captures blockSize α))}
    {watched last : Processor (Block bands α) φ ψ σ δ μ ρ × List (Sheet bands captures blockSize α)}
    (taken : run (answered (stages multi)) watched calls = some last) :
    ∃ later, last.2 = watched.2 ++ later ∧ later.length = (calls.filterMap capturedOf).length := by
  induction calls generalizing watched with
  | nil =>
    obtain rfl := Option.some.inj taken
    exact ⟨[], (List.append_nil _).symm, rfl⟩
  | cons call rest ih =>
    obtain ⟨next, stepped, remaining⟩ := run_cons taken
    obtain ⟨later, grown, long⟩ := ih remaining
    cases call with
    | processCapture levelChange saturated capture =>
      obtain ⟨⟨processor, result⟩, -, rfl⟩ := Option.map_eq_some_iff.mp stepped
      refine ⟨result :: later, grown.trans (List.append_assoc _ [result] later), ?_⟩
      rw [List.length_cons, long]
      rfl
    | bufferRender block =>
      obtain ⟨processor, -, rfl⟩ := Option.map_eq_some_iff.mp stepped
      exact ⟨later, grown, long⟩
    | setAudioBufferDelay delayMs =>
      obtain rfl := Option.some.inj stepped
      exact ⟨later, grown, long⟩

theorem Live.answers (p : Live stages decimator captureMixer echoRemover) : p.Answers := by
  intro before levelChange saturated capture after split
  obtain ⟨begin, begun, sound, -⟩ := Processor.sound_create (stages p.multi) decimator captureMixer echoRemover
  have carried := p.carried
  rw [begun, Option.bind_some, split, run_append] at carried
  obtain ⟨⟨s, earlier⟩, reached, carried⟩ := Option.bind_eq_some_iff.mp carried
  obtain ⟨last, taken, kept, -⟩ := Processor.sound_run sound before
  obtain rfl := Option.some.inj ((run_of_answered reached).symm.trans taken)
  obtain ⟨next, result, processing, -, -, processed⟩ := processCapture_spec kept levelChange saturated capture
  rw [run, answered, processing, Option.map_some, Option.bind_some] at carried
  obtain ⟨later, grown, -⟩ := run_results carried
  obtain ⟨first, same, long⟩ := run_results reached
  refine ⟨s, earlier, next, result, later, ?_, processing, processed, ?_, ?_⟩
  · rw [begun, Option.bind_some, reached]
  · exact grown.trans (List.append_assoc _ [result] later)
  · rw [show earlier = first from same, long]

variable (stages decimator captureMixer echoRemover) in
def liveParts (differ : α → α → Bool) (average : List α → α) :
    Parts bands inputs captures α (Live stages decimator captureMixer echoRemover) where
  create := Live.create
  bufferMono processor block := processor.bufferRender ⟨1, block⟩
  bufferMulti processor block := processor.bufferRender ⟨inputs, block⟩
  processCapture := Live.processCapture
  differ
  average

/-- Beside the canceller are kept the block processors that it has given up for another. -/
def retire (s : EchoCanceller bands inputs captures α (Live stages decimator captureMixer echoRemover))
    (_ : Action bands inputs captures α)
    (next : EchoCanceller bands inputs captures α (Live stages decimator captureMixer echoRemover))
    (retired : List (Live stages decimator captureMixer echoRemover)) :
    List (Live stages decimator captureMixer echoRemover) :=
  if next.detector.persistentMultichannelContentDetected = s.detector.persistentMultichannelContentDetected then retired
  else retired ++ [s.processor]

/-- The processor in use has got the blocks of the render frames since it was created. The capture blocks went to it and
to those before it, and what was given back is what they made of them. -/
structure Shared (retired : List (Live stages decimator captureMixer echoRemover))
    (s : EchoCanceller bands inputs captures α (Live stages decimator captureMixer echoRemover)) : Prop where
  kind : s.processor.multi = !s.render.isMono
  rendered : s.processor.rendered = s.render.given
  given : s.side.given = (retired ++ [s.processor]).flatMap Live.captured
  returned : s.side.returned = (retired ++ [s.processor]).flatMap Live.results

/-- The readers of the processor in use find its render blocks where the delay says, and every processor has answered
each capture block as it stood. -/
structure Served (retired : List (Live stages decimator captureMixer echoRemover))
    (s : EchoCanceller bands inputs captures α (Live stages decimator captureMixer echoRemover)) : Prop
    extends Shared retired s where
  inserted : s.processor.processor.renderBuffer.inserted =
    (s.render.given.map (stages s.processor.multi).render.amplify).reverse
  located : ∃ lag latency, Located (stages s.processor.multi).render s.processor.processor.renderBuffer.inserted
    s.processor.processor.renderBuffer lag latency
  answered : ∀ p ∈ retired ++ [s.processor], p.Answers

section Steps

variable [Zero α] [NeZero bands] [NeZero inputs] [NeZero captures]
  {retired : List (Live stages decimator captureMixer echoRemover)} {differ : α → α → Bool} {average : List α → α}
  {s next : EchoCanceller bands inputs captures α (Live stages decimator captureMixer echoRemover)}

omit [Zero α] [NeZero bands] [NeZero inputs] [NeZero captures] in
/-- A call with a render block moves nothing else. -/
theorem Live.bufferRender_keeps {multi : Bool} {given : List (Block bands α)}
    {captured results : List (Sheet bands captures blockSize α)}
    {p : Live stages decimator captureMixer echoRemover} (block : Block bands α)
    (held : p.multi = multi ∧ p.rendered = given ∧ p.captured = captured ∧ p.results = results) :
    (p.bufferRender block).multi = multi ∧ (p.bufferRender block).rendered = given ++ [block] ∧
      (p.bufferRender block).captured = captured ∧ (p.bufferRender block).results = results := by
  obtain ⟨rfl, rfl, rfl, rfl⟩ := held
  refine ⟨rfl, List.filterMap_append, ?_, p.bufferRender_results block⟩
  exact List.filterMap_append.trans (List.append_nil _)

omit [NeZero captures] in
theorem shared_bufferFrame (shared : Shared retired s) {frame : Sheet bands inputs frameSize α}
    (taken : s.bufferFrame (liveParts stages decimator captureMixer echoRemover differ average) frame = some next) :
    Shared retired next ∧ next.detector = s.detector := by
  have whole : ∀ {side : Render bands inputs α} {p : Live stages decimator captureMixer echoRemover} {queued},
      p.multi = (!side.isMono) ∧ p.rendered = side.given ∧ p.captured = s.processor.captured ∧
        p.results = s.processor.results →
      Shared retired { s with render := side, processor := p, rendered := queued } := fun held =>
    ⟨held.1, held.2.1, by simpa [held.2.2.1] using shared.given, by simpa [held.2.2.2] using shared.returned⟩
  rw [EchoCanceller.bufferFrame] at taken
  have start : s.processor.multi = (!s.render.isMono) ∧ s.processor.rendered = s.render.given ∧
      s.processor.captured = s.processor.captured ∧ s.processor.results = s.processor.results :=
    ⟨shared.kind, shared.rendered, rfl, rfl⟩
  cases present : s.render with
  | mono side =>
    rw [present] at start taken
    obtain ⟨after, buffered, rfl⟩ := Option.map_eq_some_iff.mp taken
    refine ⟨whole (bufferRenderFrame_kept (fun blocks p => p.multi = false ∧
      p.rendered = blocks.map (fun block => ⟨1, block⟩) ∧ p.captured = s.processor.captured ∧
      p.results = s.processor.results) (fun blocks p block held => ?_) start buffered), rfl⟩
    rw [List.map_append]
    exact Live.bufferRender_keeps ⟨1, block⟩ held
  | multi side =>
    rw [present] at start taken
    obtain ⟨after, buffered, rfl⟩ := Option.map_eq_some_iff.mp taken
    refine ⟨whole (bufferRenderFrame_kept (fun blocks p => p.multi = true ∧
      p.rendered = blocks.map (fun block => ⟨inputs, block⟩) ∧ p.captured = s.processor.captured ∧
      p.results = s.processor.results) (fun blocks p block held => ?_) start buffered), rfl⟩
    rw [List.map_append]
    exact Live.bufferRender_keeps ⟨inputs, block⟩ held

omit [Zero α] [NeZero bands] [NeZero inputs] [NeZero captures] in
theorem shared_new (multi : Bool)
    (given : s.side.given = retired.flatMap Live.captured) (returned : s.side.returned = retired.flatMap Live.results) :
    Shared retired { s with
      render := if multi then .multi {} else .mono {}
      processor := Live.create multi
      rendered := [] } where
  kind := by cases multi <;> rfl
  rendered := by cases multi <;> rfl
  given := by
    rw [List.flatMap_append, ← given]
    exact (List.append_nil _).symm
  returned := by
    rw [List.flatMap_append, ← returned]
    exact (List.append_nil _).symm

omit [NeZero bands] [NeZero inputs] [NeZero captures] in
theorem shared_fresh (detect : Bool) (hysteresis : Int) (timeout : Option Int) (delay : Nat) :
    Shared [] (fresh (liveParts stages decimator captureMixer echoRemover differ average) detect hysteresis timeout delay :
      EchoCanceller bands inputs captures α (Live stages decimator captureMixer echoRemover)) := by
  rw [fresh]
  generalize (!detect && decide (inputs > 1)) = multi
  cases multi <;> exact ⟨rfl, rfl, rfl, rfl⟩

omit [NeZero captures] in
theorem shared_bufferRender (shared : Shared retired s) {frame : Sheet bands inputs frameSize α}
    (action : Action bands inputs captures α)
    (taken : s.bufferRender (liveParts stages decimator captureMixer echoRemover differ average) frame = some next) :
    Shared (retire s action next retired) next := by
  obtain ⟨found, detected, taken⟩ := Option.bind_eq_some_iff.mp taken
  have changed := updateDetection_changed detected
  cases switched : found.2 with
  | false =>
    rw [switched] at taken
    have kept : Shared retired { s with detector := found.1 } := { shared with }
    obtain ⟨later, detector⟩ := shared_bufferFrame kept taken
    rw [retire, if_pos (by rw [detector]; exact changed.mp switched)]
    exact later
  | true =>
    rw [switched] at taken
    have kept : Shared (retired ++ [s.processor]) (EchoCanceller.initializeState
        (liveParts stages decimator captureMixer echoRemover differ average) { s with detector := found.1 }) :=
      shared_new (s := { s with detector := found.1 }) found.1.persistentMultichannelContentDetected shared.given
        shared.returned
    obtain ⟨later, detector⟩ := shared_bufferFrame kept taken
    have other : ¬next.detector.persistentMultichannelContentDetected =
        s.detector.persistentMultichannelContentDetected := by
      rw [detector]
      exact fun same => Bool.noConfusion (switched.symm.trans (changed.mpr same))
    rw [retire, if_neg other]
    exact later

omit [Zero α] [NeZero inputs] in
theorem shared_finishCapture (shared : Shared retired s) {capture : Sheet bands captures frameSize α}
    {levelChange : Bool} {action : Action bands inputs captures α}
    (taken : s.finishCapture (liveParts stages decimator captureMixer echoRemover differ average) capture levelChange =
      some next) : Shared (retire s action next retired) next := by
  obtain ⟨after, processed, rfl⟩ := Option.map_eq_some_iff.mp taken
  rw [retire, if_pos rfl]
  have kept : ∀ given returned (p : Live stages decimator captureMixer echoRemover) block,
      (p.multi = (!s.render.isMono) ∧ p.rendered = s.render.given ∧ given = (retired ++ [p]).flatMap Live.captured ∧
        returned = (retired ++ [p]).flatMap Live.results) →
      let next := p.processCapture (levelChange || s.detector.temporaryMultichannelContentDetected)
        s.saturatedMicrophoneSignal block
      (next.1.multi = (!s.render.isMono) ∧ next.1.rendered = s.render.given ∧
        given ++ [block] = (retired ++ [next.1]).flatMap Live.captured ∧
        returned ++ [next.2] = (retired ++ [next.1]).flatMap Live.results) := by
    rintro given returned p block ⟨kind, rendered, rfl, rfl⟩
    refine ⟨kind, (List.filterMap_append.trans (List.append_nil _)).trans rendered, ?_, ?_⟩
    · simp only [List.flatMap_append, List.flatMap_singleton, List.append_assoc]
      exact congrArg _ (p.processCapture_captured _ _ block).symm
    · simp only [List.flatMap_append, List.flatMap_singleton, List.append_assoc]
      exact congrArg _ (p.processCapture_results _ _ block).symm
  obtain ⟨kind, rendered, given, returned⟩ := processCaptureFrame_kept _ kept
    ⟨shared.kind, shared.rendered, shared.given, shared.returned⟩ processed
  exact ⟨kind, rendered, given, returned⟩

theorem shared_step (shared : Shared retired s) {action : Action bands inputs captures α}
    (taken : s.step (liveParts stages decimator captureMixer echoRemover differ average) action = some next) :
    Shared (retire s action next retired) next := by
  have allowed := allowed_of_step taken
  cases action with
  | analyzeRender render =>
    rw [EchoCanceller.step] at taken
    split at taken <;> obtain rfl := Option.some.inj taken <;> rw [retire, if_pos rfl] <;> exact { shared with }
  | analyzeCapture saturated =>
    rw [EchoCanceller.step, if_pos (Option.isNone_iff_eq_none.mpr allowed)] at taken
    obtain rfl := Option.some.inj taken
    rw [retire, if_pos rfl]
    exact { shared with }
  | processCapture capture levelChange =>
    rw [EchoCanceller.step, if_pos (Option.isNone_iff_eq_none.mpr allowed)] at taken
    obtain rfl := Option.some.inj taken
    rw [retire, if_pos rfl]
    exact { shared with }
  | emptyRenderQueue =>
    have busy : s.capturing ≠ none := allowed
    cases queue : s.renderTransferQueue with
    | cons frame rest =>
      rw [step_take busy queue] at taken
      have kept : Shared retired { s with renderTransferQueue := rest } := { shared with }
      exact shared_bufferRender kept .emptyRenderQueue taken
    | nil =>
      obtain ⟨⟨capture, levelChange⟩, calling⟩ := Option.ne_none_iff_exists'.mp busy
      exact shared_finishCapture shared ((step_finish calling queue).symm.trans taken)

/-- Whatever the calls, the canceller and its block processors go together. -/
theorem blocks_served (detect : Bool) (hysteresis : Int) (timeout : Option Int) (delay : Nat)
    {actions : List (Action bands inputs captures α)}
    (taken : run (recorded (EchoCanceller.step (liveParts stages decimator captureMixer echoRemover differ average)) retire)
      (fresh (liveParts stages decimator captureMixer echoRemover differ average) detect hysteresis timeout delay, [])
      actions = some (s, retired)) : Served retired s := by
  have preserved : ∀ (watched : EchoCanceller bands inputs captures α (Live stages decimator captureMixer echoRemover) ×
      List (Live stages decimator captureMixer echoRemover)) (action : Action bands inputs captures α) next,
      Shared watched.2 watched.1 → recorded (EchoCanceller.step (liveParts stages decimator captureMixer echoRemover
        differ average)) retire watched action = some next → Shared next.2 next.1 := by
    intro watched action next shared stepped
    obtain ⟨moved, noted⟩ := recorded_eq_some stepped
    rw [noted]
    exact shared_step shared moved
  have shared : Shared retired s :=
    invariant_of_any_run preserved (shared_fresh detect hysteresis timeout delay) taken
  refine { shared with inserted := ?_, located := s.processor.sound.1.renderBuffer.located, answered := ?_ }
  · rw [s.processor.sound.2, shared.rendered]
  · exact fun p _ => p.answers

end Steps

end Processors

instance : Samples Int :=
  { Int.instLinearOrder with
    zero := 0
    one := 1
    add x y := x + y
    sub x y := x - y
    mul x y := x * y
    div x y := x / y }

def mute {channels : Nat} : Sheet 1 channels blockSize Int := ⟨fun _ _ => List.replicate blockSize 0, fun _ _ => rfl⟩

def plainStages (_ : Bool) : Stages oneFilter (Block 1 Int) Unit Unit Int Unit Unit Unit (Sheet 1 1 blockSize Int) where
  config :=
    { x2SumThreshold := 0
      smoothingFast := 0
      smoothingSlow := 0
      matchingFilterThreshold := 0
      preEchoThreshold := 0
      energyThreshold := 0
      smoothConstantIncreases := 0
      saturation _ := false
      excited := Int.le_refl 0
      count := id
      penalization := 0
      lowest := 0 }
  render :=
    { amplify := id
      decimate _ _ := ((), List.replicate oneFilter.subBlockSize 0)
      paddedFft _ _ := ()
      spectrum _ := ()
      detectActiveRender _ := false
      silentBlock := ⟨1, mute⟩
      silentFft := ()
      silentSpectrum := ()
      even _ _ := List.length_replicate }
  capture :=
    { decimate _ _ := ((), List.replicate oneFilter.subBlockSize 0)
      even _ _ := List.length_replicate }
  removeEcho _ _ _ _ _ _ := ((), mute)

def plainParts : Parts 1 1 1 Int (Live plainStages () () ()) :=
  liveParts plainStages () () () (fun x y => x != y) (fun samples => samples.headD 0)

def hum : Sheet 1 1 frameSize Int := ⟨fun _ _ => List.replicate frameSize 1, fun _ _ => rfl⟩

def bothSides : List (Action 1 1 1 Int) :=
  [.analyzeRender hum, .analyzeCapture false, .processCapture hum true, .emptyRenderQueue, .emptyRenderQueue]

theorem bothSides_taken :
    (run (recorded (EchoCanceller.step plainParts) retire) (fresh plainParts true 2 none 3, []) bothSides).isSome := by
  decide +kernel

theorem bothSides_served :
    ∃ s retired, run (recorded (EchoCanceller.step plainParts) retire) (fresh plainParts true 2 none 3, []) bothSides =
      some (s, retired) ∧ Served retired s := by
  obtain ⟨⟨s, retired⟩, taken⟩ := Option.isSome_iff_exists.mp bothSides_taken
  exact ⟨s, retired, taken, blocks_served true 2 none 3 taken⟩

end Fswtch.Apm.Canceller
