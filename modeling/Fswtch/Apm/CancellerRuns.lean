import Fswtch.Apm.SampleFlow

/-! The echo canceller over every run of its calls: no assertion on a buffer fails, the capture
signal comes out later by the fixed delay and one block, and the block processor gets the render
signal without a gap. -/

namespace Fswtch.Apm.Canceller
open Fswtch.Apm.Framing Fswtch.Apm.CaptureDelay Fswtch.Lib.StepRun

variable {bands inputs captures : Nat} {σ ρ : Type}

def EchoCanceller.afterDelay (s : EchoCanceller bands inputs captures σ ρ) : List (Sheet bands captures frameSize σ) :=
  s.captured ++ (s.capturing.map Prod.fst).toList

def EchoCanceller.held (s : EchoCanceller bands inputs captures σ ρ) (band : Fin bands) (channel : Fin captures) :
    List σ := (s.blockDelayBuffer.map fun buffer => buffer.held band channel).getD []

/-- The calls a client may make: those on the capture signal one after the other, those on the
render signal at any time. -/
def EchoCanceller.Allowed (s : EchoCanceller bands inputs captures σ ρ) : Action bands inputs captures σ → Prop
  | .analyzeRender _ => True
  | .analyzeCapture _ => s.capturing = none
  | .processCapture _ _ => s.capturing = none
  | .emptyRenderQueue => s.capturing ≠ none

def Parts.Produces (parts : Parts bands inputs captures σ ρ) (block result : Sheet bands captures blockSize σ) : Prop :=
  ∃ processor levelChange saturated, result = (parts.processCapture processor levelChange saturated block).2

theorem map_finRange_two {α : Type} (half : Fin 2 → α) : (List.finRange 2).map half = [half 0, half 1] := rfl

theorem halves_length {α β : Type} (frames : List α) (half : α → Fin 2 → β) :
    (frames.flatMap fun frame => (List.finRange 2).map (half frame)).length * subFrameLength =
      frames.length * frameSize := by
  induction frames with
  | nil => rfl
  | cons frame rest ih =>
    simp only [List.flatMap_cons, List.length_append, List.length_map, List.length_finRange, List.length_cons,
      subFrameLength, frameSize] at ih ⊢
    omega

def allHalves (frames : List (Sheet bands inputs frameSize σ)) : List (Sheet bands inputs subFrameLength σ) :=
  frames.flatMap fun frame => (List.finRange 2).map frame.half

theorem plane_allHalves (frames : List (Sheet bands inputs frameSize σ)) (band : Fin bands) (channel : Fin inputs) :
    plane (allHalves frames) band channel = plane frames band channel := by
  induction frames with
  | nil => rfl
  | cons frame rest ih =>
    rw [allHalves, List.flatMap_cons, ← allHalves, plane_append, ih]
    simp [map_finRange_two, plane, ← half_append frame]

def Render.isMono : Render bands inputs σ → Bool
  | .mono _ => true
  | .multi _ => false

theorem isMono_new (multi : Bool) : (if multi then .multi {} else .mono {} : Render bands inputs σ).isMono = !multi := by
  cases multi <;> rfl

def MultiChannelContentDetector.Plain (inputs : Nat) (d : MultiChannelContentDetector) : Prop :=
  d.detectStereoContent = false → d.persistentMultichannelContentDetected = decide (inputs > 1)

section Runs

variable [Zero σ] [NeZero inputs]

def monoHalves (average : List σ → σ) (frames : List (Bool × Sheet bands inputs frameSize σ)) :
    List (Sheet bands 1 subFrameLength σ) :=
  frames.flatMap fun frame =>
    (List.finRange 2).map (fillSubFrameView average frame.1 frame.2)

/-- The render side works on these frames, and what is kept between two of them is left over. -/
def Render.Follows (average : List σ → σ) (frames : List (Sheet bands inputs frameSize σ)) :
    Render bands inputs σ → Prop
  | .mono side => ∃ n, Between n ∧ side.Cut n ∧
      ∃ mixed, mixed.map Prod.snd = frames ∧ side.halves = monoHalves average mixed
  | .multi side => ∃ n, Between n ∧ side.Cut n ∧ side.halves = allHalves frames

variable [NeZero bands] [NeZero captures] (parts : Parts bands inputs captures σ ρ)

structure EchoCanceller.Sound (delay : Nat) (s : EchoCanceller bands inputs captures σ ρ) : Prop where
  queue : s.renderTransferQueue.length ≤ renderTransferQueueSizeFrames
  plain : s.detector.Plain inputs
  order : ∃ before, s.accepted = before ++ s.rendered ++ s.renderTransferQueue
  render : s.render.Follows parts.average s.rendered
  kind : s.render.isMono = !s.detector.persistentMultichannelContentDetected
  ring : ∀ buffer ∈ s.blockDelayBuffer, buffer.Sound
  delayed : ∀ band channel, plane s.afterDelay band channel ++ s.held band channel =
    List.replicate delay 0 ++ plane s.received band channel
  relay : ∃ n, Between n ∧ s.side.Relay parts.Produces n (plane s.captured) (plane s.outputs)
  level : s.outputs.length = s.captured.length

variable {parts}

omit [NeZero bands] [NeZero captures] in
theorem follows_new (multi : Bool) :
    (if multi then .multi {} else .mono {} : Render bands inputs σ).Follows parts.average [] := by
  cases multi with
  | false => exact ⟨0, .inl rfl, RenderSide.cut_new, [], rfl, rfl⟩
  | true => exact ⟨0, .inl rfl, RenderSide.cut_new, rfl⟩

omit [NeZero bands] [NeZero captures] in
theorem sound_fresh (detect : Bool) (hysteresis : Int) (timeout : Option Int) (delay : Nat) :
    (fresh parts detect hysteresis timeout delay).Sound parts delay where
  queue := Nat.zero_le _
  plain off := by
    have off : detect = false := off
    simp [fresh, off]
  order := ⟨[], rfl⟩
  render := follows_new _
  kind := isMono_new _
  ring buffer present := by
    by_cases positive : delay > 0
    · simp only [fresh, if_pos positive, Option.mem_def, Option.some.injEq] at present
      exact present ▸ BlockDelayBuffer.sound_new delay
    · simp [fresh, if_neg positive] at present
  delayed band channel := by
    by_cases positive : delay > 0
    · simp [EchoCanceller.afterDelay, EchoCanceller.held, fresh, if_pos positive, BlockDelayBuffer.held_new, plane]
    · simp [EchoCanceller.afterDelay, EchoCanceller.held, fresh, plane, Nat.eq_zero_of_not_pos positive]
  relay := ⟨0, .inl rfl, CaptureSide.relay_new _⟩
  level := rfl

omit [Zero σ] [NeZero bands] [NeZero inputs] in
theorem updateDetection_spec {d : MultiChannelContentDetector} (plain : d.Plain inputs) (differ : σ → σ → Bool)
    (frame : Sheet bands inputs frameSize σ) :
    ∃ found, d.updateDetection differ frame = some found ∧ found.1.Plain inputs ∧
      found.2 = (d.persistentMultichannelContentDetected != found.1.persistentMultichannelContentDetected) := by
  rw [MultiChannelContentDetector.updateDetection]
  cases detect : d.detectStereoContent with
  | false => exact ⟨(d, false), by simp [plain detect], plain, by simp⟩
  | true => exact ⟨_, rfl, fun off => by simp [MultiChannelContentDetector.updated, detect] at off, rfl⟩

section Frames

variable (parts)

omit [NeZero captures] in
theorem bufferFrame_spec (s : EchoCanceller bands inputs captures σ ρ) (follows : s.render.Follows parts.average s.rendered)
    (frame : Sheet bands inputs frameSize σ) :
    ∃ render processor, s.bufferFrame parts frame =
        some { s with render, processor, rendered := s.rendered ++ [frame] } ∧
      render.Follows parts.average (s.rendered ++ [frame]) ∧ render.isMono = s.render.isMono := by
  rw [EchoCanceller.bufferFrame]
  cases present : s.render with
  | mono side =>
    rw [present] at follows
    obtain ⟨n, between, cut, mixed, same, halves⟩ := follows
    let downmix := s.detector.temporaryMultichannelContentDetected
    obtain ⟨next, taken, later, added⟩ := bufferRenderFrame_spec parts.bufferMono cut between
      (fillSubFrameView parts.average downmix frame) s.processor
    refine ⟨.mono next.1, next.2, congrArg (Option.map _) taken,
      ⟨32 - n, between.flip, later, mixed ++ [(downmix, frame)], ?_, ?_⟩, rfl⟩
    · rw [List.map_append, same]
      rfl
    · rw [added, halves, monoHalves, monoHalves, List.flatMap_append]
      rfl
  | multi side =>
    rw [present] at follows
    obtain ⟨n, between, cut, halves⟩ := follows
    obtain ⟨next, taken, later, added⟩ :=
      bufferRenderFrame_spec parts.bufferMulti cut between frame.half s.processor
    refine ⟨.multi next.1, next.2, congrArg (Option.map _) taken, ⟨32 - n, between.flip, later, ?_⟩, rfl⟩
    rw [added, halves, allHalves, allHalves, List.flatMap_append]
    rfl

omit [NeZero captures] in
/-- A frame from the queue goes through, and touches only the render side and the processor. -/
theorem bufferRender_spec (s : EchoCanceller bands inputs captures σ ρ) (plain : s.detector.Plain inputs)
    (follows : s.render.Follows parts.average s.rendered)
    (kind : s.render.isMono = !s.detector.persistentMultichannelContentDetected) (frame : Sheet bands inputs frameSize σ) :
    ∃ found render processor rendered, s.detector.updateDetection parts.differ frame = some found ∧
      found.1.Plain inputs ∧ rendered = (if found.2 then [] else s.rendered) ∧
      s.bufferRender parts frame =
        some { s with detector := found.1, render, processor, rendered := rendered ++ [frame] } ∧
      render.Follows parts.average (rendered ++ [frame]) ∧
      render.isMono = !found.1.persistentMultichannelContentDetected := by
  obtain ⟨found, detected, still, tells⟩ := updateDetection_spec plain parts.differ frame
  rw [EchoCanceller.bufferRender, detected, Option.bind_some]
  cases changed : found.2 with
  | false =>
    obtain ⟨render, processor, taken, later, same⟩ :=
      bufferFrame_spec parts { s with detector := found.1 } follows frame
    refine ⟨found, render, processor, s.rendered, rfl, still, by simp [changed], taken, later, ?_⟩
    rw [changed] at tells
    rw [same, kind, bne_eq_false_iff_eq.mp tells.symm]
  | true =>
    obtain ⟨render, processor, taken, later, same⟩ := bufferFrame_spec parts
      ({ s with detector := found.1 }.initializeState parts) (follows_new _) frame
    exact ⟨found, render, processor, [], rfl, still, by simp [changed], taken, later, same.trans (isMono_new _)⟩

end Frames

omit [Zero σ] [NeZero inputs] in
theorem delayed_spec {s : EchoCanceller bands inputs captures σ ρ} (ring : ∀ buffer ∈ s.blockDelayBuffer, buffer.Sound)
    (capture : Sheet bands captures frameSize σ) :
    (∀ buffer ∈ (s.delayed capture).1, buffer.Sound) ∧
      ∀ band channel, (s.delayed capture).2.samples band channel ++
          ((s.delayed capture).1.map fun buffer => buffer.held band channel).getD [] =
        s.held band channel ++ capture.samples band channel := by
  simp only [EchoCanceller.delayed, EchoCanceller.held]
  cases present : s.blockDelayBuffer with
  | none =>
    refine ⟨fun buffer absent => by simp at absent, fun band channel => ?_⟩
    simp
  | some buffer =>
    obtain ⟨sound, -, moved⟩ := BlockDelayBuffer.delaySignal_spec (ring buffer present) capture
    refine ⟨fun later same => ?_, moved⟩
    exact Option.some.inj same ▸ sound

theorem step_take {s : EchoCanceller bands inputs captures σ ρ} {frame : Sheet bands inputs frameSize σ}
    {rest : List (Sheet bands inputs frameSize σ)} (busy : s.capturing ≠ none)
    (queue : s.renderTransferQueue = frame :: rest) :
    s.step parts .emptyRenderQueue = { s with renderTransferQueue := rest }.bufferRender parts frame := by
  obtain ⟨call, calling⟩ := Option.ne_none_iff_exists'.mp busy
  simp only [EchoCanceller.step, calling, queue]

theorem step_finish {s : EchoCanceller bands inputs captures σ ρ} {capture : Sheet bands captures frameSize σ}
    {levelChange : Bool} (calling : s.capturing = some (capture, levelChange)) (queue : s.renderTransferQueue = []) :
    s.step parts .emptyRenderQueue = s.finishCapture parts capture levelChange := by
  simp only [EchoCanceller.step, calling, queue]

/-- An allowed call is carried out, with every assertion met, and keeps the samples in their place. -/
theorem sound_step {delay : Nat} {s : EchoCanceller bands inputs captures σ ρ} (sound : s.Sound parts delay)
    (action : Action bands inputs captures σ) (allowed : s.Allowed action) :
    ∃ next, s.step parts action = some next ∧ next.Sound parts delay := by
  have quiet : s.capturing = none → s.afterDelay = s.captured := fun idle => by
    rw [EchoCanceller.afterDelay, idle]
    exact List.append_nil _
  obtain ⟨before, accepted⟩ := sound.order
  cases action with
  | analyzeRender render =>
    by_cases room : s.renderTransferQueue.length < renderTransferQueueSizeFrames
    · refine ⟨_, if_pos room, { sound with queue := ?_, order := ⟨before, ?_⟩ }⟩
      · rw [List.length_append]
        exact room
      · rw [accepted, List.append_assoc]
    · exact ⟨_, if_neg room, sound⟩
  | analyzeCapture saturated =>
    have idle : s.capturing = none := allowed
    exact ⟨_, if_pos (by rw [idle]; rfl), { sound with }⟩
  | processCapture capture levelChange =>
    have idle : s.capturing = none := allowed
    obtain ⟨ring, moved⟩ := delayed_spec sound.ring capture
    refine ⟨_, if_pos (by rw [idle]; rfl), { sound with ring, delayed := fun band channel => ?_ }⟩
    have earlier := sound.delayed band channel
    rw [quiet idle] at earlier
    simp only [EchoCanceller.afterDelay, EchoCanceller.held, Option.map_some, Option.toList_some, plane_snoc] at moved ⊢
    rw [List.append_assoc, moved, ← List.append_assoc, ← List.append_assoc, ← earlier]
    rfl
  | emptyRenderQueue =>
    have busy : s.capturing ≠ none := allowed
    cases queue : s.renderTransferQueue with
    | cons frame rest =>
      obtain ⟨found, render, processor, rendered, -, plain, kept, taken, follows, kind⟩ := bufferRender_spec parts
        { s with renderTransferQueue := rest } sound.plain sound.render sound.kind frame
      refine ⟨_, (step_take busy queue).trans taken,
        { sound with queue := ?_, plain, kind, render := follows, order := ?_ }⟩
      · have short := sound.queue
        rw [queue] at short
        exact Nat.le_of_succ_le short
      · rw [kept, accepted, queue]
        cases found.2 with
        | false => exact ⟨before, by simp⟩
        | true => exact ⟨before ++ s.rendered, by simp⟩
    | nil =>
      obtain ⟨⟨capture, levelChange⟩, calling⟩ := Option.ne_none_iff_exists'.mp busy
      obtain ⟨n, between, relay⟩ := sound.relay
      obtain ⟨next, taken, later⟩ := processCaptureFrame_spec
        (fun processor => parts.processCapture processor
          (levelChange || s.detector.temporaryMultichannelContentDetected) s.saturatedMicrophoneSignal)
        (fun processor block => ⟨processor, _, _, rfl⟩) relay between s.processor capture
      refine ⟨_, (step_finish calling queue).trans (congrArg (Option.map _) taken),
        { sound with delayed := fun band channel => ?_, relay := ⟨32 - n, between.flip, ?_⟩, level := ?_ }⟩
      · have earlier := sound.delayed band channel
        simp only [EchoCanceller.afterDelay, calling, Option.map_some, Option.toList_some] at earlier
        simp only [EchoCanceller.afterDelay, Option.map_none, Option.toList_none, List.append_nil]
        exact earlier
      · simpa only [← plane_snoc] using later
      · rw [List.length_append, List.length_append, sound.level]
        rfl

theorem allowed_of_step {s next : EchoCanceller bands inputs captures σ ρ} {action : Action bands inputs captures σ}
    (taken : s.step parts action = some next) : s.Allowed action := by
  cases action with
  | analyzeRender render => trivial
  | analyzeCapture saturated =>
    refine Option.isNone_iff_eq_none.mp (Decidable.byContradiction fun busy => ?_)
    simp [EchoCanceller.step, busy] at taken
  | processCapture capture levelChange =>
    refine Option.isNone_iff_eq_none.mp (Decidable.byContradiction fun busy => ?_)
    simp [EchoCanceller.step, busy] at taken
  | emptyRenderQueue =>
    intro idle
    simp [EchoCanceller.step, idle] at taken

theorem sound_run {detect : Bool} {hysteresis : Int} {timeout : Option Int} {delay : Nat}
    {actions : List (Action bands inputs captures σ)} {s : EchoCanceller bands inputs captures σ ρ}
    (taken : run (EchoCanceller.step parts) (fresh parts detect hysteresis timeout delay) actions = some s) :
    s.Sound parts delay := by
  refine invariant_of_any_run (fun state action next sound stepped => ?_)
    (sound_fresh detect hysteresis timeout delay) taken
  obtain ⟨later, same, sound⟩ := sound_step sound action (allowed_of_step stepped)
  exact Option.some.inj (stepped.symm.trans same) ▸ sound

structure CaptureFlow (parts : Parts bands inputs captures σ ρ) (delay : Nat)
    (s : EchoCanceller bands inputs captures σ ρ) : Prop where
  /-- The frames processed are those received, later by the fixed delay. -/
  delayed : ∀ band channel, plane s.captured band channel =
    (List.replicate delay 0 ++ plane s.received band channel).take (s.captured.length * frameSize)
  /-- The block processor is given every whole block of them, and returns one for each. -/
  blocks : s.side.given.length = s.captured.length * frameSize / blockSize
  given : ∀ band channel, plane s.side.given band channel =
    (plane s.captured band channel).take (s.side.given.length * blockSize)
  made : List.Forall₂ parts.Produces s.side.given s.side.returned
  /-- The frames given back are the blocks returned, later by a block. -/
  frames : s.outputs.length = s.captured.length
  outputs : ∀ band channel, plane s.outputs band channel =
    (List.replicate blockSize 0 ++ plane s.side.returned band channel).take (s.outputs.length * frameSize)

theorem EchoCanceller.Sound.captureFlow {delay : Nat} {s : EchoCanceller bands inputs captures σ ρ}
    (sound : s.Sound parts delay) : CaptureFlow parts delay s := by
  obtain ⟨n, between, relay⟩ := sound.relay
  constructor
  case delayed =>
    intro band channel
    rw [← sound.delayed, EchoCanceller.afterDelay, plane_append, List.append_assoc,
      ← plane_length s.captured band channel, List.take_left]
  case blocks =>
    have long := congrArg List.length (relay.cut 0 0)
    rw [List.length_append, plane_length, plane_length, relay.level] at long
    simp only [blockSize] at long ⊢
    rcases between with rfl | rfl <;> omega
  case given =>
    intro band channel
    rw [← relay.cut, ← plane_length, List.take_left]
  case made => exact relay.made
  case frames => exact sound.level
  case outputs =>
    intro band channel
    rw [← relay.built, ← plane_length, List.take_left]

structure RenderFlow (parts : Parts bands inputs captures σ ρ) (s : EchoCanceller bands inputs captures σ ρ) : Prop where
  /-- Frames that found room in the queue reach the render side in their order, or wait for it. -/
  queue : s.renderTransferQueue.length ≤ renderTransferQueueSizeFrames
  order : ∃ before, s.accepted = before ++ s.rendered ++ s.renderTransferQueue
  /-- The block processor has got every whole block of the frames since it was created. -/
  multi : ∀ side, s.render = .multi side → side.blocks.length = s.rendered.length * frameSize / blockSize ∧
    ∀ band channel, plane side.blocks band channel =
      (plane s.rendered band channel).take (side.blocks.length * blockSize)
  mono : ∀ side, s.render = .mono side → side.blocks.length = s.rendered.length * frameSize / blockSize ∧
    ∃ mixed, mixed.map Prod.snd = s.rendered ∧ ∀ band channel, plane side.blocks band channel =
      (plane (monoHalves parts.average mixed) band channel).take (side.blocks.length * blockSize)

omit [NeZero captures] in
theorem EchoCanceller.Sound.renderFlow {delay : Nat} {s : EchoCanceller bands inputs captures σ ρ}
    (sound : s.Sound parts delay) : RenderFlow parts s := by
  constructor
  case queue => exact sound.queue
  case order => exact sound.order
  case multi =>
    intro side present
    have follows := sound.render
    rw [present] at follows
    obtain ⟨n, between, cut, halves⟩ := follows
    obtain ⟨long, blocks⟩ := cut.blocks_eq between
    rw [halves, allHalves, halves_length] at long
    refine ⟨long, fun band channel => ?_⟩
    rw [blocks, halves, plane_allHalves]
  case mono =>
    intro side present
    have follows := sound.render
    rw [present] at follows
    obtain ⟨n, between, cut, mixed, same, halves⟩ := follows
    obtain ⟨long, blocks⟩ := cut.blocks_eq between
    rw [halves, monoHalves, halves_length, ← List.length_map Prod.snd, same] at long
    refine ⟨long, mixed, same, fun band channel => ?_⟩
    rw [blocks, halves]

def idle : Parts 1 1 1 Nat Unit where
  create _ := ()
  bufferMono _ _ := ()
  bufferMulti _ _ := ()
  processCapture _ _ _ block := ((), block)
  differ x y := x != y
  average samples := samples.headD 0

def tone : Sheet 1 1 frameSize Nat := ⟨fun _ _ => List.range frameSize, fun _ _ => List.length_range⟩

def oneFrame : List (Action 1 1 1 Nat) :=
  [.analyzeRender tone, .analyzeCapture false, .processCapture tone true, .emptyRenderQueue, .emptyRenderQueue]

theorem oneFrame_taken : (run (EchoCanceller.step idle) (fresh idle true 2 none 3) oneFrame).isSome := by
  decide +kernel

variable (detect : Bool) (hysteresis : Int) (timeout : Option Int) (delay : Nat)
  {actions : List (Action bands inputs captures σ)} {s : EchoCanceller bands inputs captures σ ρ}
  (taken : run (EchoCanceller.step parts) (fresh parts detect hysteresis timeout delay) actions = some s)
include taken

/-- No assertion on a buffer ever fails: a call that comes in its turn is always carried out. -/
theorem calls_carriedOut (action : Action bands inputs captures σ) :
    (s.step parts action).isSome ↔ s.Allowed action := by
  constructor
  · intro through
    obtain ⟨next, stepped⟩ := Option.isSome_iff_exists.mp through
    exact allowed_of_step stepped
  · intro allowed
    obtain ⟨next, stepped, -⟩ := sound_step (sound_run taken) action allowed
    rw [stepped]
    rfl

omit taken in
theorem oneFrame_carriedOut :
    ∃ s, run (EchoCanceller.step idle) (fresh idle true 2 none 3) oneFrame = some s ∧
      ∀ action, (s.step idle action).isSome ↔ s.Allowed action := by
  obtain ⟨s, taken⟩ := Option.isSome_iff_exists.mp oneFrame_taken
  exact ⟨s, taken, calls_carriedOut true 2 none 3 taken⟩

theorem capture_flow : CaptureFlow parts delay s := (sound_run taken).captureFlow

omit taken in
theorem oneFrame_captureFlow :
    ∃ s, run (EchoCanceller.step idle) (fresh idle true 2 none 3) oneFrame = some s ∧
      CaptureFlow idle 3 s := by
  obtain ⟨s, taken⟩ := Option.isSome_iff_exists.mp oneFrame_taken
  exact ⟨s, taken, capture_flow true 2 none 3 taken⟩

/-- Where the block processor changes nothing, the capture signal comes out as it went in, later
by the fixed delay and one block. -/
theorem capture_passedThrough
    (passes : ∀ processor levelChange saturated block, (parts.processCapture processor levelChange saturated block).2 = block)
    (band : Fin bands) (channel : Fin captures) :
    plane s.outputs band channel =
      (List.replicate (delay + blockSize) 0 ++ plane s.received band channel).take (s.outputs.length * frameSize) := by
  have flow := (sound_run taken).captureFlow
  have same : s.side.returned = s.side.given := by
    refine (List.forall₂_eq_eq_eq ▸ flow.made.imp fun block result produced => ?_ : s.side.given = s.side.returned).symm
    obtain ⟨processor, levelChange, saturated, rfl⟩ := produced
    exact (passes processor levelChange saturated block).symm
  have built : plane s.outputs band channel <+: List.replicate blockSize 0 ++ plane s.side.given band channel := by
    rw [flow.outputs, same]
    exact List.take_prefix _ _
  have cut : plane s.side.given band channel <+: plane s.captured band channel := by
    rw [flow.given]
    exact List.take_prefix _ _
  have delayed : plane s.captured band channel <+: List.replicate delay 0 ++ plane s.received band channel := by
    rw [flow.delayed]
    exact List.take_prefix _ _
  have through : plane s.outputs band channel <+:
      List.replicate blockSize 0 ++ (List.replicate delay 0 ++ plane s.received band channel) :=
    built.trans ((List.prefix_append_right_inj _).mpr (cut.trans delayed))
  rw [← List.append_assoc, List.replicate_append_replicate, Nat.add_comm] at through
  rw [← plane_length s.outputs band channel]
  exact List.prefix_iff_eq_take.mp through

omit taken in
theorem oneFrame_passedThrough :
    ∃ s, run (EchoCanceller.step idle) (fresh idle true 2 none 3) oneFrame = some s ∧
      plane s.outputs 0 0 = (List.replicate 67 0 ++ plane s.received 0 0).take (s.outputs.length * frameSize) := by
  obtain ⟨s, taken⟩ := Option.isSome_iff_exists.mp oneFrame_taken
  exact ⟨s, taken, capture_passedThrough true 2 none 3 taken (fun _ _ _ _ => rfl) 0 0⟩

theorem render_flow : RenderFlow parts s := (sound_run taken).renderFlow

omit taken in
theorem oneFrame_renderFlow :
    ∃ s, run (EchoCanceller.step idle) (fresh idle true 2 none 3) oneFrame = some s ∧
      RenderFlow idle s := by
  obtain ⟨s, taken⟩ := Option.isSome_iff_exists.mp oneFrame_taken
  exact ⟨s, taken, render_flow true 2 none 3 taken⟩

end Runs

section Mono

variable [Zero σ] [NeZero bands] [NeZero captures] {parts : Parts bands 1 captures σ ρ}

/-- With one channel nothing ever starts the block processor anew. -/
structure EchoCanceller.Steady (s : EchoCanceller bands 1 captures σ ρ) : Prop where
  hysteresis : 0 ≤ s.detector.stereoDetectionHysteresisFrames
  calm : s.detector.consecutiveFramesWithStereo = 0
  quiet : s.detector.persistentMultichannelContentDetected = false
  whole : s.accepted = s.rendered ++ s.renderTransferQueue

omit [NeZero bands] in
theorem plane_monoHalves (average : List σ → σ) (frames : List (Bool × Sheet bands 1 frameSize σ)) (band : Fin bands) :
    plane (monoHalves average frames) band 0 = plane (frames.map Prod.snd) band 0 := by
  have alone : ∀ (mixed : Bool × Sheet bands 1 frameSize σ) index,
      (fillSubFrameView average mixed.1 mixed.2 index).samples band 0 = (mixed.2.half index).samples band 0 :=
    fun mixed index => by simp [fillSubFrameView]
  induction frames with
  | nil => rfl
  | cons frame rest ih =>
    rw [monoHalves, List.flatMap_cons, ← monoHalves, plane_append, ih, List.map_cons]
    simp [map_finRange_two, plane, alone, ← half_append frame.2]

omit [Zero σ] [NeZero bands] in
theorem updateDetection_mono {d : MultiChannelContentDetector} (hysteresis : 0 ≤ d.stereoDetectionHysteresisFrames)
    (calm : d.consecutiveFramesWithStereo = 0) (quiet : d.persistentMultichannelContentDetected = false)
    {differ : σ → σ → Bool} {frame : Sheet bands 1 frameSize σ} {found : MultiChannelContentDetector × Bool}
    (detected : d.updateDetection differ frame = some found) :
    found.1.stereoDetectionHysteresisFrames = d.stereoDetectionHysteresisFrames ∧
      found.1.consecutiveFramesWithStereo = 0 ∧ found.1.persistentMultichannelContentDetected = false ∧
      found.2 = false := by
  have alone : hasStereoContent differ frame = false := dif_pos (by decide)
  have few : ¬d.stereoDetectionHysteresisFrames < 0 := by omega
  rw [MultiChannelContentDetector.updateDetection, alone] at detected
  cases detect : d.detectStereoContent with
  | false =>
    simp only [detect, quiet] at detected
    obtain rfl := Option.some.inj detected
    exact ⟨rfl, calm, quiet, rfl⟩
  | true =>
    simp only [detect, if_true, Option.some.injEq] at detected
    subst detected
    simp [MultiChannelContentDetector.updated, few, quiet]

theorem steady_step {delay : Nat} {s next : EchoCanceller bands 1 captures σ ρ} (sound : s.Sound parts delay)
    (steady : s.Steady) {action : Action bands 1 captures σ} (taken : s.step parts action = some next) : next.Steady := by
  have allowed := allowed_of_step taken
  cases action with
  | analyzeRender render =>
    rw [EchoCanceller.step] at taken
    split at taken
    next room =>
      obtain rfl := Option.some.inj taken
      exact { steady with whole := by rw [steady.whole, List.append_assoc] }
    next full =>
      obtain rfl := Option.some.inj taken
      exact steady
  | analyzeCapture saturated =>
    rw [EchoCanceller.step, if_pos (Option.isNone_iff_eq_none.mpr allowed)] at taken
    obtain rfl := Option.some.inj taken
    exact { steady with }
  | processCapture capture levelChange =>
    rw [EchoCanceller.step, if_pos (Option.isNone_iff_eq_none.mpr allowed)] at taken
    obtain rfl := Option.some.inj taken
    exact { steady with }
  | emptyRenderQueue =>
    have busy : s.capturing ≠ none := allowed
    cases queue : s.renderTransferQueue with
    | cons frame rest =>
      obtain ⟨found, render, processor, rendered, detected, -, kept, buffered, -, -⟩ := bufferRender_spec parts
        { s with renderTransferQueue := rest } sound.plain sound.render sound.kind frame
      obtain ⟨same, calm, quiet, unchanged⟩ := updateDetection_mono steady.hysteresis steady.calm steady.quiet detected
      obtain rfl := Option.some.inj (taken.symm.trans ((step_take busy queue).trans buffered))
      refine ⟨same ▸ steady.hysteresis, calm, quiet, ?_⟩
      rw [kept, unchanged, steady.whole, queue]
      simp
    | nil =>
      obtain ⟨⟨capture, levelChange⟩, calling⟩ := Option.ne_none_iff_exists'.mp busy
      obtain ⟨frame, -, rfl⟩ := Option.map_eq_some_iff.mp ((step_finish calling queue).symm.trans taken)
      exact { steady with }

/-- With one render channel the block processor gets every whole block of all the render frames that
found room in the queue, but for those still waiting. -/
theorem mono_render_flow (detect : Bool) {hysteresis : Int} (sane : 0 ≤ hysteresis) (timeout : Option Int) (delay : Nat)
    {actions : List (Action bands 1 captures σ)} {s : EchoCanceller bands 1 captures σ ρ}
    (taken : run (EchoCanceller.step parts) (fresh parts detect hysteresis timeout delay) actions = some s) :
    ∃ side, s.render = .mono side ∧ s.accepted = s.rendered ++ s.renderTransferQueue ∧
      side.blocks.length = s.rendered.length * frameSize / blockSize ∧
      ∀ band, plane side.blocks band 0 = (plane s.rendered band 0).take (side.blocks.length * blockSize) := by
  have steady : (fresh parts detect hysteresis timeout delay).Steady := ⟨sane, rfl, by simp [fresh], rfl⟩
  let invariant (s : EchoCanceller bands 1 captures σ ρ) := s.Sound parts delay ∧ s.Steady
  have both : invariant s := by
    refine invariant_of_any_run (fun state action next both stepped => ?_)
      ⟨sound_fresh detect hysteresis timeout delay, steady⟩ taken
    obtain ⟨later, same, sound⟩ := sound_step both.1 action (allowed_of_step stepped)
    exact ⟨Option.some.inj (stepped.symm.trans same) ▸ sound, steady_step both.1 both.2 stepped⟩
  obtain ⟨sound, steady⟩ := both
  have kind := sound.kind
  rw [steady.quiet] at kind
  cases present : s.render with
  | multi side => simp [present, Render.isMono] at kind
  | mono side =>
    obtain ⟨long, mixed, same, blocks⟩ := sound.renderFlow.mono side present
    refine ⟨side, rfl, steady.whole, long, fun band => ?_⟩
    rw [blocks, plane_monoHalves, same]

theorem oneFrame_monoFlow :
    ∃ s, run (EchoCanceller.step idle) (fresh idle true 2 none 3) oneFrame = some s ∧
      ∃ side, s.render = .mono side ∧ s.accepted = s.rendered ++ s.renderTransferQueue ∧
        side.blocks.length = s.rendered.length * frameSize / blockSize ∧
        ∀ band, plane side.blocks band 0 = (plane s.rendered band 0).take (side.blocks.length * blockSize) := by
  obtain ⟨s, taken⟩ := Option.isSome_iff_exists.mp oneFrame_taken
  exact ⟨s, taken, mono_render_flow true (by decide) none 3 taken⟩

end Mono
end Fswtch.Apm.Canceller
