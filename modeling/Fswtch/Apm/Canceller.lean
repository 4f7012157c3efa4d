import Mathlib.Data.List.FinRange
import Fswtch.Apm.CaptureDelay
import Fswtch.Lib.StepRun

/-! The echo canceller around its block processor. Render frames wait in a queue until the next
capture frame comes; then both are cut into blocks, and the processed blocks are built into the
capture frame again. Render frames may come in at any time while the queue is emptied. -/

namespace Fswtch.Apm.Canceller
open Fswtch.Apm.Framing Fswtch.Apm.CaptureDelay Fswtch.Lib.StepRun

def renderTransferQueueSizeFrames : Nat := 100

variable {bands inputs captures : Nat} {σ ρ : Type}

/-- The settings and the findings of the detector. No timeout is `none`. -/
structure MultiChannelContentDetector where
  detectStereoContent : Bool
  stereoDetectionHysteresisFrames : Int
  detectionTimeoutThresholdFrames : Option Int
  persistentMultichannelContentDetected : Bool
  temporaryMultichannelContentDetected : Bool := false
  consecutiveFramesWithStereo : Int := 0
  framesSinceStereoDetectedLast : Int := 0

/-- `differ` compares two samples against the detection threshold. -/
def hasStereoContent (differ : σ → σ → Bool) (frame : Sheet bands inputs frameSize σ) : Bool :=
  if two : inputs < 2 then false
  else
    (List.finRange bands).any fun band =>
      ((frame.samples band ⟨0, by omega⟩).zip (frame.samples band ⟨1, by omega⟩)).any fun pair =>
        differ pair.1 pair.2

def MultiChannelContentDetector.updated (d : MultiChannelContentDetector) (stereo : Bool) :
    MultiChannelContentDetector :=
  let consecutive := if stereo then d.consecutiveFramesWithStereo + 1 else 0
  let since := if stereo then 0 else d.framesSinceStereoDetectedLast + 1
  let persistent := consecutive > d.stereoDetectionHysteresisFrames || d.persistentMultichannelContentDetected
  let persistent := persistent && !(d.detectionTimeoutThresholdFrames.any (since ≥ ·))
  { d with
    consecutiveFramesWithStereo := consecutive
    framesSinceStereoDetectedLast := since
    persistentMultichannelContentDetected := persistent
    temporaryMultichannelContentDetected := !persistent && stereo }

def MultiChannelContentDetector.updateDetection (d : MultiChannelContentDetector) (differ : σ → σ → Bool)
    (frame : Sheet bands inputs frameSize σ) : Option (MultiChannelContentDetector × Bool) :=
  if d.detectStereoContent then
    let d' := d.updated (hasStereoContent differ frame)
    some (d', d.persistentMultichannelContentDetected != d'.persistentMultichannelContentDetected)
  else if d.persistentMultichannelContentDetected = decide (inputs > 1) then some (d, false)
  else none

/-- The render signal as the block processor gets it: cut into blocks of as many channels as it
works with, the halves it was cut from and the blocks. -/
structure RenderSide (bands channels : Nat) (σ : Type) where
  blocker : FrameBlocker bands channels σ := .new
  halves : List (Sheet bands channels subFrameLength σ) := []
  blocks : List (Sheet bands channels blockSize σ) := []

/-- One channel, or all of the input, since the block processor was created last. -/
inductive Render (bands inputs : Nat) (σ : Type) where
  | mono (side : RenderSide bands 1 σ)
  | multi (side : RenderSide bands inputs σ)

structure Parts (bands inputs captures : Nat) (σ ρ : Type) where
  create : Bool → ρ
  bufferMono : ρ → Sheet bands 1 blockSize σ → ρ
  bufferMulti : ρ → Sheet bands inputs blockSize σ → ρ
  processCapture : ρ → Bool → Bool → Sheet bands captures blockSize σ → ρ × Sheet bands captures blockSize σ
  differ : σ → σ → Bool
  average : List σ → σ

def fillSubFrameView [Zero σ] [NeZero inputs] (average : List σ → σ) (properDownmixNeeded : Bool)
    (frame : Sheet bands inputs frameSize σ) (index : Fin 2) : Sheet bands 1 subFrameLength σ where
  samples band _ :=
    if 1 < inputs ∧ properDownmixNeeded then
      (List.range subFrameLength).map fun k =>
        average ((List.finRange inputs).map fun channel => ((frame.half index).samples band channel).getD k 0)
    else (frame.half index).samples band 0
  even band _ := by
    split
    · rw [List.length_map, List.length_range]
    · exact (frame.half index).even band 0

section Blocks

variable {channels : Nat} (bufferRender : ρ → Sheet bands channels blockSize σ → ρ)

def bufferRenderFrameContent (half : Sheet bands channels subFrameLength σ) (side : RenderSide bands channels σ)
    (processor : ρ) : Option (RenderSide bands channels σ × ρ) := do
  let (block, blocker) ← side.blocker.insertSubFrameAndExtractBlock half
  some
    ({ blocker, halves := side.halves ++ [half], blocks := side.blocks ++ [block] },
      bufferRender processor block)

def bufferRemainingRenderFrameContent [NeZero bands] [NeZero channels] (side : RenderSide bands channels σ)
    (processor : ρ) : Option (RenderSide bands channels σ × ρ) :=
  if side.blocker.isBlockAvailable then do
    let (block, blocker) ← side.blocker.extractBlock
    some ({ side with blocker, blocks := side.blocks ++ [block] }, bufferRender processor block)
  else some (side, processor)

/-- Both halves of a frame, and the block that is left over when there is a whole one. -/
def bufferRenderFrame [NeZero bands] [NeZero channels] (halves : Fin 2 → Sheet bands channels subFrameLength σ)
    (side : RenderSide bands channels σ) (processor : ρ) : Option (RenderSide bands channels σ × ρ) := do
  let (side, processor) ← bufferRenderFrameContent bufferRender (halves 0) side processor
  let (side, processor) ← bufferRenderFrameContent bufferRender (halves 1) side processor
  bufferRemainingRenderFrameContent bufferRender side processor

end Blocks

/-- The capture signal, cut into blocks and built from blocks again, with the blocks handed to the
block processor and those taken from it. -/
structure CaptureSide (bands channels : Nat) (σ : Type) where
  captureBlocker : FrameBlocker bands channels σ := .new
  outputFramer : BlockFramer bands channels σ
  given : List (Sheet bands channels blockSize σ) := []
  returned : List (Sheet bands channels blockSize σ) := []

section Capture

variable {channels : Nat} (processCapture : ρ → Sheet bands channels blockSize σ → ρ × Sheet bands channels blockSize σ)

def processCaptureFrameContent (index : Fin 2) (side : CaptureSide bands channels σ) (processor : ρ)
    (capture : Sheet bands channels frameSize σ) :
    Option (CaptureSide bands channels σ × ρ × Sheet bands channels frameSize σ) := do
  let (block, captureBlocker) ← side.captureBlocker.insertSubFrameAndExtractBlock (capture.half index)
  let (processor, result) := processCapture processor block
  let (half, outputFramer) ← side.outputFramer.insertBlockAndExtractSubFrame result
  some
    ({ captureBlocker, outputFramer, given := side.given ++ [block], returned := side.returned ++ [result] },
      processor, capture.setHalf index half)

def processRemainingCaptureFrameContent [NeZero bands] [NeZero channels] (side : CaptureSide bands channels σ)
    (processor : ρ) : Option (CaptureSide bands channels σ × ρ) :=
  if side.captureBlocker.isBlockAvailable then do
    let (block, captureBlocker) ← side.captureBlocker.extractBlock
    let (processor, result) := processCapture processor block
    let outputFramer ← side.outputFramer.insertBlock result
    some ({ captureBlocker, outputFramer, given := side.given ++ [block], returned := side.returned ++ [result] }, processor)
  else some (side, processor)

/-- Both halves of a frame, and the block that is left over when there is a whole one. -/
def processCaptureFrame [NeZero bands] [NeZero channels] (side : CaptureSide bands channels σ) (processor : ρ)
    (capture : Sheet bands channels frameSize σ) :
    Option (CaptureSide bands channels σ × ρ × Sheet bands channels frameSize σ) := do
  let (side, processor, frame) ← processCaptureFrameContent processCapture 0 side processor capture
  let (side, processor, frame) ← processCaptureFrameContent processCapture 1 side processor frame
  let (side, processor) ← processRemainingCaptureFrameContent processCapture side processor
  some (side, processor, frame)

end Capture

/-- Kept beside the state are the render frames that found room in the queue, those from the queue
since the block processor was created last, the frames handed to `ProcessCapture`, as they are after
the fixed delay, and the frames it gave back. -/
structure EchoCanceller (bands inputs captures : Nat) (σ ρ : Type) where
  renderTransferQueue : List (Sheet bands inputs frameSize σ) := []
  detector : MultiChannelContentDetector
  render : Render bands inputs σ
  processor : ρ
  side : CaptureSide bands captures σ
  blockDelayBuffer : Option (BlockDelayBuffer bands captures σ)
  saturatedMicrophoneSignal : Bool := false
  capturing : Option (Sheet bands captures frameSize σ × Bool) := none
  accepted : List (Sheet bands inputs frameSize σ) := []
  rendered : List (Sheet bands inputs frameSize σ) := []
  received : List (Sheet bands captures frameSize σ) := []
  captured : List (Sheet bands captures frameSize σ) := []
  outputs : List (Sheet bands captures frameSize σ) := []

variable (parts : Parts bands inputs captures σ ρ)

/-- The block processor starts anew, and with it what was kept of the render signal. -/
def EchoCanceller.initializeState (s : EchoCanceller bands inputs captures σ ρ) : EchoCanceller bands inputs captures σ ρ :=
  let multi := s.detector.persistentMultichannelContentDetected
  { s with
    render := if multi then .multi {} else .mono {}
    processor := parts.create multi
    rendered := [] }

def fresh [Zero σ] (detectStereoContent : Bool) (hysteresisFrames : Int) (timeoutFrames : Option Int)
    (fixedCaptureDelaySamples : Nat) : EchoCanceller bands inputs captures σ ρ :=
  let multi := !detectStereoContent && decide (inputs > 1)
  { detector :=
      { detectStereoContent
        stereoDetectionHysteresisFrames := hysteresisFrames
        detectionTimeoutThresholdFrames := timeoutFrames
        persistentMultichannelContentDetected := multi }
    render := if multi then .multi {} else .mono {}
    processor := parts.create multi
    side := { outputFramer := .new }
    blockDelayBuffer := if fixedCaptureDelaySamples > 0 then some (.new fixedCaptureDelaySamples) else none }

inductive Action (bands inputs captures : Nat) (σ : Type) where
  | analyzeRender (render : Sheet bands inputs frameSize σ)
  | analyzeCapture (saturated : Bool)
  | processCapture (capture : Sheet bands captures frameSize σ) (levelChange : Bool)
  /-- One turn of the loop that empties the render queue, and the end of `ProcessCapture` when there is
  nothing to take. -/
  | emptyRenderQueue

section Steps

variable [Zero σ] [NeZero bands] [NeZero inputs] [NeZero captures]

/-- A frame from the queue once it is known what it holds. -/
def EchoCanceller.bufferFrame (s : EchoCanceller bands inputs captures σ ρ) (frame : Sheet bands inputs frameSize σ) :
    Option (EchoCanceller bands inputs captures σ ρ) :=
  match s.render with
  | .mono side =>
    let halves := fillSubFrameView parts.average s.detector.temporaryMultichannelContentDetected frame
    (bufferRenderFrame parts.bufferMono halves side s.processor).map fun next =>
      { s with render := .mono next.1, processor := next.2, rendered := s.rendered ++ [frame] }
  | .multi side =>
    (bufferRenderFrame parts.bufferMulti frame.half side s.processor).map fun next =>
      { s with render := .multi next.1, processor := next.2, rendered := s.rendered ++ [frame] }

def EchoCanceller.bufferRender (s : EchoCanceller bands inputs captures σ ρ) (frame : Sheet bands inputs frameSize σ) :
    Option (EchoCanceller bands inputs captures σ ρ) :=
  (s.detector.updateDetection parts.differ frame).bind fun found =>
    let s := { s with detector := found.1 }
    (if found.2 then s.initializeState parts else s).bufferFrame parts frame

def EchoCanceller.finishCapture (s : EchoCanceller bands inputs captures σ ρ) (capture : Sheet bands captures frameSize σ)
    (levelChange : Bool) : Option (EchoCanceller bands inputs captures σ ρ) :=
  let echoPathGainChange := levelChange || s.detector.temporaryMultichannelContentDetected
  let processCapture processor := parts.processCapture processor echoPathGainChange s.saturatedMicrophoneSignal
  (processCaptureFrame processCapture s.side s.processor capture).map fun next =>
    { s with
      side := next.1
      processor := next.2.1
      capturing := none
      captured := s.captured ++ [capture]
      outputs := s.outputs ++ [next.2.2] }

def EchoCanceller.delayed (s : EchoCanceller bands inputs captures σ ρ) (capture : Sheet bands captures frameSize σ) :
    Option (BlockDelayBuffer bands captures σ) × Sheet bands captures frameSize σ :=
  match s.blockDelayBuffer with
  | none => (none, capture)
  | some buffer => (some (buffer.delaySignal capture).1, (buffer.delaySignal capture).2)

/-- The capture calls come one after the other. A render frame that finds the queue full is dropped. -/
def EchoCanceller.step (s : EchoCanceller bands inputs captures σ ρ) :
    Action bands inputs captures σ → Option (EchoCanceller bands inputs captures σ ρ)
  | .analyzeRender render =>
    if s.renderTransferQueue.length < renderTransferQueueSizeFrames then
      some { s with renderTransferQueue := s.renderTransferQueue ++ [render], accepted := s.accepted ++ [render] }
    else some s
  | .analyzeCapture saturated =>
    if s.capturing.isNone then some { s with saturatedMicrophoneSignal := saturated } else none
  | .processCapture capture levelChange =>
    if s.capturing.isNone then
      some { s with
        received := s.received ++ [capture]
        blockDelayBuffer := (s.delayed capture).1
        capturing := some ((s.delayed capture).2, levelChange) }
    else none
  | .emptyRenderQueue =>
    match s.capturing, s.renderTransferQueue with
    | none, _ => none
    | some _, frame :: rest => { s with renderTransferQueue := rest }.bufferRender parts frame
    | some (capture, levelChange), [] => s.finishCapture parts capture levelChange

end Steps

end Fswtch.Apm.Canceller
