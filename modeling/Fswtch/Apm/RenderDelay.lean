import Fswtch.Apm.Framing
import Fswtch.Lib.CircularBuffer
import Fswtch.Lib.StepRun

/-! The render signal between the calls that bring it in and the capture calls that read it. Four
rings hold it: the blocks, their transforms and spectra, and the signal at a lower rate for the
delay estimator. The write indices of the last three fall. The delay is a lag of the read indices. -/

namespace Fswtch.Apm.RenderDelay
open Fswtch.Apm.Framing Fswtch.Lib.CircularBuffer Fswtch.Lib.StepRun

def matchedFilterWindowSizeSubBlocks : Nat := 32

def matchedFilterAlignmentShiftSizeSubBlocks : Nat := matchedFilterWindowSizeSubBlocks * 3 / 4

def getDownSampledBufferSize (downSamplingFactor numMatchedFilters : Nat) : Nat :=
  blockSize / downSamplingFactor *
    (matchedFilterAlignmentShiftSizeSubBlocks * numMatchedFilters + matchedFilterWindowSizeSubBlocks + 1)

def getRenderDelayBufferSize (downSamplingFactor numMatchedFilters filterLengthBlocks : Nat) : Nat :=
  getDownSampledBufferSize downSamplingFactor numMatchedFilters / (blockSize / downSamplingFactor) +
    filterLengthBlocks + 1

/-- The settings of the buffer. The decimator asserts the factor, there is a filter, and the first delay lies in
the buffer. -/
structure Config where
  downSamplingFactor : Nat := 4
  numFilters : Nat := 5
  useExternalDelayEstimator : Bool := false
  lengthBlocks : Nat := 13
  defaultDelay : Nat := 5
  fixedCaptureDelaySamples : Nat := 0
  excessRenderDetectionIntervalBlocks : Nat := 250
  maxAllowedExcessRenderBlocks : Nat := 8
  factor : downSamplingFactor = 4 ∨ downSamplingFactor = 8 := by decide
  filtered : 0 < numFilters := by decide
  reached : defaultDelay < getRenderDelayBufferSize downSamplingFactor numFilters lengthBlocks := by decide

variable (c : Config) {β φ ψ σ δ : Type}

def Config.subBlockSize : Nat := blockSize / c.downSamplingFactor

def Config.lowRateSize : Nat := getDownSampledBufferSize c.downSamplingFactor c.numFilters

def Config.size : Nat := getRenderDelayBufferSize c.downSamplingFactor c.numFilters c.lengthBlocks

/-- What is computed from samples: the gain on a block, the signal at the lower rate, the transform
of a block and the one before, the spectrum, and whether a block is loud. -/
structure Parts (β φ ψ σ δ : Type) where
  amplify : β → β
  decimate : δ → β → δ × List σ
  paddedFft : β → β → φ
  spectrum : φ → ψ
  detectActiveRender : β → Bool
  silentBlock : β
  silentFft : φ
  silentSpectrum : ψ
  even : ∀ decimator block, (decimate decimator block).2.length = c.subBlockSize

inductive BufferingEvent where
  | none
  | renderUnderrun
  | renderOverrun
  deriving DecidableEq

/-- Kept beside the state are the blocks inserted and the signal at the lower rate, the newest first,
and whether the last alignment had to be cut to the longest delay. -/
structure RenderDelayBuffer (β φ ψ σ δ : Type) where
  blocks : RingBuffer β
  spectra : RingBuffer ψ
  ffts : RingBuffer φ
  lowRate : RingBuffer σ
  decimator : δ
  delay : Option Nat := none
  renderActivity : Bool := false
  renderActivityCounter : Nat := 0
  renderBufferActivity : Bool := false
  externalAudioBufferDelay : Option Int := none
  minLatencyBlocks : Nat := 0
  excessRenderDetectionCounter : Nat := 0
  inserted : List β := []
  decimated : List σ := []
  limited : Bool := false

def RenderDelayBuffer.maxDelay (s : RenderDelayBuffer β φ ψ σ δ) : Nat := s.blocks.size - 1 - c.lengthBlocks

def RenderDelayBuffer.bufferLatency (s : RenderDelayBuffer β φ ψ σ δ) : Nat :=
  (s.lowRate.size + s.lowRate.read - s.lowRate.write) % s.lowRate.size / c.subBlockSize

def RenderDelayBuffer.computeDelay (s : RenderDelayBuffer β φ ψ σ δ) : Int :=
  let internalDelay : Int :=
    if s.spectra.read ≥ s.spectra.write then s.spectra.read - s.spectra.write
    else s.spectra.size + s.spectra.read - s.spectra.write
  internalDelay - s.bufferLatency c

def RenderDelayBuffer.applyTotalDelay (s : RenderDelayBuffer β φ ψ σ δ) (delay : Nat) :
    Option (RenderDelayBuffer β φ ψ σ δ) := do
  let blocks ← s.blocks.offsetIndex s.blocks.write (-delay)
  let spectra ← s.spectra.offsetIndex s.spectra.write delay
  let ffts ← s.ffts.offsetIndex s.ffts.write delay
  some { s with
    blocks := { s.blocks with read := blocks }
    spectra := { s.spectra with read := spectra }
    ffts := { s.ffts with read := ffts } }

def headroom : Int := 2

def audioBufferDelayToSet (reported : Int) : Nat := if reported ≤ headroom then 1 else (reported - headroom).toNat

def RenderDelayBuffer.resetLowRate (s : RenderDelayBuffer β φ ψ σ δ) : Option (RenderDelayBuffer β φ ψ σ δ) := do
  let lowRate ← s.lowRate.offsetIndex s.lowRate.write c.subBlockSize
  some { s with
    lowRate := { s.lowRate with read := lowRate }
    minLatencyBlocks := 0
    excessRenderDetectionCounter := 0
    limited := false }

def RenderDelayBuffer.reset (s : RenderDelayBuffer β φ ψ σ δ) : Option (RenderDelayBuffer β φ ψ σ δ) := do
  let s ← s.resetLowRate c
  match s.externalAudioBufferDelay with
  | some reported =>
    let s ← s.applyTotalDelay (min (audioBufferDelayToSet reported) (s.maxDelay c))
    some { s with delay := some (s.computeDelay c).toNat }
  | none =>
    let s ← s.applyTotalDelay c.defaultDelay
    some { s with delay := none }

section Calls

variable {c} (parts : Parts c β φ ψ σ δ)

def RenderDelayBuffer.insertBlock (s : RenderDelayBuffer β φ ψ σ δ) (block : β) (previousWrite : Nat) :
    Option (RenderDelayBuffer β φ ψ σ δ) := do
  let loud := parts.amplify block
  let blocks ← s.blocks.store [loud]
  let (decimator, ds) := parts.decimate s.decimator loud
  let lowRate ← s.lowRate.store ds.reverse
  let previous ← blocks.buffer[previousWrite]?
  let fft := parts.paddedFft loud previous
  let ffts ← s.ffts.store [fft]
  let spectra ← s.spectra.store [parts.spectrum fft]
  some { s with
    blocks, lowRate, ffts, spectra, decimator
    inserted := loud :: s.inserted
    decimated := ds.reverse ++ s.decimated }

def RenderDelayBuffer.incrementWriteIndices (c : Config) (s : RenderDelayBuffer β φ ψ σ δ) :
    Option (RenderDelayBuffer β φ ψ σ δ) := do
  let lowRate ← s.lowRate.offsetIndex s.lowRate.write (-c.subBlockSize)
  some { s with
    lowRate := { s.lowRate with write := lowRate }
    blocks := { s.blocks with write := s.blocks.incIndex s.blocks.write }
    spectra := { s.spectra with write := s.spectra.decIndex s.spectra.write }
    ffts := { s.ffts with write := s.ffts.decIndex s.ffts.write } }

def RenderDelayBuffer.incrementReadIndices (s : RenderDelayBuffer β φ ψ σ δ) : RenderDelayBuffer β φ ψ σ δ :=
  if s.blocks.read ≠ s.blocks.write then
    { s with
      blocks := { s.blocks with read := s.blocks.incIndex s.blocks.read }
      spectra := { s.spectra with read := s.spectra.decIndex s.spectra.read }
      ffts := { s.ffts with read := s.ffts.decIndex s.ffts.read } }
  else s

def RenderDelayBuffer.renderOverrun (s : RenderDelayBuffer β φ ψ σ δ) : Bool :=
  s.lowRate.read == s.lowRate.write || s.blocks.read == s.blocks.write

def RenderDelayBuffer.renderUnderrun (s : RenderDelayBuffer β φ ψ σ δ) : Bool := s.lowRate.read == s.lowRate.write

def RenderDelayBuffer.insert (s : RenderDelayBuffer β φ ψ σ δ) (block : β) :
    Option (RenderDelayBuffer β φ ψ σ δ × BufferingEvent) := do
  let previousWrite := s.blocks.write
  let s ← s.incrementWriteIndices c
  let overrun := s.renderOverrun
  let counter := if s.renderActivity then s.renderActivityCounter
    else s.renderActivityCounter + if parts.detectActiveRender block then 1 else 0
  let s := { s with
    renderActivityCounter := counter
    renderActivity := s.renderActivity || decide (counter ≥ 20) }
  let s ← s.insertBlock parts block previousWrite
  if overrun then do
    let s ← s.reset c
    some (s, .renderOverrun)
  else some (s, .none)

def RenderDelayBuffer.detectExcessRenderBlocks (c : Config) (s : RenderDelayBuffer β φ ψ σ δ) :
    RenderDelayBuffer β φ ψ σ δ × Bool :=
  let latencyBlocks := s.bufferLatency c
  let least := min s.minLatencyBlocks latencyBlocks
  if s.excessRenderDetectionCounter + 1 ≥ c.excessRenderDetectionIntervalBlocks then
    ({ s with minLatencyBlocks := latencyBlocks, excessRenderDetectionCounter := 0 },
      decide (least > c.maxAllowedExcessRenderBlocks))
  else
    ({ s with
       minLatencyBlocks := least
       excessRenderDetectionCounter := s.excessRenderDetectionCounter + 1 }, false)

def RenderDelayBuffer.moveReadIndices (c : Config) (s : RenderDelayBuffer β φ ψ σ δ) (excess : Bool) :
    Option (RenderDelayBuffer β φ ψ σ δ × BufferingEvent) :=
  if excess then (s.reset c).map fun s => (s, .renderOverrun)
  else if s.renderUnderrun then
    let s := s.incrementReadIndices
    some ({ s with delay := s.delay.map (· - 1) }, .renderUnderrun)
  else
    (s.lowRate.offsetIndex s.lowRate.read (-c.subBlockSize)).map fun lowRate =>
      ({ s with lowRate := { s.lowRate with read := lowRate } }.incrementReadIndices, .none)

def RenderDelayBuffer.prepareCaptureProcessing (c : Config) (s : RenderDelayBuffer β φ ψ σ δ) :
    Option (RenderDelayBuffer β φ ψ σ δ × BufferingEvent) :=
  let found := s.detectExcessRenderBlocks c
  (found.1.moveReadIndices c found.2).map fun (s, event) =>
    ({ s with
       renderBufferActivity := s.renderActivity
       renderActivityCounter := if s.renderActivity then 0 else s.renderActivityCounter
       renderActivity := false }, event)

/-- A call is counted, for the log and for the alignment from an external estimator. -/
def RenderDelayBuffer.handleSkippedCaptureProcessing (s : RenderDelayBuffer β φ ψ σ δ) :
    RenderDelayBuffer β φ ψ σ δ := s

def RenderDelayBuffer.alignFromDelay (c : Config) (s : RenderDelayBuffer β φ ψ σ δ) (delay : Nat) :
    Option (RenderDelayBuffer β φ ψ σ δ × Bool) := do
  if c.useExternalDelayEstimator then none
  else if s.delay = some delay then some (s, false)
  else
    let totalDelay := s.bufferLatency c + delay
    let s ← s.applyTotalDelay (min (s.maxDelay c) totalDelay)
    some ({ s with delay := some delay, limited := decide (s.maxDelay c < totalDelay) }, true)

def Config.reportedBlocks (delayMs : Int) : Int := (delayMs * 16 + c.fixedCaptureDelaySamples) / 64

def RenderDelayBuffer.setAudioBufferDelay (c : Config) (s : RenderDelayBuffer β φ ψ σ δ) (delayMs : Int) :
    RenderDelayBuffer β φ ψ σ δ :=
  { s with externalAudioBufferDelay := some (c.reportedBlocks delayMs) }

def fresh (decimator : δ) [Zero σ] : Option (RenderDelayBuffer β φ ψ σ δ) :=
  RenderDelayBuffer.reset c
    { blocks := { buffer := List.replicate c.size parts.silentBlock }
      spectra := { buffer := List.replicate c.size parts.silentSpectrum }
      ffts := { buffer := List.replicate c.size parts.silentFft }
      lowRate := { buffer := List.replicate c.lowRateSize 0 }
      decimator
      delay := some c.defaultDelay }

inductive Action (β : Type) where
  | insert (block : β)
  | handleSkippedCaptureProcessing
  | prepareCaptureProcessing
  | alignFromDelay (delay : Nat)
  | setAudioBufferDelay (delayMs : Int)
  | reset

/-- The blocks that calls bring in, as they are stored, the newest first. -/
def received : List (Action β) → List β → List β
  | [], earlier => earlier
  | .insert block :: rest, earlier => received rest (parts.amplify block :: earlier)
  | _ :: rest, earlier => received rest earlier

def RenderDelayBuffer.call (s : RenderDelayBuffer β φ ψ σ δ) :
    Action β → Option (RenderDelayBuffer β φ ψ σ δ × BufferingEvent)
  | .insert block => s.insert parts block
  | .handleSkippedCaptureProcessing => some (s.handleSkippedCaptureProcessing, .none)
  | .prepareCaptureProcessing => s.prepareCaptureProcessing c
  | .alignFromDelay delay => (s.alignFromDelay c delay).map fun (s, _) => (s, .none)
  | .setAudioBufferDelay delayMs => some (s.setAudioBufferDelay c delayMs, .none)
  | .reset => (s.reset c).map fun s => (s, .none)

end Calls

/-! What the calls and the events told come to is recorded beside the buffer. -/

/-- The blocks that wait at the lower rate, the last external report in blocks, the delay last set, the underruns
since, and whether that delay was too long for the buffer. -/
structure DelayRecord where
  latency : Nat := 1
  reported : Option Int := none
  delaySet : Option Nat := none
  underruns : Nat := 0
  limited : Bool := false
  deriving DecidableEq

def DelayRecord.inForce (r : DelayRecord) : Option Nat := r.delaySet.map (· - r.underruns)

def DelayRecord.restart (r : DelayRecord) (longest : Nat) : DelayRecord :=
  { reported := r.reported, delaySet := r.reported.map fun reported => min (audioBufferDelayToSet reported) longest - 1 }

def Config.lowBlocks : Nat :=
  matchedFilterAlignmentShiftSizeSubBlocks * c.numFilters + matchedFilterWindowSizeSubBlocks + 1

def DelayRecord.note (r : DelayRecord) : Action β → BufferingEvent → DelayRecord
  | .reset, _ | .insert _, .renderOverrun | .prepareCaptureProcessing, .renderOverrun => r.restart c.lowBlocks
  | .insert _, _ => { r with latency := r.latency + 1 }
  | .prepareCaptureProcessing, .renderUnderrun => { r with underruns := r.underruns + 1 }
  | .prepareCaptureProcessing, _ => { r with latency := r.latency - 1 }
  | .alignFromDelay delay, _ =>
    { r with
      delaySet := some delay
      underruns := 0
      limited := if r.inForce = some delay then r.limited else decide (c.lowBlocks < r.latency + delay) }
  | .setAudioBufferDelay delayMs, _ => { r with reported := some (c.reportedBlocks delayMs) }
  | .handleSkippedCaptureProcessing, _ => r

end Fswtch.Apm.RenderDelay
