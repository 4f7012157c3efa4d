import Fswtch.Apm.LagCounts

/-! From the capture signal to the delay of the render buffer: the lags of the matched filters are aggregated, the
delay found is turned into blocks, and small rises of it are ignored. Clock drift shows in how the delay moves. -/

namespace Fswtch.Apm.DelayEstimation
open Fswtch.Apm.Framing Fswtch.Apm.RenderDelay Fswtch.Lib.CircularBuffer

inductive Level where
  | none
  | probable
  | verified
  deriving DecidableEq

structure ClockdriftDetector where
  delayHistory : Int × Int × Int := (0, 0, 0)
  level : Level := .none
  stabilityCounter : Nat := 0

def stableBlocks : Nat := 7500

/-- The lag has moved by two in one direction, in any order: both up or both down. -/
def probableDrift (d1 d2 : Int) : Bool :=
  (d1 == -1 && d2 == -2) || (d1 == -2 && d2 == -1) || ((d1 == 1 && d2 == 2) || (d1 == 2 && d2 == 1))

def drift (d1 d2 d3 : Int) : Bool :=
  (((d1 == -1 && d2 == -2) || (d1 == -2 && d2 == -1)) && d3 == -3) ||
    (((d1 == 1 && d2 == 2) || (d1 == 2 && d2 == 1)) && d3 == 3)

def ClockdriftDetector.update (d : ClockdriftDetector) (delayEstimate : Int) : ClockdriftDetector :=
  let (h0, h1, h2) := d.delayHistory
  if delayEstimate = h0 then
    let stabilityCounter := d.stabilityCounter + 1
    { d with stabilityCounter, level := if stabilityCounter > stableBlocks then .none else d.level }
  else
    let d1 := h0 - delayEstimate
    let d2 := h1 - delayEstimate
    let d3 := h2 - delayEstimate
    { delayHistory := (delayEstimate, h0, h1)
      stabilityCounter := 0
      level :=
        if drift d1 d2 d3 then .verified
        else if probableDrift d1 d2 ∧ d.level = .none then .probable
        else d.level }

variable {σ μ γ : Type} [Samples σ]

/-- The capture channels are mixed and brought to the lower rate. -/
structure CaptureParts (c : Config) (σ μ γ : Type) where
  decimate : μ → γ → μ × List σ
  even : ∀ mixer capture, (decimate mixer capture).2.length = c.subBlockSize

/-- Kept beside the state are the strongest lags at the refined delays, the newest first. -/
structure EchoPathDelayEstimator (σ μ : Type) where
  captureMixer : μ
  matchedFilter : MatchedFilter σ
  matchedFilterLagAggregator : MatchedFilterLagAggregator
  clockdriftDetector : ClockdriftDetector := {}
  oldAggregatedLag : Option DelayEstimate := none
  consistentEstimateCounter : Nat := 0
  refinedLags : List Int := []

section Estimate

variable (c : Config) (config : AggregatorConfig σ)

def EchoPathDelayEstimator.new (captureMixer : μ) : EchoPathDelayEstimator σ μ where
  captureMixer
  matchedFilter := .new c
  matchedFilterLagAggregator := .new c config

def EchoPathDelayEstimator.reset (e : EchoPathDelayEstimator σ μ) (resetLagAggregator resetDelayConfidence : Bool) :
    EchoPathDelayEstimator σ μ :=
  { e with
    matchedFilterLagAggregator :=
      if resetLagAggregator then e.matchedFilterLagAggregator.reset resetDelayConfidence else e.matchedFilterLagAggregator
    matchedFilter := e.matchedFilter.reset resetLagAggregator
    oldAggregatedLag := none
    consistentEstimateCounter := 0 }

def ClockdriftDetector.follow (d : ClockdriftDetector) (delayAtHighestPeak : Int) : Option DelayEstimate → ClockdriftDetector
  | none => d
  | some estimate => if estimate.quality = .refined then d.update delayAtHighestPeak else d

def EchoPathDelayEstimator.recordLag (e : EchoPathDelayEstimator σ μ) (delayAtHighestPeak : Int) :
    Option DelayEstimate → List Int
  | none => e.refinedLags
  | some estimate => if estimate.quality = .refined then delayAtHighestPeak :: e.refinedLags else e.refinedLags

def EchoPathDelayEstimator.countConsistent (e : EchoPathDelayEstimator σ μ) : Option DelayEstimate → Nat
  | none => 0
  | some estimate =>
    if e.oldAggregatedLag.map DelayEstimate.delay = some estimate.delay then e.consistentEstimateCounter + 1 else 0

def EchoPathDelayEstimator.estimateDelay (parts : CaptureParts c σ μ γ) (e : EchoPathDelayEstimator σ μ)
    (renderBuffer : RingBuffer σ) (capture : γ) : Option (EchoPathDelayEstimator σ μ × Option DelayEstimate) := do
  let (captureMixer, downsampledCapture) := parts.decimate e.captureMixer capture
  let matchedFilter ← e.matchedFilter.update c config.toFilterConfig renderBuffer downsampledCapture
    e.matchedFilterLagAggregator.significantCandidateFound
  let (aggregator, lag) ← e.matchedFilterLagAggregator.aggregate c config matchedFilter.reportedLagEstimate
  let delay := lag.map fun estimate => { estimate with delay := estimate.delay * c.downSamplingFactor }
  let counter := e.countConsistent delay
  let next : EchoPathDelayEstimator σ μ :=
    { captureMixer, matchedFilter
      matchedFilterLagAggregator := aggregator
      clockdriftDetector := e.clockdriftDetector.follow aggregator.highestPeakAggregator.candidate lag
      oldAggregatedLag := delay
      consistentEstimateCounter := counter
      refinedLags := e.recordLag aggregator.highestPeakAggregator.candidate lag }
  some (if counter > numBlocksPerSecond / 2 then next.reset false false else next, delay)

end Estimate

structure RenderDelayController (σ μ : Type) where
  delay : Option DelayEstimate := none
  delaySamples : Option DelayEstimate := none
  delayEstimator : EchoPathDelayEstimator σ μ
  lastDelayEstimateQuality : Quality := .coarse

/-- From samples to blocks. A delay a little above the current one is taken for the same. -/
def computeBufferDelay (currentDelay : Option DelayEstimate) (hysteresisLimitBlocks : Nat) (estimatedDelay : DelayEstimate) :
    DelayEstimate :=
  let newDelayBlocks := estimatedDelay.delay / blockSize
  match currentDelay with
  | some current =>
    if current.delay < newDelayBlocks ∧ newDelayBlocks ≤ current.delay + hysteresisLimitBlocks then
      { estimatedDelay with delay := current.delay }
    else { estimatedDelay with delay := newDelayBlocks }
  | none => { estimatedDelay with delay := newDelayBlocks }

section Control

variable (c : Config) (config : AggregatorConfig σ) (hysteresisLimitBlocks : Nat)

def RenderDelayController.reset (r : RenderDelayController σ μ) (resetDelayConfidence : Bool) : RenderDelayController σ μ where
  delay := none
  delaySamples := none
  delayEstimator := r.delayEstimator.reset true resetDelayConfidence
  lastDelayEstimateQuality := if resetDelayConfidence then .coarse else r.lastDelayEstimateQuality

/-- The last delay found goes on to hold, and it is turned into blocks anew each time. -/
def RenderDelayController.applyDelay (r : RenderDelayController σ μ) : RenderDelayController σ μ :=
  match r.delaySamples with
  | none => r
  | some samples =>
    let useHysteresis := r.lastDelayEstimateQuality = .refined ∧ samples.quality = .refined
    let delay := computeBufferDelay r.delay (if useHysteresis then hysteresisLimitBlocks else 0) samples
    { r with delay := some delay, lastDelayEstimateQuality := delay.quality }

def RenderDelayController.getDelay (parts : CaptureParts c σ μ γ) (r : RenderDelayController σ μ)
    (renderBuffer : RingBuffer σ) (capture : γ) : Option (RenderDelayController σ μ × Option DelayEstimate) :=
  (r.delayEstimator.estimateDelay c config parts renderBuffer capture).map fun (delayEstimator, delaySamples) =>
    let r := { r with delayEstimator, delaySamples := delaySamples.or r.delaySamples }.applyDelay hysteresisLimitBlocks
    (r, r.delay)

def RenderDelayController.hasClockdrift (r : RenderDelayController σ μ) : Bool :=
  r.delayEstimator.clockdriftDetector.level ≠ .none

end Control

end Fswtch.Apm.DelayEstimation
