import Fswtch.Apm.RenderDelay
import Fswtch.Lib.MaxElement

/-! Matched filters between the capture signal and the render signal at the lower rate. Each filter covers
a stretch of lags and the stretches overlap. The lag reported is the peak of the filter that leaves the least of
the capture signal. Arithmetic on samples is any. -/

namespace Fswtch.Apm.DelayEstimation
open Fswtch.Apm.RenderDelay Fswtch.Lib.CircularBuffer Fswtch.Lib.MaxElement

structure LagEstimate where
  lag : Nat
  preEchoLag : Nat

def accumulatedErrorSubSampleRate : Nat := 4

class Samples (σ : Type) extends Zero σ, One σ, Add σ, Sub σ, Mul σ, Div σ, LinearOrder σ

variable {σ : Type} [Samples σ]

/-- What samples are compared with and how fast a filter adapts. -/
structure FilterConfig (σ : Type) [Samples σ] where
  x2SumThreshold : σ
  smoothingFast : σ
  smoothingSlow : σ
  matchingFilterThreshold : σ
  preEchoThreshold : σ
  energyThreshold : σ
  smoothConstantIncreases : σ
  saturation : σ → Bool
  detectPreEcho : Bool := true
  excited : 0 ≤ x2SumThreshold

def scanPairs (k : Nat) (even odd : Nat × σ) : List σ → (Nat × σ) × (Nat × σ)
  | first :: second :: rest =>
    let element1 := first * first
    let element2 := second * second
    scanPairs (k + 2) (if even.2 < element1 then (k, element1) else even)
      (if odd.2 < element2 then (k + 1, element2) else odd) rest
  | _ => (even, odd)

def maxSquarePeakIndex : List σ → Nat
  | first :: second :: rest =>
    let (even, odd) := scanPairs 2 (0, first * first) (1, second * second) rest
    let best := if even.2 < odd.2 then odd else even
    -- The last element of an odd number of them has not been looked at.
    let last := rest.getLastD second
    if best.2 < last * last then rest.length + 1 else best.1
  | _ => 0

/-- A filter with what a sub-block of the capture signal made of it. -/
structure Outcome (σ : Type) where
  filter : List σ
  filtersUpdated : Bool
  errorSum : σ
  accumulatedError : List σ

section Core

variable (x : RingBuffer σ)

def correlate (y : σ) (computeAccumulatedError : Bool) (k index : Nat) (x2Sum s : σ) (errors : List σ) :
    List σ → Option (σ × σ × List σ)
  | [] => some (x2Sum, s, errors)
  | tap :: rest => do
    let sample ← x.buffer[index]?
    let s := s + tap * sample
    let errors :=
      if computeAccumulatedError && (k + 1) % 4 == 0 then errors.modify (k / 4) (· + (y - s) * (y - s)) else errors
    correlate y computeAccumulatedError (k + 1) (x.incIndex index) (x2Sum + sample * sample) s errors rest

def adapt (alpha : σ) (index : Nat) : List σ → Option (List σ)
  | [] => some []
  | tap :: rest => do
    let sample ← x.buffer[index]?
    let later ← adapt alpha (x.incIndex index) rest
    some ((tap + alpha * sample) :: later)

def followSample (config : FilterConfig σ) (smoothing : σ) (computeAccumulatedError : Bool) (start : Nat) (y : σ)
    (found : Outcome σ) : Option (Outcome σ) := do
  let (x2Sum, s, accumulatedError) ←
    correlate x y computeAccumulatedError 0 start 0 0 found.accumulatedError found.filter
  let e := y - s
  let errorSum := found.errorSum + e * e
  if config.x2SumThreshold < x2Sum ∧ config.saturation y = false then
    if 0 < x2Sum then do
      let filter ← adapt x (smoothing * e / x2Sum) start found.filter
      some { filter, filtersUpdated := true, errorSum, accumulatedError }
    else none
  else some { found with errorSum, accumulatedError }

def followSamples (config : FilterConfig σ) (smoothing : σ) (computeAccumulatedError : Bool) :
    Nat → List σ → Outcome σ → Option (Outcome σ)
  | _, [], found => some found
  | start, y :: rest, found => do
    let found ← followSample x config smoothing computeAccumulatedError start y found
    followSamples config smoothing computeAccumulatedError (x.decIndex start) rest found

def matchedFilterCore (config : FilterConfig σ) (smoothing : σ) (computeAccumulatedError : Bool) (xStartIndex : Nat)
    (ys filter accumulatedError : List σ) : Option (Outcome σ) :=
  let errors := if computeAccumulatedError then List.replicate accumulatedError.length 0 else accumulatedError
  followSamples x config smoothing computeAccumulatedError xStartIndex ys
    { filter, filtersUpdated := false, errorSum := 0, accumulatedError := errors }

end Core

def updateAccumulatedError (increases : σ) (instantaneous accumulated : List σ) (oneOverErrorSumAnchor : σ) : List σ :=
  instantaneous.zipWith (fun error kept =>
    let errorNorm := error * oneOverErrorSumAnchor
    if errorNorm < kept then errorNorm else kept + increases * (errorNorm - kept)) accumulated

def descend (threshold : σ) (accumulatedError : List σ) : Nat → Nat → Option Nat
  | 0, estimate => some estimate
  | k + 1, estimate => do
    let error ← accumulatedError[k]?
    if threshold < error then some estimate
    else descend threshold accumulatedError k ((k + 1) * accumulatedErrorSubSampleRate - 1)

def computePreEchoLag (threshold : σ) (accumulatedError : List σ) (lag alignmentShiftWinner : Nat) : Option Nat :=
  if alignmentShiftWinner ≤ lag then
    let estimate := lag - alignmentShiftWinner
    let maximum := min (estimate / accumulatedErrorSubSampleRate) accumulatedError.length
    (descend threshold accumulatedError maximum estimate).map (· + alignmentShiftWinner)
  else none

structure MatchedFilter (σ : Type) where
  filters : List (List σ)
  accumulatedError : List (List σ)
  instantaneousAccumulatedError : List σ
  reportedLagEstimate : Option LagEstimate := none
  lastDetectedBestLagFilter : Option Nat := none
  numberPreEchoUpdates : Nat := 0

/-- The loop over the filters: the best of them so far and what each of them came to. -/
structure Scan (σ : Type) where
  alignmentShift : Nat := 0
  winnerErrorSum : σ
  winner : Option (Nat × Nat) := none
  previousLagEstimate : Option Nat := none
  instantaneousAccumulatedError : List σ
  outcomes : List (Outcome σ) := []

section Update

variable (c : Config) (config : FilterConfig σ)

def filterSize : Nat := matchedFilterWindowSizeSubBlocks * c.subBlockSize

def filterIntraLagShift : Nat := matchedFilterAlignmentShiftSizeSubBlocks * c.subBlockSize

def getMaxFilterLag : Nat := c.numFilters * filterIntraLagShift c + filterSize c

def MatchedFilter.new : MatchedFilter σ where
  filters := List.replicate c.numFilters (List.replicate (filterSize c) 0)
  accumulatedError := List.replicate c.numFilters (List.replicate (filterSize c / accumulatedErrorSubSampleRate) 1)
  instantaneousAccumulatedError := List.replicate (filterSize c / accumulatedErrorSubSampleRate) 0

def MatchedFilter.reset (m : MatchedFilter σ) (fullReset : Bool) : MatchedFilter σ :=
  { m with
    filters := m.filters.map fun filter => List.replicate filter.length 0
    reportedLagEstimate := none
    accumulatedError :=
      if fullReset then m.accumulatedError.map fun errors => List.replicate errors.length 1 else m.accumulatedError
    numberPreEchoUpdates := if fullReset then 0 else m.numberPreEchoUpdates }

def reliable (errorSumAnchor : σ) (found : Outcome σ) : Bool :=
  let lagEstimate := maxSquarePeakIndex found.filter
  2 < lagEstimate && lagEstimate < found.filter.length - 10 &&
    decide (found.errorSum < config.matchingFilterThreshold * errorSumAnchor)

/-- Of two filters with one lag where they overlap, the first is taken, so as to find echoes before it. -/
def Scan.consider (errorSumAnchor : σ) (scan : Scan σ) (found : Outcome σ) : Scan σ :=
  let n := scan.outcomes.length
  let lag := maxSquarePeakIndex found.filter + scan.alignmentShift
  let best := found.filtersUpdated && reliable config errorSumAnchor found && decide (found.errorSum < scan.winnerErrorSum)
  { scan with
    winnerErrorSum := if best then found.errorSum else scan.winnerErrorSum
    winner :=
      if best then some (if scan.previousLagEstimate = some lag then (n - 1, lag) else (n, lag)) else scan.winner
    previousLagEstimate := some lag
    alignmentShift := scan.alignmentShift + filterIntraLagShift c
    outcomes := scan.outcomes ++ [found] }

def applyFilters (x : RingBuffer σ) (capture : List σ) (smoothing errorSumAnchor : σ) (preEchoFilter : Option Nat) :
    List (List σ) → Scan σ → Option (Scan σ)
  | [], scan => some scan
  | filter :: rest, scan => do
    let computePreEcho := preEchoFilter == some scan.outcomes.length
    let xStartIndex := (x.read + scan.alignmentShift + c.subBlockSize - 1) % x.size
    let found ← matchedFilterCore x config smoothing computePreEcho xStartIndex capture filter
      scan.instantaneousAccumulatedError
    let scan := scan.consider c config errorSumAnchor found
    applyFilters x capture smoothing errorSumAnchor preEchoFilter rest
      { scan with instantaneousAccumulatedError := found.accumulatedError }

/-- The filter that wins again is searched for an echo before the peak once it has been updated for a while. -/
def MatchedFilter.findPreEcho (m : MatchedFilter σ) (errorSumAnchor : σ) (winnerIndex winnerLag : Nat) :
    Option (MatchedFilter σ × Nat) :=
  if config.detectPreEcho && m.lastDetectedBestLagFilter == some winnerIndex then do
    let kept ← m.accumulatedError[winnerIndex]?
    let m := if config.energyThreshold < errorSumAnchor then
        { m with
          accumulatedError := m.accumulatedError.set winnerIndex (updateAccumulatedError
            config.smoothConstantIncreases m.instantaneousAccumulatedError kept (1 / errorSumAnchor))
          numberPreEchoUpdates := m.numberPreEchoUpdates + 1 }
      else m
    if 50 ≤ m.numberPreEchoUpdates then do
      let errors ← m.accumulatedError[winnerIndex]?
      let preEchoLag ← computePreEchoLag config.preEchoThreshold errors winnerLag (winnerIndex * filterIntraLagShift c)
      some (m, preEchoLag)
    else some (m, winnerLag)
  else some (m, winnerLag)

def MatchedFilter.report (m : MatchedFilter σ) (errorSumAnchor : σ) : Option (Nat × Nat) → Option (MatchedFilter σ)
  | none => some { m with reportedLagEstimate := none }
  | some (winnerIndex, winnerLag) => do
    let (m, preEchoLag) ← m.findPreEcho c config errorSumAnchor winnerIndex winnerLag
    some { m with
      reportedLagEstimate := some { lag := winnerLag, preEchoLag }
      lastDetectedBestLagFilter := some winnerIndex }

def MatchedFilter.update (m : MatchedFilter σ) (x : RingBuffer σ) (capture : List σ) (useSlowSmoothing : Bool) :
    Option (MatchedFilter σ) :=
  if capture.length = c.subBlockSize then do
    let smoothing := if useSlowSmoothing then config.smoothingSlow else config.smoothingFast
    let errorSumAnchor := capture.foldl (fun sum y => sum + y * y) 0
    let preEchoFilter := if config.detectPreEcho then m.lastDetectedBestLagFilter else none
    let scan ← applyFilters c config x capture smoothing errorSumAnchor preEchoFilter m.filters
      { winnerErrorSum := errorSumAnchor, instantaneousAccumulatedError := m.instantaneousAccumulatedError }
    MatchedFilter.report c config
      { m with
        filters := scan.outcomes.map Outcome.filter
        instantaneousAccumulatedError := scan.instantaneousAccumulatedError } errorSumAnchor scan.winner
  else none

end Update

end Fswtch.Apm.DelayEstimation
