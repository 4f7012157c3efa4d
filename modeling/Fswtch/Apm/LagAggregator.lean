import Fswtch.Apm.LagSearch
import Fswtch.Lib.SlidingCount
import Mathlib.Data.Int.Order.Basic

/-! The lags that the matched filters report are counted over the last ones, and a lag that comes often enough is
taken for the delay. A second count, by whole blocks, looks for the echo that comes before the strongest one. -/

namespace Fswtch.Apm.DelayEstimation
open Fswtch.Apm.RenderDelay Fswtch.Lib.CircularBuffer Fswtch.Lib.MaxElement Fswtch.Lib.SlidingCount

inductive Quality where
  | coarse
  | refined
  deriving DecidableEq

structure DelayEstimate where
  quality : Quality
  delay : Nat
  deriving DecidableEq

def histogramDataSize : Nat := 250

def numBlocksPerSecond : Nat := 250

/-- When a lag is taken for the delay. The weights of the first updates are samples. A threshold is at least one. -/
structure AggregatorConfig (σ : Type) [Samples σ] extends FilterConfig σ where
  initial : Int := 5
  converged : Int := 20
  delayHeadroomSamples : Nat := 32
  count : Int → σ
  penalization : σ
  lowest : σ
  ordered : initial ≤ converged := by decide
  positive : 1 ≤ initial := by decide

/-- Kept beside the state are the lags since the last reset, the newest first. -/
structure HighestPeakAggregator where
  histogram : List Int
  histogramData : List Nat
  histogramDataIndex : Nat := 0
  candidate : Int := -1
  lags : List Nat := []

def HighestPeakAggregator.new (maxFilterLag : Nat) : HighestPeakAggregator where
  histogram := List.replicate (maxFilterLag + 1) 0
  histogramData := List.replicate histogramDataSize 0

def HighestPeakAggregator.reset (a : HighestPeakAggregator) : HighestPeakAggregator :=
  { a with
    histogram := List.replicate a.histogram.length 0
    histogramData := List.replicate a.histogramData.length 0
    histogramDataIndex := 0
    lags := [] }

def HighestPeakAggregator.aggregate (a : HighestPeakAggregator) (lag : Nat) : Option HighestPeakAggregator := do
  let old ← a.histogramData[a.histogramDataIndex]?
  if old < a.histogram.length ∧ lag < a.histogram.length then
    let histogram := (a.histogram.modify old (· + -1)).modify lag (· + 1)
    some {
      histogram
      histogramData := a.histogramData.set a.histogramDataIndex lag
      histogramDataIndex := (a.histogramDataIndex + 1) % a.histogramData.length
      candidate := maxElement histogram
      lags := lag :: a.lags }
  else none

def getDownSamplingBlockSizeLog2 (downSamplingFactor : Nat) : Nat := 6 - downSamplingFactor.log2

/-- A place of the data that has not been written is `none`. -/
structure PreEchoLagAggregator where
  blockSizeLog2 : Nat
  histogram : List Int
  histogramData : List (Option Nat)
  histogramDataIndex : Nat := 0
  preEchoCandidate : Nat := 0
  numberUpdates : Nat := 0
  blocks : List Nat := []

def PreEchoLagAggregator.new (maxFilterLag downSamplingFactor : Nat) : PreEchoLagAggregator where
  blockSizeLog2 := getDownSamplingBlockSizeLog2 downSamplingFactor
  histogram := List.replicate (((maxFilterLag + 1) * downSamplingFactor) >>> 6) 0
  histogramData := List.replicate histogramDataSize none

def PreEchoLagAggregator.reset (a : PreEchoLagAggregator) : PreEchoLagAggregator :=
  { a with
    histogram := List.replicate a.histogram.length 0
    histogramData := List.replicate a.histogramData.length none
    histogramDataIndex := 0
    preEchoCandidate := 0
    blocks := [] }

section Aggregate

variable {σ : Type} [Samples σ]

/-- The best of whole windows, each later one with a lower weight. -/
def weighedCandidate (config : AggregatorConfig σ) (histogram : List Int) : Nat → Nat → σ → σ → Nat → Nat
  | 0, _, _, _, candidate => candidate
  | windows + 1, start, weight, highest, candidate =>
    let window := (histogram.drop start).take matchedFilterWindowSizeSubBlocks
    let place := maxElement window
    let weighed := config.count (window.getD place 0) * weight
    weighedCandidate config histogram windows (start + matchedFilterWindowSizeSubBlocks) (weight * config.penalization)
      (if highest < weighed then weighed else highest) (if highest < weighed then start + place else candidate)

/-- The oldest point is taken from the count. The places not written yet are ignored. -/
def removeOldest (histogram : List Int) : Option Nat → List Int
  | none => histogram
  | some place => histogram.modify place (· + -1)

def PreEchoLagAggregator.aggregate (config : AggregatorConfig σ) (a : PreEchoLagAggregator) (preEchoLag : Nat) :
    Option PreEchoLagAggregator := do
  let block := preEchoLag >>> a.blockSizeLog2
  if block < a.histogram.length then do
    let old ← a.histogramData[a.histogramDataIndex]?
    let histogram := (removeOldest a.histogram old).modify block (· + 1)
    let early := a.numberUpdates < numBlocksPerSecond * 2
    let candidate :=
      if early then
        weighedCandidate config histogram (histogram.length / matchedFilterWindowSizeSubBlocks) 0 1 config.lowest 0
      else maxElement histogram
    some { a with
      histogram
      histogramData := a.histogramData.set a.histogramDataIndex (some block)
      histogramDataIndex := (a.histogramDataIndex + 1) % a.histogramData.length
      preEchoCandidate := candidate <<< a.blockSizeLog2
      numberUpdates := if early then a.numberUpdates + 1 else a.numberUpdates
      blocks := block :: a.blocks }
  else none

structure MatchedFilterLagAggregator where
  significantCandidateFound : Bool := false
  highestPeakAggregator : HighestPeakAggregator
  preEchoLagAggregator : Option PreEchoLagAggregator

def MatchedFilterLagAggregator.new (c : Config) (config : AggregatorConfig σ) : MatchedFilterLagAggregator where
  highestPeakAggregator := .new (getMaxFilterLag c)
  preEchoLagAggregator :=
    if config.detectPreEcho then some (.new (getMaxFilterLag c) c.downSamplingFactor) else none

def MatchedFilterLagAggregator.reset (a : MatchedFilterLagAggregator) (hardReset : Bool) : MatchedFilterLagAggregator where
  significantCandidateFound := a.significantCandidateFound && !hardReset
  highestPeakAggregator := a.highestPeakAggregator.reset
  preEchoLagAggregator := a.preEchoLagAggregator.map PreEchoLagAggregator.reset

def MatchedFilterLagAggregator.headroom (c : Config) (config : AggregatorConfig σ) : Nat :=
  config.delayHeadroomSamples / c.downSamplingFactor

def aggregatePreEcho (config : AggregatorConfig σ) (preEchoLag : Nat) :
    Option PreEchoLagAggregator → Option (Option PreEchoLagAggregator)
  | none => some none
  | some preEcho => (preEcho.aggregate config preEchoLag).map some

def reportedDelay (highest : HighestPeakAggregator) : Option PreEchoLagAggregator → Nat
  | none => highest.candidate.toNat
  | some preEcho => preEcho.preEchoCandidate

/-- The delay once a lag has come often enough, which takes less until one has been found for sure. -/
def MatchedFilterLagAggregator.aggregate (c : Config) (config : AggregatorConfig σ) (a : MatchedFilterLagAggregator) :
    Option LagEstimate → Option (MatchedFilterLagAggregator × Option DelayEstimate)
  | none => some (a, none)
  | some lagEstimate => do
    let preEcho ← aggregatePreEcho config (lagEstimate.preEchoLag - headroom c config) a.preEchoLagAggregator
    let highest ← a.highestPeakAggregator.aggregate (lagEstimate.lag - headroom c config)
    let count ← highest.histogram[highest.candidate.toNat]?
    let significant := a.significantCandidateFound || decide (config.converged < count)
    let a : MatchedFilterLagAggregator :=
      { significantCandidateFound := significant, highestPeakAggregator := highest, preEchoLagAggregator := preEcho }
    if config.converged < count ∨ config.initial < count ∧ significant = false then
      some (a, some
        { quality := if significant then .refined else .coarse
          delay := reportedDelay highest preEcho })
    else some (a, none)

end Aggregate

end Fswtch.Apm.DelayEstimation
