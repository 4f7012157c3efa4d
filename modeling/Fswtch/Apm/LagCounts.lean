import Fswtch.Apm.LagAggregator

/-! The counts are those of the last lags since a reset, but for the lag zero. A delay is only reported when a lag
has come often enough among them. -/

namespace Fswtch.Apm.DelayEstimation
open Fswtch.Apm.Framing Fswtch.Apm.RenderDelay Fswtch.Lib.CircularBuffer Fswtch.Lib.MaxElement Fswtch.Lib.SlidingCount

structure HighestPeakAggregator.Sound (places : Nat) (a : HighestPeakAggregator) : Prop where
  sliding : Sliding histogramDataSize 0 a.lags a.histogramData a.histogramDataIndex
  tallies : Tallies some (List.replicate histogramDataSize 0) a.histogram (lastOf histogramDataSize 0 a.lags)
  size : a.histogram.length = places
  small : ∀ lag ∈ a.lags, lag < places

section Highest

variable {places : Nat} {a : HighestPeakAggregator}

theorem HighestPeakAggregator.sound_new (maxFilterLag : Nat) : (new maxFilterLag).Sound (maxFilterLag + 1) where
  sliding := sliding_new (by decide) 0
  tallies := lastOf_nil histogramDataSize 0 ▸ tallies_new some _ _
  size := List.length_replicate
  small lag present := by cases present

theorem HighestPeakAggregator.Sound.reset (sound : a.Sound places) : a.reset.Sound places where
  sliding := sound.sliding.long ▸ sliding_new (by rw [sound.sliding.long]; decide) 0
  tallies := lastOf_nil histogramDataSize 0 ▸ tallies_new some _ _
  size := List.length_replicate.trans sound.size
  small lag present := by cases present

theorem HighestPeakAggregator.aggregate_spec (sound : a.Sound places) {lag : Nat} (inside : lag < places) :
    ∃ next count, ∃ place : Nat, a.aggregate lag = some next ∧ next.Sound places ∧ next.lags = lag :: a.lags ∧
      next.candidate = place ∧ FirstMax next.histogram place count := by
  obtain ⟨old, front, there, before, after, sliding⟩ := sound.sliding.push lag
  have known : old < places := by
    have present : old ∈ lastOf histogramDataSize 0 a.lags := before ▸ List.mem_append_right _ (List.mem_singleton_self _)
    rcases mem_lastOf present with earlier | rfl
    · exact sound.small old earlier
    · exact Nat.zero_lt_of_lt inside
  have tallies := (before ▸ sound.tallies).slide lag
  rw [← after] at tallies
  have length : ((a.histogram.modify old (· + -1)).modify lag (· + 1)).length = places := by
    rw [List.length_modify, List.length_modify, sound.size]
  obtain ⟨count, top⟩ := maxElement_spec (List.ne_nil_of_length_pos (length ▸ Nat.zero_lt_of_lt inside))
  rw [HighestPeakAggregator.aggregate, there, Option.bind_eq_bind, Option.bind_some,
    if_pos ⟨sound.size ▸ known, sound.size ▸ inside⟩]
  refine ⟨_, count, _, rfl, ⟨?_, tallies, length, ?_⟩, rfl, rfl, top⟩
  · exact sound.sliding.long ▸ sliding
  · intro other present
    rcases List.mem_cons.mp present with rfl | earlier
    · exact inside
    · exact sound.small other earlier

/-- The count of a lag is how often it came among the last ones. The lag zero is never counted above nothing. -/
theorem HighestPeakAggregator.Sound.counted (sound : a.Sound places) {place : Nat} {count : Int}
    (there : a.histogram[place]? = some count) :
    if place = 0 then count ≤ 0 else count = (a.lags.take histogramDataSize).count place := by
  have inside : place < a.histogram.length := (List.getElem?_eq_some_iff.mp there).1
  have same := sound.tallies place inside
  rw [there, Option.some.injEq, held_replicate] at same
  split
  next zero =>
    have most := held_le some (lastOf histogramDataSize 0 a.lags) place
    have long : (lastOf histogramDataSize 0 a.lags).length = histogramDataSize := by
      rw [← sound.sliding.window, List.length_reverse, List.length_rotate, sound.sliding.long]
    rw [if_pos (by rw [zero])] at same
    omega
  next other =>
    have apart : some 0 ≠ some place := fun equal => other (Option.some.inj equal).symm
    rw [if_neg apart, held_lastOf apart, Int.sub_zero] at same
    rw [same, held, List.count]
    congr 2

end Highest

structure PreEchoLagAggregator.Sound (places log2 : Nat) (a : PreEchoLagAggregator) : Prop where
  shift : a.blockSizeLog2 = log2
  sliding : Sliding histogramDataSize none (a.blocks.map some) a.histogramData a.histogramDataIndex
  tallies : Tallies id (List.replicate histogramDataSize none) a.histogram
    (lastOf histogramDataSize none (a.blocks.map some))
  size : a.histogram.length = places
  candidate : ∃ block < places, a.preEchoCandidate = block <<< log2

section PreEcho

variable {places log2 : Nat} {a : PreEchoLagAggregator}

theorem PreEchoLagAggregator.sound_new (maxFilterLag downSamplingFactor : Nat)
    (positive : 0 < ((maxFilterLag + 1) * downSamplingFactor) >>> 6) :
    (new maxFilterLag downSamplingFactor).Sound (((maxFilterLag + 1) * downSamplingFactor) >>> 6)
      (getDownSamplingBlockSizeLog2 downSamplingFactor) where
  shift := rfl
  sliding := sliding_new (by decide) none
  tallies := lastOf_nil histogramDataSize (none : Option Nat) ▸ tallies_new id _ _
  size := List.length_replicate
  candidate := ⟨0, positive, (Nat.zero_shiftLeft _).symm⟩

theorem PreEchoLagAggregator.Sound.reset (sound : a.Sound places log2) : a.reset.Sound places log2 where
  shift := sound.shift
  sliding := sound.sliding.long ▸ sliding_new (by rw [sound.sliding.long]; decide) none
  tallies := lastOf_nil histogramDataSize (none : Option Nat) ▸ tallies_new id _ _
  size := List.length_replicate.trans sound.size
  candidate := by
    obtain ⟨block, inside, -⟩ := sound.candidate
    exact ⟨0, Nat.zero_lt_of_lt inside, (Nat.zero_shiftLeft _).symm⟩

variable {σ : Type} [Samples σ] (config : AggregatorConfig σ)

theorem weighedCandidate_lt (histogram : List Int) {windows start : Nat}
    (fits : start + windows * matchedFilterWindowSizeSubBlocks ≤ histogram.length) (weight highest : σ) {candidate : Nat}
    (inside : candidate < histogram.length) :
    weighedCandidate config histogram windows start weight highest candidate < histogram.length := by
  induction windows generalizing start weight highest candidate with
  | zero => exact inside
  | succ windows ih =>
    rw [Nat.succ_mul] at fits
    have long : ((histogram.drop start).take matchedFilterWindowSizeSubBlocks).length = matchedFilterWindowSizeSubBlocks := by
      rw [List.length_take, List.length_drop]
      omega
    have nonempty : (histogram.drop start).take matchedFilterWindowSizeSubBlocks ≠ [] := by
      refine List.ne_nil_of_length_pos ?_
      rw [long]
      decide
    obtain ⟨_, top⟩ := maxElement_spec nonempty
    have near := top.inside
    rw [long] at near
    refine ih (by omega) _ _ ?_
    split
    next => omega
    next => exact inside

theorem PreEchoLagAggregator.aggregate_spec (sound : a.Sound places log2) {lag : Nat} (inside : lag >>> log2 < places) :
    ∃ next, a.aggregate config lag = some next ∧ next.Sound places log2 ∧ next.blocks = (lag >>> log2) :: a.blocks := by
  obtain ⟨old, front, there, before, after, sliding⟩ := sound.sliding.push (some (lag >>> log2))
  have tallies := (before ▸ sound.tallies).slide (some (lag >>> log2))
  rw [← after] at tallies
  have counted : removeOldest a.histogram old = adjust a.histogram (-1) (id old) := by
    cases old with
    | none => rfl
    | some place => rfl
  rw [PreEchoLagAggregator.aggregate, sound.shift, if_pos (sound.size ▸ inside), there, Option.bind_eq_bind,
    Option.bind_some, counted]
  generalize same : (adjust a.histogram (-1) (id old)).modify (lag >>> log2) (· + 1) = histogram
  have length : histogram.length = places := by rw [← same, List.length_modify, adjust_length, sound.size]
  have positive : 0 < histogram.length := length ▸ Nat.zero_lt_of_lt inside
  refine ⟨_, rfl, ⟨rfl, sound.sliding.long ▸ sliding, same ▸ tallies, length, _, ?_, rfl⟩, rfl⟩
  split
  next =>
    rw [← length]
    exact weighedCandidate_lt config histogram (by rw [Nat.zero_add]; exact Nat.div_mul_le_self _ _) _ _ positive
  next =>
    obtain ⟨_, top⟩ := maxElement_spec (List.ne_nil_of_length_pos positive)
    exact length ▸ top.inside

end PreEcho

section Both

variable {σ : Type} [Samples σ] {c : Config} {config : AggregatorConfig σ}

def preEchoPlaces (c : Config) : Nat := matchedFilterAlignmentShiftSizeSubBlocks * c.numFilters + matchedFilterWindowSizeSubBlocks

/-- A place is a block at the full rate, whatever the lower rate is. -/
theorem preEcho_scale (c : Config) : ((getMaxFilterLag c + 1) * c.downSamplingFactor) >>> 6 = preEchoPlaces c ∧
    (∀ block, block <<< getDownSamplingBlockSizeLog2 c.downSamplingFactor * c.downSamplingFactor = block * blockSize) ∧
    ∀ lag, lag < (c.numFilters - 1) * filterIntraLagShift c + filterSize c →
      lag >>> getDownSamplingBlockSizeLog2 c.downSamplingFactor < preEchoPlaces c ∧
        lag * c.downSamplingFactor / blockSize < preEchoPlaces c := by
  have low4 : Nat.log2 4 = 2 := by decide
  have low8 : Nat.log2 8 = 3 := by decide
  simp only [getMaxFilterLag, filterIntraLagShift, filterSize, preEchoPlaces, getDownSamplingBlockSizeLog2,
    matchedFilterAlignmentShiftSizeSubBlocks, matchedFilterWindowSizeSubBlocks, Config.subBlockSize, blockSize,
    Nat.shiftRight_eq_div_pow, Nat.shiftLeft_eq]
  rcases c.factor with four | eight
  · rw [four, low4]
    exact ⟨by omega, fun block => by omega, fun lag short => by omega⟩
  · rw [eight, low8]
    exact ⟨by omega, fun block => by omega, fun lag short => by omega⟩

structure MatchedFilterLagAggregator.Sound (c : Config) (config : AggregatorConfig σ) (a : MatchedFilterLagAggregator) :
    Prop where
  highest : a.highestPeakAggregator.Sound (getMaxFilterLag c + 1)
  near : ∀ lag ∈ a.highestPeakAggregator.lags, lag < (c.numFilters - 1) * filterIntraLagShift c + filterSize c
  preEcho : ∀ preEcho ∈ a.preEchoLagAggregator,
    preEcho.Sound (preEchoPlaces c) (getDownSamplingBlockSizeLog2 c.downSamplingFactor)
  detect : a.preEchoLagAggregator.isSome = config.detectPreEcho

structure Supported (c : Config) (config : AggregatorConfig σ) (a : MatchedFilterLagAggregator) (estimate : DelayEstimate) :
    Prop where
  quality : estimate.quality = .refined ↔ a.significantCandidateFound = true
  /-- A lag other than zero has come often enough among the last ones, and none more often. -/
  lag : ∃ lag, lag ≠ 0 ∧
    (if estimate.quality = .refined then config.converged else config.initial) <
      ((a.highestPeakAggregator.lags.take histogramDataSize).count lag : Int) ∧
    (∀ other, other ≠ 0 → (a.highestPeakAggregator.lags.take histogramDataSize).count other ≤
      (a.highestPeakAggregator.lags.take histogramDataSize).count lag) ∧
    a.highestPeakAggregator.candidate = lag ∧ (config.detectPreEcho = false → estimate.delay = lag)
  /-- The delay lies in the render buffer, and is a whole number of blocks when echoes before the strongest count. -/
  delay : estimate.delay * c.downSamplingFactor / blockSize < preEchoPlaces c
  whole : config.detectPreEcho = true → blockSize ∣ estimate.delay * c.downSamplingFactor

theorem MatchedFilterLagAggregator.sound_new (c : Config) (config : AggregatorConfig σ) : (new c config).Sound c config := by
  constructor
  case highest => exact HighestPeakAggregator.sound_new _
  case near => nofun
  case preEcho =>
    intro preEcho present
    simp only [new, Option.mem_def] at present
    split at present
    next =>
      obtain rfl := Option.some.inj present
      exact (preEcho_scale c).1 ▸ PreEchoLagAggregator.sound_new _ _ ((preEcho_scale c).1 ▸ by
        rw [preEchoPlaces, matchedFilterWindowSizeSubBlocks]; omega)
    next => cases present
  case detect =>
    rw [new]
    cases config.detectPreEcho with
    | false => rfl
    | true => rfl

theorem MatchedFilterLagAggregator.Sound.reset {a : MatchedFilterLagAggregator} (sound : a.Sound c config) (hardReset : Bool) :
    (a.reset hardReset).Sound c config where
  highest := sound.highest.reset
  near lag present := by cases present
  preEcho preEcho present := by
    obtain ⟨before, there, rfl⟩ := Option.map_eq_some_iff.mp present
    exact (sound.preEcho before there).reset
  detect := Option.isSome_map.trans sound.detect

theorem aggregatePreEcho_spec (config : AggregatorConfig σ) {before : Option PreEchoLagAggregator} {lag places log2 : Nat}
    (sound : ∀ preEcho ∈ before, preEcho.Sound places log2) (inside : lag >>> log2 < places) :
    ∃ after, aggregatePreEcho config lag before = some after ∧ (∀ preEcho ∈ after, preEcho.Sound places log2) ∧
      after.isSome = before.isSome := by
  cases before with
  | none => exact ⟨none, rfl, nofun, rfl⟩
  | some preEcho =>
    obtain ⟨next, taken, kept, -⟩ := PreEchoLagAggregator.aggregate_spec config (sound preEcho rfl) inside
    refine ⟨some next, congrArg (Option.map some) taken, fun later present => ?_, rfl⟩
    exact Option.some.inj present ▸ kept

theorem supported_lag {places : Nat} {highest : HighestPeakAggregator} (sound : highest.Sound places) {place : Nat}
    {count threshold : Int} (top : FirstMax highest.histogram place count) (enough : threshold < count)
    (positive : 1 ≤ threshold) :
    place ≠ 0 ∧ place ∈ highest.lags ∧ threshold < ((highest.lags.take histogramDataSize).count place : Int) ∧
      ∀ other, other ≠ 0 → (highest.lags.take histogramDataSize).count other ≤
        (highest.lags.take histogramDataSize).count place := by
  have counted := sound.counted top.there
  have apart : place ≠ 0 := by
    rintro rfl
    rw [if_pos rfl] at counted
    omega
  rw [if_neg apart] at counted
  have present : place ∈ highest.lags := by
    refine List.mem_of_mem_take (List.count_pos_iff.mp (Nat.pos_of_ne_zero fun none => ?_)) (i := histogramDataSize)
    omega
  refine ⟨apart, present, counted ▸ enough, fun other nonzero => ?_⟩
  by_cases inside : other < highest.histogram.length
  · have there := List.getElem?_eq_getElem inside
    have less := sound.counted there
    rw [if_neg nonzero] at less
    have above := top.above _ (List.getElem_mem inside)
    omega
  · have absent : other ∉ highest.lags.take histogramDataSize := fun present =>
      inside (sound.size ▸ sound.small other (List.mem_of_mem_take present))
    rw [List.count_eq_zero_of_not_mem absent]
    exact Nat.zero_le _

theorem MatchedFilterLagAggregator.aggregate_spec {a : MatchedFilterLagAggregator} (sound : a.Sound c config)
    {estimate : LagEstimate} (early : estimate.preEchoLag ≤ estimate.lag)
    (near : estimate.lag < (c.numFilters - 1) * filterIntraLagShift c + filterSize c) :
    ∃ next reported, a.aggregate c config (some estimate) = some (next, reported) ∧ next.Sound c config ∧
      next.highestPeakAggregator.lags = (estimate.lag - headroom c config) :: a.highestPeakAggregator.lags ∧
      ∀ delay ∈ reported, Supported c config next delay := by
  obtain ⟨-, whole, blocks⟩ := preEcho_scale c
  have within : estimate.lag - headroom c config < getMaxFilterLag c + 1 := by
    have shorter := Nat.mul_le_mul_right (filterIntraLagShift c) (Nat.sub_le c.numFilters 1)
    rw [getMaxFilterLag]
    omega
  have small : estimate.preEchoLag - headroom c config < (c.numFilters - 1) * filterIntraLagShift c + filterSize c := by omega
  obtain ⟨preEcho, heard, echoes, detect⟩ := aggregatePreEcho_spec config sound.preEcho (blocks _ small).1
  obtain ⟨highest, count, place, taken, kept, lags, candidate, top⟩ := HighestPeakAggregator.aggregate_spec sound.highest within
  rw [aggregate, heard, taken]
  simp only [Option.bind_eq_bind, Option.bind_some, candidate, Int.toNat_natCast, top.there]
  generalize flag : (a.significantCandidateFound || decide (config.converged < count)) = significant
  have later : MatchedFilterLagAggregator.Sound c config
      { significantCandidateFound := significant, highestPeakAggregator := highest, preEchoLagAggregator := preEcho } := by
    refine ⟨kept, fun lag present => ?_, echoes, detect.trans sound.detect⟩
    rw [lags] at present
    rcases List.mem_cons.mp present with rfl | old
    · omega
    · exact sound.near lag old
  split
  next enough =>
    refine ⟨_, _, rfl, later, lags, fun delay present => ?_⟩
    obtain rfl := Option.some.inj present
    have named : (if significant = true then Quality.refined else .coarse) = .refined ↔ significant = true := by
      cases significant <;> simp
    have more : (if significant = true then config.converged else config.initial) < count := by
      cases significant with
      | true =>
        rw [if_pos rfl]
        exact enough.resolve_right fun both => Bool.noConfusion both.2
      | false =>
        rw [if_neg Bool.false_ne_true]
        exact enough.elim config.ordered.trans_lt And.left
    have positive : 1 ≤ if significant = true then config.converged else config.initial := by
      split
      next => exact config.positive.trans config.ordered
      next => exact config.positive
    obtain ⟨apart, among, often, most⟩ := supported_lag kept top more positive
    have found : reportedDelay highest none = place := by rw [reportedDelay, candidate, Int.toNat_natCast]
    constructor
    case quality => exact named
    case lag =>
      refine ⟨place, apart, ?_, most, candidate, fun off => ?_⟩
      · simpa only [named] using often
      · have absent : preEcho = none := by
          rw [← Option.isNone_iff_eq_none, ← Option.not_isSome, detect, sound.detect, off]
          rfl
        rw [absent, found]
    case delay =>
      cases preEcho with
      | none =>
        rw [found]
        exact (blocks place (later.near place among)).2
      | some preEcho =>
        obtain ⟨block, inside, same⟩ := (echoes preEcho rfl).candidate
        rw [reportedDelay, same, whole, Nat.mul_div_cancel _ (by decide)]
        exact inside
    case whole =>
      intro on
      cases preEcho with
      | none =>
        rw [sound.detect, on] at detect
        cases detect
      | some preEcho =>
        obtain ⟨block, -, same⟩ := (echoes preEcho rfl).candidate
        rw [reportedDelay, same, whole]
        exact Nat.dvd_mul_left _ _
  next => exact ⟨_, _, rfl, later, lags, nofun⟩

end Both

end Fswtch.Apm.DelayEstimation
