import Fswtch.Apm.DelayController

/-! The estimates of the delay over a whole run: clock drift is found exactly where the delay has lately moved
step by step, and the delay of the render buffer stays within its limits of the estimate. -/

namespace Fswtch.Apm.DelayEstimation
open Fswtch.Apm.Framing Fswtch.Apm.RenderDelay Fswtch.Lib.CircularBuffer Fswtch.Lib.StepRun

/-- The estimates without repeats, the newest first, after the zeros of the start. -/
def changes : List Int → List Int
  | [] => [0, 0, 0]
  | estimate :: earlier =>
    if (changes earlier).head? = some estimate then changes earlier else estimate :: changes earlier

def repeats : List Int → Nat
  | [] => 0
  | estimate :: earlier => if (changes earlier).head? = some estimate then repeats earlier + 1 else 0

def detected : List Int → ClockdriftDetector
  | [] => {}
  | estimate :: earlier => (detected earlier).update estimate

def ProbablyDrifting : List Int → Prop
  | now :: before :: earlier :: _ => probableDrift (before - now) (earlier - now) = true
  | _ => False

def Drifting : List Int → Prop
  | now :: before :: earlier :: first :: _ => drift (before - now) (earlier - now) (first - now) = true
  | _ => False

/-- The delay has moved in such a way, and has not been stable for long since. -/
def LatelySeen (pattern : List Int → Prop) (estimates : List Int) : Prop :=
  ∃ later earlier, estimates = later ++ earlier ∧ repeats earlier = 0 ∧ pattern (changes earlier) ∧
    ∀ recent rest, later = recent ++ rest → repeats (rest ++ earlier) ≤ stableBlocks

theorem latelySeen_cons (pattern : List Int → Prop) (estimate : Int) (earlier : List Int) :
    LatelySeen pattern (estimate :: earlier) ↔
      (repeats (estimate :: earlier) = 0 ∧ pattern (changes (estimate :: earlier))) ∨
        (LatelySeen pattern earlier ∧ repeats (estimate :: earlier) ≤ stableBlocks) := by
  constructor
  · rintro ⟨later, first, same, fresh, seen, brief⟩
    cases later with
    | nil =>
      obtain rfl : estimate :: earlier = first := same
      exact .inl ⟨fresh, seen⟩
    | cons newest later =>
      obtain ⟨rfl, rfl⟩ := List.cons.inj same
      exact .inr ⟨⟨later, first, rfl, fresh, seen, fun recent rest split =>
        brief (estimate :: recent) rest (congrArg (estimate :: ·) split)⟩, brief [] (estimate :: later) rfl⟩
  · rintro (⟨fresh, seen⟩ | ⟨⟨later, first, rfl, fresh, seen, brief⟩, short⟩)
    · refine ⟨[], estimate :: earlier, rfl, fresh, seen, fun recent rest split => ?_⟩
      obtain ⟨-, rfl⟩ := List.append_eq_nil_iff.mp split.symm
      exact fresh ▸ Nat.zero_le _
    · refine ⟨estimate :: later, first, rfl, fresh, seen, fun recent rest split => ?_⟩
      cases recent with
      | nil =>
        obtain rfl : estimate :: later = rest := split
        exact short
      | cons newest recent => exact brief recent rest (List.cons.inj split).2

theorem detected_history (estimates : List Int) : ∃ h0 h1 h2 rest, (detected estimates).delayHistory = (h0, h1, h2) ∧
    changes estimates = h0 :: h1 :: h2 :: rest ∧ (detected estimates).stabilityCounter = repeats estimates := by
  induction estimates with
  | nil => exact ⟨0, 0, 0, [], rfl, rfl, rfl⟩
  | cons estimate earlier ih =>
    obtain ⟨h0, h1, h2, rest, history, changed, counter⟩ := ih
    simp only [detected, changes, repeats, ClockdriftDetector.update, history, changed, List.head?_cons,
      Option.some.injEq]
    by_cases same : estimate = h0
    · rw [if_pos same, if_pos same.symm, if_pos same.symm]
      exact ⟨h0, h1, h2, rest, rfl, rfl, congrArg (· + 1) counter⟩
    · have other : h0 ≠ estimate := fun equal => same equal.symm
      rw [if_neg same, if_neg other, if_neg other]
      exact ⟨estimate, h0, h1, h2 :: rest, rfl, rfl, rfl⟩

theorem drift_probable {d1 d2 d3 : Int} (drifts : drift d1 d2 d3 = true) : probableDrift d1 d2 = true := by
  simp only [drift, probableDrift, Bool.or_eq_true, Bool.and_eq_true] at drifts ⊢
  rcases drifts with ⟨up, -⟩ | ⟨down, -⟩
  · exact .inl up
  · exact .inr down

theorem not_latelySeen_nil {pattern : List Int → Prop} (plain : ¬pattern [0, 0, 0]) : ¬LatelySeen pattern [] := by
  rintro ⟨later, earlier, same, -, seen, -⟩
  obtain ⟨-, rfl⟩ := List.append_eq_nil_iff.mp same.symm
  exact plain seen

theorem latelySeen_again {pattern : List Int → Prop} {estimate : Int} {earlier : List Int}
    (again : repeats (estimate :: earlier) = repeats earlier + 1) :
    LatelySeen pattern (estimate :: earlier) ↔ LatelySeen pattern earlier ∧ repeats earlier + 1 ≤ stableBlocks := by
  rw [latelySeen_cons, again]
  exact or_iff_right fun fresh => Nat.succ_ne_zero _ fresh.1

theorem latelySeen_changed {pattern : List Int → Prop} {estimate : Int} {earlier : List Int}
    (fresh : repeats (estimate :: earlier) = 0) :
    LatelySeen pattern (estimate :: earlier) ↔
      pattern (changes (estimate :: earlier)) ∨ LatelySeen pattern earlier := by
  rw [latelySeen_cons, fresh]
  exact or_congr (and_iff_right rfl) (and_iff_left (Nat.zero_le _))

theorem detected_cons (estimate : Int) (earlier : List Int) :
    (repeats (estimate :: earlier) = repeats earlier + 1 ∧ (detected (estimate :: earlier)).level =
        if repeats earlier + 1 > stableBlocks then .none else (detected earlier).level) ∨
      ∃ d1 d2 d3, repeats (estimate :: earlier) = 0 ∧
        (ProbablyDrifting (changes (estimate :: earlier)) ↔ probableDrift d1 d2 = true) ∧
        (Drifting (changes (estimate :: earlier)) ↔ drift d1 d2 d3 = true) ∧
        (detected (estimate :: earlier)).level = if drift d1 d2 d3 then .verified
          else if probableDrift d1 d2 ∧ (detected earlier).level = .none then .probable
          else (detected earlier).level := by
  obtain ⟨h0, h1, h2, rest, history, changed, counter⟩ := detected_history earlier
  simp only [detected, changes, repeats, ClockdriftDetector.update, history, changed, List.head?_cons,
    Option.some.injEq, counter]
  by_cases same : estimate = h0
  · rw [if_pos same, if_pos same.symm]
    exact .inl ⟨rfl, rfl⟩
  · have other : h0 ≠ estimate := fun equal => same equal.symm
    rw [if_neg same, if_neg other, if_neg other]
    exact .inr ⟨h0 - estimate, h1 - estimate, h2 - estimate, rfl, Iff.rfl, Iff.rfl, rfl⟩

theorem probable_seen (estimates : List Int) :
    (detected estimates).level ≠ .none ↔ LatelySeen ProbablyDrifting estimates := by
  induction estimates with
  | nil => exact iff_of_false (fun moved => moved rfl) (not_latelySeen_nil (by simp [ProbablyDrifting, probableDrift]))
  | cons estimate earlier ih =>
    obtain ⟨again, level⟩ | ⟨d1, d2, d3, fresh, probable, -, level⟩ := detected_cons estimate earlier
    · rw [latelySeen_again again, ← ih, level]
      split
      next long => exact iff_of_false (fun moved => moved rfl) fun seen => Nat.not_le.mpr long seen.2
      next brief => exact (and_iff_left (Nat.not_lt.mp brief)).symm
    · rw [latelySeen_changed fresh, ← ih, probable, level]
      by_cases drifts : drift d1 d2 d3 = true
      · rw [if_pos drifts]
        exact iff_of_true nofun (.inl (drift_probable drifts))
      · rw [if_neg drifts]
        by_cases moved : probableDrift d1 d2 = true
        · cases before : (detected earlier).level <;> simp [moved]
        · simp [moved]

theorem verified_seen (estimates : List Int) :
    (detected estimates).level = .verified ↔ LatelySeen Drifting estimates := by
  induction estimates with
  | nil => exact iff_of_false nofun (not_latelySeen_nil (by simp [Drifting]))
  | cons estimate earlier ih =>
    obtain ⟨again, level⟩ | ⟨d1, d2, d3, fresh, -, drifting, level⟩ := detected_cons estimate earlier
    · rw [latelySeen_again again, ← ih, level]
      split
      next long => exact iff_of_false nofun fun seen => Nat.not_le.mpr long seen.2
      next brief => exact (and_iff_left (Nat.not_lt.mp brief)).symm
    · rw [latelySeen_changed fresh, ← ih, drifting, level]
      by_cases drifts : drift d1 d2 d3 = true
      · rw [if_pos drifts]
        exact iff_of_true rfl (.inl drifts)
      · rw [if_neg drifts]
        by_cases moved : probableDrift d1 d2 = true
        · cases before : (detected earlier).level <;> simp [drifts, moved]
        · simp [drifts, moved]

/-- The level tells whether the delay has lately moved like that. -/
theorem drift_seen (estimates : List Int) :
    ((detected estimates).level ≠ .none ↔ LatelySeen ProbablyDrifting estimates) ∧
      ((detected estimates).level = .verified ↔ LatelySeen Drifting estimates) :=
  ⟨probable_seen estimates, verified_seen estimates⟩

section Estimate

variable {σ μ γ : Type} [Samples σ] {c : Config} {config : AggregatorConfig σ}

structure EchoPathDelayEstimator.Sound (c : Config) (config : AggregatorConfig σ) (e : EchoPathDelayEstimator σ μ) :
    Prop where
  matchedFilter : e.matchedFilter.Sound c
  aggregator : e.matchedFilterLagAggregator.Sound c config
  drift : e.clockdriftDetector = detected e.refinedLags
  /-- The filters begin anew before the delay has been the same for longer. -/
  counter : e.consistentEstimateCounter ≤ numBlocksPerSecond / 2

theorem EchoPathDelayEstimator.sound_new (captureMixer : μ) : (new c config captureMixer).Sound c config where
  matchedFilter := MatchedFilter.sound_new
  aggregator := MatchedFilterLagAggregator.sound_new c config
  drift := rfl
  counter := Nat.zero_le _

theorem EchoPathDelayEstimator.reset_spec {e : EchoPathDelayEstimator σ μ} (matchedFilter : e.matchedFilter.Sound c)
    (aggregator : e.matchedFilterLagAggregator.Sound c config) (drift : e.clockdriftDetector = detected e.refinedLags)
    (resetLagAggregator resetDelayConfidence : Bool) :
    (e.reset resetLagAggregator resetDelayConfidence).Sound c config where
  matchedFilter := matchedFilter.reset resetLagAggregator
  aggregator := by
    cases resetLagAggregator with
    | false => exact aggregator
    | true => exact aggregator.reset resetDelayConfidence
  drift := drift
  counter := Nat.zero_le _

omit [Samples σ] in
theorem follow_detected {e : EchoPathDelayEstimator σ μ} (drift : e.clockdriftDetector = detected e.refinedLags)
    (delayAtHighestPeak : Int) (lag : Option DelayEstimate) :
    e.clockdriftDetector.follow delayAtHighestPeak lag = detected (e.recordLag delayAtHighestPeak lag) := by
  rw [drift]
  cases lag with
  | none => rfl
  | some estimate =>
    rw [ClockdriftDetector.follow, EchoPathDelayEstimator.recordLag]
    split
    next => rfl
    next => rfl

theorem aggregate_reported {m : MatchedFilter σ} (filters : m.Sound c) {a : MatchedFilterLagAggregator}
    (sound : a.Sound c config) :
    ∃ next reported, a.aggregate c config m.reportedLagEstimate = some (next, reported) ∧ next.Sound c config ∧
      ∀ estimate ∈ reported, Supported c config next estimate := by
  cases present : m.reportedLagEstimate with
  | none => exact ⟨a, none, rfl, sound, nofun⟩
  | some estimate =>
    obtain ⟨early, near⟩ := filters.reported estimate present
    obtain ⟨next, reported, taken, kept, -, supported⟩ :=
      MatchedFilterLagAggregator.aggregate_spec sound early (Nat.lt_of_le_of_lt (Nat.le_add_right _ 10) near)
    exact ⟨next, reported, taken, kept, supported⟩

/-- A block of the capture signal is taken in, and the delay reported is supported by the counts. -/
theorem estimateDelay_spec (parts : CaptureParts c σ μ γ) {e : EchoPathDelayEstimator σ μ} (sound : e.Sound c config)
    {renderBuffer : RingBuffer σ} (nonempty : 0 < renderBuffer.size) (capture : γ) :
    ∃ next reported, e.estimateDelay c config parts renderBuffer capture = some (next, reported) ∧ next.Sound c config ∧
      ∀ delay ∈ reported, ∃ estimate, Supported c config next.matchedFilterLagAggregator estimate ∧
        delay = { estimate with delay := estimate.delay * c.downSamplingFactor } := by
  obtain ⟨matchedFilter, _, updated, filters, -⟩ := update_spec config.toFilterConfig sound.matchedFilter nonempty
    (parts.even e.captureMixer capture) e.matchedFilterLagAggregator.significantCandidateFound
  obtain ⟨aggregator, lag, taken, kept, supported⟩ := aggregate_reported filters sound.aggregator
  rw [EchoPathDelayEstimator.estimateDelay]
  simp only [updated, taken, Option.bind_eq_bind, Option.bind_some]
  have found : ∀ delay ∈ lag.map fun estimate => { estimate with delay := estimate.delay * c.downSamplingFactor },
      ∃ estimate, Supported c config aggregator estimate ∧
        delay = { estimate with delay := estimate.delay * c.downSamplingFactor } := fun delay present => by
    obtain ⟨estimate, there, rfl⟩ := Option.map_eq_some_iff.mp present
    exact ⟨estimate, supported estimate there, rfl⟩
  have drift := follow_detected sound.drift aggregator.highestPeakAggregator.candidate lag
  split
  next => exact ⟨_, _, rfl, EchoPathDelayEstimator.reset_spec filters kept drift false false, found⟩
  next brief => exact ⟨_, _, rfl, ⟨filters, kept, drift, Nat.not_lt.mp brief⟩, found⟩

end Estimate

theorem computeBufferDelay_spec (current : Option DelayEstimate) (limit : Nat) (estimated : DelayEstimate) :
    (computeBufferDelay current limit estimated).quality = estimated.quality ∧
      (computeBufferDelay current limit estimated).delay ≤ estimated.delay / blockSize ∧
      estimated.delay / blockSize ≤ (computeBufferDelay current limit estimated).delay + limit ∧
      ∀ before ∈ current, (computeBufferDelay current limit estimated).delay ≤ before.delay ∨
        before.delay + limit < (computeBufferDelay current limit estimated).delay := by
  cases current with
  | none => exact ⟨rfl, Nat.le_refl _, Nat.le_add_right _ _, nofun⟩
  | some before =>
    simp only [computeBufferDelay]
    split
    next near =>
      refine ⟨rfl, near.1.le, near.2, fun other present => .inl ?_⟩
      exact Option.some.inj present ▸ Nat.le_refl _
    next far =>
      refine ⟨rfl, Nat.le_refl _, Nat.le_add_right _ _, fun other present => ?_⟩
      obtain rfl := Option.some.inj present
      dsimp only
      omega

section Control

variable {σ μ γ : Type} [Samples σ] {c : Config} {config : AggregatorConfig σ} {hysteresisLimitBlocks : Nat}

def Within (hysteresisLimitBlocks : Nat) (samples delay : DelayEstimate) : Prop :=
  delay.quality = samples.quality ∧ delay.delay ≤ samples.delay / blockSize ∧
    samples.delay / blockSize ≤ delay.delay + hysteresisLimitBlocks

structure RenderDelayController.Sound (c : Config) (config : AggregatorConfig σ) (hysteresisLimitBlocks : Nat)
    (r : RenderDelayController σ μ) : Prop where
  estimator : r.delayEstimator.Sound c config
  samples : ∀ samples ∈ r.delaySamples, samples.delay / blockSize < preEchoPlaces c ∧
    (config.detectPreEcho = true → blockSize ∣ samples.delay)
  level : r.delay.isSome = r.delaySamples.isSome
  delay : ∀ samples ∈ r.delaySamples, ∀ delay ∈ r.delay, Within hysteresisLimitBlocks samples delay
  quality : ∀ delay ∈ r.delay, r.lastDelayEstimateQuality = delay.quality

theorem RenderDelayController.sound_new {estimator : EchoPathDelayEstimator σ μ} (sound : estimator.Sound c config) :
    ({ delayEstimator := estimator } : RenderDelayController σ μ).Sound c config hysteresisLimitBlocks where
  estimator := sound
  samples := nofun
  level := rfl
  delay := nofun
  quality := nofun

theorem RenderDelayController.Sound.reset {r : RenderDelayController σ μ}
    (sound : r.Sound c config hysteresisLimitBlocks) (resetDelayConfidence : Bool) :
    (r.reset resetDelayConfidence).Sound c config hysteresisLimitBlocks where
  estimator := EchoPathDelayEstimator.reset_spec sound.estimator.matchedFilter sound.estimator.aggregator
    sound.estimator.drift true _
  samples := nofun
  level := rfl
  delay := nofun
  quality := nofun

theorem hasClockdrift_iff {r : RenderDelayController σ μ} (sound : r.Sound c config hysteresisLimitBlocks) :
    r.hasClockdrift = true ↔ LatelySeen ProbablyDrifting r.delayEstimator.refinedLags := by
  rw [RenderDelayController.hasClockdrift, decide_eq_true_iff, sound.estimator.drift]
  exact probable_seen _

variable (hysteresisLimitBlocks) in
/-- The delay in force is turned into blocks, and a small rise of a refined one is ignored. -/
theorem applyDelay_spec {r : RenderDelayController σ μ} (estimator : r.delayEstimator.Sound c config)
    (samples : ∀ samples ∈ r.delaySamples, samples.delay / blockSize < preEchoPlaces c ∧
      (config.detectPreEcho = true → blockSize ∣ samples.delay))
    (level : r.delaySamples = none → r.delay = none) :
    (r.applyDelay hysteresisLimitBlocks).Sound c config hysteresisLimitBlocks ∧
      (∀ delay ∈ (r.applyDelay hysteresisLimitBlocks).delay, delay.delay < preEchoPlaces c) ∧
      ∀ before ∈ r.delay, ∀ delay ∈ (r.applyDelay hysteresisLimitBlocks).delay,
        delay.delay ≤ before.delay ∨ before.delay < delay.delay ∧
          (r.lastDelayEstimateQuality = .refined → delay.quality = .refined →
            before.delay + hysteresisLimitBlocks < delay.delay) := by
  rw [RenderDelayController.applyDelay]
  cases present : r.delaySamples with
  | none =>
    dsimp only
    have absent := level present
    refine ⟨⟨estimator, samples, by rw [absent, present], fun found there => ?_, fun found there => ?_⟩, ?_, ?_⟩
    · rw [present] at there
      cases there
    · rw [absent] at there
      cases there
    · rw [absent]
      nofun
    · rw [absent]
      nofun
  | some found =>
    dsimp only
    generalize chosen : (if r.lastDelayEstimateQuality = Quality.refined ∧ found.quality = .refined then
      hysteresisLimitBlocks else 0) = limit
    obtain ⟨quality, low, high, moved⟩ := computeBufferDelay_spec r.delay limit found
    have most : limit ≤ hysteresisLimitBlocks := by
      rw [← chosen]
      split
      next => exact Nat.le_refl _
      next => exact Nat.zero_le _
    refine ⟨⟨estimator, fun other there => ?_, rfl, fun other there delay same => ?_, fun delay same => ?_⟩,
      fun delay same => ?_, fun before earlier delay same => ?_⟩
    · exact Option.some.inj there ▸ samples found present
    · obtain rfl := Option.some.inj there
      obtain rfl := Option.some.inj same
      exact ⟨quality, low, high.trans (Nat.add_le_add_left most _)⟩
    · exact congrArg DelayEstimate.quality (Option.some.inj same)
    · obtain rfl := Option.some.inj same
      exact Nat.lt_of_le_of_lt low (samples found present).1
    · obtain rfl := Option.some.inj same
      refine (moved before earlier).imp_right fun above => ⟨by omega, fun refined still => ?_⟩
      have whole : limit = hysteresisLimitBlocks := by rw [← chosen, if_pos ⟨refined, quality ▸ still⟩]
      omega

omit [Samples σ] in
theorem applyDelay_delaySamples (r : RenderDelayController σ μ) :
    (r.applyDelay hysteresisLimitBlocks).delaySamples = r.delaySamples := by
  rw [RenderDelayController.applyDelay]
  split
  next => rfl
  next => rfl

structure Answered (c : Config) (hysteresisLimitBlocks : Nat) (r next : RenderDelayController σ μ) : Prop where
  /-- It lies within the lags of the filters. -/
  inside : ∀ delay ∈ next.delay, delay.delay < preEchoPlaces c
  within : ∀ samples ∈ next.delaySamples, ∀ delay ∈ next.delay, Within hysteresisLimitBlocks samples delay
  /-- Once found it holds until it is found anew. -/
  lasting : r.delay.isSome = true → next.delay.isSome = true
  /-- From one refined delay to another it rises by more than the hysteresis, or not at all. -/
  steady : ∀ before ∈ r.delay, ∀ delay ∈ next.delay, before.quality = .refined → delay.quality = .refined →
    before.delay < delay.delay → before.delay + hysteresisLimitBlocks < delay.delay

/-- A delay is found or not, whatever the state. What is answered lies in the render buffer. -/
theorem getDelay_spec (parts : CaptureParts c σ μ γ) {r : RenderDelayController σ μ}
    (sound : r.Sound c config hysteresisLimitBlocks) {renderBuffer : RingBuffer σ} (nonempty : 0 < renderBuffer.size)
    (capture : γ) :
    ∃ next, r.getDelay c config hysteresisLimitBlocks parts renderBuffer capture = some (next, next.delay) ∧
      next.Sound c config hysteresisLimitBlocks ∧ Answered c hysteresisLimitBlocks r next := by
  obtain ⟨estimator, reported, taken, kept, supported⟩ := estimateDelay_spec parts sound.estimator nonempty capture
  rw [RenderDelayController.getDelay, taken, Option.map_some]
  have samples : ∀ samples ∈ reported.or r.delaySamples, samples.delay / blockSize < preEchoPlaces c ∧
      (config.detectPreEcho = true → blockSize ∣ samples.delay) := fun samples present => by
    cases reported with
    | none => exact sound.samples samples present
    | some delay =>
      obtain rfl := Option.some.inj present
      obtain ⟨estimate, support, rfl⟩ := supported delay rfl
      exact ⟨support.delay, support.whole⟩
  have level : reported.or r.delaySamples = none → r.delay = none := fun absent => by
    rw [← Option.isNone_iff_eq_none, ← Option.not_isSome, sound.level, (Option.or_eq_none_iff.mp absent).2]
    rfl
  let updated := { r with delayEstimator := estimator, delaySamples := reported.or r.delaySamples }
  have estimated : updated.delayEstimator.Sound c config := kept
  obtain ⟨still, inside, moved⟩ := applyDelay_spec hysteresisLimitBlocks estimated samples level
  refine ⟨_, rfl, still, inside, still.delay, fun found => ?_, fun before earlier delay later refined fine rises => ?_⟩
  · rw [still.level, applyDelay_delaySamples, Option.isSome_or, ← sound.level, found, Bool.or_true]
  · obtain lower | ⟨-, above⟩ := moved before earlier delay later
    · exact absurd rises (Nat.not_lt.mpr lower)
    · exact above ((sound.quality before earlier).trans refined) fine

end Control

section Runs

variable {σ μ γ : Type} [Samples σ] {c : Config}

/-- The render signal at the lower rate comes with the call. -/
inductive Action (σ γ : Type) where
  | getDelay (renderBuffer : { ring : RingBuffer σ // 0 < ring.size }) (capture : γ)
  | reset (resetDelayConfidence : Bool)

def RenderDelayController.step (config : AggregatorConfig σ) (hysteresisLimitBlocks : Nat)
    (parts : CaptureParts c σ μ γ) (r : RenderDelayController σ μ) : Action σ γ → Option (RenderDelayController σ μ)
  | .getDelay renderBuffer capture =>
    (r.getDelay c config hysteresisLimitBlocks parts renderBuffer.1 capture).map Prod.fst
  | .reset resetDelayConfidence => some (r.reset resetDelayConfidence)

theorem RenderDelayController.sound_run {config : AggregatorConfig σ} (hysteresisLimitBlocks : Nat)
    (parts : CaptureParts c σ μ γ) {r : RenderDelayController σ μ} (sound : r.Sound c config hysteresisLimitBlocks)
    (actions : List (Action σ γ)) :
    ∃ last, run (RenderDelayController.step config hysteresisLimitBlocks parts) r actions = some last ∧
      last.Sound c config hysteresisLimitBlocks := by
  induction actions generalizing r with
  | nil => exact ⟨r, rfl, sound⟩
  | cons action rest ih =>
    cases action with
    | getDelay renderBuffer capture =>
      obtain ⟨next, taken, kept, -⟩ := getDelay_spec parts sound renderBuffer.2 capture
      rw [run, RenderDelayController.step, taken]
      exact ih kept
    | reset resetDelayConfidence => exact ih (sound.reset resetDelayConfidence)

/-- After any calls a delay is looked for without a failed assertion, and it moves only as far as it should. -/
theorem delay_steady (config : AggregatorConfig σ) (hysteresisLimitBlocks : Nat) (parts : CaptureParts c σ μ γ)
    (captureMixer : μ) (actions : List (Action σ γ)) (renderBuffer : { ring : RingBuffer σ // 0 < ring.size })
    (capture : γ) :
    ∃ r next, run (RenderDelayController.step config hysteresisLimitBlocks parts)
        { delayEstimator := .new c config captureMixer } actions = some r ∧
      r.getDelay c config hysteresisLimitBlocks parts renderBuffer.1 capture = some (next, next.delay) ∧
      Answered c hysteresisLimitBlocks r next := by
  obtain ⟨r, taken, sound⟩ := RenderDelayController.sound_run hysteresisLimitBlocks parts
    (RenderDelayController.sound_new (EchoPathDelayEstimator.sound_new captureMixer)) actions
  obtain ⟨next, found, -, answered⟩ := getDelay_spec parts sound renderBuffer.2 capture
  exact ⟨r, next, taken, found, answered⟩

end Runs

end Fswtch.Apm.DelayEstimation
