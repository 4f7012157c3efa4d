import Fswtch.Apm.MatchedFilter
import Fswtch.Apm.RenderAlignment

/-! What the matched filters report: each filter follows the render signal at its own lags, wherever the ring
begins, and the lag reported is the peak of the best filter. -/

namespace Fswtch.Apm.DelayEstimation
open Fswtch.Apm.RenderDelay Fswtch.Lib.CircularBuffer Fswtch.Lib.MaxElement

variable {σ : Type} [Samples σ]

section Peaks

def squares (h : List σ) : List σ := h.map fun tap => tap * tap

theorem scanPairs_spec (rest : List σ) (seen : List σ) (even odd : Nat × σ) (level : seen.length % 2 = 0)
    (leadsEven : Leads seen 0 even) (leadsOdd : Leads seen 1 odd) :
    ∃ paired left, rest = paired ++ left ∧ left.length ≤ 1 ∧
      Leads (seen ++ squares paired) 0 (scanPairs seen.length even odd rest).1 ∧
      Leads (seen ++ squares paired) 1 (scanPairs seen.length even odd rest).2 := by
  match rest with
  | [] => exact ⟨[], [], rfl, by simp, by simpa [squares, scanPairs] using leadsEven,
      by simpa [squares, scanPairs] using leadsOdd⟩
  | [last] => exact ⟨[], [last], rfl, by simp, by simpa [squares, scanPairs] using leadsEven,
      by simpa [squares, scanPairs] using leadsOdd⟩
  | first :: second :: rest =>
    have long : (seen ++ [first * first]).length = seen.length + 1 := List.length_append
    have longer : (seen ++ [first * first] ++ [second * second]).length = seen.length + 2 := by
      rw [List.length_append, long]
      rfl
    have even' := (leadsEven.snoc_same (first * first) level).snoc_other (second * second) (by omega)
    have odd' := (leadsOdd.snoc_other (first * first) (by omega)).snoc_same (second * second) (by omega)
    rw [long] at odd'
    obtain ⟨paired, left, rfl, short, foundEven, foundOdd⟩ := scanPairs_spec rest _ _ _ (by omega) even' odd'
    rw [longer] at foundEven foundOdd
    refine ⟨first :: second :: paired, left, rfl, short, ?_, ?_⟩
    · simpa [squares, scanPairs] using foundEven
    · simpa [squares, scanPairs] using foundOdd

theorem maxSquarePeakIndex_spec {h : List σ} (nonempty : h ≠ []) :
    ∃ largest, Peak (squares h) (maxSquarePeakIndex h) largest := by
  match h with
  | [] => exact absurd rfl nonempty
  | [only] =>
    refine ⟨only * only, rfl, fun value present => (List.mem_singleton.mp present).le, ?_⟩
    intro earlier value before
    exact absurd before (Nat.not_lt_zero _)
  | first :: second :: rest =>
    obtain ⟨leadsEven, leadsOdd⟩ := leads_pair (first * first) (second * second)
    obtain ⟨paired, left, whole, short, foundEven, foundOdd⟩ :=
      scanPairs_spec rest [first * first, second * second] _ _ (by simp) leadsEven leadsOdd
    have peak := foundEven.peak foundOdd
    simp only [List.length_cons, List.length_nil, Nat.zero_add, Nat.reduceAdd] at peak
    simp only [maxSquarePeakIndex]
    generalize scanPairs 2 (0, first * first) (1, second * second) rest = found at peak
    generalize (if found.1.2 < found.2.2 then found.2 else found.1) = best at peak
    rw [show [first * first, second * second] ++ squares paired = squares (first :: second :: paired) from rfl] at peak
    subst whole
    match left with
    | [] =>
      have present : paired.getLastD second ∈ first :: second :: paired :=
        List.mem_cons_of_mem _ List.getLastD_mem_cons
      rw [List.append_nil, if_neg (not_lt.mpr (peak.above _ (List.mem_map_of_mem present)))]
      exact ⟨best.2, peak⟩
    | [last] =>
      have later := peak.snoc (last * last)
      have long : (squares (first :: second :: paired)).length = (paired ++ [last]).length + 1 := by simp [squares]
      have all : squares (first :: second :: (paired ++ [last])) =
          squares (first :: second :: paired) ++ [last * last] := by simp [squares]
      rw [List.getLastD_concat, all]
      refine ⟨max best.2 (last * last), ?_⟩
      split at later
      next higher => rwa [if_pos higher, ← long]
      next lower => rwa [if_neg lower]

end Peaks

section Follow

def signal (x : RingBuffer σ) (back : Nat) : σ := x.buffer.getD ((x.read + back) % x.size) 0

variable {x : RingBuffer σ}

theorem signal_getElem? (nonempty : 0 < x.size) (back : Nat) :
    x.buffer[(x.read + back) % x.size]? = some (signal x back) := by
  have inside : (x.read + back) % x.size < x.buffer.length := Nat.mod_lt _ nonempty
  rw [signal, List.getD_eq_getElem?_getD, List.getElem?_eq_getElem inside, Option.getD_some]

def response (render : Nat → σ) (lag : Nat) (taps : List σ) : σ :=
  taps.zipIdx.foldl (fun s tap => s + tap.1 * render (lag + tap.2)) 0

def power (render : Nat → σ) (lag count : Nat) : σ :=
  (List.range count).foldl (fun s k => s + render (lag + k) * render (lag + k)) 0

/-- Each place adds the error that the filter leaves when it ends with four more taps. -/
def errorsAlong (render : Nat → σ) (lag : Nat) (y : σ) (computed : Bool) (taps errors : List σ) : List σ :=
  if computed then
    errors.mapIdx fun place error =>
      if 4 * (place + 1) ≤ taps.length then
        error + (y - response render lag (taps.take (4 * (place + 1)))) * (y - response render lag (taps.take (4 * (place + 1))))
      else error
  else errors

theorem response_snoc (render : Nat → σ) (lag : Nat) (taps : List σ) (tap : σ) :
    response render lag (taps ++ [tap]) = response render lag taps + tap * render (lag + taps.length) := by
  rw [response, List.zipIdx_append, List.foldl_append, ← response]
  simp

theorem power_succ (render : Nat → σ) (lag count : Nat) :
    power render lag (count + 1) = power render lag count + render (lag + count) * render (lag + count) := by
  rw [power, List.range_succ, List.foldl_append, ← power]
  rfl

theorem errorsAlong_snoc (render : Nat → σ) (lag : Nat) (y : σ) (computed : Bool) (taps errors : List σ) (tap : σ) :
    errorsAlong render lag y computed (taps ++ [tap]) errors =
      if computed && (taps.length + 1) % 4 == 0 then
        (errorsAlong render lag y computed taps errors).modify (taps.length / 4)
          (· + (y - response render lag (taps ++ [tap])) * (y - response render lag (taps ++ [tap])))
      else errorsAlong render lag y computed taps errors := by
  cases computed with
  | false => rfl
  | true =>
    simp only [errorsAlong, if_true, Bool.true_and, beq_iff_eq, List.length_append, List.length_singleton]
    refine List.ext_getElem? fun place => ?_
    have early : 4 * (place + 1) ≤ taps.length →
        (taps ++ [tap]).take (4 * (place + 1)) = taps.take (4 * (place + 1)) := List.take_append_of_le_length
    have whole : 4 * (place + 1) = taps.length + 1 → (taps ++ [tap]).take (4 * (place + 1)) = taps ++ [tap] := fun level =>
      List.take_of_length_le (by rw [List.length_append, level]; exact Nat.le_refl _)
    split
    next fourth =>
      rw [List.getElem?_modify, List.getElem?_mapIdx, List.getElem?_mapIdx]
      cases errors[place]? with
      | none => rfl
      | some error =>
        simp only [Option.map_some, Option.map_eq_map]
        by_cases last : taps.length / 4 = place
        · rw [if_pos last, if_pos (by omega), if_neg (by omega), whole (by omega)]
        · rw [if_neg last]
          by_cases near : 4 * (place + 1) ≤ taps.length
          · rw [if_pos (by omega), if_pos near, early near]
          · rw [if_neg (by omega), if_neg near]
    next between =>
      rw [List.getElem?_mapIdx, List.getElem?_mapIdx]
      cases errors[place]? with
      | none => rfl
      | some error =>
        simp only [Option.map_some]
        by_cases near : 4 * (place + 1) ≤ taps.length
        · rw [if_pos (by omega), if_pos near, early near]
        · rw [if_neg (by omega), if_neg near]

theorem errorsAlong_nil (render : Nat → σ) (lag : Nat) (y : σ) (computed : Bool) (errors : List σ) :
    errorsAlong render lag y computed [] errors = errors := by
  cases computed with
  | false => rfl
  | true =>
    refine List.ext_getElem? fun place => ?_
    simp [errorsAlong]

theorem correlate_spec (nonempty : 0 < x.size) (y : σ) (computed : Bool) (lag : Nat) (errors rest taps : List σ) :
    correlate x y computed taps.length ((x.read + (lag + taps.length)) % x.size) (power (signal x) lag taps.length)
        (response (signal x) lag taps) (errorsAlong (signal x) lag y computed taps errors) rest =
      some (power (signal x) lag (taps ++ rest).length, response (signal x) lag (taps ++ rest),
        errorsAlong (signal x) lag y computed (taps ++ rest) errors) := by
  induction rest generalizing taps with
  | nil => rw [correlate, List.append_nil]
  | cons tap rest ih =>
    have longer : (taps ++ [tap]).length = taps.length + 1 := List.length_append
    simp only [correlate, signal_getElem? nonempty, Option.bind_eq_bind, Option.bind_some]
    rw [RingBuffer.incIndex_lag nonempty, ← response_snoc, ← power_succ, ← errorsAlong_snoc, Nat.add_assoc, ← longer,
      ih, List.append_assoc, List.singleton_append]

theorem adapt_spec (nonempty : 0 < x.size) (alpha : σ) (lag : Nat) (filter : List σ) :
    adapt x alpha ((x.read + lag) % x.size) filter =
      some (filter.mapIdx fun k tap => tap + alpha * signal x (lag + k)) := by
  induction filter generalizing lag with
  | nil => rfl
  | cons tap rest ih =>
    rw [adapt, signal_getElem? nonempty, RingBuffer.incIndex_lag nonempty, Option.bind_eq_bind, Option.bind_some, ih,
      List.mapIdx_cons]
    simp [Nat.add_assoc, Nat.add_comm 1]

section Samples

variable (config : FilterConfig σ) (smoothing : σ) (computed : Bool) (render : Nat → σ)

def Outcome.follow (lag : Nat) (y : σ) (found : Outcome σ) : Outcome σ :=
  let error := y - response render lag found.filter
  let enough := config.x2SumThreshold < power render lag found.filter.length ∧ config.saturation y = false
  { filter :=
      if enough then
        found.filter.mapIdx fun k tap =>
          tap + smoothing * error / power render lag found.filter.length * render (lag + k)
      else found.filter
    filtersUpdated := found.filtersUpdated || decide enough
    errorSum := found.errorSum + error * error
    accumulatedError := errorsAlong render lag y computed found.filter found.accumulatedError }

def Outcome.followAll (lag : Nat) : List σ → Outcome σ → Outcome σ
  | [], found => found
  | y :: rest, found => followAll (lag - 1) rest (found.follow config smoothing computed render lag y)

end Samples

variable {config : FilterConfig σ} {smoothing : σ} {computed : Bool}

theorem followSample_spec (nonempty : 0 < x.size) (lag : Nat) (y : σ) (found : Outcome σ) :
    followSample x config smoothing computed ((x.read + lag) % x.size) y found =
      some (found.follow config smoothing computed (signal x) lag y) := by
  have correlated := correlate_spec nonempty y computed lag found.accumulatedError found.filter []
  rw [errorsAlong_nil] at correlated
  have taken : correlate x y computed 0 ((x.read + lag) % x.size) 0 0 found.accumulatedError found.filter = _ := correlated
  rw [followSample, taken, Option.bind_eq_bind, Option.bind_some]
  simp only [List.nil_append, adapt_spec nonempty, Option.bind_eq_bind, Option.bind_some, Outcome.follow]
  split
  next enough => rw [if_pos (lt_of_le_of_lt config.excited enough.1), decide_eq_true enough, Bool.or_true]
  next little => rw [decide_eq_false little, Bool.or_false]

theorem followSamples_spec (nonempty : 0 < x.size) (ys : List σ) (lag : Nat) (long : ys.length ≤ lag + 1)
    (found : Outcome σ) :
    followSamples x config smoothing computed ((x.read + lag) % x.size) ys found =
      some (found.followAll config smoothing computed (signal x) lag ys) := by
  induction ys generalizing lag found with
  | nil => rfl
  | cons y rest ih =>
    rw [followSamples, followSample_spec nonempty, Option.bind_eq_bind, Option.bind_some, Outcome.followAll]
    cases lag with
    | zero =>
      obtain rfl : rest = [] := List.length_eq_zero_iff.mp (by simpa using long)
      rfl
    | succ lag => rw [RingBuffer.decIndex_lag nonempty, ih lag (by simpa using long), Nat.add_sub_cancel]

def Outcome.begun (computed : Bool) (filter errors : List σ) : Outcome σ where
  filter
  filtersUpdated := false
  errorSum := 0
  accumulatedError := if computed then List.replicate errors.length 0 else errors

theorem matchedFilterCore_spec (nonempty : 0 < x.size) (ys : List σ) (lag : Nat) (long : ys.length ≤ lag + 1)
    (filter errors : List σ) :
    matchedFilterCore x config smoothing computed ((x.read + lag) % x.size) ys filter errors =
      some ((Outcome.begun computed filter errors).followAll config smoothing computed (signal x) lag ys) :=
  followSamples_spec nonempty ys lag long _

theorem Outcome.follow_length (render : Nat → σ) (lag : Nat) (y : σ) (found : Outcome σ) :
    (found.follow config smoothing computed render lag y).filter.length = found.filter.length ∧
      (found.follow config smoothing computed render lag y).accumulatedError.length = found.accumulatedError.length := by
  constructor
  · simp only [follow]
    split
    next => exact List.length_mapIdx
    next => rfl
  · simp only [follow, errorsAlong]
    split
    next => exact List.length_mapIdx
    next => rfl

theorem Outcome.followAll_length (render : Nat → σ) (lag : Nat) (ys : List σ) (found : Outcome σ) :
    (found.followAll config smoothing computed render lag ys).filter.length = found.filter.length ∧
      (found.followAll config smoothing computed render lag ys).accumulatedError.length =
        found.accumulatedError.length := by
  induction ys generalizing lag found with
  | nil => exact ⟨rfl, rfl⟩
  | cons y rest ih =>
    obtain ⟨filter, errors⟩ := ih (lag - 1) (found.follow config smoothing computed render lag y)
    exact ⟨filter.trans (follow_length render lag y found).1, errors.trans (follow_length render lag y found).2⟩

theorem Outcome.begun_length (computed : Bool) (filter errors : List σ) :
    (begun computed filter errors).accumulatedError.length = errors.length := by
  cases computed with
  | false => rfl
  | true => exact List.length_replicate

end Follow

section Search

variable (c : Config) (config : FilterConfig σ)

def lagOf (n : Nat) (found : Outcome σ) : Nat := maxSquarePeakIndex found.filter + n * filterIntraLagShift c

def Qualified (errorSumAnchor : σ) (found : Outcome σ) : Prop :=
  found.filtersUpdated = true ∧ reliable config errorSumAnchor found = true ∧ found.errorSum < errorSumAnchor

def Best (errorSumAnchor : σ) (outcomes : List (Outcome σ)) (errorSum : σ) : Option (Nat × Nat) → Prop
  | none => errorSum = errorSumAnchor ∧ ∀ found ∈ outcomes, ¬Qualified config errorSumAnchor found
  | some (place, lag) => ∃ n found, outcomes[n]? = some found ∧ Qualified config errorSumAnchor found ∧
      errorSum = found.errorSum ∧ lag = lagOf c n found ∧
      (∃ before, outcomes[place]? = some before ∧ lag = lagOf c place before ∧ (place = n ∨ place + 1 = n)) ∧
      ∀ m other, outcomes[m]? = some other → Qualified config errorSumAnchor other →
        errorSum ≤ other.errorSum ∧ (m < n → errorSum < other.errorSum)

def Follows (smoothing : σ) (preEchoFilter : Option Nat) (render : Nat → σ) (capture : List σ) (n : Nat)
    (filter : List σ) (found : Outcome σ) : Prop :=
  ∃ errors, found = (Outcome.begun (preEchoFilter == some n) filter errors).followAll config smoothing
    (preEchoFilter == some n) render (n * filterIntraLagShift c + (c.subBlockSize - 1)) capture

structure Scan.Covers (smoothing : σ) (preEchoFilter : Option Nat) (render : Nat → σ) (capture : List σ)
    (errorSumAnchor : σ) (seen : List (List σ)) (scan : Scan σ) : Prop where
  count : scan.outcomes.length = seen.length
  shift : scan.alignmentShift = seen.length * filterIntraLagShift c
  follows : ∀ n filter, seen[n]? = some filter → ∃ found, scan.outcomes[n]? = some found ∧
    Follows c config smoothing preEchoFilter render capture n filter found
  previous : ∀ lag, scan.previousLagEstimate = some lag → ∃ n found, n + 1 = seen.length ∧
    scan.outcomes[n]? = some found ∧ lag = lagOf c n found
  best : Best c config errorSumAnchor scan.outcomes scan.winnerErrorSum scan.winner

variable {c config} {errorSumAnchor : σ}

theorem Best.below {outcomes : List (Outcome σ)} {errorSum : σ} {winner : Option (Nat × Nat)}
    (best : Best c config errorSumAnchor outcomes errorSum winner) : errorSum ≤ errorSumAnchor := by
  match winner, best with
  | none, best => exact best.1.le
  | some _, ⟨n, found, _, qualified, same, _⟩ => exact same ▸ qualified.2.2.le

theorem Best.keep {outcomes : List (Outcome σ)} {errorSum : σ} {winner : Option (Nat × Nat)} {found : Outcome σ}
    (best : Best c config errorSumAnchor outcomes errorSum winner)
    (loses : ¬(found.filtersUpdated = true ∧ reliable config errorSumAnchor found = true ∧ found.errorSum < errorSum)) :
    Best c config errorSumAnchor (outcomes ++ [found]) errorSum winner := by
  match winner, best with
  | none, ⟨same, nobody⟩ =>
    refine ⟨same, fun other present => ?_⟩
    rcases List.mem_append.mp present with old | new
    · exact nobody other old
    · exact List.mem_singleton.mp new ▸ same ▸ loses
  | some (place, lag), ⟨n, first, there, qualified, same, peak, ⟨before, placed, level, near⟩, least⟩ =>
    refine ⟨n, first, getElem?_snoc_old _ there, qualified, same, peak,
      ⟨before, getElem?_snoc_old _ placed, level, near⟩, fun m other present qualifies => ?_⟩
    rcases getElem?_snoc present with old | ⟨rfl, rfl⟩
    · exact least m other old qualifies
    · refine ⟨not_lt.mp fun lower => loses ⟨qualifies.1, qualifies.2.1, lower⟩, fun early => ?_⟩
      exact absurd (List.getElem?_eq_some_iff.mp there).1 (Nat.lt_asymm early)

theorem Best.replace {outcomes : List (Outcome σ)} {errorSum : σ} {winner : Option (Nat × Nat)} {found : Outcome σ}
    (best : Best c config errorSumAnchor outcomes errorSum winner)
    (wins : found.filtersUpdated = true ∧ reliable config errorSumAnchor found = true ∧ found.errorSum < errorSum)
    {place lag : Nat} (peak : lag = lagOf c outcomes.length found)
    (placed : ∃ before, (outcomes ++ [found])[place]? = some before ∧ lag = lagOf c place before ∧
      (place = outcomes.length ∨ place + 1 = outcomes.length)) :
    Best c config errorSumAnchor (outcomes ++ [found]) found.errorSum (some (place, lag)) := by
  have last : (outcomes ++ [found])[outcomes.length]? = some found := by
    rw [List.getElem?_append_right (Nat.le_refl _), Nat.sub_self, List.getElem?_cons_zero]
  refine ⟨outcomes.length, found, last, ⟨wins.1, wins.2.1, wins.2.2.trans_le best.below⟩, rfl, peak, placed,
    fun m other present qualifies => ?_⟩
  rcases getElem?_snoc present with old | ⟨rfl, rfl⟩
  · have lower : found.errorSum < other.errorSum := by
      match winner, best with
      | none, best => exact absurd qualifies (best.2 other (List.mem_of_getElem? old))
      | some _, ⟨_, _, _, _, _, _, _, least⟩ => exact wins.2.2.trans_le (least m other old qualifies).1
    exact ⟨lower.le, fun _ => lower⟩
  · exact ⟨le_refl _, fun early => absurd early (Nat.lt_irrefl _)⟩

variable {smoothing : σ} {preEchoFilter : Option Nat} {render : Nat → σ} {capture : List σ} {seen : List (List σ)}
  {scan : Scan σ}

theorem Scan.Covers.consider
    (covers : scan.Covers c config smoothing preEchoFilter render capture errorSumAnchor seen) {filter : List σ}
    {found : Outcome σ}
    (follows : Follows c config smoothing preEchoFilter render capture seen.length filter found) (errors : List σ) :
    ({ scan.consider c config errorSumAnchor found with instantaneousAccumulatedError := errors } : Scan σ).Covers c
      config smoothing preEchoFilter render capture errorSumAnchor (seen ++ [filter]) := by
  have last : (scan.outcomes ++ [found])[seen.length]? = some found := by
    rw [← covers.count, List.getElem?_append_right (Nat.le_refl _), Nat.sub_self, List.getElem?_cons_zero]
  have lag : maxSquarePeakIndex found.filter + scan.alignmentShift = lagOf c seen.length found := by rw [covers.shift]; rfl
  constructor
  case count => simp [Scan.consider, covers.count]
  case shift => simp [Scan.consider, covers.shift, Nat.succ_mul]
  case follows =>
    intro n old there
    rcases getElem?_snoc there with before | ⟨rfl, rfl⟩
    · obtain ⟨other, present, made⟩ := covers.follows n old before
      exact ⟨other, getElem?_snoc_old _ present, made⟩
    · exact ⟨found, last, follows⟩
  case previous =>
    intro earlier same
    refine ⟨seen.length, found, by simp, last, ?_⟩
    rw [← lag]
    exact (Option.some.inj same).symm
  case best =>
    simp only [Scan.consider]
    split
    next wins =>
      simp only [Bool.and_eq_true, decide_eq_true_iff, and_assoc] at wins
      rw [lag, covers.count]
      split
      next level =>
        obtain ⟨n, before, late, there, same⟩ := covers.previous _ level
        refine covers.best.replace wins (by rw [covers.count]) ⟨before, ?_, ?_, .inr ?_⟩
        · exact getElem?_snoc_old _ (by rwa [show seen.length - 1 = n by omega])
        · rwa [show seen.length - 1 = n by omega]
        · rw [covers.count]
          omega
      next =>
        exact covers.best.replace wins (by rw [covers.count]) ⟨found, last, rfl, .inl covers.count.symm⟩
    next loses =>
      simp only [Bool.and_eq_true, decide_eq_true_iff, and_assoc] at loses
      exact covers.best.keep loses

theorem applyFilters_spec {x : RingBuffer σ} (nonempty : 0 < x.size) (full : capture.length = c.subBlockSize)
    (filters : List (List σ)) {size : Nat} (long : scan.instantaneousAccumulatedError.length = size)
    (covers : scan.Covers c config smoothing preEchoFilter (signal x) capture errorSumAnchor seen) :
    ∃ last, applyFilters c config x capture smoothing errorSumAnchor preEchoFilter filters scan = some last ∧
      last.Covers c config smoothing preEchoFilter (signal x) capture errorSumAnchor (seen ++ filters) ∧
      last.instantaneousAccumulatedError.length = size := by
  induction filters generalizing seen scan with
  | nil => exact ⟨scan, rfl, by rwa [List.append_nil], long⟩
  | cons filter rest ih =>
    have positive := c.subBlockSize_pos
    have start : x.read + scan.alignmentShift + c.subBlockSize - 1 =
        x.read + (seen.length * filterIntraLagShift c + (c.subBlockSize - 1)) := by
      rw [covers.shift]
      omega
    rw [applyFilters, start, covers.count, matchedFilterCore_spec nonempty capture _ (by omega), Option.bind_eq_bind,
      Option.bind_some, List.append_cons]
    refine ih ?_ (covers.consider ⟨scan.instantaneousAccumulatedError, rfl⟩ _)
    rw [(Outcome.followAll_length _ _ _ _).2, Outcome.begun_length, long]

end Search

section Reports

variable (c : Config) (config : FilterConfig σ)

structure MatchedFilter.Sound (m : MatchedFilter σ) : Prop where
  count : m.filters.length = c.numFilters
  filters : ∀ filter ∈ m.filters, filter.length = filterSize c
  kept : m.accumulatedError.length = c.numFilters
  errors : ∀ errors ∈ m.accumulatedError, errors.length = filterSize c / accumulatedErrorSubSampleRate
  instantaneous : m.instantaneousAccumulatedError.length = filterSize c / accumulatedErrorSubSampleRate
  reported : ∀ estimate ∈ m.reportedLagEstimate, estimate.preEchoLag ≤ estimate.lag ∧
    estimate.lag + 10 < (c.numFilters - 1) * filterIntraLagShift c + filterSize c

def Announces (next : MatchedFilter σ) : Option (Nat × Nat) → Prop
  | none => next.reportedLagEstimate = none
  | some (place, lag) => ∃ preEchoLag, next.reportedLagEstimate = some { lag, preEchoLag } ∧
      next.lastDetectedBestLagFilter = some place ∧ place * filterIntraLagShift c ≤ preEchoLag ∧ preEchoLag ≤ lag

structure Reports (m next : MatchedFilter σ) (render : Nat → σ) (capture : List σ) (smoothing : σ)
    (preEchoFilter : Option Nat) (errorSumAnchor : σ) (outcomes : List (Outcome σ)) : Prop where
  /-- Each filter follows the render signal at its own lags. -/
  count : outcomes.length = m.filters.length
  follows : ∀ n filter, m.filters[n]? = some filter → ∃ found, outcomes[n]? = some found ∧
    Follows c config smoothing preEchoFilter render capture n filter found
  filters : next.filters = outcomes.map Outcome.filter
  /-- The lag is the peak of the best one. -/
  best : ∃ errorSum winner, Best c config errorSumAnchor outcomes errorSum winner ∧ Announces c next winner

/-- From the place found on, up to where the search began, no error is high. -/
theorem descend_spec (threshold : σ) (errors : List σ) {most : Nat} (inside : most ≤ errors.length) (estimate : Nat) :
    ∃ first ≤ most, descend threshold errors most estimate =
        some (if first = most then estimate else (first + 1) * accumulatedErrorSubSampleRate - 1) ∧
      (∀ k error, first ≤ k → k < most → errors[k]? = some error → error ≤ threshold) ∧
      ∀ k error, k + 1 = first → errors[k]? = some error → threshold < error := by
  induction most generalizing estimate with
  | zero =>
    refine ⟨0, Nat.le_refl _, rfl, ?_, ?_⟩
    · exact fun k error _ none => absurd none (Nat.not_lt_zero _)
    · exact fun k error none => absurd none (Nat.succ_ne_zero _)
  | succ most ih =>
    have there : errors[most]? = some errors[most] := List.getElem?_eq_getElem inside
    rw [descend, there, Option.bind_eq_bind, Option.bind_some]
    split
    next high =>
      refine ⟨most + 1, Nat.le_refl _, by rw [if_pos rfl], ?_, ?_⟩
      · exact fun k error early late => absurd early (Nat.not_le_of_lt late)
      · intro k error level same
        obtain rfl : k = most := Nat.succ.inj level
        exact Option.some.inj (there.symm.trans same) ▸ high
    next low =>
      obtain ⟨first, before, found, lower, stop⟩ := ih (Nat.le_of_succ_le inside) ((most + 1) * accumulatedErrorSubSampleRate - 1)
      refine ⟨first, Nat.le_succ_of_le before, ?_, ?_, stop⟩
      · rw [found, if_neg (Nat.ne_of_lt (Nat.lt_succ_of_le before))]
        split
        next level => rw [level]
        next => rfl
      · intro k error early late same
        rcases Nat.lt_succ_iff_lt_or_eq.mp late with earlier | rfl
        · exact lower k error early earlier same
        · exact Option.some.inj (there.symm.trans same) ▸ not_lt.mp low

theorem computePreEchoLag_spec (threshold : σ) (errors : List σ) {lag shift : Nat} (within : shift ≤ lag) :
    ∃ preEchoLag, computePreEchoLag threshold errors lag shift = some preEchoLag ∧ shift ≤ preEchoLag ∧ preEchoLag ≤ lag := by
  rw [computePreEchoLag, if_pos within]
  have short := Nat.min_le_left ((lag - shift) / accumulatedErrorSubSampleRate) errors.length
  obtain ⟨first, before, found, -⟩ :=
    descend_spec threshold errors (Nat.min_le_right ((lag - shift) / accumulatedErrorSubSampleRate) _) (lag - shift)
  simp only [found, Option.map_some]
  refine ⟨_, rfl, Nat.le_add_left _ _, ?_⟩
  split
  next => omega
  next earlier =>
    simp only [accumulatedErrorSubSampleRate] at short before earlier ⊢
    omega

variable {c}

theorem MatchedFilter.sound_new : (new c : MatchedFilter σ).Sound c where
  count := List.length_replicate
  filters filter present := by rw [(List.mem_replicate.mp present).2, List.length_replicate]
  kept := List.length_replicate
  errors errors present := by rw [(List.mem_replicate.mp present).2, List.length_replicate]
  instantaneous := List.length_replicate
  reported estimate present := by cases present

theorem MatchedFilter.Sound.reset {m : MatchedFilter σ} (sound : m.Sound c) (fullReset : Bool) : (m.reset fullReset).Sound c := by
  constructor
  case count => exact (List.length_map _).trans sound.count
  case filters =>
    intro filter present
    obtain ⟨before, there, rfl⟩ := List.mem_map.mp present
    exact List.length_replicate.trans (sound.filters before there)
  case kept =>
    cases fullReset with
    | false => exact sound.kept
    | true => exact (List.length_map _).trans sound.kept
  case errors =>
    cases fullReset with
    | false => exact sound.errors
    | true =>
      intro errors present
      obtain ⟨before, there, rfl⟩ := List.mem_map.mp present
      exact List.length_replicate.trans (sound.errors before there)
  case instantaneous => exact sound.instantaneous
  case reported =>
    intro estimate present
    cases present

theorem updateAccumulatedError_length {increases : σ} {instantaneous accumulated : List σ} {anchor : σ} {size : Nat}
    (long : instantaneous.length = size) (level : accumulated.length = size) :
    (updateAccumulatedError increases instantaneous accumulated anchor).length = size := by
  rw [updateAccumulatedError, List.length_zipWith, long, level, Nat.min_self]

theorem findPreEcho_spec {m : MatchedFilter σ} (sound : m.Sound c) (errorSumAnchor : σ) {place lag : Nat}
    (inside : place < c.numFilters) (within : place * filterIntraLagShift c ≤ lag) :
    ∃ next preEchoLag, m.findPreEcho c config errorSumAnchor place lag = some (next, preEchoLag) ∧ next.Sound c ∧
      next.filters = m.filters ∧ place * filterIntraLagShift c ≤ preEchoLag ∧ preEchoLag ≤ lag := by
  have there : place < m.accumulatedError.length := sound.kept ▸ inside
  rw [MatchedFilter.findPreEcho]
  split
  next again =>
    rw [List.getElem?_eq_getElem there, Option.bind_eq_bind, Option.bind_some]
    generalize added : (if config.energyThreshold < errorSumAnchor then _ else m) = next
    have kept : next.Sound c ∧ next.filters = m.filters := by
      subst added
      split
      next loud =>
        refine ⟨{ sound with kept := ?_, errors := fun errors present => ?_ }, rfl⟩
        · rw [List.length_set, sound.kept]
        · rcases List.mem_or_eq_of_mem_set present with old | rfl
          · exact sound.errors errors old
          · exact updateAccumulatedError_length sound.instantaneous (sound.errors _ (List.getElem_mem there))
      next quiet => exact ⟨sound, rfl⟩
    dsimp only
    split
    next often =>
      have still : place < next.accumulatedError.length := kept.1.kept ▸ inside
      obtain ⟨preEchoLag, found, bounds⟩ := computePreEchoLag_spec config.preEchoThreshold next.accumulatedError[place] within
      rw [List.getElem?_eq_getElem still, Option.bind_some, found]
      exact ⟨next, preEchoLag, rfl, kept.1, kept.2, bounds⟩
    next => exact ⟨next, lag, rfl, kept.1, kept.2, within, Nat.le_refl _⟩
  next => exact ⟨m, lag, rfl, sound, rfl, within, Nat.le_refl _⟩

theorem report_spec {m : MatchedFilter σ} (sound : m.Sound c) {errorSumAnchor : σ} {outcomes : List (Outcome σ)}
    (same : m.filters = outcomes.map Outcome.filter) {errorSum : σ} {winner : Option (Nat × Nat)}
    (best : Best c config errorSumAnchor outcomes errorSum winner) :
    ∃ next, m.report c config errorSumAnchor winner = some next ∧ next.Sound c ∧ next.filters = m.filters ∧
      Announces c next winner := by
  match winner, best with
  | none, _ =>
    exact ⟨_, rfl, { sound with reported := fun estimate present => by cases present }, rfl, rfl⟩
  | some (place, lag), ⟨n, found, there, qualified, _, peak, ⟨before, placed, level, _⟩, _⟩ =>
    have long : outcomes.length = c.numFilters := by
      rw [← sound.count, same, List.length_map]
    have inside : place < c.numFilters := long ▸ (List.getElem?_eq_some_iff.mp placed).1
    have within : place * filterIntraLagShift c ≤ lag := level ▸ Nat.le_add_left _ _
    have far : lag + 10 < (c.numFilters - 1) * filterIntraLagShift c + filterSize c := by
      have size : found.filter.length = filterSize c := by
        refine sound.filters _ ?_
        rw [same]
        exact List.mem_map_of_mem (List.mem_of_getElem? there)
      have low := qualified.2.1
      simp only [reliable, Bool.and_eq_true, decide_eq_true_iff, size] at low
      have last : n ≤ c.numFilters - 1 := by
        have early := (List.getElem?_eq_some_iff.mp there).1
        omega
      have shift := Nat.mul_le_mul_right (filterIntraLagShift c) last
      rw [peak, lagOf]
      omega
    obtain ⟨next, preEchoLag, taken, kept, filters, low, high⟩ :=
      findPreEcho_spec config sound errorSumAnchor inside within
    rw [MatchedFilter.report, taken]
    refine ⟨_, rfl, { kept with reported := fun estimate present => ?_ }, filters, preEchoLag, rfl, rfl, low, high⟩
    obtain rfl := Option.some.inj present
    exact ⟨high, far⟩

theorem update_spec {m : MatchedFilter σ} (sound : m.Sound c) {x : RingBuffer σ} (nonempty : 0 < x.size) {capture : List σ}
    (full : capture.length = c.subBlockSize) (useSlowSmoothing : Bool) :
    ∃ next outcomes, m.update c config x capture useSlowSmoothing = some next ∧ next.Sound c ∧
      Reports c config m next (signal x) capture (if useSlowSmoothing then config.smoothingSlow else config.smoothingFast)
        (if config.detectPreEcho then m.lastDetectedBestLagFilter else none)
        (capture.foldl (fun sum y => sum + y * y) 0) outcomes := by
  rw [MatchedFilter.update, if_pos full]
  generalize (if useSlowSmoothing then config.smoothingSlow else config.smoothingFast) = smoothing
  generalize (if config.detectPreEcho then m.lastDetectedBestLagFilter else none) = preEchoFilter
  generalize capture.foldl (fun sum y => sum + y * y) 0 = errorSumAnchor
  have begun : ({ winnerErrorSum := errorSumAnchor, instantaneousAccumulatedError := m.instantaneousAccumulatedError } :
      Scan σ).Covers c config smoothing preEchoFilter (signal x) capture errorSumAnchor [] := by
    constructor
    case count => rfl
    case shift => exact (Nat.zero_mul _).symm
    case follows => nofun
    case previous => nofun
    case best => exact ⟨rfl, nofun⟩
  obtain ⟨last, taken, covers, long⟩ := applyFilters_spec nonempty full m.filters sound.instantaneous begun
  rw [List.nil_append] at covers
  have moved : ({ m with
      filters := last.outcomes.map Outcome.filter
      instantaneousAccumulatedError := last.instantaneousAccumulatedError } : MatchedFilter σ).Sound c := by
    refine { sound with count := ?_, filters := fun filter present => ?_, instantaneous := long }
    · rw [List.length_map, covers.count, sound.count]
    · obtain ⟨found, there, rfl⟩ := List.mem_map.mp present
      obtain ⟨n, placed⟩ := List.mem_iff_getElem?.mp there
      have inside : n < m.filters.length := covers.count ▸ (List.getElem?_eq_some_iff.mp placed).1
      obtain ⟨other, same, errors, made⟩ := covers.follows n _ (List.getElem?_eq_getElem inside)
      obtain rfl := Option.some.inj (placed.symm.trans same)
      rw [made, (Outcome.followAll_length _ _ _ _).1]
      exact sound.filters _ (List.getElem_mem inside)
  obtain ⟨next, reported, kept, filters, report⟩ := report_spec config moved rfl covers.best
  simp only [taken, Option.bind_eq_bind, Option.bind_some]
  exact ⟨next, last.outcomes, reported, kept, covers.count, covers.follows, filters, _, _, covers.best, report⟩

end Reports

end Fswtch.Apm.DelayEstimation
