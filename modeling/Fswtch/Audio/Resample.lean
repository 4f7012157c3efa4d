import Fswtch.Lib.Rounding
import Mathlib.Data.Rat.Floor
import Mathlib.Tactic.Linarith
import Mathlib.Tactic.FieldSimp
import Mathlib.Tactic.Positivity

/-! The streaming resampler. Where the ratio is an integer it interpolates between neighbouring
samples and keeps no state, so that a frame does not see the sample that follows it: the last
sample of each frame is held. -/

namespace Fswtch.Audio.Resample
open Fswtch.Lib.Rounding (combination_between)

abbrev Pcm := List Int16

structure Speex (ρ : Type) where
  create : UInt32 → UInt32 → UInt32 → Int32 → Except String ρ
  process : ρ → Pcm → Pcm × ρ

structure StreamingResample (ρ : Type) where
  inner : ρ
  fromRate : UInt32
  toRate : UInt32
  upsampleFactor : Nat

variable {ρ : Type}

def StreamingResample.new (speex : Speex ρ) (fromRate toRate : UInt32) (quality : Int32) :
    Except String (StreamingResample ρ) :=
  if fromRate = 0 ∨ toRate = 0 then .error s!"Invalid sample rates: from={fromRate}, to={toRate}"
  else if ¬(0 ≤ quality ∧ quality ≤ 10) then .error s!"Invalid quality {quality}: must be 0-10"
  else
    match speex.create fromRate toRate 1 quality with
    | .error e => .error s!"switch_resample_perform_create failed: {e}"
    | .ok inner =>
      let ratio := toRate / fromRate
      .ok
        { inner, fromRate, toRate
          upsampleFactor := if toRate % fromRate = 0 ∧ 1 < ratio then ratio.toNat else 0 }

def truncate (q : ℚ) : Int := if 0 ≤ q then ⌊q⌋ else ⌈q⌉

/-- `as i16` rounds towards zero and saturates. -/
def asI16 (q : ℚ) : Int16 := Int16.ofInt (max (-32768) (min 32767 (truncate q)))

def interpolated (n : Nat) (cur next : Int16) (j : Nat) : Int16 :=
  let invN : ℚ := 1 / n
  let t := j * invN
  let curF : ℚ := cur.toInt
  let slope := next.toInt - curF
  asI16 (curF + slope * t)

def upsample (n : Nat) : Pcm → Pcm
  | [] => []
  | cur :: rest =>
    let next := rest.headD cur
    cur :: (List.range' 1 (n - 1)).map (interpolated n cur next) ++ upsample n rest

def StreamingResample.processInto (speex : Speex ρ) (r : StreamingResample ρ) (input : Pcm) :
    Pcm × StreamingResample ρ :=
  if input = [] then ([], r)
  else if r.fromRate = r.toRate then (input, r)
  else if 1 < r.upsampleFactor then (upsample r.upsampleFactor input, r)
  else
    let processed := speex.process r.inner input
    (processed.1, { r with inner := processed.2 })

def processFrames (speex : Speex ρ) (r : StreamingResample ρ) : List Pcm → Pcm × StreamingResample ρ
  | [] => ([], r)
  | frame :: rest =>
    let first := r.processInto speex frame
    let later := processFrames speex first.2 rest
    (first.1 ++ later.1, later.2)

theorem truncate_between {q : ℚ} {low high : Int} (above : low ≤ q) (below : q ≤ high) :
    low ≤ truncate q ∧ truncate q ≤ high := by
  unfold truncate
  split
  next =>
    refine ⟨Int.le_floor.mpr above, ?_⟩
    have floor : (⌊q⌋ : ℚ) ≤ high := (Int.floor_le q).trans below
    exact_mod_cast floor
  next =>
    refine ⟨?_, Int.ceil_le.mpr below⟩
    have ceil : (low : ℚ) ≤ ⌈q⌉ := above.trans (Int.le_ceil q)
    exact_mod_cast ceil

theorem toInt_asI16 {q : ℚ} {low high : Int16} (above : (low.toInt : ℚ) ≤ q)
    (below : q ≤ (high.toInt : ℚ)) : (asI16 q).toInt = truncate q := by
  have bounds := truncate_between above below
  have least := low.le_toInt
  have greatest := high.toInt_lt
  unfold asI16
  rw [Int16.toInt_ofInt_of_le] <;> omega

/-- The samples put between two inputs are the truncated interpolation and lie between them. -/
theorem interpolated_spec {n j : Nat} (cur next : Int16) (inside : j < n) :
    (interpolated n cur next j).toInt = truncate (cur.toInt + (next.toInt - cur.toInt) * (j / n)) ∧
      min cur.toInt next.toInt ≤ (interpolated n cur next j).toInt ∧
      (interpolated n cur next j).toInt ≤ max cur.toInt next.toInt := by
  have positive : (0 : ℚ) < n := by exact_mod_cast Nat.zero_lt_of_lt inside
  have phase : (j : ℚ) * (1 / n) = j / n := by ring
  have start : (0 : ℚ) ≤ j / n := by positivity
  have stop : (j : ℚ) / n ≤ 1 := by
    rw [div_le_one positive]
    exact_mod_cast inside.le
  obtain ⟨above, below⟩ := @combination_between ℚ _ _ _ cur.toInt next.toInt _ start stop
  have value : (interpolated n cur next j).toInt =
      truncate (cur.toInt + (next.toInt - cur.toInt) * (j / n)) := by
    unfold interpolated
    simp only [phase]
    rcases le_total cur.toInt next.toInt with up | down
    · have cast : (cur.toInt : ℚ) ≤ next.toInt := by exact_mod_cast up
      rw [min_eq_left cast] at above
      rw [max_eq_right cast] at below
      exact toInt_asI16 above below
    · have cast : (next.toInt : ℚ) ≤ cur.toInt := by exact_mod_cast down
      rw [min_eq_right cast] at above
      rw [max_eq_left cast] at below
      exact toInt_asI16 above below
  rw [value]
  refine ⟨rfl, truncate_between ?_ ?_⟩
  · exact_mod_cast above
  · exact_mod_cast below

/-- Between a sample and itself, or right at it, stands the sample. -/
theorem interpolated_self {n j : Nat} {cur next : Int16} (inside : j < n) (flat : j = 0 ∨ next = cur) :
    interpolated n cur next j = cur := by
  apply Int16.toInt_inj.mp
  rw [(interpolated_spec cur next inside).1]
  have level : (cur.toInt : ℚ) + (next.toInt - cur.toInt) * (j / n) = cur.toInt := by
    rcases flat with rfl | rfl <;> simp
  rw [level, truncate]
  simp

theorem upsample_cons {n : Nat} (positive : 0 < n) (cur : Int16) (rest : Pcm) :
    upsample n (cur :: rest) =
      (List.range n).map (interpolated n cur (rest.headD cur)) ++ upsample n rest := by
  obtain ⟨m, rfl⟩ := Nat.exists_eq_succ_of_ne_zero positive.ne'
  rw [upsample, List.range_eq_range', List.range'_succ, List.map_cons,
    interpolated_self positive (.inl rfl)]
  rfl

theorem upsample_length {n : Nat} (positive : 0 < n) (input : Pcm) :
    (upsample n input).length = n * input.length := by
  induction input with
  | nil => rfl
  | cons cur rest ih =>
    rw [upsample_cons positive, List.length_append, List.length_map, List.length_range, ih,
      List.length_cons, Nat.mul_succ, Nat.add_comm]

theorem upsample_getElem? {n j : Nat} (inside : j < n) (input : Pcm) (i : Nat) :
    (upsample n input)[i * n + j]? =
      input[i]?.map fun cur => interpolated n cur (input[i + 1]?.getD cur) j := by
  have positive : 0 < n := Nat.zero_lt_of_lt inside
  induction input generalizing i with
  | nil => rfl
  | cons cur rest ih =>
    have width : ((List.range n).map (interpolated n cur (rest.headD cur))).length = n := by simp
    rw [upsample_cons positive]
    cases i with
    | zero =>
      rw [List.getElem?_append_left (by omega)]
      cases rest <;> simp [inside]
    | succ i =>
      have behind : (i + 1) * n + j - n = i * n + j := by
        rw [Nat.succ_mul]
        omega
      rw [List.getElem?_append_right (by rw [width, Nat.succ_mul]; omega), width, behind, ih]
      rfl

/-- The output for one input: every sample is followed by the way to the next, and the last is
held. -/
structure Interpolates (n : Nat) (input out : Pcm) : Prop where
  length : out.length = n * input.length
  kept : ∀ i, i < input.length → out[i * n]? = input[i]?
  between : ∀ i j cur next, 0 < j → j < n → input[i]? = some cur → input[i + 1]? = some next →
    ∃ v, out[i * n + j]? = some v ∧
      v.toInt = truncate (cur.toInt + (next.toInt - cur.toInt) * (j / n)) ∧
      min cur.toInt next.toInt ≤ v.toInt ∧ v.toInt ≤ max cur.toInt next.toInt
  held : ∀ i j cur, j < n → input[i]? = some cur → input[i + 1]? = none →
    out[i * n + j]? = some cur

theorem upsample_interpolates {n : Nat} (positive : 0 < n) (input : Pcm) :
    Interpolates n input (upsample n input) := by
  refine ⟨upsample_length positive input, fun i inside => ?_, ?_, ?_⟩
  · have here := upsample_getElem? positive input i
    rw [Nat.add_zero] at here
    rw [here, List.getElem?_eq_getElem inside, Option.map_some, interpolated_self positive (.inl rfl)]
  · intro i j cur next _ inside at_ after
    rw [upsample_getElem? inside, at_, after]
    exact ⟨_, rfl, interpolated_spec cur next inside⟩
  · intro i j cur inside at_ last
    rw [upsample_getElem? inside, at_, last]
    exact congrArg some (interpolated_self inside (.inr rfl))

def Seam (n : Nat) (frames : List Pcm) (p : Nat) : Prop :=
  p % n ≠ 0 ∧ ∃ front, front <+: frames ∧ p / n + 1 = front.flatten.length

/-- More input changes at most the way behind the last sample. -/
theorem upsample_append_left {n p : Nat} (positive : 0 < n) {first second : Pcm} (early : p / n < first.length)
    (other : (upsample n first)[p]? ≠ (upsample n (first ++ second))[p]?) :
    p % n ≠ 0 ∧ p / n + 1 = first.length := by
  have inside : p % n < n := Nat.mod_lt p positive
  have position : p / n * n + p % n = p := Nat.div_add_mod' p n
  have alone := upsample_getElem? inside first (p / n)
  have both := upsample_getElem? inside (first ++ second) (p / n)
  rw [position] at alone both
  rw [alone, both, List.getElem?_append_left early, List.getElem?_eq_getElem early, Option.map_some,
    Option.map_some] at other
  refine ⟨fun start => other ?_, ?_⟩
  · rw [interpolated_self inside (.inl start), interpolated_self inside (.inl start)]
  · by_contra more
    rw [List.getElem?_append_left (by omega)] at other
    exact other rfl

/-- Behind some input stands what the rest alone gives. -/
theorem upsample_append_right {n p : Nat} (positive : 0 < n) {first second : Pcm} (late : first.length ≤ p / n) :
    (upsample n (first ++ second))[p]? = (upsample n second)[p - n * first.length]? := by
  have inside : p % n < n := Nat.mod_lt p positive
  have position : p / n * n + p % n = p := Nat.div_add_mod' p n
  have shift : p - n * first.length = (p / n - first.length) * n + p % n := by
    rw [Nat.sub_mul, Nat.mul_comm n]
    have fits := Nat.mul_le_mul_right n late
    omega
  have next : p / n + 1 - first.length = p / n - first.length + 1 := by omega
  have both := upsample_getElem? inside (first ++ second) (p / n)
  rw [position] at both
  calc
    (upsample n (first ++ second))[p]?
      = second[p / n - first.length]?.map fun cur =>
          interpolated n cur (second[p / n - first.length + 1]?.getD cur) (p % n) := by
        rw [both, List.getElem?_append_right late, List.getElem?_append_right (by omega), next]
    _ = (upsample n second)[p - n * first.length]? := by rw [shift, upsample_getElem? inside]

/-- Interpolating frame by frame differs from interpolating the whole signal at most at the
seams. -/
theorem upsample_frames {n : Nat} (positive : 0 < n) (frames : List Pcm) (p : Nat)
    (other : (frames.flatMap (upsample n))[p]? ≠ (upsample n frames.flatten)[p]?) : Seam n frames p := by
  induction frames generalizing p with
  | nil => exact absurd rfl other
  | cons frame rest ih =>
    have length : (upsample n frame).length = frame.length * n := by
      rw [upsample_length positive, Nat.mul_comm]
    rw [List.flatMap_cons, List.flatten_cons] at other
    rcases Nat.lt_or_ge (p / n) frame.length with early | late
    · have bound : p < (upsample n frame).length := by
        rw [length]
        exact (Nat.div_lt_iff_lt_mul positive).mp early
      rw [List.getElem?_append_left bound] at other
      obtain ⟨apart, last⟩ := upsample_append_left positive early other
      exact ⟨apart, [frame], ⟨rest, rfl⟩, by rw [List.flatten_singleton, last]⟩
    · have behind : frame.length * n ≤ p := (Nat.le_div_iff_mul_le positive).mp late
      rw [List.getElem?_append_right (by rw [length]; exact behind), upsample_append_right positive late,
        upsample_length positive] at other
      obtain ⟨apart, front, leading, count⟩ := ih (p - n * frame.length) other
      have within : (p - n * frame.length) % n = p % n := by
        rw [Nat.mul_comm] at behind
        exact Nat.sub_mul_mod behind
      rw [within] at apart
      rw [Nat.sub_mul_div] at count
      refine ⟨apart, frame :: front, List.cons_prefix_cons.mpr ⟨rfl, leading⟩, ?_⟩
      rw [List.flatten_cons, List.length_append, ← count]
      omega

theorem new_processInto {speex : Speex ρ} {fromRate toRate : UInt32} {quality : Int32} {n : Nat}
    {r : StreamingResample ρ} (created : StreamingResample.new speex fromRate toRate quality = .ok r)
    (ratio : toRate.toNat = n * fromRate.toNat) (up : 2 ≤ n) (input : Pcm) :
    r.processInto speex input = (upsample n input, r) := by
  unfold StreamingResample.new at created
  split at created
  next => cases created
  next known =>
    have nonzero : fromRate.toNat ≠ 0 := fun zero => known (.inl (UInt32.toNat_inj.mp zero))
    have quotient : (toRate / fromRate).toNat = n := by
      rw [UInt32.toNat_div, ratio, Nat.mul_div_cancel n (Nat.pos_of_ne_zero nonzero)]
    have exact_ : toRate % fromRate = 0 := by
      apply UInt32.toNat_inj.mp
      rw [UInt32.toNat_mod, ratio]
      exact Nat.mul_mod_left n fromRate.toNat
    have large : 1 < toRate / fromRate := by
      rw [UInt32.lt_iff_toNat_lt, quotient]
      exact up
    have distinct : fromRate ≠ toRate := by
      rintro rfl
      have twice : 2 * fromRate.toNat ≤ n * fromRate.toNat := Nat.mul_le_mul_right _ up
      omega
    split at created
    next => cases created
    next =>
      split at created
      next => cases created
      next =>
        cases created
        unfold StreamingResample.processInto
        simp only [exact_, large, and_self, if_true, quotient, if_neg distinct]
        split
        next empty =>
          rw [empty]
          rfl
        next => rw [if_pos (by omega)]

theorem processFrames_eq {speex : Speex ρ} {r : StreamingResample ρ} {n : Nat}
    (fast : ∀ input, r.processInto speex input = (upsample n input, r)) (frames : List Pcm) :
    processFrames speex r frames = (frames.flatMap (upsample n), r) := by
  induction frames with
  | nil => rfl
  | cons frame rest ih => simp [processFrames, fast, ih]

/-- At an integer ratio every input is interpolated, and frame by frame a signal comes out as
in one call, but for what stands behind the last sample of a frame. -/
theorem processInto_interpolates (speex : Speex ρ) (fromRate toRate : UInt32) (quality : Int32) (n : Nat)
    (r : StreamingResample ρ) (created : StreamingResample.new speex fromRate toRate quality = .ok r)
    (ratio : toRate.toNat = n * fromRate.toNat) (up : 2 ≤ n) :
    (∀ input, Interpolates n input (r.processInto speex input).1) ∧
      ∀ frames p, (processFrames speex r frames).1[p]? ≠ (r.processInto speex frames.flatten).1[p]? →
        Seam n frames p := by
  have fast := new_processInto created ratio up
  have positive : 0 < n := by omega
  refine ⟨fun input => ?_, fun frames p other => ?_⟩
  · rw [fast]
    exact upsample_interpolates positive input
  · rw [processFrames_eq fast, fast] at other
    exact upsample_frames positive frames p other

def noSpeex : Speex Unit where
  create _ _ _ _ := .ok ()
  process state pcm := (pcm, state)

theorem narrowband_interpolates :
    ∃ r, StreamingResample.new noSpeex 8000 16000 2 = .ok r ∧
      Interpolates 2 [0, 5, -5] (r.processInto noSpeex [0, 5, -5]).1 :=
  ⟨_, rfl, (processInto_interpolates noSpeex 8000 16000 2 2 _ rfl (by decide) (by decide)).1 [0, 5, -5]⟩

end Fswtch.Audio.Resample
