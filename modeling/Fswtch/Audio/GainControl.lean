import Fswtch.Lib.Rounding
import Mathlib.Algebra.Order.Archimedean.Real.Basic
import Mathlib.Analysis.Real.Sqrt
import Mathlib.Analysis.SpecialFunctions.Pow.Real
import Mathlib.Tactic.Positivity

/-! The automatic gain control. Each frame pulls a smoothed gain towards the one that would bring
its level to the target, slowly up and fast down, and is played at the new gain. -/

namespace Fswtch.Audio.GainControl
open Fswtch.Lib.Rounding

abbrev Pcm := List Int16

structure Agc (F : Type) where
  targetRms : F
  maxGain : F
  gain : F

variable {F : Type} [Field F] [LinearOrder F]

def attackCoef : F := 0.02

def releaseCoef : F := 0.25

def eps : F := 1e-6

def silenceHoldRms : F := 30.0

namespace Agc

def new (powf : F → F → F) (targetRms maxGainDb : F) : Agc F :=
  { targetRms := max targetRms eps, maxGain := powf 10 (maxGainDb / 20.0), gain := 1.0 }

def reset (agc : Agc F) : Agc F := { agc with gain := 1.0 }

def rms (sqrt : F → F) (pcm : Pcm) : F :=
  sqrt (((pcm.map fun s => s.toInt * s.toInt).sum : Int) / (pcm.length : F))

/-- The gain that brings a level to the target, as far as the ceiling lets it. -/
def desired (agc : Agc F) (rms : F) : F := clamp 0.0 agc.maxGain (agc.targetRms / (rms + eps))

variable [FloorRing F]

def applyGain (gain : F) (s : Int16) : Int16 :=
  let v : F := roundAway ((s.toInt : F) * gain)
  Int16.ofInt (truncate (clamp (-32768.0) 32767.0 v))

def process (sqrt : F → F) (agc : Agc F) (pcm : Pcm) : Agc F × Pcm :=
  if pcm = [] then (agc, pcm)
  else
    let rms := rms sqrt pcm
    if rms < silenceHoldRms then (agc, pcm.map (applyGain agc.gain))
    else
      let desired := agc.desired rms
      let coef := if agc.gain < desired then attackCoef else releaseCoef
      let gain := agc.gain + (desired - agc.gain) * coef
      ({ agc with gain }, pcm.map (applyGain gain))

def processFrames (sqrt : F → F) (agc : Agc F) : List Pcm → Agc F × Pcm
  | [] => (agc, [])
  | pcm :: rest =>
    let first := agc.process sqrt pcm
    let later := processFrames sqrt first.1 rest
    (later.1, first.2 ++ later.2)

/-- A sample at a gain: the nearest integer to the product, clamped to the range of a sample. -/
def Scaled (gain : F) (s out : Int16) : Prop :=
  ∃ n, Nearest ((s.toInt : F) * gain) n ∧ out.toInt = max (-32768) (min 32767 n)

variable [IsStrictOrderedRing F]

theorem applyGain_scaled (gain : F) (s : Int16) : Scaled gain s (applyGain gain s) := by
  refine ⟨_, roundAway_nearest _, ?_⟩
  generalize round : roundAway ((s.toInt : F) * gain) = n
  have clamped : clamp (-32768.0) 32767.0 (n : F) = ((max (-32768) (min 32767 n) : Int) : F) := by
    rw [clamp]
    push_cast
    norm_num
  rw [applyGain]
  simp only [round]
  rw [clamped, truncate_intCast, Int16.toInt_ofInt_of_le]
  · omega
  · omega

theorem map_scaled (gain : F) (pcm : Pcm) : List.Forall₂ (Scaled gain) pcm (pcm.map (applyGain gain)) := by
  rw [List.forall₂_map_right_iff, List.forall₂_same]
  exact fun s _ => applyGain_scaled gain s

theorem attackCoef_bounds : (0 : F) < attackCoef ∧ (attackCoef : F) < 1 := by
  norm_num [attackCoef]

theorem releaseCoef_bounds : (0 : F) < releaseCoef ∧ (releaseCoef : F) < 1 := by
  norm_num [releaseCoef]

omit [FloorRing F] in
theorem desired_bounds {agc : Agc F} {rms : F} (target : 0 < agc.targetRms) (ceiling : 0 < agc.maxGain)
    (level : 0 ≤ rms) : 0 < agc.desired rms ∧ agc.desired rms ≤ agc.maxGain := by
  have floor : (0 : F) < rms + eps := by
    unfold eps
    positivity
  have ratio : 0 < agc.targetRms / (rms + eps) := div_pos target floor
  refine ⟨lt_max_of_lt_right (lt_min ceiling ratio), max_le ?_ (min_le_left _ _)⟩
  norm_num
  exact ceiling.le

/-- What a call does: the gain moves towards the desired one, or stays where the frame is empty or
too quiet, and every sample comes out at the new gain. -/
structure Leveled (sqrt : F → F) (agc : Agc F) (pcm : Pcm) (after : Agc F × Pcm) : Prop where
  settings : after.1.targetRms = agc.targetRms ∧ after.1.maxGain = agc.maxGain
  above : min agc.gain (agc.desired (rms sqrt pcm)) ≤ after.1.gain
  below : after.1.gain ≤ max agc.gain (agc.desired (rms sqrt pcm))
  silence : rms sqrt pcm < silenceHoldRms → after.1.gain = agc.gain
  loud : pcm ≠ [] → silenceHoldRms ≤ rms sqrt pcm → after.1.gain =
    agc.gain + (agc.desired (rms sqrt pcm) - agc.gain) *
      if agc.gain < agc.desired (rms sqrt pcm) then attackCoef else releaseCoef
  samples : List.Forall₂ (Scaled after.1.gain) pcm after.2

theorem process_leveled (sqrt : F → F) (agc : Agc F) (pcm : Pcm) : Leveled sqrt agc pcm (agc.process sqrt pcm) := by
  unfold process
  split
  next empty =>
    exact ⟨⟨rfl, rfl⟩, min_le_left _ _, le_max_left _ _, fun _ => rfl, fun some => absurd empty some, by simp [empty]⟩
  next =>
    simp only
    split
    next silent =>
      exact ⟨⟨rfl, rfl⟩, min_le_left _ _, le_max_left _ _, fun _ => rfl, fun _ loud => absurd silent (not_lt_of_ge loud),
        map_scaled _ pcm⟩
    next loud =>
      generalize smoothed : (if agc.gain < agc.desired (rms sqrt pcm) then attackCoef else releaseCoef : F) = coef
      have exact : agc.gain + (agc.desired (rms sqrt pcm) - agc.gain) * coef = agc.gain +
          (agc.desired (rms sqrt pcm) - agc.gain) *
            if agc.gain < agc.desired (rms sqrt pcm) then attackCoef else releaseCoef := by rw [smoothed]
      have start : 0 ≤ coef ∧ coef ≤ 1 := by
        rw [← smoothed]
        split
        · exact ⟨attackCoef_bounds.1.le, attackCoef_bounds.2.le⟩
        · exact ⟨releaseCoef_bounds.1.le, releaseCoef_bounds.2.le⟩
      obtain ⟨above, below⟩ := @combination_between F _ _ _ agc.gain (agc.desired (rms sqrt pcm)) _ start.1 start.2
      exact ⟨⟨rfl, rfl⟩, above, below, fun silent => absurd silent loud, fun _ _ => exact, map_scaled _ pcm⟩

structure InRange (targetRms maxGain : F) (agc : Agc F) : Prop where
  target : agc.targetRms = targetRms
  ceiling : agc.maxGain = maxGain
  positive : 0 < agc.gain
  bounded : agc.gain ≤ maxGain

theorem process_inRange {sqrt : F → F} (level : ∀ x, 0 ≤ sqrt x) {targetRms maxGain : F} {agc : Agc F}
    (target : 0 < targetRms) (ceiling : 0 < maxGain) (range : InRange targetRms maxGain agc) (pcm : Pcm) :
    InRange targetRms maxGain (agc.process sqrt pcm).1 := by
  obtain ⟨rfl, rfl, positive, bounded⟩ := range
  have moved := process_leveled sqrt agc pcm
  obtain ⟨some, most⟩ := desired_bounds target ceiling (level _ : 0 ≤ rms sqrt pcm)
  exact ⟨moved.settings.1, moved.settings.2, (lt_min positive some).trans_le moved.above,
    moved.below.trans (max_le bounded most)⟩

theorem processFrames_inRange {sqrt : F → F} (level : ∀ x, 0 ≤ sqrt x) {targetRms maxGain : F} {agc : Agc F}
    (target : 0 < targetRms) (ceiling : 0 < maxGain) (range : InRange targetRms maxGain agc) (frames : List Pcm) :
    InRange targetRms maxGain (processFrames sqrt agc frames).1 := by
  induction frames generalizing agc with
  | nil => exact range
  | cons pcm rest ih => exact ih (process_inRange level target ceiling range pcm)

/-- Whatever frames came, after a reset or any gain in range, with exact levels and gains: the gain after the next one
is in its range and between the gain before and the desired one, a quiet frame leaves it, a loud one moves it by the
coefficient, and every sample comes out at it. -/
theorem process_bounded (agc : Agc ℝ) (target : 0 < agc.targetRms) (ceiling : 1 ≤ agc.maxGain) :
    InRange agc.targetRms agc.maxGain agc.reset ∧
    ∀ start, InRange agc.targetRms agc.maxGain start → ∀ (frames : List Pcm) (pcm : Pcm),
      let before := (processFrames Real.sqrt start frames).1
      let after := before.process Real.sqrt pcm
      0 < after.1.gain ∧ after.1.gain ≤ agc.maxGain ∧ before.targetRms = agc.targetRms ∧
        before.maxGain = agc.maxGain ∧ Leveled Real.sqrt before pcm after := by
  have positive : 0 < agc.maxGain := zero_lt_one.trans_le ceiling
  constructor
  · refine ⟨rfl, rfl, ?_, ?_⟩ <;> norm_num [reset]
    exact ceiling
  · intro start inside frames pcm before after
    have range := processFrames_inRange Real.sqrt_nonneg target positive inside frames
    have next := process_inRange Real.sqrt_nonneg target positive range pcm
    exact ⟨next.positive, next.bounded, range.target, range.ceiling, process_leveled _ _ _⟩

theorem default_bounded :
    let before := (processFrames Real.sqrt (Agc.new Real.rpow 3000.0 20.0).reset [[100, -100]]).1
    0 < (before.process Real.sqrt [20000, 30000]).1.gain := by
  have target : (0 : ℝ) < (Agc.new Real.rpow 3000.0 20.0).targetRms := lt_max_of_lt_left (by norm_num)
  have ceiling : 1 ≤ (Agc.new Real.rpow 3000.0 20.0).maxGain := by
    apply Real.one_le_rpow <;> norm_num
  obtain ⟨start, runs⟩ := process_bounded _ target ceiling
  exact (runs _ start [[100, -100]] [20000, 30000]).1

end Agc

end Fswtch.Audio.GainControl
