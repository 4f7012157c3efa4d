import Mathlib.Algebra.Order.Field.Basic
import Mathlib.Algebra.Order.Floor.Ring
import Mathlib.Tactic.Linarith
import Mathlib.Tactic.NormNum

/-! Rounding of exact numbers to integers, towards zero or to the nearest with ties away from
zero, and what lies between two numbers. -/

namespace Fswtch.Lib.Rounding

variable {F : Type} [Field F] [LinearOrder F]

def clamp (low high v : F) : F := max low (min high v)

section Floor

variable [FloorRing F]

def truncate (v : F) : Int := if 0 ≤ v then ⌊v⌋ else ⌈v⌉

def roundAway (v : F) : Int := if 0 ≤ v then ⌊v + 1 / 2⌋ else ⌈v - 1 / 2⌉

end Floor

/-- An integer next to a number, and of two the one further from zero. -/
structure Nearest (v : F) (n : Int) : Prop where
  near : |v - n| ≤ 1 / 2
  away : |v - n| = 1 / 2 → |v| < |(n : F)|

variable [IsStrictOrderedRing F]

theorem combination_between {x y t : F} (start : 0 ≤ t) (stop : t ≤ 1) :
    min x y ≤ x + (y - x) * t ∧ x + (y - x) * t ≤ max x y := by
  rcases le_total x y with up | down
  · rw [min_eq_left up, max_eq_right up]
    constructor <;> nlinarith
  · rw [min_eq_right down, max_eq_left down]
    constructor <;> nlinarith

variable [FloorRing F]

theorem truncate_intCast (n : Int) : truncate (n : F) = n := by
  rw [truncate, Int.floor_intCast, Int.ceil_intCast, ite_self]

theorem roundAway_nearest (v : F) : Nearest v (roundAway v) := by
  unfold roundAway
  split
  next nonneg =>
    have below := Int.floor_le (v + 1 / 2)
    have above := Int.lt_floor_add_one (v + 1 / 2)
    refine ⟨abs_le.mpr ⟨by linarith, by linarith⟩, fun tie => ?_⟩
    have up : (⌊v + 1 / 2⌋ : F) = v + 1 / 2 := by
      rcases abs_eq (by norm_num) |>.mp tie with low | high <;> linarith
    rw [up, abs_of_nonneg nonneg, abs_of_nonneg (by linarith)]
    linarith
  next negative =>
    have below := Int.le_ceil (v - 1 / 2)
    have above := Int.ceil_lt_add_one (v - 1 / 2)
    have neg : v < 0 := not_le.mp negative
    refine ⟨abs_le.mpr ⟨by linarith, by linarith⟩, fun tie => ?_⟩
    have down : (⌈v - 1 / 2⌉ : F) = v - 1 / 2 := by
      rcases abs_eq (by norm_num) |>.mp tie with low | high <;> linarith
    rw [down, abs_of_neg neg, abs_of_neg (by linarith)]
    linarith

end Fswtch.Lib.Rounding
