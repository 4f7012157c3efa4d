import Fswtch.Lib.CircularBuffer

/-! The newest entries of a sequence, written in a circle, and how often each of them occurs. The counts leave
out the entries the circle began with. -/

namespace Fswtch.Lib.SlidingCount
open Fswtch.Lib.CircularBuffer

variable {α : Type}

/-- The place to be written next has the oldest of the newest entries. -/
structure Sliding (size : Nat) (silence : α) (entries data : List α) (index : Nat) : Prop where
  long : data.length = size
  inside : index < size
  window : (data.rotate index).reverse = lastOf size silence entries

theorem rotate_set {data : List α} {index : Nat} (inside : index < data.length) (entry : α) :
    ∃ rest, data.rotate index = data[index] :: rest ∧ (data.set index entry).rotate (index + 1) = rest ++ [entry] := by
  have lower : (data.take index).length = index := by rw [List.length_take, Nat.min_eq_left (Nat.le_of_lt inside)]
  refine ⟨data.drop (index + 1) ++ data.take index, ?_, ?_⟩
  · rw [List.rotate_eq_drop_append_take (Nat.le_of_lt inside), List.drop_eq_getElem_cons inside, List.cons_append]
  · have placed : data.set index entry = (data.take index ++ [entry]) ++ data.drop (index + 1) := by
      rw [List.set_eq_take_append_cons_drop, if_pos inside, List.append_assoc, List.singleton_append]
    have turn : (data.take index ++ [entry]).length = index + 1 := by rw [List.length_append, lower]; rfl
    rw [placed, ← turn, List.rotate_append_length_eq, List.append_assoc]

theorem lastOf_nil (size : Nat) (silence : α) : lastOf size silence [] = List.replicate size silence := by
  rw [lastOf, List.nil_append, List.take_of_length_le (by rw [List.length_replicate])]

theorem sliding_new {size : Nat} (positive : 0 < size) (silence : α) :
    Sliding size silence [] (List.replicate size silence) 0 where
  long := List.length_replicate
  inside := positive
  window := by
    rw [List.rotate_zero, List.reverse_replicate, lastOf_nil]

variable {size index : Nat} {silence : α} {entries data : List α}

theorem Sliding.push (sliding : Sliding size silence entries data index) (entry : α) :
    ∃ old front, data[index]? = some old ∧ lastOf size silence entries = front ++ [old] ∧
      lastOf size silence (entry :: entries) = entry :: front ∧
      Sliding size silence (entry :: entries) (data.set index entry) ((index + 1) % size) := by
  have inside : index < data.length := sliding.long ▸ sliding.inside
  obtain ⟨rest, before, after⟩ := rotate_set inside entry
  have window : lastOf size silence entries = rest.reverse ++ [data[index]] := by
    rw [← sliding.window, before, List.reverse_cons]
  have short : rest.reverse.length = size - 1 := by
    have whole := congrArg List.length window
    rw [← sliding.window, List.length_reverse, List.length_rotate, sliding.long, List.length_append,
      List.length_singleton] at whole
    omega
  have next : lastOf size silence (entry :: entries) = entry :: rest.reverse := by
    have fits : [entry].length ≤ size := Nat.zero_lt_of_lt sliding.inside
    have added : [entry] ++ (lastOf size silence entries).take (size - [entry].length) = _ := lastOf_append fits entries
    rw [window, List.length_singleton, ← short, List.take_left] at added
    exact added.symm
  refine ⟨data[index], rest.reverse, List.getElem?_eq_getElem inside, window, next, ?_⟩
  constructor
  case long => rw [List.length_set, sliding.long]
  case inside => exact Nat.mod_lt _ (Nat.zero_lt_of_lt sliding.inside)
  case window =>
    have long : (data.set index entry).length = size := by rw [List.length_set, sliding.long]
    rw [next, ← long, List.rotate_mod, after, List.reverse_append]
    rfl

theorem mem_lastOf {entry : α} (present : entry ∈ lastOf size silence entries) : entry ∈ entries ∨ entry = silence := by
  rcases List.mem_append.mp (List.mem_of_mem_take present) with old | filled
  · exact .inl old
  · exact .inr (List.mem_replicate.mp filled).2

def held (slot : α → Option Nat) (window : List α) (place : Nat) : Int := (window.countP (slot · == some place) : Nat)

def adjust (histogram : List Int) (change : Int) : Option Nat → List Int
  | none => histogram
  | some place => histogram.modify place (· + change)

def Tallies (slot : α → Option Nat) (first : List α) (histogram : List Int) (window : List α) : Prop :=
  ∀ place < histogram.length, histogram[place]? = some (held slot window place - held slot first place)

theorem tallies_new (slot : α → Option Nat) (first : List α) (size : Nat) :
    Tallies slot first (List.replicate size 0) first := by
  intro place inside
  rw [List.length_replicate] at inside
  rw [List.getElem?_replicate, if_pos inside, Int.sub_self]

theorem adjust_length (histogram : List Int) (change : Int) (slot : Option Nat) :
    (adjust histogram change slot).length = histogram.length := by
  cases slot with
  | none => rfl
  | some place => exact List.length_modify ..

theorem adjust_getElem? (histogram : List Int) (change : Int) (slot : Option Nat) (place : Nat) :
    (adjust histogram change slot)[place]? =
      histogram[place]?.map (· + if slot = some place then change else 0) := by
  cases slot with
  | none => simp [adjust]
  | some other =>
    rw [adjust, List.getElem?_modify]
    by_cases same : other = place
    · simp [same]
    · simp [same]

theorem held_cons (slot : α → Option Nat) (entry : α) (window : List α) (place : Nat) :
    held slot (entry :: window) place = held slot window place + if slot entry = some place then 1 else 0 := by
  rw [held, List.countP_cons, held, Int.natCast_add]
  simp only [beq_iff_eq]
  split <;> rfl

theorem held_snoc (slot : α → Option Nat) (entry : α) (window : List α) (place : Nat) :
    held slot (window ++ [entry]) place = held slot window place + if slot entry = some place then 1 else 0 := by
  rw [held, List.countP_append, List.countP_singleton, held, Int.natCast_add]
  simp only [beq_iff_eq]
  split <;> rfl

theorem held_lastOf {slot : α → Option Nat} {size place : Nat} {silence : α} (other : slot silence ≠ some place)
    (entries : List α) : held slot (lastOf size silence entries) place = held slot (entries.take size) place := by
  have none : (List.replicate (min (size - entries.length) size) silence).countP (slot · == some place) = 0 := by
    rw [List.countP_replicate, if_neg (by simpa using other)]
  rw [held, lastOf, List.take_append, List.countP_append, List.take_replicate, none, Nat.add_zero, held]

theorem held_le (slot : α → Option Nat) (window : List α) (place : Nat) : held slot window place ≤ window.length :=
  Int.ofNat_le.mpr List.countP_le_length

theorem held_replicate (slot : α → Option Nat) (size : Nat) (entry : α) (place : Nat) :
    held slot (List.replicate size entry) place = if slot entry = some place then (size : Int) else 0 := by
  rw [held, List.countP_replicate]
  simp only [beq_iff_eq]
  split <;> rfl

theorem Tallies.slide {slot : α → Option Nat} {first : List α} {histogram : List Int} {old : α} {front : List α}
    (tallies : Tallies slot first histogram (front ++ [old])) (entry : α) :
    Tallies slot first (adjust (adjust histogram (-1) (slot old)) 1 (slot entry)) (entry :: front) := by
  intro place inside
  rw [adjust_length, adjust_length] at inside
  rw [adjust_getElem?, adjust_getElem?, tallies place inside, Option.map_some, Option.map_some, held_cons, held_snoc]
  congr 1
  split <;> split <;> omega

end Fswtch.Lib.SlidingCount
