import Mathlib.Data.List.Basic

/-! A ring through which a stream passes one item at a time: the item at the index comes out, the
new one takes its place, and the index moves on, from the last place to the first. What comes
out is what went in, as many items later as the ring has places. -/

namespace Fswtch.Lib.DelayLine

variable {α : Type}

def exchange (ring : List α) (index : Nat) (item : α) : α × List α × Nat :=
  (ring.getD index item, ring.set index item, if index < ring.length - 1 then index + 1 else 0)

def exchangeAll (ring : List α) (index : Nat) : List α → List α × List α × Nat
  | [] => ([], ring, index)
  | item :: rest =>
    let one := exchange ring index item
    let later := exchangeAll one.2.1 one.2.2 rest
    (one.1 :: later.1, later.2)

def line (ring : List α) (index : Nat) : List α := ring.drop index ++ ring.take index

theorem line_zero (ring : List α) : line ring 0 = ring := by
  rw [line, List.drop_zero, List.take_zero, List.append_nil]

theorem exchange_length (ring : List α) (index : Nat) (item : α) :
    (exchange ring index item).2.1.length = ring.length := List.length_set

theorem exchange_inside {ring : List α} {index : Nat} (item : α) (inside : index < ring.length) :
    (exchange ring index item).2.2 < (exchange ring index item).2.1.length := by
  rw [exchange_length]
  simp only [exchange]
  split <;> omega

theorem exchange_line {ring : List α} {index : Nat} (item : α) (inside : index < ring.length) :
    (exchange ring index item).1 :: line (exchange ring index item).2.1 (exchange ring index item).2.2 =
      line ring index ++ [item] := by
  have out : ring.getD index item = ring[index] := by rw [List.getD_eq_getElem?_getD, List.getElem?_eq_getElem inside, Option.getD_some]
  have whole : line ring index = ring[index] :: (ring.drop (index + 1) ++ ring.take index) := by
    rw [line, List.drop_eq_getElem_cons inside, List.cons_append]
  have front : (ring.set index item).take (index + 1) = ring.take index ++ [item] := by
    rw [List.take_succ_eq_append_getElem (by simpa using inside), List.take_set_of_le (Nat.le_refl index),
      List.getElem_set_self]
  rw [whole, exchange, out, List.cons_append, List.append_assoc]
  congr 1
  split
  next more => rw [line, front, List.drop_set_of_lt (Nat.lt_succ_self index)]
  next last =>
    have ends : index + 1 = ring.length := by omega
    have all : (ring.set index item).take (index + 1) = ring.set index item :=
      List.take_of_length_le (by rw [List.length_set]; exact Nat.le_of_eq ends.symm)
    rw [line_zero, ends, List.drop_length, List.nil_append, ← all, front]

theorem exchangeAll_sound {ring : List α} {index : Nat} (inside : index < ring.length) (slice : List α) :
    (exchangeAll ring index slice).2.1.length = ring.length ∧
      (exchangeAll ring index slice).2.2 < (exchangeAll ring index slice).2.1.length := by
  induction slice generalizing ring index with
  | nil => exact ⟨rfl, inside⟩
  | cons item rest ih =>
    obtain ⟨length, later⟩ := ih (exchange_inside item inside)
    exact ⟨length.trans (exchange_length ring index item), later⟩

theorem exchangeAll_line {ring : List α} {index : Nat} (inside : index < ring.length) (slice : List α) :
    (exchangeAll ring index slice).1 ++
        line (exchangeAll ring index slice).2.1 (exchangeAll ring index slice).2.2 =
      line ring index ++ slice := by
  induction slice generalizing ring index with
  | nil => rw [exchangeAll, List.nil_append, List.append_nil]
  | cons item rest ih =>
    calc
      (exchangeAll ring index (item :: rest)).1 ++ line (exchangeAll ring index (item :: rest)).2.1
          (exchangeAll ring index (item :: rest)).2.2
        = (exchange ring index item).1 ::
            (line (exchange ring index item).2.1 (exchange ring index item).2.2 ++ rest) := by
          rw [exchangeAll, List.cons_append, ih (exchange_inside item inside)]
      _ = line ring index ++ [item] ++ rest := by rw [← List.cons_append, exchange_line item inside]
      _ = line ring index ++ item :: rest := by rw [List.append_assoc, List.singleton_append]

theorem exchangeAll_length (ring : List α) (index : Nat) (slice : List α) :
    (exchangeAll ring index slice).1.length = slice.length := by
  induction slice generalizing ring index with
  | nil => rfl
  | cons item rest ih => rw [exchangeAll, List.length_cons, ih, List.length_cons]

/-- The index depends on the width of the ring and the number of items only. -/
theorem exchangeAll_index {ring other : List α} (wide : ring.length = other.length) (index : Nat)
    {slice slice' : List α} (long : slice.length = slice'.length) :
    (exchangeAll ring index slice).2.2 = (exchangeAll other index slice').2.2 := by
  induction slice generalizing ring other index slice' with
  | nil => rw [List.length_eq_zero_iff.mp long.symm]; rfl
  | cons item rest ih =>
    obtain ⟨item', rest', rfl⟩ := List.exists_cons_of_length_eq_add_one long.symm
    have widths : (exchange ring index item).2.1.length = (exchange other index item').2.1.length := by
      rw [exchange_length, exchange_length, wide]
    have moved : (exchange ring index item).2.2 = (exchange other index item').2.2 := by
      simp only [exchange, wide]
    rw [exchangeAll, exchangeAll, moved]
    exact ih widths _ (Nat.succ.inj long)

end Fswtch.Lib.DelayLine
