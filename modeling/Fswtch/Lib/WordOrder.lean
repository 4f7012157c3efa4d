import Mathlib.Data.List.Sort

/-! Numbered words that are put one after the other in any order of their numbers. The order leaves
no trace where the words that are out of order read the same either way. -/

namespace Fswtch.Lib.WordOrder

variable {α : Type} {word : Nat → List α}

def Alike (first second : List α) : Prop := first ++ second = second ++ first

instance [DecidableEq α] (first second : List α) : Decidable (Alike first second) :=
  inferInstanceAs (Decidable (_ = _))

def OvertakesAlike (word : Nat → List α) (order : List Nat) : Prop :=
  order.Pairwise fun first second => second < first → Alike (word first) (word second)

instance [DecidableEq α] (order : List Nat) : Decidable (OvertakesAlike word order) :=
  inferInstanceAs (Decidable (order.Pairwise _))

theorem flatMap_orderedInsert {number : Nat} {order : List Nat}
    (alike : ∀ other ∈ order, other < number → Alike (word number) (word other)) :
    (order.orderedInsert (· ≤ ·) number).flatMap word = word number ++ order.flatMap word := by
  induction order with
  | nil => rfl
  | cons other rest ih =>
    rw [List.orderedInsert_cons]
    split
    next => rfl
    next overtaken =>
      rw [List.forall_mem_cons] at alike
      have swap : word number ++ word other = word other ++ word number :=
        alike.1 (Nat.lt_of_not_le overtaken)
      rw [List.flatMap_cons, List.flatMap_cons, ih alike.2, ← List.append_assoc, ← List.append_assoc, swap]

theorem flatMap_insertionSort {order : List Nat} (alike : OvertakesAlike word order) :
    (order.insertionSort (· ≤ ·)).flatMap word = order.flatMap word := by
  induction order with
  | nil => rfl
  | cons number rest ih =>
    obtain ⟨first, later⟩ := List.pairwise_cons.mp alike
    rw [List.insertionSort_cons, flatMap_orderedInsert, ih later, List.flatMap_cons]
    intro other member
    exact first other ((List.mem_insertionSort _).mp member)

theorem insertionSort_eq_range {order : List Nat} {n : Nat} (all : order.Perm (List.range n)) :
    order.insertionSort (· ≤ ·) = List.range n :=
  ((List.perm_insertionSort _ order).trans all).eq_of_pairwise
    (fun _ _ _ _ below above => Nat.le_antisymm below above) (List.pairwise_insertionSort _ _) List.pairwise_le_range

theorem flatMap_eq_range {order : List Nat} {n : Nat} (all : order.Perm (List.range n))
    (alike : OvertakesAlike word order) : order.flatMap word = (List.range n).flatMap word := by
  rw [← insertionSort_eq_range all, flatMap_insertionSort alike]

theorem alike_of_orders {n : Nat} (same : ∀ order : List Nat, order.Perm (List.range n) →
      order.flatMap word = (List.range n).flatMap word)
    {first second : Nat} (below : first < n) (belowToo : second < n) : Alike (word first) (word second) := by
  by_cases apart : first = second
  · rw [apart]
    rfl
  · have rest : second ∈ (List.range n).erase first :=
      (List.mem_erase_of_ne (Ne.symm apart)).mpr (List.mem_range.mpr belowToo)
    have all : (first :: second :: ((List.range n).erase first).erase second).Perm (List.range n) :=
      ((List.perm_cons_erase rest).symm.cons first).trans
        (List.perm_cons_erase (List.mem_range.mpr below)).symm
    have one := same _ all
    have other := same _ ((List.Perm.swap first second _).trans all)
    rw [← other] at one
    simp only [List.flatMap_cons, ← List.append_assoc] at one
    exact List.append_cancel_right one

theorem filterMap_range {β : Type} (items : List β) :
    (List.range items.length).filterMap (fun number => items[number]?) = items := by
  induction items with
  | nil => rfl
  | cons first rest ih =>
    rw [List.length_cons, List.range_succ_eq_map, List.filterMap_cons, List.filterMap_map]
    exact congrArg (List.cons first) ih

theorem flatMap_range (words : List (List α)) :
    (List.range words.length).flatMap (fun number => words[number]?.getD []) = words.flatten := by
  induction words with
  | nil => rfl
  | cons first rest ih =>
    rw [List.length_cons, List.range_succ_eq_map, List.flatMap_cons, List.flatMap_map, List.flatten_cons, ← ih]
    rfl

end Fswtch.Lib.WordOrder
