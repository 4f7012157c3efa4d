import Mathlib.Data.List.Basic

/-! A stream cut from left to right into pieces that are kept and gaps that are
not. Each kept item may be tied to the position its piece starts at. -/

namespace Fswtch.Lib.Slices

variable {α ι : Type} {piece : ι → List α} {placed : Nat → ι → Prop}

/-- `items` were cut out of the stream in this order, each from where `placed` allows. -/
inductive Sliced (piece : ι → List α) (placed : Nat → ι → Prop) : List α → List ι → Prop
  | nil : Sliced piece placed [] []
  | skip {front items} (gap : List α) : Sliced piece placed front items →
      Sliced piece placed (front ++ gap) items
  | slice {front items} (item : ι) : Sliced piece placed front items →
      placed front.length item → Sliced piece placed (front ++ piece item) (items ++ [item])

structure Located (piece : ι → List α) (placed : Nat → ι → Prop) (stream : List α)
    (items : List ι) (start : Nat → Nat) : Prop where
  stretch : ∀ i item, items[i]? = some item →
    piece item = (stream.drop (start i)).take (piece item).length
  inside : ∀ i item, items[i]? = some item → start i + (piece item).length ≤ stream.length
  allowed : ∀ i item, items[i]? = some item → placed (start i) item
  ordered : ∀ i j item, i < j → j < items.length → items[i]? = some item →
    start i + (piece item).length ≤ start j

theorem take_drop_append {stream gap : List α} {start size : Nat}
    (inside : start + size ≤ stream.length) :
    ((stream ++ gap).drop start).take size = (stream.drop start).take size := by
  rw [List.drop_append_of_le_length (by omega), List.take_append_of_le_length]
  rw [List.length_drop]
  omega

theorem Located.skip {stream : List α} {items : List ι} {start : Nat → Nat}
    (located : Located piece placed stream items start) (gap : List α) :
    Located piece placed (stream ++ gap) items start where
  stretch i item known := by
    rw [take_drop_append (located.inside i item known)]
    exact located.stretch i item known
  inside i item known := by
    have inside := located.inside i item known
    rw [List.length_append]
    omega
  allowed := located.allowed
  ordered := located.ordered

theorem Located.slice {stream : List α} {items : List ι} {start : Nat → Nat} {item : ι}
    (located : Located piece placed stream items start) (here : placed stream.length item) :
    Located piece placed (stream ++ piece item) (items ++ [item])
      (fun i => if i < items.length then start i else stream.length) := by
  have old : ∀ i other, i < items.length → (items ++ [item])[i]? = some other →
      items[i]? = some other := by
    intro i other bound known
    rwa [List.getElem?_append_left bound] at known
  have new : ∀ i other, ¬i < items.length → (items ++ [item])[i]? = some other → other = item := by
    intro i other bound known
    rw [List.getElem?_append_right (by omega)] at known
    exact (List.mem_singleton.mp (List.mem_of_getElem? known))
  refine ⟨?_, ?_, ?_, ?_⟩
  · intro i other known
    by_cases bound : i < items.length
    · simp only [if_pos bound]
      rw [take_drop_append (located.inside i other (old i other bound known))]
      exact located.stretch i other (old i other bound known)
    · cases new i other bound known
      simp [bound]
  · intro i other known
    rw [List.length_append]
    by_cases bound : i < items.length
    · have inside := located.inside i other (old i other bound known)
      simp only [if_pos bound]
      omega
    · cases new i other bound known
      simp [bound]
  · intro i other known
    by_cases bound : i < items.length
    · simpa only [if_pos bound] using located.allowed i other (old i other bound known)
    · cases new i other bound known
      simpa only [if_neg bound] using here
  · intro i j other before bound known
    simp only [List.length_append, List.length_singleton] at bound
    have early : i < items.length := by omega
    have known := old i other early known
    simp only [if_pos early]
    by_cases last : j < items.length
    · simpa only [if_pos last] using located.ordered i j other before last known
    · simpa only [if_neg last] using located.inside i other known

theorem Sliced.located {stream : List α} {items : List ι}
    (sliced : Sliced piece placed stream items) :
    ∃ start, Located piece placed stream items start := by
  induction sliced with
  | nil => exact ⟨fun _ => 0, by simp, by simp, by simp, by simp⟩
  | skip gap _ ih =>
    obtain ⟨start, located⟩ := ih
    exact ⟨start, located.skip gap⟩
  | slice item _ here ih =>
    obtain ⟨start, located⟩ := ih
    exact ⟨_, located.slice here⟩

end Fswtch.Lib.Slices
