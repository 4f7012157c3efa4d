import Mathlib.Data.List.Rotate

/-! Circular buffers with a write and a read index, of two kinds: one whose write index rises, so
that older entries lie below it, and one whose write index falls, so that older entries lie above it.
Either is a list of entries, the newest first, and a lag of the read index in it. -/

namespace Fswtch.Lib.CircularBuffer

variable {α : Type}

structure RingBuffer (α : Type) where
  buffer : List α
  write : Nat := 0
  read : Nat := 0

def RingBuffer.size (r : RingBuffer α) : Nat := r.buffer.length

def RingBuffer.incIndex (r : RingBuffer α) (index : Nat) : Nat := if index < r.size - 1 then index + 1 else 0

def RingBuffer.decIndex (r : RingBuffer α) (index : Nat) : Nat := if index > 0 then index - 1 else r.size - 1

def RingBuffer.offsetIndex (r : RingBuffer α) (index : Nat) (offset : Int) : Option Nat :=
  if offset ≤ r.size ∧ 0 ≤ r.size + index + offset ∧ 0 < r.size then some ((r.size + index + offset) % r.size).toNat
  else none

def RingBuffer.entry (r : RingBuffer α) (offset : Int) : Option α :=
  (r.offsetIndex r.read offset).bind fun position => r.buffer[position]?

def RingBuffer.put (r : RingBuffer α) (entries : List α) : RingBuffer α :=
  { r with buffer := r.buffer.take r.write ++ entries ++ r.buffer.drop (r.write + entries.length) }

def RingBuffer.store (r : RingBuffer α) (entries : List α) : Option (RingBuffer α) :=
  if r.write + entries.length ≤ r.size then some (r.put entries) else none

theorem mod_wrap {x size : Nat} (near : x < 2 * size) : x % size = if x < size then x else x - size := by
  split
  next below => exact Nat.mod_eq_of_lt below
  next above => rw [Nat.mod_eq_sub_mod (by omega), Nat.mod_eq_of_lt (by omega)]

theorem RingBuffer.incIndex_eq {r : RingBuffer α} {index : Nat} (inside : index < r.size) :
    r.incIndex index = (index + 1) % r.size := by
  rw [incIndex, mod_wrap (by omega)]
  split <;> split <;> omega

theorem RingBuffer.decIndex_eq {r : RingBuffer α} {index : Nat} (inside : index < r.size) :
    r.decIndex index = (index + (r.size - 1)) % r.size := by
  rw [decIndex, mod_wrap (by omega)]
  split <;> split <;> omega

theorem RingBuffer.incIndex_lag {r : RingBuffer α} (nonempty : 0 < r.size) (back : Nat) :
    r.incIndex ((r.read + back) % r.size) = (r.read + (back + 1)) % r.size := by
  rw [incIndex_eq (Nat.mod_lt _ nonempty), Nat.mod_add_mod, Nat.add_assoc]

theorem RingBuffer.decIndex_lag {r : RingBuffer α} (nonempty : 0 < r.size) (back : Nat) :
    r.decIndex ((r.read + (back + 1)) % r.size) = (r.read + back) % r.size := by
  rw [decIndex_eq (Nat.mod_lt _ nonempty), Nat.mod_add_mod,
    show r.read + (back + 1) + (r.size - 1) = r.read + back + r.size by omega, Nat.add_mod_right]

theorem RingBuffer.offsetIndex_up {r : RingBuffer α} {index offset : Nat} (inside : index < r.size) (short : offset ≤ r.size) :
    r.offsetIndex index offset = some ((index + offset) % r.size) := by
  rw [offsetIndex, if_pos (by omega)]
  congr 1
  rw [show (r.size + index + offset : Int) = ((index + offset + r.size : Nat) : Int) by omega, ← Int.natCast_emod,
    Int.toNat_natCast, Nat.add_mod_right]

theorem RingBuffer.offsetIndex_down {r : RingBuffer α} {index offset : Nat} (inside : index < r.size) (short : offset ≤ r.size) :
    r.offsetIndex index (-offset) = some ((index + (r.size - offset)) % r.size) := by
  rw [offsetIndex, if_pos (by omega)]
  congr 1
  rw [show (r.size + index + -offset : Int) = ((index + (r.size - offset) : Nat) : Int) by omega, ← Int.natCast_emod,
    Int.toNat_natCast]

def RingBuffer.fallen (r : RingBuffer α) : List α := r.buffer.rotate r.write

def RingBuffer.risen (r : RingBuffer α) : List α := (r.buffer.rotate (r.write + 1)).reverse

theorem RingBuffer.put_size {r : RingBuffer α} {entries : List α} (fits : r.write + entries.length ≤ r.size) :
    (r.put entries).size = r.size := by
  simp only [put, size, List.length_append, List.length_take, List.length_drop] at fits ⊢
  omega

theorem RingBuffer.fallen_put {r : RingBuffer α} {before : Nat} {entries : List α} (fits : r.write + entries.length ≤ r.size)
    (next : before = (r.write + entries.length) % r.size) :
    (r.put entries).fallen = entries ++ (r.buffer.rotate before).take (r.size - entries.length) := by
  obtain ⟨low, rest, whole, lower⟩ : ∃ low rest, r.buffer = low ++ rest ∧ low.length = r.write :=
    ⟨r.buffer.take r.write, r.buffer.drop r.write, (List.take_append_drop _ _).symm, by
      rw [List.length_take]; exact Nat.min_eq_left (by rw [size] at fits; omega)⟩
  obtain ⟨old, high, split, older⟩ : ∃ old high, rest = old ++ high ∧ old.length = entries.length := by
    refine ⟨rest.take entries.length, rest.drop entries.length, (List.take_append_drop _ _).symm, ?_⟩
    rw [List.length_take]
    refine Nat.min_eq_left ?_
    rw [size, whole, List.length_append] at fits
    omega
  subst split
  have total : r.size = low.length + old.length + high.length := by
    rw [size, whole, List.length_append, List.length_append]
    omega
  have placed : (r.put entries).buffer = low ++ (entries ++ high) := by
    simp only [put, whole, ← lower, List.take_left, List.append_assoc, ← older, List.append_cancel_left_eq]
    rw [← List.length_append, ← List.append_assoc, List.drop_left]
  have turned : (r.put entries).fallen = entries ++ high ++ low := by
    rw [fallen, placed]
    exact lower ▸ List.rotate_append_length_eq _ _
  have earlier : r.buffer.rotate before = high ++ (low ++ old) := by
    rw [next, ← lower, ← older, size, List.rotate_mod, whole, ← List.length_append, ← List.append_assoc,
      List.rotate_append_length_eq]
  rw [turned, earlier, total, ← List.append_assoc high, List.take_left' (by rw [List.length_append, older]; omega),
    List.append_assoc]

theorem RingBuffer.risen_put {r : RingBuffer α} {entry : α} (fits : r.write < r.size) :
    (r.put [entry]).risen = entry :: (r.buffer.rotate r.write).reverse.take (r.size - 1) := by
  have present : r.write < r.buffer.length := fits
  have whole : r.buffer = r.buffer.take r.write ++ r.buffer[r.write] :: r.buffer.drop (r.write + 1) := by simp
  have lower : (r.buffer.take r.write).length = r.write := by
    rw [List.length_take]
    exact Nat.min_eq_left (Nat.le_of_lt present)
  generalize r.buffer.take r.write = low at whole lower
  generalize r.buffer.drop (r.write + 1) = high at whole
  generalize r.buffer[r.write] = old at whole
  have turned : (r.put [entry]).risen = entry :: (high ++ low).reverse := by
    have placed : (r.put [entry]).buffer = (low ++ [entry]) ++ high := by
      simp only [put, whole, ← lower, List.take_left, List.length_singleton, List.append_assoc, List.append_cancel_left_eq]
      rw [← List.drop_drop, List.drop_left, List.drop_one, List.tail_cons]
    have last : (r.put [entry]).write + 1 = (low ++ [entry]).length := by
      rw [List.length_append, lower]
      rfl
    rw [risen, placed, last, List.rotate_append_length_eq, ← List.append_assoc, List.reverse_concat]
  have earlier : (r.buffer.rotate r.write).reverse = (high ++ low).reverse ++ [old] := by
    rw [whole, ← lower, List.rotate_append_length_eq, List.cons_append, List.reverse_cons]
  have total : r.size - 1 = (high ++ low).reverse.length := by
    rw [size, whole]
    simp only [List.length_append, List.length_cons, List.length_reverse]
    omega
  rw [turned, earlier, total, List.take_left]

theorem RingBuffer.risen_getElem? {r : RingBuffer α} {age : Nat} (inside : age < r.size) :
    r.risen[age]? = r.buffer[(r.write + (r.size - age)) % r.size]? := by
  rw [risen, List.getElem?_reverse (by rw [List.length_rotate]; exact inside), List.length_rotate,
    List.getElem?_rotate (by rw [← size]; omega), ← size]
  congr 2
  omega

/-- The read index of a ring whose write index falls, so many entries behind. -/
structure RingBuffer.Falling (r : RingBuffer α) (lag : Nat) : Prop where
  inside : r.write < r.size
  short : lag < r.size
  behind : r.read = (r.write + lag) % r.size

/-- The read index of a ring whose write index rises, so many entries behind. -/
structure RingBuffer.Rising (r : RingBuffer α) (lag : Nat) : Prop where
  inside : r.write < r.size
  short : lag < r.size
  behind : r.read = (r.write + (r.size - lag)) % r.size

section Lag

variable {r : RingBuffer α} {lag : Nat}

theorem RingBuffer.Falling.read_inside (falling : r.Falling lag) : r.read < r.size := by
  rw [falling.behind]
  exact Nat.mod_lt _ (Nat.zero_lt_of_lt falling.inside)

theorem RingBuffer.Rising.read_inside (rising : r.Rising lag) : r.read < r.size := by
  rw [rising.behind]
  exact Nat.mod_lt _ (Nat.zero_lt_of_lt rising.inside)

theorem RingBuffer.Falling.meet_iff (falling : r.Falling lag) : r.read = r.write ↔ lag = 0 := by
  have inside := falling.inside
  have short := falling.short
  rw [falling.behind, mod_wrap (by omega)]
  split <;> omega

theorem RingBuffer.Rising.meet_iff (rising : r.Rising lag) : r.read = r.write ↔ lag = 0 := by
  have inside := rising.inside
  have short := rising.short
  rw [rising.behind, mod_wrap (by omega)]
  split <;> omega

theorem RingBuffer.Falling.entry_eq (falling : r.Falling lag) {offset : Nat} (near : lag + offset < r.size) :
    r.entry offset = r.fallen[lag + offset]? := by
  have short : offset ≤ r.size := by omega
  rw [entry, offsetIndex_up falling.read_inside short, Option.bind_some, fallen, List.getElem?_rotate near,
    falling.behind, Nat.mod_add_mod, size]
  congr 2
  omega

theorem RingBuffer.Rising.entry_eq (rising : r.Rising lag) {offset : Nat} (near : lag + offset < r.size) :
    r.entry (-offset) = r.risen[lag + offset]? := by
  have short : offset ≤ r.size := by omega
  rw [entry, offsetIndex_down rising.read_inside short, Option.bind_some, risen_getElem? near, rising.behind,
    Nat.mod_add_mod, show r.write + (r.size - lag) + (r.size - offset) = r.write + (r.size - (lag + offset)) + r.size by omega,
    Nat.add_mod_right]

theorem RingBuffer.Falling.write_back (falling : r.Falling lag) {steps : Nat} (near : lag + steps < r.size) :
    ({ r with write := (r.write + (r.size - steps)) % r.size } : RingBuffer α).Falling (lag + steps) where
  inside := Nat.mod_lt _ (Nat.zero_lt_of_lt falling.inside)
  short := near
  behind := by
    have inside := falling.inside
    show r.read = ((r.write + (r.size - steps)) % r.size + (lag + steps)) % r.size
    rw [falling.behind, Nat.mod_add_mod,
      show r.write + (r.size - steps) + (lag + steps) = r.write + lag + r.size by omega, Nat.add_mod_right]

theorem RingBuffer.Falling.read_back {steps : Nat} (falling : r.Falling (lag + steps)) :
    ({ r with read := (r.read + (r.size - steps)) % r.size } : RingBuffer α).Falling lag where
  inside := falling.inside
  short := by
    have short := falling.short
    show lag < r.size
    omega
  behind := by
    have short := falling.short
    show (r.read + (r.size - steps)) % r.size = (r.write + lag) % r.size
    rw [falling.behind, Nat.mod_add_mod,
      show r.write + (lag + steps) + (r.size - steps) = r.write + lag + r.size by omega, Nat.add_mod_right]

theorem RingBuffer.Rising.write_up (rising : r.Rising lag) (near : lag + 1 < r.size) :
    ({ r with write := (r.write + 1) % r.size } : RingBuffer α).Rising (lag + 1) where
  inside := Nat.mod_lt _ (Nat.zero_lt_of_lt rising.inside)
  short := near
  behind := by
    show r.read = ((r.write + 1) % r.size + (r.size - (lag + 1))) % r.size
    rw [rising.behind, Nat.mod_add_mod, show r.write + 1 + (r.size - (lag + 1)) = r.write + (r.size - lag) by omega]

theorem RingBuffer.Rising.read_up (rising : r.Rising (lag + 1)) :
    ({ r with read := (r.read + 1) % r.size } : RingBuffer α).Rising lag where
  inside := rising.inside
  short := Nat.lt_of_succ_lt rising.short
  behind := by
    have short := rising.short
    show (r.read + 1) % r.size = (r.write + (r.size - lag)) % r.size
    rw [rising.behind, Nat.mod_add_mod, show r.write + (r.size - (lag + 1)) + 1 = r.write + (r.size - lag) by omega]

theorem RingBuffer.Falling.meet_back (falling : r.Falling lag) {steps : Nat} (positive : 0 < steps)
    (near : lag + steps ≤ r.size) : r.read = (r.write + (r.size - steps)) % r.size ↔ lag + steps = r.size := by
  have inside := falling.inside
  rw [falling.behind, mod_wrap (by omega), mod_wrap (by omega)]
  split <;> split <;> omega

theorem RingBuffer.Rising.meet_up (rising : r.Rising lag) : r.read = (r.write + 1) % r.size ↔ lag + 1 = r.size := by
  have inside := rising.inside
  have short := rising.short
  rw [rising.behind, mod_wrap (by omega), mod_wrap (by omega)]
  split <;> split <;> omega

theorem RingBuffer.Falling.put (falling : r.Falling lag) {entries : List α} (fits : r.write + entries.length ≤ r.size) :
    (r.put entries).Falling lag where
  inside := put_size fits ▸ falling.inside
  short := put_size fits ▸ falling.short
  behind := put_size fits ▸ falling.behind

theorem RingBuffer.Rising.put (rising : r.Rising lag) {entries : List α} (fits : r.write + entries.length ≤ r.size) :
    (r.put entries).Rising lag where
  inside := put_size fits ▸ rising.inside
  short := put_size fits ▸ rising.short
  behind := put_size fits ▸ rising.behind

theorem RingBuffer.falling_at (inside : r.write < r.size) (short : lag < r.size) :
    ({ r with read := (r.write + lag) % r.size } : RingBuffer α).Falling lag := ⟨inside, short, rfl⟩

theorem RingBuffer.rising_at (inside : r.write < r.size) (short : lag < r.size) :
    ({ r with read := (r.write + (r.size - lag)) % r.size } : RingBuffer α).Rising lag := ⟨inside, short, rfl⟩

end Lag

def lastOf (size : Nat) (silence : α) (entries : List α) : List α :=
  (entries ++ List.replicate size silence).take size

theorem lastOf_append {size : Nat} {silence : α} {front : List α} (fits : front.length ≤ size) (entries : List α) :
    front ++ (lastOf size silence entries).take (size - front.length) = lastOf size silence (front ++ entries) := by
  have whole : (front ++ (entries ++ List.replicate size silence)).take size = _ := List.take_append
  rw [lastOf, lastOf, List.take_take, Nat.min_eq_left (Nat.sub_le _ _), List.append_assoc front, whole,
    List.take_of_length_le fits]

theorem lastOf_getElem? {size index : Nat} {silence : α} {entries : List α} (inside : index < size) :
    (lastOf size silence entries)[index]? = some (entries.getD index silence) := by
  rw [lastOf, List.getElem?_take_of_lt inside, List.getD_eq_getElem?_getD]
  by_cases present : index < entries.length
  · rw [List.getElem?_append_left present, List.getElem?_eq_getElem present, Option.getD_some]
  · rw [List.getElem?_append_right (Nat.le_of_not_lt present), List.getElem?_replicate, if_pos (by omega),
      List.getElem?_eq_none (Nat.le_of_not_lt present), Option.getD_none]

end Fswtch.Lib.CircularBuffer
