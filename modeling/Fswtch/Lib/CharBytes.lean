import Mathlib.Algebra.GroupWithZero.Nat
import Mathlib.Data.List.Basic

/-! Character sequences addressed by UTF-8 byte offset, as a string type whose
slices must fall on character boundaries. -/

namespace Fswtch.Lib.CharBytes

def byteLen (text : List Char) : Nat := (text.map Char.utf8Size).sum

@[simp] theorem byteLen_nil : byteLen [] = 0 := rfl

@[simp] theorem byteLen_cons (c : Char) (rest : List Char) :
    byteLen (c :: rest) = c.utf8Size + byteLen rest := by
  simp [byteLen]

@[simp] theorem byteLen_append (first second : List Char) :
    byteLen (first ++ second) = byteLen first + byteLen second := by
  simp [byteLen]

/-- The characters up to a byte offset and those from it on; `none` off a boundary. -/
def splitBytes : Nat → List Char → Option (List Char × List Char)
  | 0, text => some ([], text)
  | _ + 1, [] => none
  | offset + 1, c :: rest =>
    if c.utf8Size ≤ offset + 1 then
      (splitBytes (offset + 1 - c.utf8Size) rest).map fun halves => (c :: halves.1, halves.2)
    else none

theorem splitBytes_append (front back : List Char) :
    splitBytes (byteLen front) (front ++ back) = some (front, back) := by
  induction front with
  | nil => simp [splitBytes]
  | cons c rest ih =>
    have positive := c.utf8Size_pos
    obtain ⟨offset, same⟩ : ∃ offset, c.utf8Size + byteLen rest = offset + 1 :=
      Nat.exists_eq_succ_of_ne_zero (by omega)
    have left : offset + 1 - c.utf8Size = byteLen rest := by omega
    rw [byteLen_cons, same, List.cons_append, splitBytes, if_pos (by omega), left, ih]
    rfl

theorem splitBytes_append_add (front back : List Char) (offset : Nat) :
    splitBytes (byteLen front + offset) (front ++ back) =
      (splitBytes offset back).map fun halves => (front ++ halves.1, halves.2) := by
  induction front with
  | nil =>
    rw [byteLen_nil, Nat.zero_add, List.nil_append]
    exact Option.map_id'.symm
  | cons c rest ih =>
    have positive := c.utf8Size_pos
    obtain ⟨past, same⟩ : ∃ past, c.utf8Size + byteLen rest + offset = past + 1 :=
      Nat.exists_eq_succ_of_ne_zero (by omega)
    have left : past + 1 - c.utf8Size = byteLen rest + offset := by omega
    rw [byteLen_cons, same, List.cons_append, splitBytes, if_pos (by omega), left, ih, Option.map_map]
    rfl

theorem splitBytes_eq_some {offset : Nat} {text front back : List Char}
    (split : splitBytes offset text = some (front, back)) :
    text = front ++ back ∧ byteLen front = offset := by
  fun_induction splitBytes offset text generalizing front back with
  | case1 text =>
    cases split
    exact ⟨rfl, rfl⟩
  | case2 => cases split
  | case3 offset c rest fits ih =>
    obtain ⟨halves, later, same⟩ := Option.map_eq_some_iff.mp split
    cases same
    obtain ⟨rfl, length⟩ := ih later
    refine ⟨rfl, ?_⟩
    rw [byteLen_cons, length]
    omega
  | case4 => cases split

end Fswtch.Lib.CharBytes
