import Mathlib.Tactic.IntervalCases
import Fswtch.Lib.PythonText

/-! Texts that are sent as UTF-8, some of their characters as percent escapes, and are read back
by `decode` and `unquote`. -/

namespace Fswtch.Lib.PythonText
open Fswtch.Lib.ByteReader Fswtch.Lib.ChunkedText

theorem multibyte_toNat {c : Char} (wide : 0x80 ≤ c.toNat) : multibyte c.toNat = c := by
  rw [multibyte, if_pos ⟨wide, c.valid⟩, Char.ofNat_toNat]

theorem toNat_continuation {x : Nat} (small : x < 64) : (UInt8.ofNat (x + 128)).toNat = x + 128 := by
  rw [UInt8.toNat_ofNat']
  omega

theorem decodeFrom_continuation {bits more low high x : Nat} (small : x < 64) (above : low ≤ x) (below : x ≤ high)
    (rest : List UInt8) :
    decodeFrom (some ⟨bits, more + 1, low, high⟩) (UInt8.ofNat (x + 128) :: rest) =
      decodeFrom (some ⟨bits * 64 + x, more, 0, 0x3F⟩) rest := by
  have byte := toNat_continuation small
  have accepted : Pending.accepts ⟨bits, more + 1, low, high⟩ (UInt8.ofNat (x + 128)) = true := by
    rw [Pending.accepts, byte]
    exact decide_eq_true ⟨by show 0x80 + low ≤ _; omega, by show _ ≤ 0x80 + high; omega⟩
  rw [decodeFrom, decodeByte, if_pos accepted, Pending.next, byte, Nat.add_sub_cancel]
  rfl

theorem decodeFrom_last {bits low high x : Nat} (small : x < 64) (above : low ≤ x) (below : x ≤ high)
    (rest : List UInt8) :
    decodeFrom (some ⟨bits, 0, low, high⟩) (UInt8.ofNat (x + 128) :: rest) =
      multibyte (bits * 64 + x) :: decodeFrom none rest := by
  have byte := toNat_continuation small
  have accepted : Pending.accepts ⟨bits, 0, low, high⟩ (UInt8.ofNat (x + 128)) = true := by
    rw [Pending.accepts, byte]
    exact decide_eq_true ⟨by show 0x80 + low ≤ _; omega, by show _ ≤ 0x80 + high; omega⟩
  rw [decodeFrom, decodeByte, if_pos accepted, Pending.next, byte, Nat.add_sub_cancel]
  rfl

theorem decodeFrom_lead {n : Nat} {p : Pending} (high : 0x80 ≤ n) (byte : n < 0x100) (leads : lead (UInt8.ofNat n) = some p)
    (rest : List UInt8) : decodeFrom none (UInt8.ofNat n :: rest) = decodeFrom (some p) rest := by
  have value : (UInt8.ofNat n).toNat = n := by
    rw [UInt8.toNat_ofNat']
    omega
  have start : decodeByte none (UInt8.ofNat n) = ([], some p) := by
    rw [decodeByte, startChar, value, if_neg (Nat.not_lt.mpr high), leads]
  rw [decodeFrom, start]
  rfl

/-- The bounds on the second byte of a form of three bytes, by its first. -/
theorem lead_three {k : Nat} (small : k < 16) :
    lead (UInt8.ofNat (k + 224)) =
      some ⟨k, 1, if k = 0 then 0x20 else 0, if k = 13 then 0x1F else 0x3F⟩ := by
  interval_cases k <;> rfl

theorem lead_four {k : Nat} (small : k < 5) :
    lead (UInt8.ofNat (k + 240)) =
      some ⟨k, 2, if k = 0 then 0x10 else 0, if k = 4 then 0x0F else 0x3F⟩ := by
  interval_cases k <;> rfl

theorem lead_two {k : Nat} (least : 2 ≤ k) (most : k < 32) : lead (UInt8.ofNat (k + 192)) = some ⟨k, 0, 0, 0x3F⟩ := by
  interval_cases k <;> rfl

theorem decodeFrom_utf8EncodeChar (c : Char) (rest : List UInt8) :
    decodeFrom none (String.utf8EncodeChar c ++ rest) = c :: decodeFrom none rest := by
  have valid : c.toNat < 0xD800 ∨ 0xDFFF < c.toNat ∧ c.toNat < 0x110000 := c.valid
  unfold String.utf8EncodeChar
  rw [show c.val.toNat = c.toNat from rfl]
  dsimp only
  by_cases one : c.toNat ≤ 0x7f
  · rw [if_pos one, List.singleton_append, decodeFrom, decodeByte_ascii (Nat.lt_succ_of_le one)]
    rfl
  rw [if_neg one]
  have itself : multibyte c.toNat = c := multibyte_toNat (by omega)
  by_cases two : c.toNat ≤ 0x7ff
  · rw [if_pos two, Nat.mod_eq_of_lt (a := c.toNat / 64) (by omega)]
    have whole : c.toNat / 64 * 64 + c.toNat % 64 = c.toNat := by omega
    rw [List.cons_append, decodeFrom_lead (by omega) (by omega) (lead_two (by omega) (by omega)),
      List.singleton_append, decodeFrom_last (by omega) (Nat.zero_le _) (by omega), whole, itself]
  rw [if_neg two]
  by_cases three : c.toNat ≤ 0xffff
  · rw [if_pos three, Nat.mod_eq_of_lt (a := c.toNat / 4096) (by omega)]
    have whole : (c.toNat / 4096 * 64 + c.toNat / 64 % 64) * 64 + c.toNat % 64 = c.toNat := by omega
    have above : (if c.toNat / 4096 = 0 then 0x20 else 0) ≤ c.toNat / 64 % 64 := by
      split <;> omega
    have below : c.toNat / 64 % 64 ≤ if c.toNat / 4096 = 13 then 0x1F else 0x3F := by
      split <;> omega
    rw [List.cons_append, decodeFrom_lead (by omega) (by omega) (lead_three (by omega)), List.cons_append,
      decodeFrom_continuation (by omega) above below, List.singleton_append,
      decodeFrom_last (by omega) (Nat.zero_le _) (by omega), whole, itself]
  · rw [if_neg three, Nat.mod_eq_of_lt (a := c.toNat / 262144) (by omega)]
    have whole : ((c.toNat / 262144 * 64 + c.toNat / 4096 % 64) * 64 + c.toNat / 64 % 64) * 64 + c.toNat % 64 = c.toNat := by
      omega
    have above : (if c.toNat / 262144 = 0 then 0x10 else 0) ≤ c.toNat / 4096 % 64 := by
      split <;> omega
    have below : c.toNat / 4096 % 64 ≤ if c.toNat / 262144 = 4 then 0x0F else 0x3F := by
      split <;> omega
    rw [List.cons_append, decodeFrom_lead (by omega) (by omega) (lead_four (by omega)), List.cons_append,
      decodeFrom_continuation (by omega) above below, List.cons_append,
      decodeFrom_continuation (by omega) (Nat.zero_le _) (by omega), List.singleton_append,
      decodeFrom_last (by omega) (Nat.zero_le _) (by omega), whole, itself]

theorem decode_utf8 (text : List Char) : decode (utf8 (String.ofList text)) = String.ofList text := by
  have same : decodeFrom none (utf8 (String.ofList text)) = text := by
    induction text with
    | nil => rfl
    | cons c rest ih => rw [utf8_cons, decodeFrom_utf8EncodeChar, ih]
  rw [decode, same]

theorem utf8EncodeChar_cases (c : Char) :
    (c.toNat < 0x80 ∧ String.utf8EncodeChar c = [UInt8.ofNat c.toNat]) ∨
      (0x80 ≤ c.toNat ∧ ∀ b ∈ String.utf8EncodeChar c, 0x80 ≤ b.toNat) := by
  have valid : c.toNat < 0xD800 ∨ 0xDFFF < c.toNat ∧ c.toNat < 0x110000 := c.valid
  have high {n : Nat} (least : 0x80 ≤ n) (most : n < 0x100) : 0x80 ≤ (UInt8.ofNat n).toNat := by
    rw [UInt8.toNat_ofNat']
    omega
  unfold String.utf8EncodeChar
  rw [show c.val.toNat = c.toNat from rfl]
  dsimp only
  by_cases one : c.toNat ≤ 0x7f
  · exact .inl ⟨Nat.lt_succ_of_le one, if_pos one⟩
  refine .inr ⟨by omega, ?_⟩
  rw [if_neg one]
  split
  · simp only [List.forall_mem_cons]
    exact ⟨high (by omega) (by omega), high (by omega) (by omega), nofun⟩
  split
  · simp only [List.forall_mem_cons]
    exact ⟨high (by omega) (by omega), high (by omega) (by omega), high (by omega) (by omega), nofun⟩
  · simp only [List.forall_mem_cons]
    exact ⟨high (by omega) (by omega), high (by omega) (by omega), high (by omega) (by omega),
      high (by omega) (by omega), nofun⟩

theorem mem_utf8_of_small {text : List Char} {b : UInt8} (small : b.toNat < 0x80)
    (member : b ∈ utf8 (String.ofList text)) : ∃ c ∈ text, UInt8.ofNat c.toNat = b ∧ c.toNat < 0x80 := by
  induction text with
  | nil => cases member
  | cons c rest ih =>
    rw [utf8_cons, List.mem_append] at member
    rcases member with here | later
    · rcases utf8EncodeChar_cases c with ⟨ascii, single⟩ | ⟨_, wide⟩
      · rw [single, List.mem_singleton] at here
        exact ⟨c, List.mem_cons_self, here.symm, ascii⟩
      · exact absurd (wide b here) (Nat.not_le.mpr small)
    · obtain ⟨c', inside, same⟩ := ih later
      exact ⟨c', List.mem_cons_of_mem c inside, same⟩

theorem eq_of_byte {c d : Char} (small : c.toNat < 0x80) (ascii : d.toNat < 0x80)
    (same : UInt8.ofNat c.toNat = UInt8.ofNat d.toNat) : c = d := by
  have codes := congrArg UInt8.toNat same
  rw [UInt8.toNat_ofNat', UInt8.toNat_ofNat'] at codes
  exact Char.toNat_inj.mp (by omega)

/-- Bytes written as percent escapes, the digits in either case. -/
inductive Percent : List UInt8 → List Char → Prop
  | nil : Percent [] []
  | cons (high low : Char) (h l : Nat) (bytes : List UInt8) (written : List Char)
      (ascii : high.toNat < 0x80 ∧ low.toNat < 0x80) (first : hexDigit (UInt8.ofNat high.toNat) = some h)
      (second : hexDigit (UInt8.ofNat low.toNat) = some l) (later : Percent bytes written) :
      Percent (UInt8.ofNat (16 * h + l) :: bytes) ('%' :: high :: low :: written)

/-- A text, and how it is written on one line: each character as it is, or as the escapes of
its bytes. -/
inductive Quoted : List Char → List Char → Prop
  | nil : Quoted [] []
  | literal (c : Char) (rest written : List Char) (unescaped : c ≠ '%') (inLine : c ≠ '\n')
      (later : Quoted rest written) : Quoted (c :: rest) (c :: written)
  | escaped (c : Char) (rest escapes written : List Char) (bytes : Percent (String.utf8EncodeChar c) escapes)
      (later : Quoted rest written) : Quoted (c :: rest) (escapes ++ written)

theorem Percent.ascii {bytes : List UInt8} {written : List Char} (percent : Percent bytes written) : Ascii written := by
  induction percent with
  | nil => exact nofun
  | cons high low h l bytes written ascii _ _ _ ih =>
    unfold Ascii at ih ⊢
    simp only [List.forall_mem_cons]
    exact ⟨by decide, ascii.1, ascii.2, ih⟩

theorem hexDigit_newline {c : Char} {n : Nat} (digit : hexDigit (UInt8.ofNat c.toNat) = some n) : c ≠ '\n' := by
  rintro rfl
  cases digit

theorem Percent.oneLine {bytes : List UInt8} {written : List Char} (percent : Percent bytes written) : '\n' ∉ written := by
  induction percent with
  | nil => exact List.not_mem_nil
  | cons high low h l bytes written ascii first second later ih =>
    simp only [List.mem_cons, not_or]
    exact ⟨by decide, (hexDigit_newline first).symm, (hexDigit_newline second).symm, ih⟩

theorem Quoted.oneLine {value written : List Char} (quoted : Quoted value written) : '\n' ∉ written := by
  induction quoted with
  | nil => exact List.not_mem_nil
  | literal c rest written unescaped inLine later ih =>
    rw [List.mem_cons, not_or]
    exact ⟨inLine.symm, ih⟩
  | escaped c rest escapes written bytes later ih =>
    rw [List.mem_append, not_or]
    exact ⟨bytes.oneLine, ih⟩

theorem unquoteToBytes_plain {b : UInt8} (plain : b ≠ 0x25) (rest : List UInt8) :
    unquoteToBytes (b :: rest) = b :: unquoteToBytes rest :=
  unquoteToBytes.eq_2 b rest fun _ _ _ same _ => plain same

theorem unquoteToBytes_percent {bytes : List UInt8} {written : List Char} (percent : Percent bytes written)
    (more : List UInt8) : unquoteToBytes (asciiBytes written ++ more) = bytes ++ unquoteToBytes more := by
  induction percent with
  | nil => rfl
  | cons high low h l bytes written ascii first second later ih =>
    show unquoteToBytes (0x25 :: UInt8.ofNat high.toNat :: UInt8.ofNat low.toNat :: (asciiBytes written ++ more)) = _
    rw [unquoteToBytes, first, second]
    exact congrArg (UInt8.ofNat (16 * h + l) :: ·) ih

/-- A stretch of escapes and ASCII characters that stands for `front`, whatever follows. -/
def Unquotes (stretch : List UInt8) (front : List Char) : Prop :=
  ∀ more, unquoteToBytes (stretch ++ more) = utf8 (String.ofList front) ++ unquoteToBytes more

theorem unquotes_nil : Unquotes [] [] := fun _ => rfl

theorem Unquotes.append {stretch added : List UInt8} {front : List Char} {c : Char} (known : Unquotes stretch front)
    (more : ∀ rest, unquoteToBytes (added ++ rest) = String.utf8EncodeChar c ++ unquoteToBytes rest) :
    Unquotes (stretch ++ added) (front ++ [c]) := by
  intro rest
  have single : utf8 (String.ofList [c]) = String.utf8EncodeChar c := by
    rw [utf8_cons]
    exact List.append_nil _
  rw [List.append_assoc, known, more, utf8_ofList_append, single, List.append_assoc]

theorem Unquotes.decode {stretch : List UInt8} {front : List Char} (known : Unquotes stretch front) :
    decodeFrom none (unquoteToBytes stretch) = front := by
  have whole := known []
  rw [List.append_nil, unquoteToBytes, List.append_nil] at whole
  have same := decode_utf8 front
  rw [whole]
  exact String.ofList_injective same

theorem unquoteFrom_ascii {written : List Char} (ascii : Ascii written) (stretch : List UInt8) (rest : List Char) :
    unquoteFrom stretch (written ++ rest) = unquoteFrom (stretch ++ asciiBytes written) rest := by
  induction written generalizing stretch with
  | nil => rw [asciiBytes, List.map_nil, List.append_nil]; rfl
  | cons c more ih =>
    obtain ⟨small, later⟩ := List.forall_mem_cons.mp ascii
    rw [List.cons_append, unquoteFrom, if_pos small, ih later, List.append_assoc]
    rfl

theorem unquoteFrom_quoted {value written : List Char} (quoted : Quoted value written) {stretch : List UInt8}
    {front : List Char} (known : Unquotes stretch front) : unquoteFrom stretch written = front ++ value := by
  induction quoted generalizing stretch front with
  | nil => rw [unquoteFrom, known.decode, List.append_nil]
  | literal c rest written unescaped inLine later ih =>
    rw [unquoteFrom]
    rcases utf8EncodeChar_cases c with ⟨small, bytes⟩ | ⟨wide, _⟩
    · have plain : UInt8.ofNat c.toNat ≠ 0x25 := fun same =>
        unescaped (eq_of_byte small (by decide) same)
      rw [if_pos small, ih (known.append fun rest => ?_), List.append_assoc]
      · rfl
      · rw [bytes]
        exact unquoteToBytes_plain plain rest
    · rw [if_neg (Nat.not_lt.mpr wide), known.decode, ih unquotes_nil]
      rfl
  | escaped c rest escapes written bytes later ih =>
    rw [unquoteFrom_ascii bytes.ascii, ih (known.append (unquoteToBytes_percent bytes)), List.append_assoc]
    rfl

theorem unquote_quoted {value written : List Char} (quoted : Quoted value written) :
    unquote (decode (utf8 (String.ofList written))) = String.ofList value := by
  rw [decode_utf8, unquote, String.toList_ofList, unquoteFrom_quoted quoted unquotes_nil]
  rfl

end Fswtch.Lib.PythonText
