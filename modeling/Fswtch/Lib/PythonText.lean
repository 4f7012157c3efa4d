import Fswtch.Lib.ChunkedText

/-! The bytes and text functions of Python: `bytes.decode(errors="replace")`, `int`, `strip`,
`split` at the first separator, slices, `urllib.parse.unquote`, and a `dict` that keeps its order. -/

namespace Fswtch.Lib.PythonText
open Fswtch.Lib.ByteReader Fswtch.Lib.ChunkedText

def replacement : Char := Char.ofNat 0xFFFD

/-- A character whose first bytes were read: its bits so far, how many bytes follow the next
one, and the bounds of the next one, counted from 0x80. -/
structure Pending where
  bits : Nat
  more : Nat
  low : Nat
  high : Nat

/-- The bounds keep out overlong forms, surrogates and what lies past U+10FFFF. -/
def lead (b : UInt8) : Option Pending :=
  let n := b.toNat
  if 0xC2 ≤ n ∧ n ≤ 0xDF then some ⟨n - 0xC0, 0, 0, 0x3F⟩
  else if n = 0xE0 then some ⟨0, 1, 0x20, 0x3F⟩
  else if n = 0xED then some ⟨0xD, 1, 0, 0x1F⟩
  else if 0xE1 ≤ n ∧ n ≤ 0xEF then some ⟨n - 0xE0, 1, 0, 0x3F⟩
  else if n = 0xF0 then some ⟨0, 2, 0x10, 0x3F⟩
  else if n = 0xF4 then some ⟨4, 2, 0, 0x0F⟩
  else if 0xF1 ≤ n ∧ n ≤ 0xF3 then some ⟨n - 0xF0, 2, 0, 0x3F⟩
  else none

/-- The character of a multibyte form; what `lead` admits is always one. -/
def multibyte (bits : Nat) : Char :=
  if 0x80 ≤ bits ∧ bits.isValidChar then Char.ofNat bits else replacement

def startChar (b : UInt8) : List Char × Option Pending :=
  if b.toNat < 0x80 then ([Char.ofNat b.toNat], none)
  else match lead b with
    | some pending => ([], some pending)
    | none => ([replacement], none)

def Pending.accepts (p : Pending) (b : UInt8) : Bool :=
  decide (0x80 + p.low ≤ b.toNat ∧ b.toNat ≤ 0x80 + p.high)

def Pending.next (p : Pending) (b : UInt8) : List Char × Option Pending :=
  let bits := p.bits * 64 + (b.toNat - 0x80)
  match p.more with
  | 0 => ([multibyte bits], none)
  | more + 1 => ([], some ⟨bits, more, 0, 0x3F⟩)

def decodeByte : Option Pending → UInt8 → List Char × Option Pending
  | none, b => startChar b
  | some p, b => if p.accepts b then p.next b else (replacement :: (startChar b).1, (startChar b).2)

def decodeFrom (state : Option Pending) : List UInt8 → List Char
  | [] => if state.isSome then [replacement] else []
  | b :: rest => (decodeByte state b).1 ++ decodeFrom (decodeByte state b).2 rest

def decode (bytes : List UInt8) : String := String.ofList (decodeFrom none bytes)

def Ascii (text : List Char) : Prop := ∀ c ∈ text, c.toNat < 0x80

instance (text : List Char) : Decidable (Ascii text) := List.decidableBAll (fun c : Char => c.toNat < 0x80) text

def asciiBytes (text : List Char) : List UInt8 := text.map fun c => UInt8.ofNat c.toNat

theorem toNat_ofNat_byte (b : UInt8) (small : b.toNat < 0x80) : (Char.ofNat b.toNat).toNat = b.toNat := by
  have valid : b.toNat.isValidChar := .inl (by omega)
  rw [Char.ofNat, dif_pos valid]
  rfl

theorem multibyte_wide (bits : Nat) : 0x80 ≤ (multibyte bits).toNat := by
  unfold multibyte
  split
  next valid =>
    rw [Char.ofNat, dif_pos valid.2]
    exact valid.1
  next => decide

theorem decodeByte_ascii {c : Char} (small : c.toNat < 0x80) :
    decodeByte none (UInt8.ofNat c.toNat) = ([c], none) := by
  have byte : (UInt8.ofNat c.toNat).toNat = c.toNat := by
    rw [UInt8.toNat_ofNat']
    omega
  simp only [decodeByte, startChar, byte, if_pos small, Char.ofNat_toNat]

theorem decodeFrom_asciiBytes {text : List Char} (ascii : Ascii text) :
    decodeFrom none (asciiBytes text) = text := by
  induction text with
  | nil => rfl
  | cons c rest ih =>
    obtain ⟨small, later⟩ := List.forall_mem_cons.mp ascii
    rw [asciiBytes, List.map_cons, decodeFrom, decodeByte_ascii small]
    exact congrArg (c :: ·) (ih later)

/-- A byte is an ASCII character, or it leaves one that is not, at once or later. -/
theorem decodeByte_cases (state : Option Pending) (b : UInt8) :
    (state = none ∧ b.toNat < 0x80 ∧ decodeByte state b = ([Char.ofNat b.toNat], none)) ∨
      (∃ c ∈ (decodeByte state b).1, 0x80 ≤ c.toNat) ∨ (decodeByte state b).2.isSome := by
  have replaced : 0x80 ≤ replacement.toNat := by decide
  cases state with
  | none =>
    by_cases small : b.toNat < 0x80
    · exact .inl ⟨rfl, small, if_pos small⟩
    · refine .inr ?_
      rw [decodeByte, startChar, if_neg small]
      cases lead b with
      | some pending => exact .inr rfl
      | none => exact .inl ⟨replacement, List.mem_singleton.mpr rfl, replaced⟩
  | some p =>
    refine .inr ?_
    by_cases accepted : p.accepts b = true
    · rw [decodeByte, if_pos accepted, Pending.next]
      cases p.more with
      | zero => exact .inl ⟨_, List.mem_singleton.mpr rfl, multibyte_wide _⟩
      | succ more => exact .inr rfl
    · rw [decodeByte, if_neg accepted]
      exact .inl ⟨replacement, List.mem_cons_self, replaced⟩

theorem eq_asciiBytes_of_decodeFrom {bytes : List UInt8} {state : Option Pending}
    (ascii : Ascii (decodeFrom state bytes)) : state = none ∧ bytes = asciiBytes (decodeFrom state bytes) := by
  induction bytes generalizing state with
  | nil =>
    cases state with
    | none => exact ⟨rfl, rfl⟩
    | some p => exact absurd (ascii replacement (List.mem_singleton.mpr rfl)) (by decide)
  | cons b rest ih =>
    rw [decodeFrom] at ascii ⊢
    obtain ⟨emitted, later⟩ := List.forall_mem_append.mp ascii
    obtain ⟨settled, same⟩ := ih later
    rcases decodeByte_cases state b with ⟨rfl, small, step⟩ | ⟨c, member, wide⟩ | pending
    · refine ⟨rfl, ?_⟩
      rw [step] at same ⊢
      rw [List.singleton_append, asciiBytes, List.map_cons, toNat_ofNat_byte b small, UInt8.ofNat_toNat]
      exact congrArg (b :: ·) same
    · exact absurd (emitted c member) (Nat.not_lt.mpr wide)
    · rw [settled] at pending
      cases pending

theorem decode_eq_iff {text : List Char} (ascii : Ascii text) (bytes : List UInt8) :
    decode bytes = String.ofList text ↔ bytes = asciiBytes text := by
  constructor
  · intro same
    have decoded := String.ofList_injective same
    rw [← decoded] at ascii ⊢
    exact (eq_asciiBytes_of_decodeFrom ascii).2
  · rintro rfl
    rw [decode, decodeFrom_asciiBytes ascii]

def decimalZeros : List Nat :=
  [0x30, 0x660, 0x6F0, 0x7C0, 0x966, 0x9E6, 0xA66, 0xAE6, 0xB66, 0xBE6, 0xC66, 0xCE6, 0xD66, 0xDE6,
    0xE50, 0xED0, 0xF20, 0x1040, 0x1090, 0x17E0, 0x1810, 0x1946, 0x19D0, 0x1A80, 0x1A90, 0x1B50, 0x1BB0,
    0x1C40, 0x1C50, 0xA620, 0xA8D0, 0xA900, 0xA9D0, 0xA9F0, 0xAA50, 0xABF0, 0xFF10, 0x104A0, 0x10D30,
    0x11066, 0x110F0, 0x11136, 0x111D0, 0x112F0, 0x11450, 0x114D0, 0x11650, 0x116C0, 0x11730, 0x118E0,
    0x11950, 0x11C50, 0x11D50, 0x11DA0, 0x16A60, 0x16AC0, 0x16B50, 0x1D7CE, 0x1D7D8, 0x1D7E2, 0x1D7EC,
    0x1D7F6, 0x1E140, 0x1E2F0, 0x1E950, 0x1FBF0]

def decimalValue (c : Char) : Option Nat :=
  (decimalZeros.find? fun d => decide (d ≤ c.toNat ∧ c.toNat < d + 10)).map (c.toNat - ·)

def isSpace (c : Char) : Bool :=
  let n := c.toNat
  decide (9 ≤ n ∧ n ≤ 13 ∨ 0x1C ≤ n ∧ n ≤ 0x20 ∨ n = 0x85 ∨ n = 0xA0 ∨ n = 0x1680 ∨
    0x2000 ≤ n ∧ n ≤ 0x200A ∨ n = 0x2028 ∨ n = 0x2029 ∨ n = 0x202F ∨ n = 0x205F ∨ n = 0x3000)

def stripChars (text : List Char) : List Char :=
  ((text.dropWhile isSpace).reverse.dropWhile isSpace).reverse

def strip (text : String) : String := String.ofList (stripChars text.toList)

def digits (value : Nat) (afterDigit : Bool) : List Char → Option Nat
  | [] => if afterDigit then some value else none
  | c :: rest =>
    if c = '_' then (if afterDigit then digits value false rest else none)
    else match decimalValue c with
      | some d => digits (10 * value + d) true rest
      | none => none

/-- `int(text)`; `none` is its `ValueError`. No limit on the number of digits is set. -/
def int (text : String) : Option Int :=
  match stripChars text.toList with
  | '-' :: rest => (digits 0 false rest).map fun n => -(n : Int)
  | '+' :: rest => (digits 0 false rest).map Int.ofNat
  | rest => (digits 0 false rest).map Int.ofNat

theorem isDigit_bounds {c : Char} (digit : c.isDigit) : 48 ≤ c.toNat ∧ c.toNat ≤ 57 := by
  have both := Bool.and_eq_true_iff.mp digit
  exact ⟨of_decide_eq_true both.1, of_decide_eq_true both.2⟩

theorem decimalValue_isDigit {c : Char} (digit : c.isDigit) : decimalValue c = some (c.toNat - 48) := by
  have bounds := isDigit_bounds digit
  have first : decide (0x30 ≤ c.toNat ∧ c.toNat < 0x30 + 10) = true := decide_eq_true (by omega)
  have table : decimalZeros = 0x30 :: decimalZeros.tail := rfl
  have found : decimalZeros.find? (fun d => decide (d ≤ c.toNat ∧ c.toNat < d + 10)) = some 0x30 := by
    rw [table]
    exact List.find?_cons_of_pos first
  rw [decimalValue, found]
  rfl

theorem isSpace_isDigit {c : Char} (digit : c.isDigit) : isSpace c = false := by
  have bounds := isDigit_bounds digit
  exact decide_eq_false (by omega)

theorem digits_ofDigitChars {text : List Char} (all : ∀ c ∈ text, c.isDigit) (value : Nat) :
    digits value true text = some (Nat.ofDigitChars 10 text value) := by
  induction text generalizing value with
  | nil => rfl
  | cons c rest ih =>
    obtain ⟨digit, later⟩ := List.forall_mem_cons.mp all
    have apart : c ≠ '_' := by
      rintro rfl
      cases digit
    rw [digits, if_neg apart, decimalValue_isDigit digit, Nat.ofDigitChars_cons]
    exact ih later _

theorem dropWhile_digits {text : List Char} (all : ∀ c ∈ text, c.isDigit) :
    text.dropWhile isSpace = text := by
  cases text with
  | nil => rfl
  | cons c rest =>
    rw [List.dropWhile_cons_of_neg]
    rw [isSpace_isDigit (all c List.mem_cons_self)]
    exact Bool.false_ne_true

theorem int_toDigits (n : Nat) : int (String.ofList (Nat.toDigits 10 n)) = some (n : Int) := by
  have all : ∀ c ∈ Nat.toDigits 10 n, c.isDigit := fun c member =>
    Nat.isDigit_of_mem_toDigits (by decide) (by decide) member
  have stripped : stripChars (Nat.toDigits 10 n) = Nat.toDigits 10 n := by
    have backwards : ∀ c ∈ (Nat.toDigits 10 n).reverse, c.isDigit := fun c member =>
      all c (List.mem_reverse.mp member)
    rw [stripChars, dropWhile_digits all, dropWhile_digits backwards, List.reverse_reverse]
  have value : Nat.ofDigitChars 10 (Nat.toDigits 10 n) 0 = n := Nat.ofDigitChars_ten_toDigits
  unfold int
  rw [String.toList_ofList, stripped]
  cases known : Nat.toDigits 10 n with
  | nil => exact absurd known Nat.toDigits_ne_nil
  | cons c rest =>
    rw [known] at all value
    obtain ⟨digit, later⟩ := List.forall_mem_cons.mp all
    have unsigned : c ≠ '-' ∧ c ≠ '+' ∧ c ≠ '_' := by
      refine ⟨?_, ?_, ?_⟩ <;>
      · rintro rfl
        cases digit
    have whole : digits 0 false (c :: rest) = some n := by
      rw [digits, if_neg unsigned.2.2, decimalValue_isDigit digit, ← value, Nat.ofDigitChars_cons]
      exact digits_ofDigitChars later _
    split
    next same => exact absurd (List.cons.inj same).1 unsigned.1
    next same => exact absurd (List.cons.inj same).1 unsigned.2.1
    next => rw [whole]; rfl

variable {α : Type}

/-- `text[:n]` and `text[n:]`; a negative `n` counts from the end. -/
def sliceAt (n : Int) (text : List α) : List α × List α :=
  text.splitAt (if n < 0 then (text.length + n).toNat else n.toNat)

theorem sliceAt_nat (n : Nat) (text : List α) : sliceAt n text = (text.take n, text.drop n) := by
  rw [sliceAt, if_neg (Int.not_lt.mpr (Int.natCast_nonneg n)), Int.toNat_natCast, List.splitAt_eq]

variable [DecidableEq α]

def splitOnce (separator : List α) : List α → Option (List α × List α)
  | [] => none
  | x :: rest =>
    match (x :: rest).dropPrefix? separator with
    | some back => some ([], back)
    | none => (splitOnce separator rest).map fun halves => (x :: halves.1, halves.2)

theorem dropPrefix_eq_some {separator text back : List α} :
    text.dropPrefix? separator = some back ↔ text = separator ++ back := by
  constructor
  · intro dropped
    obtain ⟨front, same, equal⟩ := List.dropPrefix?_eq_some_iff.mp dropped
    rw [same, eq_of_beq equal]
  · rintro rfl
    exact List.dropPrefix?_eq_some_iff.mpr ⟨separator, rfl, beq_self_eq_true separator⟩

theorem splitOnce_eq_some {separator text front back : List α}
    (split : splitOnce separator text = some (front, back)) : text = front ++ separator ++ back := by
  fun_induction splitOnce separator text generalizing front back with
  | case1 => cases split
  | case2 x rest after dropped =>
    cases split
    exact dropPrefix_eq_some.mp dropped
  | case3 x rest absent ih =>
    obtain ⟨halves, later, same⟩ := Option.map_eq_some_iff.mp split
    cases same
    rw [ih later]
    rfl

theorem splitOnce_here (x : α) (separator back : List α) :
    splitOnce (x :: separator) (x :: (separator ++ back)) = some ([], back) := by
  have dropped : (x :: (separator ++ back)).dropPrefix? (x :: separator) = some back := dropPrefix_eq_some.mpr rfl
  rw [splitOnce, dropped]

theorem splitOnce_cons {x : α} {separator rest : List α} (other : ¬separator <+: x :: rest) :
    splitOnce separator (x :: rest) = (splitOnce separator rest).map fun halves => (x :: halves.1, halves.2) := by
  have kept : (x :: rest).dropPrefix? separator = none := by
    cases found : (x :: rest).dropPrefix? separator with
    | none => rfl
    | some back => exact absurd ⟨back, (dropPrefix_eq_some.mp found).symm⟩ other
  rw [splitOnce, kept]

/-- Text without the first letter of the separator is passed over. -/
theorem splitOnce_pass {x : α} {front : List α} (clean : x ∉ front) (separator rest : List α) :
    splitOnce (x :: separator) (front ++ rest) =
      (splitOnce (x :: separator) rest).map fun halves => (front ++ halves.1, halves.2) := by
  induction front with
  | nil => exact Option.map_id'.symm
  | cons y more ih =>
    obtain ⟨apart, later⟩ := not_or.mp (mt List.mem_cons.mpr clean)
    have other : ¬(x :: separator) <+: y :: (more ++ rest) := fun before =>
      apart (List.cons_prefix_cons.mp before).1
    rw [List.cons_append, splitOnce_cons other, ih later, Option.map_map]
    rfl

/-- The first separator is found where the text before it lacks its first letter. -/
theorem splitOnce_append {x : α} {front : List α} (clean : x ∉ front) (separator back : List α) :
    splitOnce (x :: separator) (front ++ (x :: separator) ++ back) = some (front, back) := by
  rw [List.append_assoc, splitOnce_pass clean, List.cons_append, splitOnce_here, Option.map_some, List.append_nil]

def hexDigit (b : UInt8) : Option Nat :=
  let n := b.toNat
  if 0x30 ≤ n ∧ n ≤ 0x39 then some (n - 0x30)
  else if 0x41 ≤ n ∧ n ≤ 0x46 then some (n - 0x37)
  else if 0x61 ≤ n ∧ n ≤ 0x66 then some (n - 0x57)
  else none

def unquoteToBytes : List UInt8 → List UInt8
  | 0x25 :: a :: b :: rest =>
    match hexDigit a, hexDigit b with
    | some high, some low => UInt8.ofNat (16 * high + low) :: unquoteToBytes rest
    | _, _ => 0x25 :: unquoteToBytes (a :: b :: rest)
  | b :: rest => b :: unquoteToBytes rest
  | [] => []

def unquoteFrom (stretch : List UInt8) : List Char → List Char
  | [] => decodeFrom none (unquoteToBytes stretch)
  | c :: rest =>
    if c.toNat < 0x80 then unquoteFrom (stretch ++ [UInt8.ofNat c.toNat]) rest
    else decodeFrom none (unquoteToBytes stretch) ++ c :: unquoteFrom [] rest

def unquote (text : String) : String := String.ofList (unquoteFrom [] text.toList)

variable {κ υ : Type} [DecidableEq κ]

/-- A `dict` in the order its keys were first set. -/
abbrev Dict (κ υ : Type) := List (κ × υ)

def Dict.get (d : Dict κ υ) (key : κ) : Option υ := (d.find? fun entry => entry.1 = key).map Prod.snd

def Dict.set (d : Dict κ υ) (key : κ) (value : υ) : Dict κ υ :=
  match d with
  | [] => [(key, value)]
  | entry :: rest =>
    if entry.1 = key then (entry.1, value) :: rest else entry :: Dict.set rest key value

theorem Dict.get_set (d : Dict κ υ) (key other : κ) (value : υ) :
    (d.set key value).get other = if key = other then some value else d.get other := by
  induction d with
  | nil =>
    by_cases same : key = other <;> simp [Dict.set, Dict.get, same]
  | cons entry rest ih =>
    unfold Dict.get at ih
    unfold Dict.set
    by_cases here : entry.1 = key
    · by_cases same : key = other <;> simp [Dict.get, here, same]
    · rw [if_neg here]
      by_cases found : entry.1 = other
      · have apart : ¬key = other := fun same => here (found.trans same.symm)
        simp [Dict.get, found, apart]
      · simpa [Dict.get, found] using ih

theorem Dict.set_of_new {d : Dict κ υ} {key : κ} (new : key ∉ d.map Prod.fst) (value : υ) :
    d.set key value = d ++ [(key, value)] := by
  induction d with
  | nil => rfl
  | cons entry rest ih =>
    obtain ⟨apart, later⟩ := not_or.mp (mt List.mem_cons.mpr new)
    rw [Dict.set, if_neg (Ne.symm apart), ih later]
    rfl

end Fswtch.Lib.PythonText
