import Mathlib.Algebra.GroupWithZero.Nat
import Mathlib.Data.List.Basic

/-! Readers over a byte string. A reader takes bytes from the front of its input
or fails. `Consumes` ties a reader to the grammar of what it takes: it succeeds
exactly on a derivation of the grammar followed by the rest it hands back, so a
sequence of readers consumes the concatenation of their grammars. -/

namespace Fswtch.Lib.ByteReader

abbrev Reader (ε α : Type) := StateT (List UInt8) (Except ε) α

abbrev Grammar (α : Type) := List UInt8 → α → Prop

variable {ε α β : Type}

def Consumes (reader : Reader ε α) (grammar : Grammar α) : Prop :=
  ∀ input value rest, reader.run input = .ok (value, rest) ↔
    ∃ used, input = used ++ rest ∧ grammar used value

theorem Consumes.congr {reader : Reader ε α} {first second : Grammar α}
    (reads : Consumes reader first) (same : ∀ used value, first used value ↔ second used value) :
    Consumes reader second := by
  intro input value rest
  rw [reads input value rest]
  exact exists_congr (fun used => and_congr_right (fun _ => same used value))

theorem consumes_pure (value : α) :
    Consumes (pure value : Reader ε α) (fun used result => used = [] ∧ result = value) := by
  intro input result rest
  change Except.ok (value, input) = Except.ok (result, rest) ↔ _
  constructor
  · intro same
    cases same
    exact ⟨[], rfl, rfl, rfl⟩
  · rintro ⟨used, rfl, rfl, rfl⟩
    rfl

theorem consumes_throw (error : ε) :
    Consumes (throw error : Reader ε α) (fun _ _ => False) := by
  intro input result rest
  change Except.error error = Except.ok (result, rest) ↔ _
  simp

theorem run_bind (reader : Reader ε α) (next : α → Reader ε β) (input : List UInt8) :
    (reader >>= next).run input = match reader.run input with
      | .ok (value, rest) => (next value).run rest
      | .error error => .error error := by
  rw [StateT.run_bind]
  cases reader.run input <;> rfl

theorem Consumes.bind {reader : Reader ε α} {next : α → Reader ε β}
    {grammar : Grammar α} {later : α → Grammar β}
    (first : Consumes reader grammar) (second : ∀ value, Consumes (next value) (later value)) :
    Consumes (reader >>= next) (fun used result =>
      ∃ front back value, used = front ++ back ∧ grammar front value ∧ later value back result) := by
  intro input result rest
  rw [run_bind]
  constructor
  · intro succeeded
    cases taken : reader.run input with
    | error error => simp [taken] at succeeded
    | ok pair =>
      obtain ⟨value, middle⟩ := pair
      simp only [taken] at succeeded
      obtain ⟨front, rfl, derived⟩ := (first _ _ _).mp taken
      obtain ⟨back, rfl, remaining⟩ := (second value _ _ _).mp succeeded
      exact ⟨front ++ back, (List.append_assoc ..).symm, front, back, value, rfl, derived, remaining⟩
  · rintro ⟨_, rfl, front, back, value, rfl, derived, remaining⟩
    have taken := (first (front ++ (back ++ rest)) value (back ++ rest)).mpr ⟨front, rfl, derived⟩
    rw [List.append_assoc, taken]
    exact (second value _ _ _).mpr ⟨back, rfl, remaining⟩

/-- A reader applied to the whole of an input, nothing left over. -/
theorem Consumes.whole {reader : Reader ε α} {grammar : Grammar α}
    (reads : Consumes reader grammar) (input : List UInt8) (value : α) :
    reader.run input = .ok (value, []) ↔ grammar input value := by
  rw [reads]
  simp

/-- `n` bytes off the front of the input. -/
def take (short : ε) (n : Nat) : Reader ε (List UInt8) := fun input =>
  if input.length < n then .error short else .ok (input.take n, input.drop n)

theorem consumes_take (short : ε) (n : Nat) :
    Consumes (take short n) (fun used value => used = value ∧ value.length = n) := by
  intro input value rest
  change (if input.length < n then Except.error short
    else Except.ok (input.take n, input.drop n)) = _ ↔ _
  constructor
  · intro succeeded
    split at succeeded
    · cases succeeded
    · simp only [Except.ok.injEq, Prod.mk.injEq] at succeeded
      obtain ⟨rfl, rfl⟩ := succeeded
      exact ⟨_, (List.take_append_drop n input).symm, rfl, by rw [List.length_take]; omega⟩
  · rintro ⟨used, rfl, rfl, rfl⟩
    simp

def be32 (word : UInt32) : List UInt8 :=
  [UInt8.ofNat (word.toNat / 2 ^ 24), UInt8.ofNat (word.toNat / 2 ^ 16),
    UInt8.ofNat (word.toNat / 2 ^ 8), UInt8.ofNat word.toNat]

def ofBe32 (a b c d : UInt8) : UInt32 :=
  UInt32.ofNat (a.toNat * 2 ^ 24 + b.toNat * 2 ^ 16 + c.toNat * 2 ^ 8 + d.toNat)

@[simp] theorem be32_length (word : UInt32) : (be32 word).length = 4 := rfl

theorem ofBe32_be32 (word : UInt32) :
    ofBe32 (UInt8.ofNat (word.toNat / 2 ^ 24)) (UInt8.ofNat (word.toNat / 2 ^ 16))
      (UInt8.ofNat (word.toNat / 2 ^ 8)) (UInt8.ofNat word.toNat) = word := by
  have bound := word.toNat_lt
  apply UInt32.toNat_inj.mp
  simp only [ofBe32, UInt32.toNat_ofNat', UInt8.toNat_ofNat']
  omega

theorem be32_ofBe32 (a b c d : UInt8) : be32 (ofBe32 a b c d) = [a, b, c, d] := by
  have ha := a.toNat_lt
  have hb := b.toNat_lt
  have hc := c.toNat_lt
  have hd := d.toNat_lt
  have total : (ofBe32 a b c d).toNat =
      a.toNat * 2 ^ 24 + b.toNat * 2 ^ 16 + c.toNat * 2 ^ 8 + d.toNat := by
    simp only [ofBe32, UInt32.toNat_ofNat']
    omega
  simp only [be32, total, List.cons.injEq, and_true]
  refine ⟨?_, ?_, ?_, ?_⟩ <;>
    (apply UInt8.toNat_inj.mp; rw [UInt8.toNat_ofNat']; omega)

theorem be32_injective : Function.Injective be32 := by
  intro first second same
  rw [← ofBe32_be32 first, ← ofBe32_be32 second]
  simp only [be32, List.cons.injEq, and_true] at same
  obtain ⟨ha, hb, hc, hd⟩ := same
  rw [ha, hb, hc, hd]

def takeBe32 (short : ε) : Reader ε UInt32 := do
  match ← take short 4 with
  | [a, b, c, d] => pure (ofBe32 a b c d)
  | _ => throw short

theorem consumes_takeBe32 (short : ε) :
    Consumes (takeBe32 short) (fun used value => used = be32 value) := by
  have body : ∀ bytes : List UInt8, Consumes (match bytes with
      | [a, b, c, d] => pure (ofBe32 a b c d)
      | _ => throw short : Reader ε UInt32)
      (fun used value => used = [] ∧ bytes.length = 4 ∧ bytes = be32 value) := by
    intro bytes
    match bytes with
    | [a, b, c, d] =>
      refine (consumes_pure _).congr (fun used value => and_congr_right fun _ => ?_)
      constructor
      · rintro rfl
        exact ⟨rfl, (be32_ofBe32 a b c d).symm⟩
      · rintro ⟨_, same⟩
        exact be32_injective (same.symm.trans (be32_ofBe32 a b c d).symm)
    | [] | [_] | [_, _] | [_, _, _] | _ :: _ :: _ :: _ :: _ :: _ =>
      exact (consumes_throw short).congr (fun used value => by simp)
  refine ((consumes_take short 4).bind body).congr (fun used value => ?_)
  constructor
  · rintro ⟨front, back, bytes, rfl, ⟨rfl, _⟩, rfl, _, same⟩
    simpa using same
  · rintro rfl
    exact ⟨be32 value, [], be32 value, by simp, ⟨rfl, rfl⟩, rfl, rfl, rfl⟩

def takePrefixed (short : ε) : Reader ε (List UInt8) := do
  let size ← takeBe32 short
  take short size.toNat

def Prefixed : Grammar (List UInt8) := fun used value =>
  value.length < 2 ^ 32 ∧ used = be32 (UInt32.ofNat value.length) ++ value

theorem consumes_takePrefixed (short : ε) : Consumes (takePrefixed short) Prefixed := by
  refine ((consumes_takeBe32 short).bind fun size => consumes_take short size.toNat).congr
    (fun used value => ?_)
  constructor
  · rintro ⟨front, back, size, rfl, rfl, rfl, length⟩
    have bound := size.toNat_lt
    refine ⟨by omega, ?_⟩
    rw [length, UInt32.ofNat_toNat]
  · rintro ⟨bound, rfl⟩
    exact ⟨_, value, UInt32.ofNat value.length, rfl, rfl, rfl, by
      rw [UInt32.toNat_ofNat']; omega⟩

theorem Prefixed.unique {used : List UInt8} {first second : List UInt8}
    (left : Prefixed used first) (right : Prefixed used second) : first = second := by
  have same := left.2.symm.trans right.2
  exact List.append_inj_right same rfl

def utf8 (text : String) : List UInt8 := text.toByteArray.data.toList

def fromUtf8 (bytes : List UInt8) : Option String := String.fromUTF8? ⟨bytes.toArray⟩

theorem fromUtf8_eq_some (bytes : List UInt8) (text : String) :
    fromUtf8 bytes = some text ↔ bytes = utf8 text := by
  unfold fromUtf8 String.fromUTF8? utf8
  constructor
  · intro decoded
    split at decoded
    · simp only [Option.some.injEq] at decoded
      subst decoded
      rfl
    · cases decoded
  · rintro rfl
    have valid : (ByteArray.mk text.toByteArray.data.toList.toArray).IsValidUTF8 :=
      text.isValidUTF8
    rw [dif_pos valid]
    rfl

theorem utf8_injective : Function.Injective utf8 := by
  intro first second same
  have left := (fromUtf8_eq_some (utf8 first) first).mpr rfl
  have right := (fromUtf8_eq_some (utf8 first) second).mpr same
  exact Option.some.inj (left.symm.trans right)

def takePrefixedUtf8 (short : ε) : Reader ε String := do
  let bytes ← takePrefixed short
  match fromUtf8 bytes with
  | some text => pure text
  | none => throw short

theorem consumes_takePrefixedUtf8 (short : ε) :
    Consumes (takePrefixedUtf8 short) (fun used text => Prefixed used (utf8 text)) := by
  have body : ∀ bytes, Consumes (match fromUtf8 bytes with
      | some text => pure text
      | none => throw short : Reader ε String)
      (fun used text => used = [] ∧ bytes = utf8 text) := by
    intro bytes
    cases decoded : fromUtf8 bytes with
    | none =>
      refine (consumes_throw short).congr (fun used text => ?_)
      have absent : bytes ≠ utf8 text := by
        intro same
        rw [(fromUtf8_eq_some bytes text).mpr same] at decoded
        cases decoded
      simp [absent]
    | some text =>
      refine (consumes_pure text).congr (fun used other => and_congr_right fun _ => ?_)
      rw [← fromUtf8_eq_some, decoded, Option.some.injEq, eq_comm]
  refine ((consumes_takePrefixed short).bind body).congr (fun used text => ?_)
  constructor
  · rintro ⟨front, back, bytes, rfl, field, rfl, rfl⟩
    simpa using field
  · intro field
    exact ⟨used, [], utf8 text, by simp, field, rfl, rfl⟩

end Fswtch.Lib.ByteReader
