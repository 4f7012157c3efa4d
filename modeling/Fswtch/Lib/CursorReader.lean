import Mathlib.Algebra.GroupWithZero.Nat
import Mathlib.Data.List.Basic

/-! Readers over a byte string that keep the position they have come to, for errors that name it.
`Reads` says which bytes a reader takes and what it makes of them; a sequence of readers takes the
concatenation. -/

namespace Fswtch.Lib.CursorReader

structure Cursor where
  position : Nat
  rest : List UInt8
  deriving DecidableEq

abbrev Reader (ε α : Type) := StateT Cursor (Except ε) α

variable {ε α β : Type}

def Reads (reader : Reader ε α) (used : List UInt8) (value : α) : Prop :=
  ∀ position back, reader.run ⟨position, used ++ back⟩ = .ok (value, ⟨position + used.length, back⟩)

def Forward (reader : Reader ε α) : Prop :=
  ∀ cursor value after, reader.run cursor = .ok (value, after) → after.rest.length ≤ cursor.rest.length

theorem run_bind (reader : Reader ε α) (next : α → Reader ε β) (cursor : Cursor) :
    (reader >>= next).run cursor = match reader.run cursor with
      | .ok (value, after) => (next value).run after
      | .error error => .error error := by
  rw [StateT.run_bind]
  cases reader.run cursor <;> rfl

theorem reads_pure (value : α) : Reads (pure value : Reader ε α) [] value := fun _ _ => rfl

theorem Reads.bind {reader : Reader ε α} {next : α → Reader ε β} {front back : List UInt8}
    {value : α} {result : β} (first : Reads reader front value) (second : Reads (next value) back result) :
    Reads (reader >>= next) (front ++ back) result := by
  intro position rest
  rw [run_bind, List.append_assoc, first]
  dsimp only
  rw [second, List.length_append, Nat.add_assoc]

theorem Reads.after {reader : Reader ε α} {next : α → Reader ε β} {used : List UInt8} {value : α} {result : β}
    (first : Reads reader [] value) (second : Reads (next value) used result) :
    Reads (reader >>= next) used result := first.bind second

theorem Reads.before {reader : Reader ε α} {next : α → Reader ε β} {used : List UInt8} {value : α} {result : β}
    (first : Reads reader used value) (second : Reads (next value) [] result) :
    Reads (reader >>= next) used result := by
  have both := first.bind second
  rwa [List.append_nil] at both

theorem Reads.map {reader : Reader ε α} {used : List UInt8} {value : α} (f : α → β)
    (reads : Reads reader used value) : Reads (f <$> reader) used (f value) := by
  intro position back
  rw [StateT.run_map, reads]
  rfl

theorem forward_pure (value : α) : Forward (pure value : Reader ε α) := by
  intro cursor result after returned
  cases returned
  exact Nat.le_refl _

theorem forward_throw (error : ε) : Forward (throw error : Reader ε α) := by
  intro cursor result after returned
  cases returned

theorem Forward.bind {reader : Reader ε α} {next : α → Reader ε β}
    (first : Forward reader) (second : ∀ value, Forward (next value)) : Forward (reader >>= next) := by
  intro cursor result after returned
  rw [run_bind] at returned
  cases taken : reader.run cursor with
  | error error => simp [taken] at returned
  | ok pair =>
    obtain ⟨value, middle⟩ := pair
    rw [taken] at returned
    exact Nat.le_trans (second value middle result after returned) (first cursor value middle taken)

theorem Forward.map {reader : Reader ε α} (f : α → β) (forward : Forward reader) :
    Forward (f <$> reader) := by
  rw [← bind_pure_comp]
  exact forward.bind fun value => forward_pure (f value)

def ensure (condition : Prop) [Decidable condition] (error : ε) : Reader ε Unit :=
  if condition then pure () else throw error

theorem reads_ensure {condition : Prop} [Decidable condition] (holds : condition) (error : ε) :
    Reads (ensure condition error) [] () := by
  rw [ensure, if_pos holds]
  exact reads_pure ()

theorem forward_ensure (condition : Prop) [Decidable condition] (error : ε) :
    Forward (ensure condition error) := by
  unfold ensure
  split
  · exact forward_pure ()
  · exact forward_throw error

/-- `n` bytes, or the error for the end of the input at this position. -/
def readExact (eof : Nat → ε) (n : Nat) : Reader ε (List UInt8) := fun cursor =>
  if cursor.rest.length < n then .error (eof cursor.position)
  else .ok (cursor.rest.take n, ⟨cursor.position + n, cursor.rest.drop n⟩)

theorem reads_readExact (eof : Nat → ε) (bytes : List UInt8) :
    Reads (readExact eof bytes.length) bytes bytes := by
  intro position back
  change (if (bytes ++ back).length < bytes.length then _ else _) = _
  rw [if_neg (by simp), List.take_left, List.drop_left]

theorem readExact_short (eof : Nat → ε) {n : Nat} {cursor : Cursor} (short : cursor.rest.length < n) :
    (readExact eof n).run cursor = .error (eof cursor.position) := if_pos short

theorem readExact_rest {eof : Nat → ε} {n : Nat} {cursor after : Cursor} {bytes : List UInt8}
    (returned : (readExact eof n).run cursor = .ok (bytes, after)) :
    after.rest.length + n = cursor.rest.length := by
  change (if cursor.rest.length < n then _ else _) = _ at returned
  split at returned
  · cases returned
  · cases returned
    rw [List.length_drop]
    omega

theorem forward_readExact (eof : Nat → ε) (n : Nat) : Forward (readExact eof n) := by
  intro cursor bytes after returned
  have taken := readExact_rest returned
  omega

/-- So many bytes read and dropped, a block at a time. -/
def discard (eof : Nat → ε) (block : Nat) (some : 0 < block) (remaining : Nat) : Reader ε Unit :=
  if remaining = 0 then pure ()
  else do
    let n := min remaining block
    let _ ← readExact eof n
    discard eof block some (remaining - n)
termination_by remaining

theorem reads_discard (eof : Nat → ε) {block : Nat} (some : 0 < block) (bytes : List UInt8) :
    Reads (discard eof block some bytes.length) bytes () := by
  induction count : bytes.length using Nat.strongRecOn generalizing bytes with
  | ind remaining ih =>
    rw [discard]
    by_cases none : remaining = 0
    · rw [if_pos none, List.length_eq_zero_iff.mp (count.trans none)]
      exact reads_pure ()
    · rw [if_neg none]
      have front : (bytes.take (min remaining block)).length = min remaining block := by
        rw [List.length_take]
        omega
      have back : (bytes.drop (min remaining block)).length = remaining - min remaining block := by
        rw [List.length_drop, count]
      have first := reads_readExact eof (bytes.take (min remaining block))
      have later := ih (remaining - min remaining block) (by omega) (bytes.drop (min remaining block)) back
      rw [front] at first
      have whole := @Reads.bind ε _ _ _ (fun _ => discard eof block some (remaining - min remaining block))
        _ _ _ _ first later
      rwa [List.take_append_drop] at whole

theorem discard_short (eof : Nat → ε) {block : Nat} (some : 0 < block) {remaining : Nat} {cursor : Cursor}
    (short : cursor.rest.length < remaining) :
    ∃ error, (discard eof block some remaining).run cursor = .error error := by
  induction remaining using Nat.strongRecOn generalizing cursor with
  | ind remaining ih =>
    rw [discard, if_neg (by omega), run_bind]
    cases taken : (readExact eof (min remaining block)).run cursor with
    | error error => exact ⟨error, rfl⟩
    | ok pair =>
      have left := readExact_rest taken
      exact ih (remaining - min remaining block) (by omega) (by omega)

theorem forward_discard (eof : Nat → ε) {block : Nat} (some : 0 < block) (remaining : Nat) :
    Forward (discard eof block some remaining) := by
  induction remaining using Nat.strongRecOn with
  | ind remaining ih =>
    rw [discard]
    split
    · exact forward_pure ()
    · exact (forward_readExact eof _).bind fun _ => ih _ (by omega)

def leBytes : Nat → Nat → List UInt8
  | 0, _ => []
  | width + 1, value => UInt8.ofNat value :: leBytes width (value / 2 ^ 8)

def ofLeBytes : List UInt8 → Nat
  | [] => 0
  | byte :: rest => byte.toNat + 2 ^ 8 * ofLeBytes rest

@[simp] theorem length_leBytes (width value : Nat) : (leBytes width value).length = width := by
  induction width generalizing value with
  | zero => rfl
  | succ width ih => rw [leBytes, List.length_cons, ih]

theorem ofLeBytes_leBytes {width value : Nat} (small : value < (2 ^ 8) ^ width) :
    ofLeBytes (leBytes width value) = value := by
  induction width generalizing value with
  | zero => exact (Nat.lt_one_iff.mp small).symm
  | succ width ih =>
    rw [Nat.pow_succ] at small
    rw [leBytes, ofLeBytes, ih (Nat.div_lt_of_lt_mul (Nat.mul_comm _ _ ▸ small)), UInt8.toNat_ofNat']
    exact Nat.mod_add_div value (2 ^ 8)

def readLe (eof : Nat → ε) (width : Nat) : Reader ε Nat := ofLeBytes <$> readExact eof width

theorem reads_readLe (eof : Nat → ε) {width value : Nat} (small : value < (2 ^ 8) ^ width) :
    Reads (readLe eof width) (leBytes width value) value := by
  have bytes := (reads_readExact eof (leBytes width value)).map ofLeBytes
  rwa [ofLeBytes_leBytes small, length_leBytes] at bytes

theorem forward_readLe (eof : Nat → ε) (width : Nat) : Forward (readLe eof width) :=
  (forward_readExact eof width).map ofLeBytes

end Fswtch.Lib.CursorReader
