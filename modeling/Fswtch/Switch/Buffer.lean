import Mathlib.Data.List.Basic

/-! The FIFO buffer of bytes. `zero_fill` writes zeros in chunks and takes off its counter what
`switch_buffer_zwrite` returns, which is the number of bytes in the buffer and not that of the
bytes written. -/

namespace Fswtch.Switch.Buffer

/-- `switch_buffer_t`: a write appends all of its bytes and returns the number of bytes in use, or
appends nothing and returns 0. -/
structure SwitchBuffer (β : Type) where
  bytes : β → List UInt8
  zwrite : β → List UInt8 → Nat × β
  writes : ∀ raw data, data ≠ [] →
    (zwrite raw data).1 = 0 ∧ bytes (zwrite raw data).2 = bytes raw ∨
      (zwrite raw data).1 = (bytes raw ++ data).length ∧ bytes (zwrite raw data).2 = bytes raw ++ data

/-- `underflow` is a subtraction without a result. -/
inductive Outcome where
  | ok
  | generr
  | underflow
  deriving DecidableEq

variable {β : Type}

def chunk : Nat := 256

def zeros (n : Nat) : List UInt8 := List.replicate n 0

def zeroFillLoop (sb : SwitchBuffer β) (raw : β) (remaining : Nat) : Outcome × β :=
  if remaining = 0 then (.ok, raw)
  else
    let result := sb.zwrite raw (zeros (min remaining chunk))
    if result.1 = 0 then (.generr, result.2)
    else if remaining < result.1 then (.underflow, result.2)
    else zeroFillLoop sb result.2 (remaining - result.1)
termination_by remaining
decreasing_by
  change remaining - result.1 < remaining
  omega

def zeroFill (sb : SwitchBuffer β) (raw : β) (len : Nat) : Outcome × β :=
  if len = 0 then (.ok, raw) else zeroFillLoop sb raw len

structure Fills (sb : SwitchBuffer β) (raw : β) (len : Nat) : Prop where
  counts : (zeroFill sb raw len).1 ≠ .underflow
  grows : (zeroFill sb raw len).1 = .ok → sb.bytes (zeroFill sb raw len).2 = sb.bytes raw ++ zeros len

theorem zwrite_cases (sb : SwitchBuffer β) (raw : β) {n : Nat} (some : 0 < n) :
    (sb.zwrite raw (zeros n)).1 = 0 ∧ sb.bytes (sb.zwrite raw (zeros n)).2 = sb.bytes raw ∨
      (sb.zwrite raw (zeros n)).1 = (sb.bytes raw).length + n ∧
        sb.bytes (sb.zwrite raw (zeros n)).2 = sb.bytes raw ++ zeros n := by
  have nonempty : zeros n ≠ [] := by
    rw [zeros, Ne, List.replicate_eq_nil_iff]
    exact Nat.ne_of_gt some
  have written := sb.writes raw (zeros n) nonempty
  rwa [List.length_append, zeros, List.length_replicate] at written

theorem positive (len : Nat) (some : len ≠ 0) : 0 < min len chunk :=
  Nat.lt_min.mpr ⟨Nat.pos_of_ne_zero some, Nat.succ_pos 255⟩

theorem taken_of_accepted (sb : SwitchBuffer β) (raw : β) {len : Nat} (some : len ≠ 0)
    (accepted : ¬(sb.zwrite raw (zeros (min len chunk))).1 = 0) :
    (sb.zwrite raw (zeros (min len chunk))).1 = (sb.bytes raw).length + min len chunk ∧
      sb.bytes (sb.zwrite raw (zeros (min len chunk))).2 = sb.bytes raw ++ zeros (min len chunk) :=
  (zwrite_cases sb raw (positive len some)).resolve_left fun refused => accepted refused.1

def counted (inUse : Nat) : Nat → Nat
  | 0 => 0
  | k + 1 => inUse + chunk + counted (inUse + chunk) k

def afterChunks (sb : SwitchBuffer β) (raw : β) : Nat → β
  | 0 => raw
  | k + 1 => afterChunks sb (sb.zwrite raw (zeros chunk)).2 k

def Refused (sb : SwitchBuffer β) (raw : β) (len : Nat) : Prop :=
  ∃ k, counted (sb.bytes raw).length k < len ∧
    (sb.zwrite (afterChunks sb raw k) (zeros (min (len - counted (sb.bytes raw).length k) chunk))).1 = 0

theorem not_refused_zero (sb : SwitchBuffer β) (raw : β) : ¬Refused sb raw 0 := by
  rintro ⟨k, below, -⟩
  exact Nat.not_lt_zero _ below

theorem refused_succ {sb : SwitchBuffer β} {raw : β} {len : Nat}
    (taken : (sb.zwrite raw (zeros (min len chunk))).1 = (sb.bytes raw).length + min len chunk)
    (grown : sb.bytes (sb.zwrite raw (zeros (min len chunk))).2 = sb.bytes raw ++ zeros (min len chunk)) :
    Refused sb raw len ↔ Refused sb (sb.zwrite raw (zeros (min len chunk))).2
      (len - ((sb.bytes raw).length + min len chunk)) := by
  by_cases whole : (sb.bytes raw).length + chunk < len
  · have full : min len chunk = chunk := Nat.min_eq_right (by omega)
    rw [full] at taken grown ⊢
    have length : (sb.bytes (sb.zwrite raw (zeros chunk)).2).length = (sb.bytes raw).length + chunk := by
      rw [grown, List.length_append, zeros, List.length_replicate]
    have shift : ∀ k, len - counted (sb.bytes raw).length (k + 1) =
        len - ((sb.bytes raw).length + chunk) - counted ((sb.bytes raw).length + chunk) k := by
      intro k
      rw [counted, Nat.sub_sub]
    unfold Refused
    rw [length]
    constructor
    · rintro ⟨k, below, refused⟩
      cases k with
      | zero =>
        rw [counted, Nat.sub_zero, full] at refused
        have positive : 0 < chunk := Nat.succ_pos 255
        change (sb.zwrite raw _).1 = 0 at refused
        omega
      | succ k =>
        rw [shift] at refused
        rw [counted] at below
        exact ⟨k, by omega, refused⟩
    · rintro ⟨k, below, refused⟩
      rw [← shift] at refused
      refine ⟨k + 1, ?_, refused⟩
      rw [counted]
      omega
  · -- The counter is used up here: no write comes behind this one.
    have none : len - ((sb.bytes raw).length + min len chunk) = 0 := by omega
    rw [none]
    refine iff_of_false ?_ (not_refused_zero sb _)
    rintro ⟨k, below, refused⟩
    cases k with
    | zero =>
      rw [counted] at below
      rw [counted, Nat.sub_zero] at refused
      have positive : 0 < chunk := Nat.succ_pos 255
      change (sb.zwrite raw _).1 = 0 at refused
      omega
    | succ k =>
      rw [counted] at below
      omega

theorem zeros_append (m n : Nat) : zeros m ++ zeros n = zeros (m + n) := List.replicate_append_replicate

/-- The loop ends with an error of the buffer exactly where the buffer refuses a chunk. Otherwise,
unless the counter underflows, the buffer has grown by zeros, and by as many as were asked for only
if it was empty and they fit in one chunk. -/
theorem zeroFillLoop_spec (sb : SwitchBuffer β) (raw : β) (len : Nat) :
    ((zeroFillLoop sb raw len).1 = .generr ↔ Refused sb raw len) ∧
      ((zeroFillLoop sb raw len).1 = .ok → ∃ m ≤ len,
        sb.bytes (zeroFillLoop sb raw len).2 = sb.bytes raw ++ zeros m ∧
          (m = len ↔ len = 0 ∨ sb.bytes raw = [] ∧ len ≤ chunk)) := by
  fun_induction zeroFillLoop sb raw len with
  | case1 raw =>
    refine ⟨iff_of_false nofun (not_refused_zero sb raw), fun _ => ⟨0, Nat.le_refl 0, ?_, by simp⟩⟩
    exact (List.append_nil _).symm
  | case2 raw len some result refused =>
    refine ⟨iff_of_true rfl ⟨0, Nat.pos_of_ne_zero some, refused⟩, nofun⟩
  | case3 raw len some result accepted under =>
    obtain ⟨taken, grown⟩ := taken_of_accepted sb raw some accepted
    have none : len - ((sb.bytes raw).length + min len chunk) = 0 := by
      change len < (sb.zwrite raw _).1 at under
      omega
    refine ⟨iff_of_false nofun ?_, nofun⟩
    rw [refused_succ taken grown, none]
    exact not_refused_zero sb _
  | case4 raw len some result accepted enough ih =>
    obtain ⟨taken, grown⟩ := taken_of_accepted sb raw some accepted
    have left : len - result.1 = len - ((sb.bytes raw).length + min len chunk) := congrArg (len - ·) taken
    have fits : (sb.bytes raw).length + min len chunk ≤ len := by
      change ¬len < (sb.zwrite raw _).1 at enough
      omega
    refine ⟨ih.1.trans ?_, fun filled => ?_⟩
    · rw [refused_succ taken grown, left]
    · obtain ⟨m, most, bytes, exact_⟩ := ih.2 filled
      have grown : sb.bytes result.2 = sb.bytes raw ++ zeros (min len chunk) := grown
      have more := positive len some
      have nonempty : sb.bytes result.2 ≠ [] := by
        rw [grown, ← List.length_pos_iff, List.length_append, zeros, List.length_replicate]
        omega
      refine ⟨min len chunk + m, by omega, ?_, ?_⟩
      · rw [bytes, grown, List.append_assoc, zeros_append]
      · simp only [nonempty, false_and, or_false, left] at exact_
        rw [left] at most
        rw [← List.length_eq_zero_iff]
        omega

/-- In an empty buffer one chunk takes off the counter what it writes. -/
theorem large_of_underflow {sb : SwitchBuffer β} {raw : β} {len : Nat}
    (under : (zeroFillLoop sb raw len).1 = .underflow) : len ≠ 0 ∧ ¬(sb.bytes raw = [] ∧ len ≤ chunk) := by
  fun_induction zeroFillLoop sb raw len with
  | case1 => cases under
  | case2 => cases under
  | case3 raw len some result accepted short =>
    obtain ⟨taken, -⟩ := taken_of_accepted sb raw some accepted
    refine ⟨some, fun fits => ?_⟩
    change len < (sb.zwrite raw _).1 at short
    rw [taken, fits.1, List.length_nil, Nat.min_eq_left fits.2] at short
    omega
  | case4 raw len some result accepted enough ih =>
    obtain ⟨taken, -⟩ := taken_of_accepted sb raw some accepted
    refine ⟨some, fun fits => (ih under).1 ?_⟩
    change len - (sb.zwrite raw _).1 = 0
    rw [taken, fits.1, List.length_nil, Nat.min_eq_left fits.2]
    omega

theorem zeroFill_eq (sb : SwitchBuffer β) (raw : β) (len : Nat) : zeroFill sb raw len = zeroFillLoop sb raw len := by
  unfold zeroFill
  split
  next none => rw [none, zeroFillLoop, if_pos rfl]
  next => rfl

/-- `zero_fill` appends as many zeros as it is asked for, or reports an error, exactly where there
is nothing to append, where the buffer is empty and they fit in one chunk, and where the buffer
refuses a chunk while the counter lasts. -/
theorem zeroFill_fills_iff (sb : SwitchBuffer β) (raw : β) (len : Nat) :
    Fills sb raw len ↔ len = 0 ∨ (sb.bytes raw = [] ∧ len ≤ chunk) ∨ Refused sb raw len := by
  obtain ⟨refused, filled⟩ := zeroFillLoop_spec sb raw len
  constructor
  · rintro ⟨counts, grows⟩
    rw [zeroFill_eq] at counts grows
    cases outcome : (zeroFillLoop sb raw len).1 with
    | ok =>
      obtain ⟨m, -, bytes, all⟩ := filled outcome
      have same := List.append_cancel_left (bytes.symm.trans (grows outcome))
      have count : m = len := by simpa [zeros] using congrArg List.length same
      exact (all.mp count).imp_right .inl
    | generr => exact .inr (.inr (refused.mp outcome))
    | underflow => exact absurd outcome counts
  · intro holds
    refine ⟨fun under => ?_, fun ok => ?_⟩
    · rw [zeroFill_eq] at under
      obtain ⟨some, large⟩ := large_of_underflow under
      rcases holds with none | small | refuses
      · exact some none
      · exact large small
      · cases under.symm.trans (refused.mpr refuses)
    · rw [zeroFill_eq] at ok ⊢
      obtain ⟨m, -, bytes, all⟩ := filled ok
      rw [bytes, all.mpr]
      rcases holds with none | small | refuses
      · exact .inl none
      · exact .inr small
      · cases ok.symm.trans (refused.mpr refuses)

def unbounded : SwitchBuffer (List UInt8) where
  bytes := id
  zwrite raw data := ((raw ++ data).length, raw ++ data)
  writes _ _ _ := .inr ⟨rfl, rfl⟩

/-- With one byte in the buffer the counter of one zero underflows, and 768 zeros end after 512. -/
theorem unbounded_misses : ¬Fills unbounded [1] 1 ∧ ¬Fills unbounded [] 768 := by
  have under : (zeroFill unbounded [1] 1).1 = .underflow := by decide +kernel
  have ends : (zeroFill unbounded [] 768).1 = .ok := by decide +kernel
  have short : (zeroFill unbounded [] 768).2.length = 512 := by decide +kernel
  refine ⟨fun fills => fills.counts under, fun fills => ?_⟩
  have long : (zeroFill unbounded [] 768).2 = zeros 768 := fills.grows ends
  rw [long, zeros, List.length_replicate] at short
  exact absurd short (by decide)

end Fswtch.Switch.Buffer
