import Mathlib.Algebra.Order.Field.Rat
import Mathlib.Tactic.GCongr
import Mathlib.Tactic.Linarith
import Mathlib.Tactic.Positivity
import Fswtch.Lib.StepRun

/-! Playing the ring of TTS samples to the caller, and the fade-out of a barge-in.
`clearTts` only arms the fade, which then runs on the samples that are popped, while
a new turn empties the ring and leaves the fade armed. Samples carry the number of
barge-ins before them, so that what a fade touches can be told apart. -/

namespace Fswtch.Seat.Playback
open Fswtch.Lib.StepRun

def ringbufCapacity : Nat := 160000

/-- A queued sample, the number of barge-ins before its turn started and the number
before it was queued. -/
structure Sample where
  value : Int16
  turnBargeIns : Nat
  bargeIns : Nat
  deriving DecidableEq

structure CallState where
  ttsCons : List Sample := []
  fadeOutRemaining : Nat := 0
  fadeOutTotal : Nat

def CallState.pushSlice (s : CallState) (chunk : List Sample) : CallState :=
  { s with ttsCons := s.ttsCons ++ chunk.take (ringbufCapacity - s.ttsCons.length) }

def CallState.clear (s : CallState) : CallState := { s with ttsCons := [] }

def CallState.clearTts (s : CallState) : CallState :=
  if 0 < s.fadeOutTotal then { s with fadeOutRemaining := s.fadeOutTotal } else s.clear

/-- The popped samples with their gains: sample `i` has the gain `(remaining - i) / total`
until that is used up, and zero from there on. -/
def fade (total : Nat) : Nat → List Sample → List (Sample × ℚ)
  | _, [] => []
  | 0, sample :: rest => (sample, 0) :: fade total 0 rest
  | left + 1, sample :: rest => (sample, ((left + 1 : Nat) : ℚ) / total) :: fade total left rest

/-- A gain applied to a sample, rounded toward zero. -/
def scaled (value : Int16) (gain : ℚ) : Int16 :=
  Int16.ofInt ((value.toInt * gain.num).tdiv gain.den)

/-- What a `readFrame` pops, what its fade clears from the ring, and the state after. -/
structure Read where
  popped : List (Sample × ℚ)
  cleared : List Sample
  next : CallState

def checkedSub (left right : Nat) : Option Nat :=
  if right ≤ left then some (left - right) else none

/-- `none` stands for an underflow of `fade_out_remaining`. -/
def CallState.readFrame (s : CallState) (len : Nat) : Option Read :=
  let popped := s.ttsCons.take len
  let drained := { s with ttsCons := s.ttsCons.drop len }
  if 0 < s.fadeOutRemaining ∧ 0 < popped.length then
    let faded := fade s.fadeOutTotal s.fadeOutRemaining popped
    if s.fadeOutRemaining ≤ popped.length then
      some ⟨faded, drained.ttsCons, { drained.clear with fadeOutRemaining := 0 }⟩
    else
      (checkedSub s.fadeOutRemaining popped.length).map fun left =>
        ⟨faded, [], { drained with fadeOutRemaining := left }⟩
  else some ⟨popped.map (fun sample => (sample, 1)), [], drained⟩

/-- The frame handed out: the popped samples at their gains, then silence. -/
def Read.frame (read : Read) (len : Nat) : List Int16 :=
  read.popped.map (fun pair => scaled pair.1.value pair.2) ++
    List.replicate (len - read.popped.length) 0

structure Emission where
  sample : Sample
  gain : ℚ
  bargeIns : Nat
  deriving DecidableEq

/-- A call with the record of its run: for each turn started, the barge-ins before it,
and what was handed out and what the fade cleared, in order. -/
structure Track where
  call : CallState
  turns : List Nat := []
  bargeIns : Nat := 0
  emitted : List Emission := []
  discarded : List (Sample × Nat) := []

inductive Action where
  | onAudio (turn : Nat) (chunk : List Int16)
  | readFrame (len : Nat)
  | bargeIn
  | startTurn

def Track.onAudio (s : Track) (chunk : List Int16) (turnBargeIns : Nat) : Track :=
  { s with call := s.call.pushSlice (chunk.map fun value => ⟨value, turnBargeIns, s.bargeIns⟩) }

def Track.bargeIn (s : Track) : Track :=
  { s with call := s.call.clearTts, bargeIns := s.bargeIns + 1 }

def Track.startTurn (s : Track) : Track :=
  { s with call := s.call.clear, turns := s.turns ++ [s.bargeIns] }

def stamp (bargeIns : Nat) (popped : List (Sample × ℚ)) : List Emission :=
  popped.map fun pair => ⟨pair.1, pair.2, bargeIns⟩

def Track.read (s : Track) (read : Read) : Track :=
  { s with
    call := read.next
    emitted := s.emitted ++ stamp s.bargeIns read.popped
    discarded := s.discarded ++ read.cleared.map fun sample => (sample, s.bargeIns) }

def step (s : Track) : Action → Option Track
  | .onAudio turn chunk => s.turns[turn]?.map (s.onAudio chunk)
  | .readFrame len => (s.call.readFrame len).map s.read
  | .bargeIn => some s.bargeIn
  | .startTurn => some s.startTurn

def init (fadeOutTotal : Nat) : Track := { call := { fadeOutTotal } }

def tail (b : Nat) (emitted : List Emission) : List Emission :=
  emitted.filter fun e => e.sample.bargeIns < b ∧ b ≤ e.bargeIns

def audible (emitted : List Emission) : Nat := emitted.countP fun e => e.gain ≠ 0

/-- What a barge-in may do: nothing to the samples of turns started after it, and to
those queued before it a ramp of at most `fade_out_total` samples down to silence. -/
structure FadesOnlyQueued (s : Track) : Prop where
  unattenuated : ∀ e ∈ s.emitted, e.sample.turnBargeIns = e.bargeIns → e.gain = 1
  kept : ∀ d ∈ s.discarded, d.1.turnBargeIns ≠ d.2
  spent : ∀ b ≤ s.bargeIns, audible (tail b s.emitted) ≤ s.call.fadeOutTotal
  ramp : ∀ b ≤ s.bargeIns, (tail b s.emitted).Pairwise fun first later => later.gain ≤ first.gain
  range : ∀ e ∈ s.emitted, 0 ≤ e.gain ∧ e.gain ≤ 1
  bounded : s.call.fadeOutRemaining ≤ s.call.fadeOutTotal
  noUnderflow : ∀ len, (step s (.readFrame len)).isSome

/-- No read while a fade is armed finds a sample of a turn started after the last
barge-in, and no barge-in finds a fade begun with samples left that the barge-in
before it had found queued. -/
def Separate (s : Track) : Action → Prop
  | .readFrame _ =>
    s.call.fadeOutRemaining = 0 ∨ ∀ x ∈ s.call.ttsCons, x.turnBargeIns ≠ s.bargeIns
  | .bargeIn =>
    s.call.fadeOutRemaining = s.call.fadeOutTotal ∨ ∀ x ∈ s.call.ttsCons, s.bargeIns ≤ x.bargeIns
  | _ => True

instance (s : Track) (action : Action) : Decidable (Separate s action) := by
  unfold Separate
  split <;> infer_instance

section Ramp

variable {total : Nat}

theorem share_mono {first second : Nat} (less : first ≤ second) :
    (first : ℚ) / total ≤ (second : ℚ) / total := by
  gcongr

theorem fade_samples (left : Nat) (samples : List Sample) :
    (fade total left samples).map Prod.fst = samples := by
  induction samples generalizing left with
  | nil => cases left <;> rfl
  | cons sample rest ih => cases left <;> simp [fade, ih]

theorem fade_range (left : Nat) (samples : List Sample) :
    ∀ pair ∈ fade total left samples, 0 ≤ pair.2 ∧ pair.2 ≤ (left : ℚ) / total := by
  induction samples generalizing left with
  | nil => cases left <;> simp [fade]
  | cons sample rest ih =>
    cases left with
    | zero =>
      simp only [fade, List.mem_cons, forall_eq_or_imp]
      exact ⟨by simp, ih 0⟩
    | succ left =>
      simp only [fade, List.mem_cons, forall_eq_or_imp]
      refine ⟨⟨by positivity, le_refl _⟩, fun pair member => ?_⟩
      obtain ⟨low, high⟩ := ih left pair member
      exact ⟨low, high.trans (share_mono (Nat.le_succ left))⟩

theorem fade_pairwise (left : Nat) (samples : List Sample) :
    (fade total left samples).Pairwise fun first later => later.2 ≤ first.2 := by
  induction samples generalizing left with
  | nil => cases left <;> simp [fade]
  | cons sample rest ih =>
    cases left with
    | zero =>
      refine List.Pairwise.cons (fun pair member => ?_) (ih 0)
      simpa using (fade_range 0 rest pair member).2
    | succ left =>
      refine List.Pairwise.cons (fun pair member => ?_) (ih left)
      exact (fade_range left rest pair member).2.trans (share_mono (Nat.le_succ left))

theorem fade_audible (left : Nat) (samples : List Sample) :
    ((fade total left samples).countP fun pair => pair.2 ≠ 0) ≤ left := by
  induction samples generalizing left with
  | nil => cases left <;> simp [fade]
  | cons sample rest ih =>
    cases left with
    | zero => simpa [fade] using ih 0
    | succ left =>
      simp only [fade, List.countP_cons]
      have rest := ih left
      split <;> omega

theorem fade_floor (left : Nat) (samples : List Sample) (long : samples.length ≤ left) :
    ∀ pair ∈ fade total left samples, ((left - samples.length : Nat) : ℚ) / total ≤ pair.2 := by
  induction samples generalizing left with
  | nil => cases left <;> simp [fade]
  | cons sample rest ih =>
    cases left with
    | zero => simp at long
    | succ left =>
      simp only [fade, List.mem_cons, forall_eq_or_imp, List.length_cons] at long ⊢
      refine ⟨share_mono (by omega), fun pair member => ?_⟩
      · rw [Nat.add_sub_add_right]
        exact ih left (by omega) pair member

end Ramp

/-- What a read does, by whether the fade is over, ends in it, or goes on. -/
inductive ReadOf (s : CallState) (len : Nat) : Read → Prop
  | plain (idle : s.fadeOutRemaining = 0 ∨ s.ttsCons.take len = []) :
      ReadOf s len ⟨(s.ttsCons.take len).map fun sample => (sample, 1), [],
        { s with ttsCons := s.ttsCons.drop len }⟩
  | ends (armed : 0 < s.fadeOutRemaining) (short : s.fadeOutRemaining ≤ (s.ttsCons.take len).length) :
      ReadOf s len ⟨fade s.fadeOutTotal s.fadeOutRemaining (s.ttsCons.take len), s.ttsCons.drop len,
        { s with ttsCons := [], fadeOutRemaining := 0 }⟩
  | fades (long : (s.ttsCons.take len).length < s.fadeOutRemaining) :
      ReadOf s len ⟨fade s.fadeOutTotal s.fadeOutRemaining (s.ttsCons.take len), [],
        { s with ttsCons := s.ttsCons.drop len,
                 fadeOutRemaining := s.fadeOutRemaining - (s.ttsCons.take len).length }⟩

/-- A read never fails, so `fade_out_remaining` never underflows. -/
theorem readFrame_spec (s : CallState) (len : Nat) :
    ∃ read, s.readFrame len = some read ∧ ReadOf s len read := by
  unfold CallState.readFrame
  by_cases armed : 0 < s.fadeOutRemaining ∧ 0 < (s.ttsCons.take len).length
  · simp only [if_pos armed]
    by_cases short : s.fadeOutRemaining ≤ (s.ttsCons.take len).length
    · rw [if_pos short]
      exact ⟨_, rfl, .ends armed.1 short⟩
    · have long : (s.ttsCons.take len).length < s.fadeOutRemaining := by omega
      rw [if_neg short, checkedSub, if_pos long.le]
      exact ⟨_, rfl, .fades long⟩
  · simp only [if_neg armed]
    refine ⟨_, rfl, .plain ?_⟩
    by_cases idle : s.fadeOutRemaining = 0
    · exact .inl idle
    · refine .inr (List.eq_nil_of_length_eq_zero ?_)
      omega

theorem tail_append (b : Nat) (first second : List Emission) :
    tail b (first ++ second) = tail b first ++ tail b second := List.filter_append ..

theorem audible_append (first second : List Emission) :
    audible (first ++ second) = audible first + audible second := List.countP_append

theorem mem_tail {b : Nat} {emitted : List Emission} {e : Emission} :
    e ∈ tail b emitted ↔ e ∈ emitted ∧ e.sample.bargeIns < b ∧ b ≤ e.bargeIns := by
  simp [tail]

theorem audible_tail_le (b : Nat) (emitted : List Emission) :
    audible (tail b emitted) ≤ audible emitted := (List.filter_sublist).countP_le

/-- While samples queued before barge-in `b` are left, the fade still has its share of
the ramp to give, and no less than that was given so far. -/
structure Ramping (s : Track) (b : Nat) : Prop where
  left : audible (tail b s.emitted) + s.call.fadeOutRemaining ≤ s.call.fadeOutTotal
  floor : ∀ e ∈ tail b s.emitted,
    (s.call.fadeOutRemaining : ℚ) / s.call.fadeOutTotal ≤ e.gain

structure Invariant (s : Track) : Prop where
  unattenuated : ∀ e ∈ s.emitted, e.sample.turnBargeIns = e.bargeIns → e.gain = 1
  kept : ∀ d ∈ s.discarded, d.1.turnBargeIns ≠ d.2
  spent : ∀ b ≤ s.bargeIns, audible (tail b s.emitted) ≤ s.call.fadeOutTotal
  ramp : ∀ b ≤ s.bargeIns, (tail b s.emitted).Pairwise fun first later => later.gain ≤ first.gain
  range : ∀ e ∈ s.emitted, 0 ≤ e.gain ∧ e.gain ≤ 1
  bounded : s.call.fadeOutRemaining ≤ s.call.fadeOutTotal
  past : ∀ e ∈ s.emitted, e.bargeIns ≤ s.bargeIns
  idle : s.call.fadeOutRemaining = 0 → ∀ x ∈ s.call.ttsCons, s.bargeIns ≤ x.bargeIns
  ramping : ∀ b ≤ s.bargeIns, (∃ x ∈ s.call.ttsCons, x.bargeIns < b) → Ramping s b

theorem init_invariant (fadeOutTotal : Nat) : Invariant (init fadeOutTotal) := by
  constructor <;> simp [init, tail, audible]

theorem onAudio_invariant {s : Track} (known : Invariant s) (chunk : List Int16)
    (turnBargeIns : Nat) : Invariant (s.onAudio chunk turnBargeIns) := by
  have queued : ∀ x ∈ (s.onAudio chunk turnBargeIns).call.ttsCons,
      x ∈ s.call.ttsCons ∨ x.bargeIns = s.bargeIns := by
    intro x member
    rcases List.mem_append.mp member with old | pushed
    · exact .inl old
    · obtain ⟨value, _, rfl⟩ := List.mem_map.mp (List.mem_of_mem_take pushed)
      exact .inr rfl
  refine ⟨known.unattenuated, known.kept, known.spent, known.ramp, known.range, known.bounded,
    known.past, ?_, ?_⟩
  · intro finished x member
    rcases queued x member with old | new
    · exact known.idle finished x old
    · exact new.ge
  · rintro b bound ⟨x, member, before⟩
    rcases queued x member with old | new
    · obtain ⟨left, floor⟩ := known.ramping b bound ⟨x, old, before⟩
      exact ⟨left, floor⟩
    · have bound : b ≤ s.bargeIns := bound
      omega

theorem startTurn_invariant {s : Track} (known : Invariant s) :
    Invariant s.startTurn := by
  refine ⟨known.unattenuated, known.kept, known.spent, known.ramp, known.range, known.bounded,
    known.past, ?_, ?_⟩
  · intro _ x member
    cases member
  · rintro b _ ⟨x, member, _⟩
    cases member

theorem tail_future {s : Track} (known : Invariant s) : tail (s.bargeIns + 1) s.emitted = [] := by
  refine List.filter_eq_nil_iff.mpr (fun e member => ?_)
  have past := known.past e member
  simp only [decide_eq_true_eq, not_and]
  omega

theorem bargeIn_invariant {s : Track} (known : Invariant s) (separate : Separate s .bargeIn) :
    Invariant s.bargeIn := by
  have total : s.call.clearTts.fadeOutTotal = s.call.fadeOutTotal := by
    unfold CallState.clearTts
    split <;> rfl
  have past : ∀ e ∈ s.emitted, e.bargeIns ≤ s.bargeIns + 1 := fun e member =>
    (known.past e member).trans (Nat.le_succ _)
  have spent : ∀ b ≤ s.bargeIns + 1,
      audible (tail b s.emitted) ≤ s.call.clearTts.fadeOutTotal := by
    intro b bound
    rw [total]
    rcases Nat.lt_or_eq_of_le bound with earlier | rfl
    · exact known.spent b (by omega)
    · simp [tail_future known, audible]
  have ramp : ∀ b ≤ s.bargeIns + 1,
      (tail b s.emitted).Pairwise fun first later => later.gain ≤ first.gain := by
    intro b bound
    rcases Nat.lt_or_eq_of_le bound with earlier | rfl
    · exact known.ramp b (by omega)
    · simp [tail_future known]
  by_cases smooth : 0 < s.call.fadeOutTotal
  · have armed : s.call.clearTts = { s.call with fadeOutRemaining := s.call.fadeOutTotal } :=
      if_pos smooth
    rw [total] at spent
    unfold Track.bargeIn
    rw [armed]
    refine ⟨known.unattenuated, known.kept, spent, ramp, known.range, le_refl _, past, ?_, ?_⟩
    · intro finished
      exact absurd finished smooth.ne'
    · rintro b bound ⟨x, member, before⟩
      rcases Nat.lt_or_eq_of_le (show b ≤ s.bargeIns + 1 from bound) with earlier | rfl
      · obtain ⟨left, floor⟩ := known.ramping b (by omega) ⟨x, member, before⟩
        have full : s.call.fadeOutRemaining = s.call.fadeOutTotal := by
          refine separate.resolve_right fun fresh => ?_
          have stamp := fresh x member
          omega
        rw [full] at left floor
        exact ⟨left, floor⟩
      · refine ⟨?_, ?_⟩
        · simp [tail_future known, audible]
        · simp [tail_future known]
  · have cleared : s.call.clearTts = s.call.clear := if_neg smooth
    rw [total] at spent
    unfold Track.bargeIn
    rw [cleared]
    refine ⟨known.unattenuated, known.kept, spent, ramp, known.range, known.bounded, past, ?_, ?_⟩
    · intro _ x member
      cases member
    · rintro b _ ⟨x, member, _⟩
      cases member

/-- What a read of `len` samples hands out while the fade is armed. -/
def Track.faded (s : Track) (len : Nat) : List Emission :=
  stamp s.bargeIns
    (fade s.call.fadeOutTotal s.call.fadeOutRemaining (s.call.ttsCons.take len))

/-- The samples a fade pops were in the ring, and get no more than its present gain. -/
theorem mem_faded {s : Track} {len : Nat} {e : Emission} (member : e ∈ s.faded len) :
    e.sample ∈ s.call.ttsCons ∧ e.bargeIns = s.bargeIns ∧ 0 ≤ e.gain ∧
      e.gain ≤ (s.call.fadeOutRemaining : ℚ) / s.call.fadeOutTotal := by
  obtain ⟨pair, inFade, rfl⟩ := List.mem_map.mp member
  obtain ⟨low, high⟩ := fade_range _ _ pair inFade
  have popped : pair.1 ∈ s.call.ttsCons.take len := by
    have played : pair.1 ∈ (fade s.call.fadeOutTotal s.call.fadeOutRemaining
        (s.call.ttsCons.take len)).map Prod.fst := List.mem_map_of_mem inFade
    rwa [fade_samples] at played
  exact ⟨List.mem_of_mem_take popped, rfl, low, high⟩

theorem audible_faded_le (s : Track) (len b : Nat) :
    audible (tail b (s.faded len)) ≤ s.call.fadeOutRemaining ∧
      audible (tail b (s.faded len)) ≤ (s.call.ttsCons.take len).length := by
  have some := audible_tail_le b (s.faded len)
  have all : audible (s.faded len) = (fade s.call.fadeOutTotal s.call.fadeOutRemaining
      (s.call.ttsCons.take len)).countP fun pair => pair.2 ≠ 0 := by
    simp only [audible, Track.faded, stamp, List.countP_map]
    rfl
  rw [all] at some
  refine ⟨some.trans (fade_audible _ _), some.trans (List.countP_le_length.trans_eq ?_)⟩
  rw [← List.length_map (f := Prod.fst), fade_samples]

section Fading

variable {s : Track} (known : Invariant s) (len : Nat)
include known

theorem faded_past : ∀ e ∈ s.emitted ++ s.faded len, e.bargeIns ≤ s.bargeIns := by
  intro e member
  rcases List.mem_append.mp member with old | new
  · exact known.past e old
  · exact (mem_faded new).2.1.le

theorem faded_unattenuated (foreign : ∀ x ∈ s.call.ttsCons, x.turnBargeIns ≠ s.bargeIns) :
    ∀ e ∈ s.emitted ++ s.faded len, e.sample.turnBargeIns = e.bargeIns → e.gain = 1 := by
  intro e member own
  rcases List.mem_append.mp member with old | new
  · exact known.unattenuated e old own
  · obtain ⟨queued, at_, _⟩ := mem_faded new
    exact absurd (own.trans at_) (foreign e.sample queued)

theorem faded_range : ∀ e ∈ s.emitted ++ s.faded len, 0 ≤ e.gain ∧ e.gain ≤ 1 := by
  intro e member
  rcases List.mem_append.mp member with old | new
  · exact known.range e old
  · obtain ⟨_, _, low, high⟩ := mem_faded new
    refine ⟨low, high.trans (div_le_one_of_le₀ ?_ (by positivity))⟩
    exact_mod_cast known.bounded

theorem ramping_of_mem_tail {b : Nat} (bound : b ≤ s.bargeIns) {e : Emission}
    (member : e ∈ tail b (s.faded len)) : Ramping s b := by
  obtain ⟨new, before, _⟩ := mem_tail.mp member
  exact known.ramping b bound ⟨e.sample, (mem_faded new).1, before⟩

theorem faded_spent {b : Nat} (bound : b ≤ s.bargeIns) :
    audible (tail b (s.emitted ++ s.faded len)) ≤ s.call.fadeOutTotal := by
  rw [tail_append, audible_append]
  have few := (audible_faded_le s len b).1
  by_cases none : tail b (s.faded len) = []
  · rw [none]
    exact known.spent b bound
  · obtain ⟨e, member⟩ := List.exists_mem_of_ne_nil _ none
    have left := (ramping_of_mem_tail known len bound member).left
    omega

theorem faded_ramp {b : Nat} (bound : b ≤ s.bargeIns) :
    (tail b (s.emitted ++ s.faded len)).Pairwise fun first later => later.gain ≤ first.gain := by
  rw [tail_append, List.pairwise_append]
  refine ⟨known.ramp b bound, ?_, ?_⟩
  · refine List.Pairwise.filter _ (List.pairwise_map.mpr ?_)
    exact fade_pairwise _ _
  · intro first old later new
    have floor := (ramping_of_mem_tail known len bound new).floor first old
    exact (mem_faded (mem_tail.mp new).1).2.2.2.trans floor

end Fading

theorem read_plain_invariant {s : Track} (known : Invariant s) (len : Nat)
    (idle : s.call.fadeOutRemaining = 0 ∨ s.call.ttsCons.take len = []) :
    Invariant (s.read ⟨(s.call.ttsCons.take len).map fun sample => (sample, 1), [],
      { s.call with ttsCons := s.call.ttsCons.drop len }⟩) := by
  have new : ∀ e ∈ stamp s.bargeIns ((s.call.ttsCons.take len).map fun sample => (sample, 1)),
      e.gain = 1 ∧ e.bargeIns = s.bargeIns ∧ s.bargeIns ≤ e.sample.bargeIns := by
    intro e member
    obtain ⟨pair, inPopped, rfl⟩ := List.mem_map.mp member
    obtain ⟨sample, taken, rfl⟩ := List.mem_map.mp inPopped
    refine ⟨rfl, rfl, ?_⟩
    rcases idle with finished | none
    · exact known.idle finished sample (List.mem_of_mem_take taken)
    · rw [none] at taken
      cases taken
  have untouched : ∀ b ≤ s.bargeIns, tail b (s.emitted ++ stamp s.bargeIns
      ((s.call.ttsCons.take len).map fun sample => (sample, 1))) = tail b s.emitted := by
    intro b bound
    refine (tail_append ..).trans (List.append_right_eq_self.mpr ?_)
    refine List.filter_eq_nil_iff.mpr fun e member => ?_
    have stamped := (new e member).2.2
    simp only [decide_eq_true_eq, not_and]
    omega
  refine ⟨?_, ?_, ?_, ?_, ?_, known.bounded, ?_, ?_, ?_⟩
  · intro e member own
    rcases List.mem_append.mp member with old | popped
    · exact known.unattenuated e old own
    · exact (new e popped).1
  · simpa [Track.read] using known.kept
  · intro b bound
    exact (congrArg audible (untouched b bound)).trans_le (known.spent b bound)
  · intro b bound
    exact (untouched b bound).symm ▸ known.ramp b bound
  · intro e member
    rcases List.mem_append.mp member with old | popped
    · exact known.range e old
    · rw [(new e popped).1]
      norm_num
  · intro e member
    rcases List.mem_append.mp member with old | popped
    · exact known.past e old
    · exact (new e popped).2.1.le
  · intro finished x member
    exact known.idle finished x (List.mem_of_mem_drop member)
  · rintro b bound ⟨x, member, before⟩
    obtain ⟨left, floor⟩ := known.ramping b bound ⟨x, List.mem_of_mem_drop member, before⟩
    refine ⟨?_, ?_⟩
    · exact (congrArg (fun e => audible e + _) (untouched b bound)).trans_le left
    · exact (untouched b bound).symm ▸ floor

theorem read_ends_invariant {s : Track} (known : Invariant s) (len : Nat)
    (foreign : ∀ x ∈ s.call.ttsCons, x.turnBargeIns ≠ s.bargeIns) :
    Invariant (s.read ⟨fade s.call.fadeOutTotal s.call.fadeOutRemaining (s.call.ttsCons.take len),
      s.call.ttsCons.drop len, { s.call with ttsCons := [], fadeOutRemaining := 0 }⟩) := by
  refine ⟨faded_unattenuated known len foreign, ?_, fun b => faded_spent known len,
    fun b => faded_ramp known len, faded_range known len, Nat.zero_le _, faded_past known len,
    ?_, ?_⟩
  · intro d member
    rcases List.mem_append.mp member with old | new
    · exact known.kept d old
    · obtain ⟨x, dropped, rfl⟩ := List.mem_map.mp new
      exact foreign x (List.mem_of_mem_drop dropped)
  · intro _ x member
    cases member
  · rintro b _ ⟨x, member, _⟩
    cases member

theorem read_fades_invariant {s : Track} (known : Invariant s) (len : Nat)
    (foreign : ∀ x ∈ s.call.ttsCons, x.turnBargeIns ≠ s.bargeIns)
    (long : (s.call.ttsCons.take len).length < s.call.fadeOutRemaining) :
    Invariant (s.read ⟨fade s.call.fadeOutTotal s.call.fadeOutRemaining (s.call.ttsCons.take len),
      [], { s.call with
        ttsCons := s.call.ttsCons.drop len
        fadeOutRemaining := s.call.fadeOutRemaining - (s.call.ttsCons.take len).length }⟩) := by
  refine ⟨faded_unattenuated known len foreign, ?_, fun b => faded_spent known len,
    fun b => faded_ramp known len, faded_range known len, (Nat.sub_le _ _).trans known.bounded,
    faded_past known len, ?_, ?_⟩
  · simpa [Track.read] using known.kept
  · intro ended
    have finished : s.call.fadeOutRemaining - (s.call.ttsCons.take len).length = 0 := ended
    omega
  · rintro b bound ⟨x, member, before⟩
    obtain ⟨left, floor⟩ := known.ramping b bound ⟨x, List.mem_of_mem_drop member, before⟩
    have few := (audible_faded_le s len b).2
    refine ⟨?_, ?_⟩
    · change audible (tail b (s.emitted ++ s.faded len)) +
        (s.call.fadeOutRemaining - (s.call.ttsCons.take len).length) ≤ s.call.fadeOutTotal
      rw [tail_append, audible_append]
      omega
    · intro e member
      change e ∈ tail b (s.emitted ++ s.faded len) at member
      rw [tail_append, List.mem_append] at member
      rcases member with old | new
      · exact (share_mono (Nat.sub_le _ _)).trans (floor e old)
      · obtain ⟨pair, inFade, rfl⟩ := List.mem_map.mp (mem_tail.mp new).1
        exact fade_floor _ _ long.le pair inFade

theorem readFrame_invariant {s next : Track} (known : Invariant s) (len : Nat)
    (separate : Separate s (.readFrame len)) (taken : step s (.readFrame len) = some next) :
    Invariant next := by
  obtain ⟨read, ran, shape⟩ := readFrame_spec s.call len
  simp only [step, ran, Option.map_some, Option.some.injEq] at taken
  subst taken
  cases shape with
  | plain idle => exact read_plain_invariant known len idle
  | ends armed short =>
    exact read_ends_invariant known len (separate.resolve_left armed.ne')
  | fades long =>
    exact read_fades_invariant known len (separate.resolve_left (by omega)) long

theorem step_invariant (s : Track) (action : Action) (next : Track) (known : Invariant s)
    (separate : Separate s action) (taken : step s action = some next) : Invariant next := by
  cases action with
  | onAudio turn chunk =>
    obtain ⟨turnBargeIns, _, rfl⟩ := Option.map_eq_some_iff.mp taken
    exact onAudio_invariant known chunk turnBargeIns
  | readFrame len => exact readFrame_invariant known len separate taken
  | bargeIn =>
    cases taken
    exact bargeIn_invariant known separate
  | startTurn =>
    cases taken
    exact startTurn_invariant known

theorem Invariant.fadesOnlyQueued {s : Track} (known : Invariant s) : FadesOnlyQueued s := by
  refine ⟨known.unattenuated, known.kept, known.spent, known.ramp, known.range, known.bounded, ?_⟩
  intro len
  obtain ⟨read, ran, _⟩ := readFrame_spec s.call len
  simp [step, ran]

/-- In a run whose reads and barge-ins all meet `Separate`, every fade touches only what
was queued before its barge-in, as one ramp down to silence. -/
theorem fades_only_queued (fadeOutTotal : Nat) (actions : List Action) (final : Track)
    (separate : Along step Separate (init fadeOutTotal) actions)
    (taken : run step (init fadeOutTotal) actions = some final) : FadesOnlyQueued final :=
  (invariant_of_run step_invariant (init_invariant fadeOutTotal) separate taken).fadesOnlyQueued

def fadedThenPlayed : List Action :=
  [.startTurn, .onAudio 0 [100, 100, 100, 100], .readFrame 1, .bargeIn, .readFrame 1, .readFrame 2,
    .startTurn, .onAudio 1 [100], .readFrame 1]

theorem fadedThenPlayed_fades_only_queued :
    ∃ final, run step (init 2) fadedThenPlayed = some final ∧ FadesOnlyQueued final :=
  ⟨_, rfl, fades_only_queued 2 fadedThenPlayed _ (by decide +kernel) rfl⟩

def playedIntoFade : List Action :=
  [.startTurn, .onAudio 0 [100], .bargeIn, .startTurn, .onAudio 1 [100, 100, 100], .readFrame 2]

theorem playedIntoFade_faded :
    ∃ final, run step (init 2) playedIntoFade = some final ∧
      final.emitted = [⟨⟨100, 1, 1⟩, 1, 1⟩, ⟨⟨100, 1, 1⟩, 1 / 2, 1⟩] ∧
      final.discarded = [(⟨100, 1, 1⟩, 1)] ∧ ¬FadesOnlyQueued final := by
  refine ⟨_, rfl, by decide +kernel, by decide +kernel, fun queued => ?_⟩
  exact queued.kept (⟨100, 1, 1⟩, 1) (by decide +kernel) rfl

end Fswtch.Seat.Playback
