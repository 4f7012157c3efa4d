import Mathlib.Data.List.Basic
import Fswtch.Lib.StepRun

/-! The ring between the thread that hands in render frames and the one that takes them out. The
number of elements is all that the two share besides the slots. Their accesses are interleaved
one by one, each taking effect at once. -/

namespace Fswtch.Apm.TransferQueue
open Fswtch.Lib.StepRun

variable {α : Type} {capacity : Nat}

structure SwapQueue (α : Type) (capacity : Nat) where
  queue : Vector α capacity
  nextReadIndex : Fin capacity
  nextWriteIndex : Fin capacity
  numElements : Nat := 0

/-- How far a call of `Insert` or `Remove` is: it has looked at the number of elements and may go
on, it has swapped its item, it has moved its index. -/
inductive Phase where
  | idle
  | checked
  | swapped
  | advanced
  deriving DecidableEq, Repr

/-- The queue, the two calls with the caller's item, and what was swapped in and out so far. -/
structure State (α : Type) (capacity : Nat) extends SwapQueue α capacity where
  inserting : Phase := .idle
  input : α
  removing : Phase := .idle
  output : α
  accepted : List α := []
  removed : List α := []

inductive Action (α : Type) where
  | insert (item : α)
  | insertSwap
  | insertAdvance
  | insertPublish
  | remove
  | removeSwap
  | removeAdvance
  | removeRelease

def next (index : Fin capacity) : Fin capacity := ⟨(index + 1) % capacity, Nat.mod_lt _ index.pos⟩

def step (s : State α capacity) : Action α → Option (State α capacity)
  | .insert item =>
    if s.inserting = .idle then
      some { s with input := item, inserting := if s.numElements ≥ capacity then .idle else .checked }
    else none
  | .insertSwap =>
    if s.inserting = .checked then
      some { s with
        input := s.queue[s.nextWriteIndex]
        queue := s.queue.set s.nextWriteIndex s.input
        accepted := s.accepted ++ [s.input]
        inserting := .swapped }
    else none
  | .insertAdvance =>
    if s.inserting = .swapped then
      some { s with nextWriteIndex := next s.nextWriteIndex, inserting := .advanced }
    else none
  | .insertPublish =>
    if s.inserting = .advanced then
      some { s with numElements := s.numElements + 1, inserting := .idle }
    else none
  | .remove =>
    if s.removing = .idle then some { s with removing := if s.numElements = 0 then .idle else .checked }
    else none
  | .removeSwap =>
    if s.removing = .checked then
      some { s with
        output := s.queue[s.nextReadIndex]
        queue := s.queue.set s.nextReadIndex s.output
        removed := s.removed ++ [s.queue[s.nextReadIndex]]
        removing := .swapped }
    else none
  | .removeAdvance =>
    if s.removing = .swapped then
      some { s with nextReadIndex := next s.nextReadIndex, removing := .advanced }
    else none
  | .removeRelease =>
    if s.removing = .advanced then
      some { s with numElements := s.numElements - 1, removing := .idle }
    else none

def fresh (prototype : α) (positive : 0 < capacity) : State α capacity where
  queue := Vector.replicate capacity prototype
  nextReadIndex := ⟨0, positive⟩
  nextWriteIndex := ⟨0, positive⟩
  input := prototype
  output := prototype

/-- An item that was swapped and that the number of elements does not tell of yet. -/
@[simp] def Phase.uncounted : Phase → Nat
  | .idle | .checked => 0
  | .swapped | .advanced => 1

@[simp] def Phase.behind : Phase → Nat
  | .swapped => 1
  | .idle | .checked | .advanced => 0

/-- The item that was accepted as number `n` lies in slot `n % capacity` until it is removed. -/
structure Sound (s : State α capacity) : Prop where
  order : s.removed <+: s.accepted
  held : ∀ n (accepted : n < s.accepted.length) (slot : n % capacity < capacity),
    s.removed.length ≤ n → s.queue[n % capacity] = s.accepted[n]
  count : s.removed.length + s.numElements + s.inserting.uncounted =
    s.accepted.length + s.removing.uncounted
  write : (s.nextWriteIndex + s.inserting.behind) % capacity = s.accepted.length % capacity
  read : (s.nextReadIndex + s.removing.behind) % capacity = s.removed.length % capacity
  bounded : s.numElements ≤ capacity
  room : s.inserting ≠ .idle → s.numElements < capacity
  filled : s.removing ≠ .idle → 0 < s.numElements

theorem sound_fresh (prototype : α) (positive : 0 < capacity) : Sound (fresh prototype positive) where
  order := List.nil_prefix
  held := nofun
  count := rfl
  write := rfl
  read := rfl
  bounded := Nat.zero_le _
  room := nofun
  filled := nofun

/-- Two places less than a turn apart are different slots. -/
theorem slot_ne {low high : Nat} (below : low < high) (near : high < low + capacity) :
    low % capacity ≠ high % capacity := by
  intro same
  have turns : (high - low) % capacity = 0 := Nat.sub_mod_eq_zero_of_mod_eq same.symm
  rw [Nat.mod_eq_of_lt (by omega)] at turns
  omega

theorem Sound.near {s : State α capacity} (sound : Sound s) :
    s.accepted.length ≤ s.removed.length + capacity := by
  have count := sound.count
  have bounded := sound.bounded
  have room := sound.room
  cases inserting : s.inserting <;> simp [inserting] at count room <;> omega

theorem sound_insertSwap {s : State α capacity} (sound : Sound s) (phase : s.inserting = .checked) :
    Sound { s with
      input := s.queue[s.nextWriteIndex]
      queue := s.queue.set s.nextWriteIndex s.input
      accepted := s.accepted ++ [s.input]
      inserting := .swapped } := by
  have count : s.removed.length + s.numElements = s.accepted.length + s.removing.uncounted := by
    simpa [phase] using sound.count
  have room : s.numElements < capacity := sound.room (by simp [phase])
  have slot : (s.nextWriteIndex : Nat) = s.accepted.length % capacity := by
    simpa [phase, Nat.mod_eq_of_lt s.nextWriteIndex.isLt] using sound.write
  constructor
  case order => exact sound.order.trans (List.prefix_append _ _)
  case held =>
    intro n accepted bound later
    have later : s.removed.length ≤ n := later
    have accepted : n < s.accepted.length + 1 := by simpa using accepted
    rcases Nat.lt_succ_iff_lt_or_eq.mp accepted with older | rfl
    · have apart : (s.nextWriteIndex : Nat) ≠ n % capacity := by
        rw [slot]
        exact (slot_ne older (by omega)).symm
      simp [Vector.getElem_set_ne _ _ apart, List.getElem_append_left older, sound.held n older bound later]
    · simp [slot]
  case count =>
    change s.removed.length + s.numElements + 1 = (s.accepted ++ [s.input]).length + s.removing.uncounted
    rw [List.length_append, List.length_singleton]
    omega
  case write => simp [slot]
  case read => exact sound.read
  case bounded => exact sound.bounded
  case room => exact fun _ => room
  case filled => exact sound.filled

/-- A call of `Remove` that may go on takes out the item that waits the longest. -/
theorem Sound.first {s : State α capacity} (sound : Sound s) (phase : s.removing = .checked) :
    s.accepted[s.removed.length]? = some s.queue[s.nextReadIndex] := by
  have count : s.removed.length + s.numElements + s.inserting.uncounted = s.accepted.length := by
    simpa [phase] using sound.count
  have filled : 0 < s.numElements := sound.filled (by simp [phase])
  have slot : (s.nextReadIndex : Nat) = s.removed.length % capacity := by
    simpa [phase, Nat.mod_eq_of_lt s.nextReadIndex.isLt] using sound.read
  have waiting : s.removed.length < s.accepted.length := by omega
  have held := sound.held s.removed.length waiting (Nat.mod_lt _ s.nextReadIndex.pos) (Nat.le_refl _)
  rw [List.getElem?_eq_getElem waiting, ← held]
  simp [slot]

theorem sound_removeSwap {s : State α capacity} (sound : Sound s) (phase : s.removing = .checked) :
    Sound { s with
      output := s.queue[s.nextReadIndex]
      queue := s.queue.set s.nextReadIndex s.output
      removed := s.removed ++ [s.queue[s.nextReadIndex]]
      removing := .swapped } := by
  have count : s.removed.length + s.numElements + s.inserting.uncounted = s.accepted.length := by
    simpa [phase] using sound.count
  have filled : 0 < s.numElements := sound.filled (by simp [phase])
  have near := sound.near
  have slot : (s.nextReadIndex : Nat) = s.removed.length % capacity := by
    simpa [phase, Nat.mod_eq_of_lt s.nextReadIndex.isLt] using sound.read
  obtain ⟨waiting, first⟩ := List.getElem?_eq_some_iff.mp (sound.first phase)
  constructor
  case order =>
    rw [List.prefix_iff_eq_take.mp sound.order, ← first]
    simp [List.take_prefix]
  case held =>
    intro n accepted bound later
    have accepted : n < s.accepted.length := accepted
    have later : s.removed.length + 1 ≤ n := by simpa using later
    have apart : (s.nextReadIndex : Nat) ≠ n % capacity := by
      rw [slot]
      exact slot_ne later (by omega)
    simp [Vector.getElem_set_ne _ _ apart, sound.held n accepted bound (Nat.le_of_lt later)]
  case count =>
    change (s.removed ++ [s.queue[s.nextReadIndex]]).length + s.numElements + s.inserting.uncounted =
      s.accepted.length + 1
    rw [List.length_append, List.length_singleton]
    omega
  case write => exact sound.write
  case read => simp [slot]
  case bounded => exact sound.bounded
  case room => exact sound.room
  case filled => exact fun _ => filled

theorem sound_step {s t : State α capacity} {action : Action α} (sound : Sound s)
    (taken : step s action = some t) : Sound t := by
  have held := sound.held
  have count := sound.count
  have write := sound.write
  have read := sound.read
  have bounded := sound.bounded
  have room := sound.room
  have filled := sound.filled
  cases action <;> simp only [step] at taken <;> split at taken <;> cases taken
  case insert phase =>
    simp only [phase, Phase.uncounted, Phase.behind] at count write
    by_cases full : capacity ≤ s.numElements
    · exact ⟨sound.order, held, by simpa [full] using count, by simpa [full] using write, read, bounded,
        by simp [full], filled⟩
    · exact ⟨sound.order, held, by simpa [full] using count, by simpa [full] using write, read, bounded,
        fun _ => Nat.lt_of_not_le full, filled⟩
  case insertSwap phase => exact sound_insertSwap sound phase
  case insertAdvance phase =>
    simp only [phase, Phase.uncounted, Phase.behind] at count write
    exact ⟨sound.order, held, count, by simpa [next] using write, read, bounded,
      fun _ => room (by simp [phase]), filled⟩
  case insertPublish phase =>
    simp only [phase, Phase.uncounted, Phase.behind] at count write
    exact ⟨sound.order, held, by simpa [Nat.add_assoc] using count, write, read, room (by simp [phase]),
      nofun, fun _ => Nat.succ_pos _⟩
  case remove phase =>
    simp only [phase, Phase.uncounted, Phase.behind] at count read
    by_cases empty : s.numElements = 0
    · exact ⟨sound.order, held, by simpa [empty] using count, write, by simpa [empty] using read, bounded, room,
        by simp [empty]⟩
    · exact ⟨sound.order, held, by simpa [empty] using count, write, by simpa [empty] using read, bounded, room,
        fun _ => Nat.pos_of_ne_zero empty⟩
  case removeSwap phase => exact sound_removeSwap sound phase
  case removeAdvance phase =>
    simp only [phase, Phase.uncounted, Phase.behind] at count read
    exact ⟨sound.order, held, count, write, by simpa [next] using read, bounded, room,
      fun _ => filled (by simp [phase])⟩
  case removeRelease phase =>
    have positive : 0 < s.numElements := filled (by simp [phase])
    have count : s.removed.length + s.numElements + s.inserting.uncounted = s.accepted.length + 1 := by
      simpa [phase] using count
    have read : (s.nextReadIndex + 0) % capacity = s.removed.length % capacity := by simpa [phase] using read
    refine ⟨sound.order, held, ?_, write, read, Nat.le_trans (Nat.sub_le _ 1) bounded, ?_, nofun⟩
    · change s.removed.length + (s.numElements - 1) + s.inserting.uncounted = s.accepted.length + 0
      omega
    · exact fun busy => Nat.lt_of_le_of_lt (Nat.sub_le _ 1) (room busy)

def waiting (s : State α capacity) : List α := s.accepted.drop s.removed.length

theorem waiting_step {s t : State α capacity} {action : Action α} (sound : Sound s)
    (taken : step s action = some t) :
    match action with
    | .insertSwap => waiting t = waiting s ++ [s.input]
    | .removeSwap => waiting s = t.output :: waiting t
    | _ => waiting t = waiting s := by
  cases action <;> simp only [step] at taken <;> split at taken <;> cases taken
  case insertSwap => exact List.drop_append_of_le_length sound.order.length_le
  case removeSwap phase =>
    obtain ⟨inside, first⟩ := List.getElem?_eq_some_iff.mp (sound.first phase)
    simp [waiting, List.drop_eq_getElem_cons inside, first]
  all_goals rfl

theorem waiting_length {s : State α capacity} (sound : Sound s) : (waiting s).length ≤ capacity := by
  have near := sound.near
  rw [waiting, List.length_drop]
  omega

structure FirstInFirstOut (s : State α capacity) : Prop where
  /-- Items come out in the order in which they were accepted, each once. -/
  order : s.removed <+: s.accepted
  /-- What is accepted and not removed lies in its slot. -/
  held : ∀ n (accepted : n < s.accepted.length) (slot : n % capacity < capacity), s.removed.length ≤ n →
    s.queue[n % capacity] = s.accepted[n]
  /-- The next item to come out is the one that is accepted and not removed the longest. -/
  first : s.removing = .checked → s.accepted[s.removed.length]? = some s.queue[s.nextReadIndex]
  /-- No slot is swapped by both calls at a time. -/
  apart : s.inserting = .checked → s.removing = .checked → s.nextWriteIndex ≠ s.nextReadIndex
  /-- A call finds the queue full only if no slot is free, or one that is just being freed. -/
  full : s.inserting = .idle → capacity ≤ s.numElements →
    s.accepted.length + s.removing.uncounted = s.removed.length + capacity
  /-- A call finds the queue empty only if nothing waits, or what is just being put in. -/
  empty : s.removing = .idle → s.numElements = 0 →
    s.accepted.length = s.removed.length + s.inserting.uncounted

/-- Under every interleaving of the accesses of one inserting and one removing thread. -/
theorem queue_firstInFirstOut (prototype : α) (positive : 0 < capacity) (actions : List (Action α))
    {s : State α capacity} (taken : run step (fresh prototype positive) actions = some s) :
    FirstInFirstOut s := by
  have sound : Sound s :=
    invariant_of_any_run (fun _ _ _ sound => sound_step sound) (sound_fresh prototype positive) taken
  have count := sound.count
  constructor
  case order => exact sound.order
  case held => exact sound.held
  case first => exact sound.first
  case apart =>
    intro inserting removing same
    have count : s.removed.length + s.numElements = s.accepted.length := by
      simpa [inserting, removing] using count
    have room := sound.room (by simp [inserting])
    have filled := sound.filled (by simp [removing])
    have write : s.nextWriteIndex % capacity = s.accepted.length % capacity := by
      simpa [inserting] using sound.write
    have read : s.nextReadIndex % capacity = s.removed.length % capacity := by
      simpa [removing] using sound.read
    have apart : s.removed.length % capacity ≠ s.accepted.length % capacity :=
      slot_ne (by omega) (by omega)
    exact apart (by rw [← read, ← write, same])
  case full =>
    intro idle full
    have bounded := sound.bounded
    have count : s.removed.length + s.numElements = s.accepted.length + s.removing.uncounted := by
      simpa [idle] using count
    omega
  case empty =>
    intro idle empty
    have count : s.removed.length + s.inserting.uncounted = s.accepted.length := by
      simpa [idle, empty] using count
    exact count.symm

/-- The second item is put in while the first is taken out. -/
def overlapped : List (Action Nat) :=
  [.insert 7, .insertSwap, .remove, .insertAdvance, .insertPublish, .remove, .insert 8, .removeSwap, .insertSwap,
    .removeAdvance, .insertAdvance, .insertPublish]

theorem overlapped_firstInFirstOut :
    ∃ s, run step (fresh 0 (by decide : 0 < 2)) overlapped = some s ∧ FirstInFirstOut s := by
  have through : (run step (fresh 0 (by decide : 0 < 2)) overlapped).isSome := by decide
  obtain ⟨s, taken⟩ := Option.isSome_iff_exists.mp through
  exact ⟨s, taken, queue_firstInFirstOut 0 (by decide) overlapped taken⟩

end Fswtch.Apm.TransferQueue
