import Fswtch.Lib.StepRun
import Fswtch.Unicast.Media

/-! The receive path as a bounded FIFO. The receive task sends chunks while `stage_and_fill`
drains them one by one, trims the staging buffer and fills its frame; what leaves the staging
buffer, written or dropped, is the arrival stream in order. -/

namespace Fswtch.Unicast.Staging
open Fswtch.Lib.StepRun Fswtch.Unicast.Media

/-- A call of `stage_and_fill` that has returned: the length it was asked for, what was staged when
its drain had ended, how many samples had arrived by then, and the frame it filled. -/
structure Filled where
  len : Nat
  arrived : Nat
  staged : Pcm
  frame : Pcm
  remaining : Pcm
  deriving DecidableEq

/-- The call's media state, the frame length of the `stage_and_fill` that is draining, and the
record of what arrived and of the calls that returned. -/
structure Path where
  call : CallState
  draining : Option Nat := none
  arrived : Pcm := []
  filled : List Filled := []

inductive Action where
  | recv (chunk : Pcm)
  | stageAndFill (len : Nat)
  | tryRecv

/-- `tx.send` waits while the channel is full. -/
def Path.recv (s : Path) (chunk : Pcm) : Option Path :=
  if s.call.recvRx.length < frameChannelCap then
    some { s with
      call := { s.call with recvRx := s.call.recvRx ++ [chunk] }
      arrived := s.arrived ++ chunk }
  else none

def Path.fill (s : Path) (len : Nat) : Path :=
  let frame := fillFrame len (dropOldest s.call.recvBuffer)
  { s with
    call := { s.call with recvBuffer := frame.2 }
    draining := none
    filled := s.filled ++ [⟨len, s.arrived.length, s.call.recvBuffer, frame.1, frame.2⟩] }

/-- One `try_recv` of the drain; on an empty channel the drain ends. -/
def Path.tryRecv (s : Path) (len : Nat) : Path :=
  match s.call.recvRx with
  | chunk :: rest =>
    { s with call := { s.call with recvRx := rest, recvBuffer := s.call.recvBuffer ++ chunk } }
  | [] => s.fill len

def step (s : Path) : Action → Option Path
  | .recv chunk => s.recv chunk
  | .stageAndFill len =>
    match s.draining with
    | none => some { s with draining := some len }
    | some _ => none
  | .tryRecv => s.draining.map s.tryRecv

def init (remoteAddr : SocketAddr) : Path := { call := { remoteAddr } }

namespace Filled

def kept (c : Filled) : Pcm := dropOldest c.staged

def dropped (c : Filled) : Pcm := c.staged.take (c.staged.length - c.kept.length)

def written (c : Filled) : Pcm := c.frame.take (min c.kept.length c.frame.length)

def fill (c : Filled) : Pcm := c.frame.drop (min c.kept.length c.frame.length)

/-- What the call took out of the staging buffer, and whether it wrote it. -/
def gone (c : Filled) : List (Int16 × Bool) :=
  c.dropped.map (fun sample => (sample, false)) ++ c.written.map (fun sample => (sample, true))

end Filled

def Path.written (s : Path) : Pcm := s.filled.flatMap Filled.written

def Path.gone (s : Path) : List (Int16 × Bool) := s.filled.flatMap Filled.gone

structure BoundedFifo (s : Path) : Prop where
  /-- What went is the front of the arrival stream, and the rest is staged or in the channel. -/
  stream : s.arrived = s.gone.map Prod.fst ++ (s.call.recvBuffer ++ s.call.recvRx.flatten)
  written : s.written = (s.gone.filter Prod.snd).map Prod.fst
  /-- Between two calls no more than the cap is staged. -/
  staging : s.draining = none → s.call.recvBuffer.length ≤ recvBufferCapSamples
  bounded : ∀ c ∈ s.filled, c.kept.length ≤ recvBufferCapSamples ∧
    c.remaining.length ≤ recvBufferCapSamples
  length : ∀ c ∈ s.filled, c.frame.length = c.len
  oldest : ∀ c ∈ s.filled, c.staged = c.dropped ++ (c.written ++ c.remaining)
  capped : ∀ c ∈ s.filled, c.dropped ≠ [] → recvBufferCapSamples < c.staged.length ∧
    c.kept.length = recvBufferCapSamples ∧ c.kept = c.written ++ c.remaining
  zeros : ∀ c ∈ s.filled, c.frame = c.written ++ c.fill ∧ ∀ sample ∈ c.fill, sample = 0
  /-- A call with fill leaves nothing of what had arrived when its drain ended. -/
  silence : ∀ before c after, s.filled = before ++ c :: after → c.fill ≠ [] →
    c.remaining = [] ∧ ((before ++ [c]).flatMap Filled.gone).length = c.arrived

theorem kept_length (staged : Pcm) :
    (dropOldest staged).length = min staged.length recvBufferCapSamples := by
  rw [dropOldest_eq, List.length_drop]
  omega

theorem dropped_append_kept (c : Filled) : c.dropped ++ c.kept = c.staged := by
  have size : c.kept.length = min c.staged.length recvBufferCapSamples := kept_length c.staged
  have excess : c.staged.length - c.kept.length = c.staged.length - recvBufferCapSamples := by
    rw [size]
    omega
  have kept : c.kept = c.staged.drop (c.staged.length - recvBufferCapSamples) := dropOldest_eq c.staged
  rw [Filled.dropped, excess, kept]
  exact List.take_append_drop _ _

structure FilledBy (c : Filled) : Prop where
  length : c.frame.length = c.len
  bounded : c.kept.length ≤ recvBufferCapSamples
  kept : c.kept = c.written ++ c.remaining
  zeros : ∀ sample ∈ c.fill, sample = 0
  short : c.fill ≠ [] → c.remaining = []

theorem filledBy (len arrived : Nat) (staged : Pcm) :
    FilledBy ⟨len, arrived, staged, (fillFrame len (dropOldest staged)).1,
      (fillFrame len (dropOldest staged)).2⟩ := by
  have bounded : (dropOldest staged).length ≤ recvBufferCapSamples := by
    rw [kept_length]
    exact Nat.min_le_right _ _
  generalize kept : dropOldest staged = left
  have copied := copyStaged_eq (Nat.min_le_left left.length len)
  have frame : fillFrame len left = (left.take len ++ List.replicate (len - left.length) 0,
      left.drop len) := by
    unfold fillFrame
    simp only [copied]
    by_cases long : len ≤ left.length
    · rw [Nat.min_eq_right long, Nat.sub_self, Nat.sub_eq_zero_of_le long]
    · rw [Nat.min_eq_left (Nat.le_of_not_le long), List.take_of_length_le (Nat.le_of_not_le long),
        List.take_length, List.drop_length, List.drop_of_length_le (Nat.le_of_not_le long)]
  have size : (left.take len ++ List.replicate (len - left.length) (0 : Int16)).length = len := by
    rw [List.length_append, List.length_take, List.length_replicate]
    omega
  have cut : (left.take len).length = min left.length len := by
    rw [List.length_take, Nat.min_comm]
  rw [frame]
  refine ⟨size, bounded, ?_, ?_, ?_⟩
  · simp only [Filled.kept, Filled.written, kept, size]
    rw [List.take_append_of_le_length (Nat.le_of_eq cut.symm), ← cut, List.take_length, List.take_append_drop]
  · simp only [Filled.fill, Filled.kept, kept, size]
    rw [← cut, List.drop_left]
    exact fun sample member => List.eq_of_mem_replicate member
  · simp only [Filled.fill, Filled.kept, kept, size]
    rw [← cut, List.drop_left, ne_eq, List.replicate_eq_nil_iff]
    intro filled
    exact List.drop_of_length_le (by omega)

theorem FilledBy.staged {c : Filled} (by_ : FilledBy c) :
    c.staged = c.dropped ++ (c.written ++ c.remaining) := by
  rw [← by_.kept, dropped_append_kept]

theorem FilledBy.remaining {c : Filled} (by_ : FilledBy c) :
    c.remaining.length ≤ recvBufferCapSamples := by
  have total := congrArg List.length by_.kept
  have bounded := by_.bounded
  rw [List.length_append] at total
  omega

theorem gone_samples (c : Filled) : c.gone.map Prod.fst = c.dropped ++ c.written := by
  simp [Filled.gone, Function.comp_def]

theorem gone_written (c : Filled) : (c.gone.filter Prod.snd).map Prod.fst = c.written := by
  have dropped : (c.dropped.map fun sample => (sample, false)).filter Prod.snd = [] := by
    simp [List.filter_map, Function.comp_def]
  have written : (c.written.map fun sample => (sample, true)).filter Prod.snd =
      c.written.map fun sample => (sample, true) := by
    simp [List.filter_map, Function.comp_def]
  rw [Filled.gone, List.filter_append, dropped, written]
  simp [Function.comp_def]

theorem capped_of_dropped {c : Filled} (some : c.dropped ≠ []) :
    recvBufferCapSamples < c.staged.length ∧ c.kept.length = recvBufferCapSamples := by
  have kept : c.kept.length = min c.staged.length recvBufferCapSamples := kept_length c.staged
  by_cases long : recvBufferCapSamples < c.staged.length
  · exact ⟨long, kept.trans (Nat.min_eq_right (Nat.le_of_lt long))⟩
  · refine absurd ?_ some
    rw [Filled.dropped, kept, Nat.min_eq_left (Nat.le_of_not_lt long), Nat.sub_self, List.take_zero]

structure Invariant (s : Path) : Prop where
  stream : s.arrived = s.gone.map Prod.fst ++ (s.call.recvBuffer ++ s.call.recvRx.flatten)
  staging : s.draining = none → s.call.recvBuffer.length ≤ recvBufferCapSamples
  calls : ∀ c ∈ s.filled, FilledBy c
  silence : ∀ before c after, s.filled = before ++ c :: after → c.fill ≠ [] →
    ((before ++ [c]).flatMap Filled.gone).length = c.arrived

theorem init_invariant (remoteAddr : SocketAddr) : Invariant (init remoteAddr) := by
  refine ⟨rfl, fun _ => Nat.zero_le _, nofun, fun before c after split => ?_⟩
  cases before <;> cases split

theorem recv_invariant {s s' : Path} {chunk : Pcm} (known : Invariant s)
    (taken : s.recv chunk = some s') : Invariant s' := by
  unfold Path.recv at taken
  split at taken <;> cases taken
  refine ⟨?_, known.staging, known.calls, known.silence⟩
  change s.arrived ++ chunk = s.gone.map Prod.fst ++
    (s.call.recvBuffer ++ (s.call.recvRx ++ [chunk]).flatten)
  rw [known.stream]
  simp

theorem fill_invariant {s : Path} (known : Invariant s) (empty : s.call.recvRx = []) (len : Nat) :
    Invariant (s.fill len) := by
  have by_ := filledBy len s.arrived.length s.call.recvBuffer
  have filled : (s.fill len).filled = s.filled ++ [⟨len, s.arrived.length, s.call.recvBuffer,
    (fillFrame len (dropOldest s.call.recvBuffer)).1,
    (fillFrame len (dropOldest s.call.recvBuffer)).2⟩] := rfl
  have left : (s.fill len).call.recvBuffer = (fillFrame len (dropOldest s.call.recvBuffer)).2 := rfl
  generalize new : Filled.mk len s.arrived.length s.call.recvBuffer
    (fillFrame len (dropOldest s.call.recvBuffer)).1
    (fillFrame len (dropOldest s.call.recvBuffer)).2 = c at by_ filled
  have remaining : (s.fill len).call.recvBuffer = c.remaining := by rw [left, ← new]
  have staged : c.staged = s.call.recvBuffer := by rw [← new]
  have gone : (s.fill len).gone = s.gone ++ c.gone := by
    rw [Path.gone, filled, List.flatMap_append, List.flatMap_singleton, Path.gone]
  have stream : s.arrived = (s.gone ++ c.gone).map Prod.fst ++ c.remaining := by
    have before := known.stream
    rw [empty, List.flatten_nil, List.append_nil, ← staged, by_.staged] at before
    rw [before, List.map_append, gone_samples]
    simp
  refine ⟨?_, fun _ => ?_, ?_, ?_⟩
  · change s.arrived = _ ++ (_ ++ s.call.recvRx.flatten)
    rw [gone, remaining, empty, List.flatten_nil, List.append_nil]
    exact stream
  · rw [remaining]
    exact by_.remaining
  · rw [filled]
    intro other member
    rcases List.mem_append.mp member with old | last
    · exact known.calls other old
    · exact (List.mem_singleton.mp last).symm ▸ by_
  · rw [filled]
    intro before other after split some
    rcases split_concat split with ⟨rfl, rfl, rfl⟩ | ⟨rest, rfl, old⟩
    · have finished : other.remaining = [] := by_.short some
      have lengths := congrArg List.length stream
      rw [finished, List.append_nil, List.length_map] at lengths
      rw [List.flatMap_append, List.flatMap_singleton, ← new]
      rw [← new] at lengths
      exact lengths.symm
    · exact known.silence before other rest old some

theorem step_invariant (s : Path) (action : Action) (s' : Path) (known : Invariant s)
    (taken : step s action = some s') : Invariant s' := by
  cases action with
  | recv chunk => exact recv_invariant known taken
  | stageAndFill len =>
    simp only [step] at taken
    split at taken <;> cases taken
    exact ⟨known.stream, nofun, known.calls, known.silence⟩
  | tryRecv =>
    obtain ⟨len, draining, rfl⟩ := Option.map_eq_some_iff.mp taken
    unfold Path.tryRecv
    split
    next chunk rest queued =>
      refine ⟨?_, fun none => ?_, known.calls, known.silence⟩
      on_goal 2 => cases draining.symm.trans none
      have stream := known.stream
      rw [queued] at stream
      change s.arrived = _ ++ ((s.call.recvBuffer ++ chunk) ++ rest.flatten)
      rw [stream]
      simp [Path.gone]
    next empty => exact fill_invariant known empty len

theorem Invariant.boundedFifo {s : Path} (known : Invariant s) : BoundedFifo s where
  stream := known.stream
  written := by
    rw [Path.written, Path.gone, List.filter_flatMap, List.map_flatMap]
    simp only [gone_written]
  staging := known.staging
  bounded c member := ⟨(known.calls c member).bounded, (known.calls c member).remaining⟩
  length c member := (known.calls c member).length
  oldest c member := (known.calls c member).staged
  capped c member some := by
    obtain ⟨long, exact_⟩ := capped_of_dropped some
    exact ⟨long, exact_, (known.calls c member).kept⟩
  zeros c member := ⟨(List.take_append_drop _ _).symm, (known.calls c member).zeros⟩
  silence before c after split some := by
    have by_ := known.calls c (by rw [split]; simp)
    exact ⟨by_.short some, known.silence before c after split some⟩

/-- In every run the receive path is a FIFO that drops its oldest samples over the bound. -/
theorem receive_path_boundedFifo (remoteAddr : SocketAddr) (actions : List Action) (final : Path)
    (taken : run step (init remoteAddr) actions = some final) : BoundedFifo final :=
  (invariant_of_any_run step_invariant (init_invariant remoteAddr) taken).boundedFifo

/-- Two chunks arrive, one of them while the first call drains; the second call is filled up. -/
def filledUp : List Action :=
  [.recv [1, 2, 3], .stageAndFill 2, .tryRecv, .recv [4], .tryRecv, .tryRecv, .stageAndFill 3, .tryRecv]

theorem filledUp_boundedFifo :
    ∃ final, run step (init ⟨"127.0.0.1", 4000⟩) filledUp = some final ∧
      final.written = [1, 2, 3, 4] ∧ BoundedFifo final :=
  ⟨_, rfl, by decide, receive_path_boundedFifo ⟨"127.0.0.1", 4000⟩ filledUp _ rfl⟩

end Fswtch.Unicast.Staging
