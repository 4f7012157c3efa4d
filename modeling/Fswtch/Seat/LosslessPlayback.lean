import Fswtch.Seat.Playback

/-! Playing one turn without a barge-in. The producer does not look at how much of a chunk
`push_slice` stored, so the samples come through in order and complete exactly as long as every
chunk finds room in the ring. -/

namespace Fswtch.Seat.Playback
open Fswtch.Lib.StepRun

def Action.plays : Action → Bool
  | .onAudio _ _ | .readFrame _ => true
  | .bargeIn | .startTurn => false

def pushed (actions : List Action) : List Int16 :=
  actions.flatMap fun
    | .onAudio _ chunk => chunk
    | _ => []

/-- The samples `read_frame` returned, without its zero fill. -/
def Track.returned (s : Track) : List Int16 := s.emitted.map fun e => scaled e.sample.value e.gain

def Track.queued (s : Track) : List Int16 := s.call.ttsCons.map Sample.value

structure LosesNothing (s : Track) (audio : List Int16) : Prop where
  front : s.returned <+: audio
  kept : audio.drop s.returned.length = s.queued

def Fits (s : Track) : Action → Prop
  | .onAudio _ chunk => chunk.length ≤ ringbufCapacity - s.call.ttsCons.length
  | _ => True

instance decidableFits (s : Track) : (action : Action) → Decidable (Fits s action)
  | .onAudio _ _ => inferInstanceAs (Decidable (_ ≤ _))
  | .readFrame _ | .bargeIn | .startTurn => isTrue trivial

theorem losesNothing_iff {s : Track} {audio : List Int16} :
    LosesNothing s audio ↔ s.returned ++ s.queued = audio := by
  constructor
  · rintro ⟨⟨rest, rfl⟩, kept⟩
    rw [List.drop_left] at kept
    rw [kept]
  · rintro rfl
    exact ⟨⟨s.queued, rfl⟩, List.drop_left⟩

theorem scaled_one (value : Int16) : scaled value 1 = value := by
  simp [scaled]

/-- What the steps of a turn do while no fade is armed: a chunk is queued as far as there is
room, and what a read pops is returned as it is. -/
inductive PlayStep (s : Track) : Action → Track → Prop
  | pushes (turn : Nat) (chunk : List Int16) (s' : Track) (returned : s'.returned = s.returned)
      (queued : s'.queued = s.queued ++ chunk.take (ringbufCapacity - s.call.ttsCons.length)) :
      PlayStep s (.onAudio turn chunk) s'
  | reads (len : Nat) (s' : Track) (returned : s'.returned = s.returned ++ s.queued.take len)
      (queued : s'.queued = s.queued.drop len) : PlayStep s (.readFrame len) s'

theorem play_step {s s' : Track} {action : Action} (idle : s.call.fadeOutRemaining = 0)
    (plays : action.plays = true) (taken : step s action = some s') :
    s'.call.fadeOutRemaining = 0 ∧ PlayStep s action s' := by
  cases action with
  | onAudio turn chunk =>
    obtain ⟨turnBargeIns, _, rfl⟩ := Option.map_eq_some_iff.mp taken
    refine ⟨idle, .pushes turn chunk _ rfl ?_⟩
    simp [Track.queued, Track.onAudio, CallState.pushSlice, List.map_take, Function.comp_def]
  | readFrame len =>
    have unfaded : s.call.readFrame len =
        some ⟨(s.call.ttsCons.take len).map fun sample => (sample, 1), [],
          { s.call with ttsCons := s.call.ttsCons.drop len }⟩ := by
      unfold CallState.readFrame
      have unarmed : ¬(0 < s.call.fadeOutRemaining ∧ 0 < (s.call.ttsCons.take len).length) := by
        rw [idle]
        exact fun armed => absurd armed.1 (Nat.lt_irrefl 0)
      simp only [if_neg unarmed]
    simp only [step, unfaded, Option.map_some, Option.some.injEq] at taken
    subst taken
    refine ⟨idle, .reads len _ ?_ ?_⟩
    · simp [Track.returned, Track.queued, Track.read, stamp, List.map_take, scaled_one, Function.comp_def]
    · simp [Track.queued, Track.read, List.map_drop]
  | bargeIn | startTurn => cases plays

theorem PlayStep.lossless {s s' : Track} {action : Action} {audio : List Int16} (played : PlayStep s action s')
    (whole : s.returned ++ s.queued = audio) (fits : Fits s action) :
    s'.returned ++ s'.queued = audio ++ pushed [action] := by
  cases played with
  | pushes turn chunk s' returned queued =>
    rw [returned, queued, List.take_of_length_le fits, ← List.append_assoc, whole]
    simp [pushed]
  | reads len s' returned queued =>
    rw [returned, queued, List.append_assoc, List.take_append_drop, whole]
    simp [pushed]

/-- A sample that was lost once stays lost, and a chunk without room loses one. -/
theorem PlayStep.short {s s' : Track} {action : Action} {audio : List Int16} (played : PlayStep s action s')
    (bound : s.returned.length + s.queued.length ≤ audio.length)
    (loses : s.returned.length + s.queued.length < audio.length ∨ ¬Fits s action) :
    s'.returned.length + s'.queued.length < (audio ++ pushed [action]).length := by
  cases played with
  | pushes turn chunk s' returned queued =>
    have size : (pushed [.onAudio turn chunk]).length = chunk.length := by simp [pushed]
    rw [returned, queued, List.length_append, List.length_append, size, List.length_take]
    unfold Fits at loses
    omega
  | reads len s' returned queued =>
    have size : (pushed [.readFrame len]).length = 0 := rfl
    have lost := loses.resolve_right fun unfit => unfit trivial
    rw [returned, queued, List.length_append, List.length_append, size, List.length_take, List.length_drop]
    omega

theorem pushed_cons (action : Action) (rest : List Action) :
    pushed (action :: rest) = pushed [action] ++ pushed rest := by
  simp [pushed]

theorem run_short {actions : List Action} {s final : Track} {audio : List Int16}
    (idle : s.call.fadeOutRemaining = 0) (plays : ∀ action ∈ actions, action.plays = true)
    (lost : s.returned.length + s.queued.length < audio.length) (taken : run step s actions = some final) :
    final.returned.length + final.queued.length < (audio ++ pushed actions).length := by
  induction actions generalizing s audio with
  | nil =>
    cases taken
    simpa [pushed] using lost
  | cons action rest ih =>
    obtain ⟨next, stepped, later⟩ := run_cons taken
    rw [List.forall_mem_cons] at plays
    obtain ⟨idle', played⟩ := play_step idle plays.1 stepped
    rw [pushed_cons, ← List.append_assoc]
    exact ih idle' plays.2 (played.short lost.le (.inl lost)) later

theorem run_lossless {actions : List Action} {s final : Track} {audio : List Int16}
    (idle : s.call.fadeOutRemaining = 0) (plays : ∀ action ∈ actions, action.plays = true)
    (whole : s.returned ++ s.queued = audio) (taken : run step s actions = some final) :
    final.returned ++ final.queued = audio ++ pushed actions ↔ Along step Fits s actions := by
  induction actions generalizing s audio with
  | nil =>
    cases taken
    rw [whole, show pushed [] = [] from rfl, List.append_nil]
    exact ⟨fun _ => trivial, fun _ => rfl⟩
  | cons action rest ih =>
    obtain ⟨next, stepped, later⟩ := run_cons taken
    rw [List.forall_mem_cons] at plays
    obtain ⟨idle', played⟩ := play_step idle plays.1 stepped
    have along : Along step Fits s (action :: rest) ↔ Fits s action ∧ Along step Fits next rest := by
      refine ⟨fun all => all next stepped, fun both other same => ?_⟩
      cases stepped.symm.trans same
      exact both
    rw [along, pushed_cons, ← List.append_assoc]
    by_cases fits : Fits s action
    · rw [ih idle' plays.2 (played.lossless whole fits) later]
      exact (and_iff_right fits).symm
    · have bound : s.returned.length + s.queued.length ≤ audio.length := by
        rw [← whole, List.length_append]
      have lost := run_short idle' plays.2 (played.short bound (.inr fits)) later
      refine ⟨fun same => absurd (congrArg List.length same) ?_, fun both => absurd both.1 fits⟩
      rw [List.length_append]
      exact lost.ne

/-- A turn without a barge-in loses nothing exactly when every chunk found room in the ring. -/
theorem playback_losesNothing_iff (fadeOutTotal : Nat) (actions : List Action) (final : Track)
    (plays : ∀ action ∈ actions, action.plays = true)
    (taken : run step (init fadeOutTotal).startTurn actions = some final) :
    LosesNothing final (pushed actions) ↔ Along step Fits (init fadeOutTotal).startTurn actions := by
  have lossless : final.returned ++ final.queued = [] ++ pushed actions ↔ _ :=
    run_lossless rfl plays rfl taken
  rw [losesNothing_iff, ← lossless, List.nil_append]

def playedWhole : List Action :=
  [.onAudio 0 [1, 2, 3], .readFrame 2, .onAudio 0 [4], .readFrame 1, .readFrame 2]

theorem playedWhole_losesNothing :
    ∃ final, run step (init 2).startTurn playedWhole = some final ∧ final.returned = [1, 2, 3, 4] ∧
      LosesNothing final [1, 2, 3, 4] :=
  ⟨_, rfl, by decide +kernel,
    (playback_losesNothing_iff 2 playedWhole _ (by decide) rfl).mpr (by decide +kernel)⟩

/-- A reply streamed at once: 32 chunks of 5120 samples, more than 20 s at 8 kHz. -/
def longReply : List Action := List.replicate 32 (.onAudio 0 (List.replicate 5120 1))

theorem run_pushes (n : Nat) (chunk : List Int16) {s : Track} (turns : s.turns = [0])
    (bound : s.queued.length ≤ ringbufCapacity) :
    ∃ final, run step s (List.replicate n (.onAudio 0 chunk)) = some final ∧
      final.returned = s.returned ∧ final.queued.length ≤ ringbufCapacity := by
  induction n generalizing s with
  | zero => exact ⟨s, rfl, rfl, bound⟩
  | succ n ih =>
    have stepped : step s (.onAudio 0 chunk) = some (s.onAudio chunk 0) := by
      simp [step, turns]
    have room : (s.onAudio chunk 0).queued.length ≤ ringbufCapacity := by
      simp only [Track.queued, List.length_map] at bound
      simp only [Track.queued, Track.onAudio, CallState.pushSlice, List.length_map, List.length_append,
        List.length_take]
      omega
    obtain ⟨final, taken, returned, held⟩ := ih (s := s.onAudio chunk 0) turns room
    refine ⟨final, ?_, returned, held⟩
    rw [List.replicate_succ, run, stepped]
    exact taken

theorem length_pushed_replicate (n turn : Nat) (chunk : List Int16) :
    (pushed (List.replicate n (.onAudio turn chunk))).length = n * chunk.length := by
  induction n with
  | zero => simp [pushed]
  | succ n ih =>
    rw [List.replicate_succ, pushed_cons, List.length_append, ih, Nat.succ_mul, Nat.add_comm]
    simp [pushed]

theorem longReply_loses :
    (∀ action ∈ longReply, action.plays = true) ∧
      ∃ final, run step (init 160).startTurn longReply = some final ∧
        ¬LosesNothing final (pushed longReply) := by
  refine ⟨fun action member => ?_, ?_⟩
  · rw [List.eq_of_mem_replicate member]
    rfl
  · obtain ⟨final, taken, returned, held⟩ :=
      run_pushes 32 (List.replicate 5120 1) (s := (init 160).startTurn) rfl (Nat.zero_le _)
    refine ⟨final, taken, fun whole => ?_⟩
    have lengths := congrArg List.length (losesNothing_iff.mp whole)
    have size : (pushed longReply).length = 32 * 5120 := by
      rw [longReply, length_pushed_replicate, List.length_replicate]
    rw [List.length_append, returned, size] at lengths
    have none : (init 160).startTurn.returned.length = 0 := rfl
    have capacity : ringbufCapacity = 160000 := rfl
    omega

end Fswtch.Seat.Playback
