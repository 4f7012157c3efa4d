import Fswtch.Lib.StepRun
import Fswtch.Seat.CallSystemSteps

/-! Barge-in and the turn in progress. The turn runs inside the mailbox, so a barge-in
waits behind it and cancels what the turn has left behind, never the turn itself. -/

namespace Fswtch.Seat.CallSystem
open Fswtch.Lib.StepRun Fswtch.Seat.ReplyText Fswtch.Seat.TtsSession

/-- Turn `k` hands text to TTS or carries out a side effect. -/
def Mark.actsOf (k : Nat) : Mark → Bool
  | .spoke j _ | .acted j _ => decide (j = k)
  | _ => false

/-- A turn in progress is not cancelled; a barge-in is handled when every turn begun has
returned; and after it only turns begun later do anything. -/
structure StopsWhenHandled (s : System) : Prop where
  uncancelled : ∀ k stage, s.actor = .turn k stage → s.turnCancel = false
  waits : ∀ before middle after k j turn,
    s.trace = before ++ .begun k :: (middle ++ .handled j turn :: after) → .returned k ∈ middle
  stops : ∀ before after j turn k, s.trace = before ++ .handled j turn :: after →
    ∀ mark ∈ after, mark.actsOf k = true → .begun k ∈ after

structure Orderly (trace : List Mark) (turn : Option Nat) : Prop where
  waits : ∀ before middle after k j other,
    trace = before ++ .begun k :: (middle ++ .handled j other :: after) → .returned k ∈ middle
  stops : ∀ before after j other k, trace = before ++ .handled j other :: after →
    ∀ mark ∈ after, mark.actsOf k = true → .begun k ∈ after
  closed : ∀ before after k, trace = before ++ .begun k :: after → .returned k ∈ after ∨ turn = some k
  current : ∀ k, turn = some k → ∃ before after, trace = before ++ .begun k :: after ∧
    ∀ j other, .handled j other ∉ after

theorem Orderly.waits_concat {trace : List Mark} {turn : Option Nat} {mark : Mark} (orderly : Orderly trace turn)
    (unhandled : ∀ j other, mark ≠ .handled j other) (before middle after : List Mark) (k j : Nat) (other : Option Nat)
    (split : trace ++ [mark] = before ++ .begun k :: (middle ++ .handled j other :: after)) :
    .returned k ∈ middle := by
  have split : trace ++ [mark] = (before ++ .begun k :: middle) ++ .handled j other :: after := by
    simpa using split
  rcases split_concat split with ⟨_, same, _⟩ | ⟨rest, _, inside⟩
  · exact absurd same.symm (unhandled j other)
  · exact orderly.waits before middle rest k j other (by simpa using inside)

theorem Orderly.stops_concat {trace : List Mark} {turn : Option Nat} {mark : Mark} (orderly : Orderly trace turn)
    (idle : ∀ k, mark.actsOf k = false) (before after : List Mark) (j : Nat) (other : Option Nat) (k : Nat)
    (split : trace ++ [mark] = before ++ .handled j other :: after) :
    ∀ acting ∈ after, acting.actsOf k = true → .begun k ∈ after := by
  intro acting member acts
  rcases split_concat split with ⟨rfl, _, _⟩ | ⟨rest, rfl, inside⟩
  · cases member
  · rcases List.mem_append.mp member with old | new
    · exact List.mem_append_left _ (orderly.stops before rest j other k inside acting old acts)
    · rw [List.mem_singleton.mp new] at acts
      cases (idle k).symm.trans acts

theorem Orderly.passes {trace : List Mark} {turn next : Option Nat} {mark : Mark}
    (orderly : Orderly trace turn) (unbegun : ∀ k, mark ≠ .begun k)
    (unhandled : ∀ j other, mark ≠ .handled j other)
    (own : ∀ k, mark.actsOf k = true → turn = some k)
    (left : next = turn ∨ ∃ k, turn = some k ∧ mark = .returned k ∧ next = none) :
    Orderly (trace ++ [mark]) next := by
  refine ⟨orderly.waits_concat unhandled, ?_, ?_, ?_⟩
  · intro before after j other k split x member acts
    rcases split_concat split with ⟨_, same, _⟩ | ⟨rest, rfl, inside⟩
    · exact absurd same.symm (unhandled j other)
    · rcases List.mem_append.mp member with old | new
      · exact List.mem_append_left _ (orderly.stops before rest j other k inside x old acts)
      · rw [List.mem_singleton.mp new] at acts
        obtain ⟨front, back, found, clear⟩ := orderly.current k (own k acts)
        rcases List.append_eq_append_iff.mp (inside.symm.trans found) with
          ⟨shared, rfl, same⟩ | ⟨shared, rfl, same⟩
        · cases shared with
          | nil => cases same
          | cons first shared =>
            simp only [List.cons_append, List.cons.injEq] at same
            rw [same.2]
            simp
        · cases shared with
          | nil => cases same
          | cons first shared =>
            simp only [List.cons_append, List.cons.injEq] at same
            exact absurd (same.2 ▸ List.mem_append_right shared (List.mem_cons_self ..)) (clear j other)
  · intro before after k split
    rcases split_concat split with ⟨_, same, _⟩ | ⟨rest, rfl, inside⟩
    · exact absurd same.symm (unbegun k)
    · rcases orderly.closed before rest k inside with done | now
      · exact .inl (List.mem_append_left _ done)
      · rcases left with rfl | ⟨j, during, rfl, rfl⟩
        · exact .inr now
        · cases now.symm.trans during
          exact .inl (by simp)
  · intro k now
    rcases left with rfl | ⟨j, _, _, rfl⟩
    · obtain ⟨before, after, rfl, clear⟩ := orderly.current k now
      refine ⟨before, after ++ [mark], by simp, fun j other member => ?_⟩
      rcases List.mem_append.mp member with old | new
      · exact clear j other old
      · exact unhandled j other (List.mem_singleton.mp new).symm
    · cases now

theorem Orderly.begins {trace : List Mark} (orderly : Orderly trace none) (k : Nat) :
    Orderly (trace ++ [.begun k]) (some k) := by
  refine ⟨orderly.waits_concat nofun, orderly.stops_concat fun _ => rfl, ?_, ?_⟩
  · intro before after i split
    rcases split_concat split with ⟨_, same, _⟩ | ⟨rest, rfl, inside⟩
    · cases same
      exact .inr rfl
    · rcases orderly.closed before rest i inside with done | now
      · exact .inl (List.mem_append_left _ done)
      · cases now
  · rintro i ⟨⟩
    exact ⟨trace, [], rfl, by simp⟩

theorem Orderly.handles {trace : List Mark} (orderly : Orderly trace none) (j : Nat)
    (other : Option Nat) : Orderly (trace ++ [.handled j other]) none := by
  refine ⟨?_, orderly.stops_concat fun _ => rfl, ?_, nofun⟩
  · intro before middle after k i turn split
    have split :
        trace ++ [.handled j other] = (before ++ .begun k :: middle) ++ .handled i turn :: after := by
      simpa using split
    rcases split_concat split with ⟨_, _, whole⟩ | ⟨rest, _, inside⟩
    · exact (orderly.closed before middle k whole).resolve_right nofun
    · exact orderly.waits before middle rest k i turn (by simpa using inside)
  · intro before after k split
    rcases split_concat split with ⟨_, same, _⟩ | ⟨rest, rfl, inside⟩
    · cases same
    · exact (orderly.closed before rest k inside).imp_left (List.mem_append_left _)

theorem Orderly.spoke {trace : List Mark} {k : Nat} (orderly : Orderly trace (some k))
    (texts : List SentenceSplit.Text) : Orderly (trace ++ texts.map (.spoke k)) (some k) := by
  induction texts generalizing trace with
  | nil => simpa using orderly
  | cons text rest ih =>
    have first : Orderly (trace ++ [.spoke k text]) (some k) :=
      orderly.passes nofun nofun (fun j acts => by simpa [Mark.actsOf] using acts) (.inl rfl)
    simpa using ih first

namespace System

def turnNumber (s : System) : Option Nat :=
  match s.actor with
  | .idle => none
  | .turn k _ => some k

structure Sequential (s : System) : Prop where
  orderly : Orderly s.trace s.turnNumber
  uncancelled : ∀ k stage, s.actor = .turn k stage → s.turnCancel = false

theorem Sequential.same {s s' : System} (sequential : Sequential s) (actor : s'.actor = s.actor)
    (turnCancel : s'.turnCancel = s.turnCancel) (trace : s'.trace = s.trace) : Sequential s' := by
  refine ⟨?_, ?_⟩
  · rw [turnNumber, actor, trace]
    exact sequential.orderly
  · rw [actor, turnCancel]
    exact sequential.uncancelled

theorem SynthStep.actor {setup : Setup} {s s' : System} {j : Nat} {synth : Synth} {choice : Bool}
    (moved : SynthStep setup s j synth choice s') :
    s'.actor = s.actor ∧ s'.turnCancel = s.turnCancel ∧ s'.trace = s.trace := by
  cases moved <;> exact ⟨rfl, rfl, rfl⟩

theorem Sequential.turns {setup : Setup} {s s' : System} {k : Nat} {stage : Stage}
    (sequential : Sequential s) (here : s.actor = .turn k stage) (moved : TurnStep setup s k s') :
    Sequential s' := by
  have orderly : Orderly s.trace (some k) := by
    simpa [turnNumber, here] using sequential.orderly
  have uncancelled : s.turnCancel = false := sequential.uncancelled k stage here
  have returned : Orderly (s.trace ++ [.returned k]) none :=
    orderly.passes nofun nofun nofun (.inr ⟨k, rfl, rfl, rfl⟩)
  cases moved with
  | walks next => exact ⟨orderly, fun _ _ _ => uncancelled⟩
  | returns => exact ⟨returned, nofun⟩
  | hears delta here => exact ⟨orderly.spoke _, fun _ _ _ => uncancelled⟩
  | speaks result provided => exact ⟨orderly.spoke [result.reply], fun _ _ _ => uncancelled⟩
  | acts effect rest =>
    refine ⟨orderly.passes nofun nofun (fun j acts => ?_) (.inl rfl), fun _ _ _ => uncancelled⟩
    simpa [Mark.actsOf] using acts
  | persists => exact ⟨returned, nofun⟩

theorem Sequential.receives {setup : Setup} {s s' : System} (sequential : Sequential s)
    (idle : s.actor = .idle) (moved : ReceiveStep setup s s') : Sequential s' := by
  have orderly : Orderly s.trace none := by
    simpa [turnNumber, idle] using sequential.orderly
  cases moved with
  | @begins k rest next =>
    have same := cancel_same setup (s.beginTurn k rest) (.segment k)
    refine Sequential.same ⟨?_, ?_⟩ same.actor same.turnCancel same.trace
    · exact orderly.begins k
    · exact fun _ _ _ => rfl
  | @interrupts k rest next =>
    have same := cancel_same setup (s.interrupt k rest) (.bargeIn k)
    refine Sequential.same ⟨?_, ?_⟩ same.actor same.turnCancel same.trace
    · have handled := orderly.handles k s.tokenTurn
      simpa [interrupt, turnNumber, idle] using handled
    · intro _ _ there
      cases idle.symm.trans there
  | remembers next => exact sequential.same rfl rfl rfl

theorem step_sequential (setup : Setup) (s : System) (action : Action) (s' : System)
    (sequential : Sequential s) (taken : s.step setup action = some s') : Sequential s' := by
  cases action with
  | onset | speechEnd | tell | forward =>
    cases listen_step taken rfl with
    | tells waiting =>
      exact ⟨sequential.orderly.passes nofun nofun nofun (.inl rfl), sequential.uncancelled⟩
    | hears | ends | forwards => exact sequential.same rfl rfl rfl
  | receive =>
    obtain ⟨idle, moved⟩ := receive_step taken
    exact sequential.receives idle moved
  | turn move =>
    obtain ⟨k, stage, here, moved⟩ := turn_step taken
    exact sequential.turns here moved
  | synth j choice =>
    obtain ⟨synth, _, moved⟩ := synth_step taken
    exact sequential.same moved.actor.1 moved.actor.2.1 moved.actor.2.2
  | cancelTask j =>
    cases cancelTask_step taken <;> exact sequential.same rfl rfl rfl
  | server action =>
    obtain ⟨session, event, _, rfl⟩ := server_cases taken
    obtain ⟨flags, heard, frame⟩ := afterServer_frame s session event
    rw [frame]
    exact sequential.same rfl rfl rfl

theorem initial_sequential : Sequential {} :=
  ⟨⟨by simp, by simp, by simp, nofun⟩, nofun⟩

end System

/-- In every run a barge-in is handled between turns: the turn in progress goes on as if
nothing had been queued, and once the barge-in is handled no earlier turn does anything. -/
theorem stops_when_handled (setup : Setup) (actions : List System.Action) (final : System)
    (taken : run (System.step setup) {} actions = some final) : StopsWhenHandled final := by
  have sequential : final.Sequential :=
    invariant_of_any_run (System.step_sequential setup) System.initial_sequential taken
  exact ⟨sequential.uncancelled, sequential.orderly.waits, sequential.orderly.stops⟩

/-- A call with a model and Volcano TTS, whose `send_dtmf` calls all ask for a five. -/
def dtmfSetup : Setup :=
  ⟨.volcano, true, ⟨fun _ field => if field = "digits" then some ['5'] else none, fun _ _ => none,
    fun _ _ => none⟩⟩

/-- The caller speaks up while the model still streams; the reply goes on with two tool calls. -/
def bargedIn : List System.Action :=
  [.onset, .speechEnd, .forward, .receive, .turn .proceed, .turn (.delta "Hi. ".toList), .onset,
    .tell 0, .turn (.concludes [⟨"send_dtmf", ""⟩, ⟨"hangup", ""⟩]), .turn .proceed, .turn .proceed,
    .turn .proceed, .turn .proceed, .receive]

def bargedInTrace : List Mark :=
  [.begun 0, .spoke 0 "Hi. ".toList, .queued 1, .acted 0 (.sendDtmf ['5']), .acted 0 .hangup,
    .returned 0, .handled 1 (some 0)]

theorem bargedIn_stops_when_handled :
    ∃ final, run (System.step dtmfSetup) {} bargedIn = some final ∧ final.trace = bargedInTrace ∧
      StopsWhenHandled final := by
  have traced : (run (System.step dtmfSetup) {} bargedIn).map System.trace = some bargedInTrace := by
    decide +kernel
  obtain ⟨final, taken, trace⟩ := Option.map_eq_some_iff.mp traced
  exact ⟨final, taken, trace, stops_when_handled dtmfSetup bargedIn final taken⟩

end Fswtch.Seat.CallSystem
