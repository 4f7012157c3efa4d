import Fswtch.Lib.StepRun
import Fswtch.Seat.CallSystemSound

/-! `turn_pending` while a reply is heard. The flags belong to the turn and the requests
to its sentences, so the flag outlasts the audio as long as no sentence is installed
after the flags were cleared and none is under way when they are. -/

namespace Fswtch.Seat.CallSystem
open Fswtch.Lib.StepRun Fswtch.Seat.TtsSession

namespace System

/-- At every `on_audio` for a request not cancelled the turn was pending. -/
def PendingWhileHeard (s : System) : Prop := ∀ pending ∈ s.heard, pending = true

/-- Neither was the task cancelled, nor `cancel` called since it was installed. -/
def Unsilenced (s : System) (r : Nat) : Prop := r ∉ s.session.cancelledTasks ∧ s.silencedBelow ≤ r

/-- No request is under way but cancelled ones. -/
def Still (s : System) : Prop := ∀ r ∈ s.session.outstanding, ¬s.Unsilenced r

/-- The step runs `TurnFlags::end`, elsewhere than in the handler of a barge-in. -/
def endsTurn (s : System) : Action → Bool
  | .synth j choice => s.synths[j]?.any fun synth =>
      match synth.phase with
      | .failed => true
      | .http => choice
      | .fired => synth.awaited && s.turnCancel
      | _ => false
  | .server (.drive _) => s.session.driver.phase.calling && s.sessionReal
  | _ => false

def Sustained (s : System) (action : Action) : Prop :=
  (s.installsTask action = true → s.flags.turnPending = true) ∧ (s.endsTurn action = true → s.Still)

instance (s : System) (r : Nat) : Decidable (s.Unsilenced r) := inferInstanceAs (Decidable (_ ∧ _))

instance (s : System) : Decidable s.Still :=
  inferInstanceAs (Decidable (∀ r ∈ s.session.outstanding, ¬s.Unsilenced r))

instance decidableSustained (s : System) (action : Action) : Decidable (s.Sustained action) :=
  inferInstanceAs (Decidable ((_ → _) ∧ (_ → _)))

structure Lasting (s : System) : Prop where
  pending : ∀ r ∈ s.session.outstanding, s.Unsilenced r → s.flags.turnPending = true
  heard : s.PendingWhileHeard

/-- The flag is kept or set, or nothing is under way. -/
def Keeps (s s' : System) : Prop :=
  (s.flags.turnPending = true → s'.flags.turnPending = true) ∨ s.Still

theorem Lasting.rests {s s' : System} (lasting : Lasting s) (session : s'.session = s.session)
    (silenced : s.silencedBelow ≤ s'.silencedBelow) (heard : s'.heard = s.heard) (keeps : Keeps s s') :
    Lasting s' := by
  refine ⟨?_, by rw [PendingWhileHeard, heard]; exact lasting.heard⟩
  intro r member unsilenced
  rw [session] at member
  rw [Unsilenced, session] at unsilenced
  have before : s.Unsilenced r := ⟨unsilenced.1, Nat.le_trans silenced unsilenced.2⟩
  rcases keeps with kept | still
  · exact kept (lasting.pending r member before)
  · exact absurd before (still r member)

/-- The handlers that call `cancel` silence all that is under way. -/
theorem Lasting.silences {s s' : System} (coherent : Coherent s) (lasting : Lasting s)
    (session : s'.session = s.session) (silenced : s'.silencedBelow = s.session.nextTask)
    (heard : s'.heard = s.heard) : Lasting s' := by
  refine ⟨?_, by rw [PendingWhileHeard, heard]; exact lasting.heard⟩
  intro r member unsilenced
  rw [session] at member
  exact absurd (silenced ▸ unsilenced.2) (Nat.not_le_of_lt (coherent.steady.numbered r member))

/-- A session in which nothing has been installed has nothing under way. -/
theorem Lasting.restarts {s s' : System} (lasting : Lasting s) (none : s'.session.outstanding = [])
    (heard : s'.heard = s.heard) : Lasting s' := by
  refine ⟨?_, by rw [PendingWhileHeard, heard]; exact lasting.heard⟩
  rw [none]
  exact nofun

/-- A step of the session; it may end the turn only if nothing is under way. -/
theorem Lasting.steps {s s' : System} {action : Session.Action} {event : Option Event}
    (coherent : Coherent s) (lasting : Lasting s)
    (stepped : s.session.step action = some (s'.session, event))
    (silenced : s'.silencedBelow = s.silencedBelow) (heard : s'.PendingWhileHeard) (keeps : Keeps s s')
    (installing : ∀ i choice, action = .advance i choice → Installs s.session i choice →
      s'.flags.turnPending = true) : Lasting s' := by
  refine ⟨?_, heard⟩
  intro r member unsilenced
  rcases step_outstanding coherent.steady stepped member with old | ⟨i, choice, same, clear, _⟩
  · have before : s.Unsilenced r :=
      ⟨fun cancelled => unsilenced.1 (step_cancelledTasks stepped r cancelled), silenced ▸ unsilenced.2⟩
    rcases keeps with kept | still
    · exact kept (lasting.pending r old before)
    · exact absurd before (still r old)
  · exact installing i choice same clear

theorem Lasting.calls {s s' : System} {action : Session.Action} {event : Option Event}
    (coherent : Coherent s) (lasting : Lasting s)
    (stepped : s.session.step action = some (s'.session, event))
    (silenced : s'.silencedBelow = s.silencedBelow) (heard : s'.heard = s.heard)
    (flags : s'.flags = s.flags)
    (installing : ∀ i choice, action = .advance i choice → Installs s.session i choice →
      s.flags.turnPending = true) : Lasting s' :=
  .steps coherent lasting stepped silenced (by rw [PendingWhileHeard, heard]; exact lasting.heard)
    (.inl (by rw [flags]; exact id)) fun i choice same clear => flags ▸ installing i choice same clear

theorem Lasting.synths {setup : Setup} {s s' : System} {j : Nat} {synth : Synth} {choice : Bool}
    (coherent : Coherent s) (lasting : Lasting s) (sustained : s.Sustained (.synth j choice))
    (found : s.synths[j]? = some synth) (moved : SynthStep setup s j synth choice s') : Lasting s' := by
  have installing : ∀ {call : Nat}, synth.phase = .inSession call →
      ∀ i token, Session.Action.advance call (freshToken s.session choice) = .advance i token →
        Installs s.session i token → s.flags.turnPending = true := by
    rintro call here i token ⟨⟩ clear
    exact sustained.1 (by simp [installsTask, found, here, clear])
  have starting : ∀ {call : Nat}, synth.phase = .starting call →
      ∀ i token, Session.Action.advance call choice = .advance i token →
        Installs s.session i token → s.flags.turnPending = true := by
    rintro call here i token ⟨⟩ clear
    have kind := (coherent.starting j synth call found here).2
    cases kind.symm.trans clear.2.1
  have entering : ∀ kind, s.session.step (.enter kind) = some (s.session.enter kind, none) := fun _ => rfl
  cases moved with
  | begins | posts | skips => exact lasting.rests rfl (Nat.le_refl _) rfl (.inl id)
  | creates here empty => exact lasting.restarts rfl rfl
  | enters here ready => exact .calls coherent lasting (entering (.sentence false)) rfl rfl rfl nofun
  | connects here stepped silent => exact .calls coherent lasting stepped rfl rfl rfl (starting here)
  | @opens call other session here stepped =>
    have opened : Lasting { s with session, slot := .ready } :=
      .calls coherent lasting stepped rfl rfl rfl (starting here)
    refine ⟨fun r member => ?_, opened.heard⟩
    exact opened.pending r member
  | drops here stepped refused => exact lasting.restarts rfl rfl
  | moves here stepped silent => exact .calls coherent lasting stepped rfl rfl rfl (installing here)
  | installs here stepped => exact .calls coherent lasting stepped rfl rfl rfl (installing here)
  | leaves here stepped => exact .calls coherent lasting stepped rfl rfl rfl (installing here)
  | plays here played =>
    exact lasting.rests rfl (Nat.le_refl _) rfl
      (.inr (sustained.2 (by simp [endsTurn, found, here, played])))
  | refuses | finishes => exact lasting.rests rfl (Nat.le_refl _) rfl (.inl id)
  | clears here =>
    exact lasting.rests rfl (Nat.le_refl _) rfl (.inr (sustained.2 (by simp [endsTurn, found, here])))
  | stops here cancelled =>
    exact lasting.rests rfl (Nat.le_refl _) rfl
      (.inr (sustained.2 (by simp [endsTurn, found, here, cancelled])))

theorem Lasting.turns {setup : Setup} {s s' : System} {k : Nat} (lasting : Lasting s)
    (moved : TurnStep setup s k s') : Lasting s' := by
  cases moved with
  | hears delta here =>
    refine lasting.rests rfl (Nat.le_refl _) rfl (.inl fun pending => ?_)
    simp only [onTextDelta]
    split
    · exact pending
    · rfl
  | speaks result provided => exact lasting.rests rfl (Nat.le_refl _) rfl (.inl fun _ => rfl)
  | walks | returns | acts | persists => exact lasting.rests rfl (Nat.le_refl _) rfl (.inl id)

theorem Lasting.receives {setup : Setup} {s s' : System} (coherent : Coherent s) (lasting : Lasting s)
    (moved : ReceiveStep setup s s') : Lasting s' := by
  cases moved with
  | @begins k rest next =>
    have same := cancel_same setup (s.beginTurn k rest) (.segment k)
    exact .silences coherent lasting same.session same.silencedBelow same.heard
  | @interrupts k rest next =>
    have same := cancel_same setup (s.interrupt k rest) (.bargeIn k)
    exact .silences coherent lasting same.session same.silencedBelow same.heard
  | remembers next => exact lasting.rests rfl (Nat.le_refl _) rfl (.inl id)

/-- The audio of a request not cancelled is heard while the turn is pending. -/
theorem Lasting.hears {s : System} {task : Nat} {late : Bool} {pcm : List Int16} (lasting : Lasting s)
    (here : s.session.driver.phase = .deliver (some task) late pcm) :
    (s.hear task).PendingWhileHeard := by
  unfold hear
  split
  · exact lasting.heard
  next loud =>
    rw [not_or] at loud
    have under : task ∈ s.session.outstanding := by
      refine mem_outstanding.mpr (.inr (.inr (.inr (.inr ?_))))
      rw [here]
      rfl
    intro pending member
    rcases List.mem_append.mp member with old | new
    · exact lasting.heard pending old
    · rw [List.mem_singleton.mp new]
      exact lasting.pending task under ⟨loud.1, Nat.le_of_not_lt loud.2⟩

theorem Lasting.drives {s : System} {session : Session} {wake : Session.Wake} {event : Option Event}
    (coherent : Coherent s) (lasting : Lasting s) (sustained : s.Sustained (.server (.drive wake)))
    (stepped : s.session.step (.drive wake) = some (session, event)) :
    Lasting (s.afterServer session event) := by
  have plain : Lasting { s with session } := .calls coherent lasting stepped rfl rfl rfl nofun
  cases event with
  | none => exact plain
  | some event =>
    rcases (drive_step stepped).event with ⟨id, exiting, here, rfl⟩ | ⟨task, late, pcm, here, rfl⟩
    · simp only [afterServer]
      split
      next real =>
        have still : s.Still := sustained.2 (by simp [endsTurn, here, DriverPhase.calling, real])
        have ended : Lasting ({ s with session }.endTurn) :=
          .steps coherent lasting stepped rfl plain.heard (.inr still) fun _ _ same => by cases same
        exact ended
      next => exact plain
    · cases task with
      | none => exact plain
      | some task =>
        have shape : s.afterServer session (some (.audio (some task) pcm)) =
            { s with session, heard := (s.hear task).heard } := by
          rw [afterServer, hear]
          split <;> rfl
        rw [shape]
        exact .steps coherent lasting stepped rfl (lasting.hears here) (.inl id) fun _ _ => nofun

theorem Lasting.serves {s s' : System} {action : Session.Action} (coherent : Coherent s)
    (lasting : Lasting s) (sustained : s.Sustained (.server action)) (taken : s.server action = some s') :
    Lasting s' := by
  cases action with
  | enter | advance | cancelCurrentTurn => cases taken
  | drive wake =>
    obtain ⟨session, event, stepped, rfl⟩ := server_cases taken
    exact .drives coherent lasting sustained stepped
  | tick elapsed =>
    cases taken
    have stepped : s.session.step (.tick elapsed) =
        some ({ s.session with now := s.session.now + elapsed }, none) := rfl
    exact .calls coherent lasting stepped rfl rfl rfl nofun
  | answered =>
    cases taken
    have stepped : s.session.step .answered = some ({ s.session with
        driver := { s.session.driver with requests := s.session.driver.requests.tail } }, none) := rfl
    exact .calls coherent lasting stepped rfl rfl rfl nofun
  | emit answering bytes =>
    obtain ⟨session, event, stepped, rfl⟩ := server_cases taken
    obtain ⟨_, rfl, _⟩ := emit_cases stepped
    exact .calls coherent lasting stepped rfl rfl rfl nofun

theorem step_lasting (setup : Setup) (s : System) (action : Action) (s' : System)
    (kept : Coherent s ∧ Lasting s) (sustained : s.Sustained action)
    (taken : s.step setup action = some s') : Coherent s' ∧ Lasting s' := by
  obtain ⟨coherent, lasting⟩ := kept
  refine ⟨step_coherent setup s action s' coherent taken, ?_⟩
  have plain : ∀ {after : System}, after.session = s.session → after.silencedBelow = s.silencedBelow →
      after.heard = s.heard → after.flags = s.flags → Lasting after :=
    fun session silenced heard flags =>
      lasting.rests session (Nat.le_of_eq silenced.symm) heard (.inl (by rw [flags]; exact id))
  cases action with
  | onset | speechEnd | tell | forward =>
    cases listen_step taken rfl <;> exact plain rfl rfl rfl rfl
  | receive => exact .receives coherent lasting (receive_step taken).2
  | turn move =>
    obtain ⟨k, stage, _, moved⟩ := turn_step taken
    exact lasting.turns moved
  | synth j choice =>
    obtain ⟨synth, found, moved⟩ := synth_step taken
    exact .synths coherent lasting sustained found moved
  | cancelTask j =>
    cases cancelTask_step taken with
    | skips => exact plain rfl rfl rfl rfl
    | marks =>
      have stepped : s.session.step .cancelCurrentTurn = some (s.session.cancelCurrentTurn, none) := rfl
      exact .calls coherent lasting stepped rfl rfl rfl nofun
  | server action => exact .serves coherent lasting sustained taken

end System

/-- In a run that installs tasks while the turn is pending and ends the turn while nothing
is under way, the turn is pending whenever a request not cancelled is heard. -/
theorem pending_while_heard (setup : Setup) (actions : List System.Action) (final : System)
    (sustained : Along (System.step setup) System.Sustained {} actions)
    (taken : run (System.step setup) {} actions = some final) : final.PendingWhileHeard := by
  have initial : System.Coherent {} ∧ System.Lasting {} := ⟨System.initial_coherent, ⟨nofun, nofun⟩⟩
  exact (invariant_of_run (System.step_lasting setup) initial sustained taken).2.heard

theorem oneSentence_pending_while_heard :
    ∃ final, run (System.step System.volcanoSetup) {} System.oneSentence = some final ∧
      final.heard = [true] ∧ final.PendingWhileHeard := by
  have sustained : Along (System.step System.volcanoSetup) System.Sustained {} System.oneSentence := by
    decide +kernel
  have heard : (run (System.step System.volcanoSetup) {} System.oneSentence).map System.heard =
      some [true] := by decide +kernel
  obtain ⟨final, taken, heard⟩ := Option.map_eq_some_iff.mp heard
  exact ⟨final, taken, heard,
    pending_while_heard System.volcanoSetup System.oneSentence final sustained taken⟩

/-- The model pauses, and the stream goes idle before its second sentence. -/
def pausedReply : List System.Action :=
  System.oneSentence ++ [.turn (.delta "Bye. ".toList), .synth 1 true, .synth 1 true] ++
    System.installing 1 ++ System.answering 1

theorem pausedReply_not_pendingWhileHeard :
    ∃ final, run (System.step System.volcanoSetup) {} pausedReply = some final ∧
      final.heard = [true, false] ∧ ¬final.PendingWhileHeard := by
  have heard : (run (System.step System.volcanoSetup) {} pausedReply).map System.heard =
      some [true, false] := by decide +kernel
  obtain ⟨final, taken, heard⟩ := Option.map_eq_some_iff.mp heard
  refine ⟨final, taken, heard, fun pending => ?_⟩
  cases pending false (by simp [heard])

end Fswtch.Seat.CallSystem
