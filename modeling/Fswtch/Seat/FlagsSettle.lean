import Fswtch.Lib.StepRun
import Fswtch.Seat.CallSystemSound

/-! The turn flags come down. While they are up something still owes an end: a synthesis
that has not yet installed its task or is failing, an uncompleted task, or a callback
under way. The debt is lost only where a provider reports success and signals nothing. -/

namespace Fswtch.Seat.CallSystem
open Fswtch.Lib.StepRun Fswtch.Seat.ReplyText Fswtch.Seat.TtsSession

namespace System

/-- No synthesis is in flight, and no task is uncompleted or about to be reported. -/
structure Settled (s : System) : Prop where
  synths : ∀ synth ∈ s.synths, synth.phase = .done
  completed : ∀ task ∈ s.session.current, task.completed = true
  called : s.session.driver.phase.calling = false

def FlagsSettle (s : System) : Prop :=
  s.Settled → s.flags.turnPending = false ∧ s.flags.ttsAudioActive = false

instance (s : System) : Decidable s.Settled :=
  decidable_of_iff ((∀ synth ∈ s.synths, synth.phase = .done) ∧
      (∀ task ∈ s.session.current, task.completed = true) ∧ s.session.driver.phase.calling = false)
    ⟨fun ⟨synths, completed, called⟩ => ⟨synths, completed, called⟩,
      fun settled => ⟨settled.synths, settled.completed, settled.called⟩⟩

def skipsSynthesis (setup : Setup) (s : System) : Action → Bool
  | .synth j _ => s.synths[j]?.any fun synth =>
      decide (synth.phase = .spawned ∧ setup.provider = .mimo ∧ s.mimoCancelled = true)
  | _ => false

def Signalled (setup : Setup) (s : System) (action : Action) : Prop :=
  s.flags = {} ∨ s.skipsSynthesis setup action = false ∧
    (s.installsTask action = true → s.sessionReal = true)

instance decidableSignalled (setup : Setup) (s : System) (action : Action) :
    Decidable (Signalled setup s action) :=
  inferInstanceAs (Decidable (_ ∨ _ ∧ (_ → _)))

/-- The synthesis will install a task or end the turn. -/
def Owes (s : System) (synth : Synth) : Prop :=
  match synth.phase with
  | .spawned | .wantSlot | .starting _ | .http | .failed => True
  | .inSession call => s.session.sendMutex ≠ some (call, .sending)
  | .fired | .done => False

def SessionOwes (session : Session) : Prop :=
  (∃ task ∈ session.current, task.completed = false) ∨ session.driver.phase.calling = true

def Owed (s : System) : Prop :=
  s.flags = {} ∨ (∃ (j : Nat) (synth : Synth), s.synths[j]? = some synth ∧ s.Owes synth) ∨
    s.sessionReal = true ∧ SessionOwes s.session

theorem SessionOwes.same {session session' : Session} (owes : SessionOwes session)
    (same : SameTasks session session') : SessionOwes session' := by
  rw [SessionOwes, same.current, same.calling]
  exact owes

theorem Owes.stays {s s' : System} {synth : Synth} (owes : s.Owes synth)
    (unsent : ∀ call, s'.session.sendMutex = some (call, .sending) →
      s.session.sendMutex = some (call, .sending)) : s'.Owes synth := by
  unfold Owes at owes ⊢
  split at owes
  case h_6 call here => exact fun held => owes (unsent call held)
  all_goals simp_all

theorem Owed.keeps {s s' : System} (owed : Owed s) (flags : s'.flags = s.flags)
    (synths : ∀ (j : Nat) (synth : Synth), s.synths[j]? = some synth → s.Owes synth →
      s'.synths[j]? = some synth ∧ s'.Owes synth)
    (session : s.sessionReal = true → SessionOwes s.session →
      s'.sessionReal = true ∧ SessionOwes s'.session) : Owed s' := by
  rcases owed with down | ⟨j, synth, known, owes⟩ | ⟨real, owes⟩
  · exact .inl (flags.trans down)
  · exact .inr (.inl ⟨j, synth, synths j synth known owes⟩)
  · exact .inr (.inr (session real owes))

theorem Owed.rests {s s' : System} (owed : Owed s) (flags : s'.flags = s.flags)
    (synths : s'.synths = s.synths) (session : s'.session = s.session)
    (real : s'.sessionReal = s.sessionReal) : Owed s' := by
  refine owed.keeps flags (fun j synth known owes => ⟨synths ▸ known, ?_⟩) fun held owes => ?_
  · exact owes.stays fun call => session ▸ id
  · exact ⟨real.trans held, session ▸ owes⟩

theorem Owed.steps {s s' : System} (owed : Owed s) (flags : s'.flags = s.flags)
    (synths : s'.synths = s.synths) (real : s'.sessionReal = s.sessionReal)
    (unsent : ∀ call, s'.session.sendMutex = some (call, .sending) →
      s.session.sendMutex = some (call, .sending))
    (session : SessionOwes s.session → SessionOwes s'.session) : Owed s' :=
  owed.keeps flags (fun _ _ known owes => ⟨synths ▸ known, owes.stays unsent⟩)
    fun held owes => ⟨real.trans held, session owes⟩

theorem Owed.owing {s' : System} {j : Nat} {synth : Synth} (known : s'.synths[j]? = some synth)
    (owes : s'.Owes synth) : Owed s' :=
  .inr (.inl ⟨j, synth, known, owes⟩)

theorem getElem?_setPhase_self {s : System} {j : Nat} {synth : Synth} (found : s.synths[j]? = some synth)
    (phase : SynthPhase) : (s.setPhase j phase).synths[j]? = some { synth with phase } := by
  rw [System.setPhase, getElem?_setSynth, if_pos rfl, found]
  rfl

theorem Owed.passes {s s' : System} {j : Nat} {synth : Synth} {phase : SynthPhase} (owed : Owed s)
    (found : s.synths[j]? = some synth) (free : ¬s.Owes synth) (flags : s'.flags = s.flags)
    (synths : s'.synths = (s.setPhase j phase).synths) (real : s'.sessionReal = s.sessionReal)
    (unsent : ∀ call, s'.session.sendMutex = some (call, .sending) →
      s.session.sendMutex = some (call, .sending))
    (session : SessionOwes s.session → SessionOwes s'.session) : Owed s' := by
  refine owed.keeps flags (fun i other known owes => ⟨?_, owes.stays unsent⟩)
    fun held owes => ⟨real.trans held, session owes⟩
  rw [synths, System.setPhase, getElem?_setSynth]
  split
  next same =>
    subst same
    cases found.symm.trans known
    exact absurd owes free
  next => exact known

theorem Owed.enters {s : System} {j : Nat} {synth : Synth} (linked : Linked s.session)
    (found : s.synths[j]? = some synth) : Owed (s.enterSentence j) := by
  refine .owing (getElem?_setPhase_self found _) fun held => ?_
  exact absurd (linked.holder_lt held) (Nat.lt_irrefl _)

/-- A call of `synthesize_sentence` that returns without having failed has sent its request. -/
theorem Owed.leaves {s : System} {j call other : Nat} {synth : Synth} {choice : Bool} {session : Session}
    {result : CallResult} (coherent : Coherent s) (owed : Owed s) (found : s.synths[j]? = some synth)
    (here : synth.phase = .inSession call)
    (stepped : s.session.step (.advance call (freshToken s.session choice)) =
      some (session, some (.returned other result))) :
    Owed ({ s with session }.setPhase j
      (if result = CallResult.failed then SynthPhase.failed else .fired)) := by
  have kind := (coherent.inSession j synth call found here).2
  have failing : result = .failed →
      Owed ({ s with session }.setPhase j
        (if result = CallResult.failed then SynthPhase.failed else .fired)) := by
    rintro rfl
    exact .owing (getElem?_setPhase_self found _) trivial
  cases advance_outcome coherent.steady.linked stepped with
  | sends held same free =>
    refine owed.passes found ?_ rfl rfl rfl (fun other next => ?_) (SessionOwes.same · same)
    · simpa only [Owes, here, not_not] using held
    · cases free.symm.trans next
  | clears held => exact failing rfl
  | rests same unsent shown =>
    rcases shown with quiet | ⟨result, shown, ok, cancelled⟩
    · cases quiet
    · cases shown
      cases result with
      | ok => cases kind.symm.trans (ok rfl)
      | cancelled =>
        rcases cancelled rfl with start | ⟨held, chosen⟩
        · cases kind.symm.trans start
        · rw [freshToken, held] at chosen
          cases chosen
      | failed => exact failing rfl

theorem Owed.synths {setup : Setup} {s s' : System} {j : Nat} {synth : Synth} {choice : Bool}
    (coherent : Coherent s) (owed : Owed s) (signalled : Signalled setup s (.synth j choice))
    (found : s.synths[j]? = some synth) (moved : SynthStep setup s j synth choice s') : Owed s' := by
  have called : (s.called j).synths[j]? = some { synth with begun := s.stamp } := by
    rw [System.called, getElem?_setSynth, if_pos rfl, found]
    rfl
  cases moved with
  | begins | posts => exact .owing (getElem?_setPhase_self called _) trivial
  | skips here mimo sticky =>
    rcases signalled with down | ⟨clear, _⟩
    · exact .inl down
    · simp [skipsSynthesis, found, here, mimo, sticky] at clear
  | creates here empty =>
    exact .owing (getElem?_setPhase_self (s := { s with
      slot := .starting j, session := s.freshSession.enter .start, heldReal := false
      sessionReal := s.heldReal, owners := [], silencedBelow := 0 }) found _) trivial
  | enters here ready => exact .enters coherent.steady.linked found
  | @connects call session event here stepped silent =>
    have owes : System.Owes { s with session } synth := by simp [Owes, here]
    exact .owing found owes
  | @opens call other session here stepped =>
    exact Owed.enters (s := { s with session, slot := .ready })
      (step_linked coherent.steady.linked stepped) found
  | drops here stepped refused =>
    exact .owing (getElem?_setPhase_self (s := { s with session := s.freshSession, slot := .empty })
      found _) trivial
  | @moves call session event here stepped silent =>
    have kind := (coherent.inSession j synth call found here).2
    cases advance_outcome coherent.steady.linked stepped with
    | installs clear => exact absurd rfl (silent.2 _ _)
    | continues other held => exact absurd kind other
    | sends held same free => exact absurd rfl (silent.1 _ _)
    | clears held => exact absurd rfl (silent.1 _ _)
    | rests same unsent shown => exact owed.steps rfl rfl rfl unsent (SessionOwes.same · same)
  | @installs call other task session here stepped =>
    obtain ⟨clear, rfl⟩ := installed_step coherent.steady.linked stepped
    rcases signalled with down | ⟨_, real⟩
    · exact .inl down
    · exact .inr (.inr ⟨real (by simp [installsTask, found, here, clear]), .inl ⟨_, rfl, rfl⟩⟩)
  | leaves here stepped => exact owed.leaves coherent found here stepped
  | plays | clears | stops => exact .inl rfl
  | refuses here => exact .owing (getElem?_setPhase_self found _) trivial
  | finishes here => exact owed.passes found (by simp [Owes, here]) rfl rfl rfl (fun _ => id) id

theorem Owed.appended {s s' : System} {added : List Synth} (owed : Owed s) (flags : s'.flags = s.flags)
    (synths : s'.synths = s.synths ++ added) (session : s'.session = s.session)
    (real : s'.sessionReal = s.sessionReal) : Owed s' := by
  refine owed.keeps flags (fun j synth known owes => ⟨?_, owes.stays fun _ => session ▸ id⟩)
    fun held owes => ⟨real.trans held, session ▸ owes⟩
  rw [synths, List.getElem?_append_left (List.getElem?_eq_some_iff.mp known).choose]
  exact known

theorem Owed.spawns {s s' : System} {new : Synth} {added : List Synth} (fresh : new.phase = .spawned)
    (synths : s'.synths = s.synths ++ new :: added) : Owed s' := by
  have known : s'.synths[s.synths.length]? = some new := by
    rw [synths, List.getElem?_append_right (Nat.le_refl _), Nat.sub_self]
    rfl
  exact .owing known (by simp [Owes, fresh])

theorem Owed.turns {setup : Setup} {s s' : System} {k : Nat} (owed : Owed s)
    (moved : TurnStep setup s k s') : Owed s' := by
  cases moved with
  | @hears stream reply delta here =>
    obtain ⟨new, spawned, begins⟩ :=
      onTextDelta_begins (decide (setup.provider ≠ .none)) s.turnCancel stream delta
    cases new with
    | nil => exact owed.appended (if_pos (begins rfl)) rfl rfl rfl
    | cons sentence rest =>
      have synths : (s.onTextDelta setup k stream reply delta).synths =
          s.synths ++ { turn := k, text := sentence, awaited := false } ::
            rest.map fun text => { turn := k, text, awaited := false } := by
        simp only [onTextDelta, spawned, List.drop_left]
        rfl
      exact .spawns rfl synths
  | speaks result provided => exact .spawns rfl rfl
  | walks | returns | acts | persists => exact owed.rests rfl rfl rfl rfl

theorem Owed.receives {setup : Setup} {s s' : System} (owed : Owed s)
    (moved : ReceiveStep setup s s') : Owed s' := by
  cases moved with
  | @begins k rest next =>
    have same := cancel_same setup (s.beginTurn k rest) (.segment k)
    exact owed.rests same.flags same.synths same.session same.sessionReal
  | @interrupts k rest next => exact .inl (cancel_same setup (s.interrupt k rest) (.bargeIn k)).flags
  | remembers next => exact owed.rests rfl rfl rfl rfl

theorem SessionOwes.drives {session session' : Session} {wake : Session.Wake} {event : Option Event}
    (owes : SessionOwes session) (stepped : session.step (.drive wake) = some (session', event)) :
    SessionOwes session' ∨ ∃ id, event = some (.turnEnd id) := by
  have calls : ∀ {id : Nat} {exiting : Bool}, session.driver.phase = .callback id exiting →
      ∃ id, event = some (.turnEnd id) := by
    intro id exiting here
    simp only [Session.step, Session.drive, here] at stepped
    cases stepped
    exact ⟨_, rfl⟩
  rcases owes with ⟨task, current, open_⟩ | calling
  · cases step_tasks stepped with
    | keeps change same mapped nextTask ended phase =>
      refine .inl (.inl ⟨change task, ?_, (same task).2.1.trans open_⟩)
      rw [mapped, current]
      rfl
    | completes here task current open_ => exact .inl (.inr rfl)
    | ends here => exact .inr (calls here)
  · unfold DriverPhase.calling at calling
    split at calling
    next here => exact .inr (calls here)
    next => cases calling

theorem Owed.drives {s : System} {session : Session} {wake : Session.Wake} {event : Option Event}
    (owed : Owed s) (stepped : s.session.step (.drive wake) = some (session, event)) :
    Owed (s.afterServer session event) := by
  have mutex : session.sendMutex = s.session.sendMutex := (drive_step stepped).frame.2.2.1
  have unsent : ∀ call, session.sendMutex = some (call, .sending) →
      s.session.sendMutex = some (call, .sending) := fun _ held => mutex ▸ held
  have plain : (∀ id, event ≠ some (.turnEnd id)) → SessionOwes s.session → SessionOwes session :=
    fun quiet owes => (owes.drives stepped).resolve_right fun ⟨id, ended⟩ => quiet id ended
  cases event with
  | none => exact owed.steps rfl rfl rfl unsent (plain nofun)
  | some event =>
    rcases (drive_step stepped).event with ⟨id, exiting, here, rfl⟩ | ⟨task, late, pcm, here, rfl⟩
    · simp only [afterServer]
      split
      next real => exact .inl rfl
      next unreal =>
        exact owed.keeps rfl (fun _ _ known owes => ⟨known, owes.stays unsent⟩)
          fun real _ => absurd real unreal
    · cases task with
      | none => exact owed.steps rfl rfl rfl unsent (plain nofun)
      | some task =>
        simp only [afterServer, hear]
        split <;> exact owed.steps rfl rfl rfl unsent (plain nofun)

theorem Owed.serves {s s' : System} {action : Session.Action} (owed : Owed s)
    (taken : s.server action = some s') : Owed s' := by
  cases action with
  | enter | advance | cancelCurrentTurn => cases taken
  | drive wake =>
    obtain ⟨session, event, stepped, rfl⟩ := server_cases taken
    exact owed.drives stepped
  | tick elapsed =>
    cases taken
    exact owed.steps rfl rfl rfl (fun _ => id) id
  | answered =>
    cases taken
    exact owed.steps rfl rfl rfl (fun _ => id) id
  | emit answering bytes =>
    obtain ⟨session, event, stepped, rfl⟩ := server_cases taken
    obtain ⟨_, rfl, task, _, rfl⟩ := emit_cases stepped
    exact owed.steps rfl rfl rfl (fun _ => id) id

theorem step_owed (setup : Setup) (s : System) (action : Action) (s' : System)
    (kept : Coherent s ∧ Owed s) (signalled : Signalled setup s action)
    (taken : s.step setup action = some s') : Coherent s' ∧ Owed s' := by
  obtain ⟨coherent, owed⟩ := kept
  refine ⟨step_coherent setup s action s' coherent taken, ?_⟩
  cases action with
  | onset | speechEnd | tell | forward =>
    cases listen_step taken rfl <;> exact owed.rests rfl rfl rfl rfl
  | receive => exact owed.receives (receive_step taken).2
  | turn move =>
    obtain ⟨k, stage, _, moved⟩ := turn_step taken
    exact owed.turns moved
  | synth j choice =>
    obtain ⟨synth, found, moved⟩ := synth_step taken
    exact owed.synths coherent signalled found moved
  | cancelTask j =>
    cases cancelTask_step taken with
    | skips => exact owed.rests rfl rfl rfl rfl
    | marks =>
      refine owed.steps rfl rfl rfl (fun _ => id) fun owes => ?_
      rcases owes with ⟨task, current, open_⟩ | calling
      · exact .inl ⟨{ task with cancelled := true }, Option.mem_map_of_mem _ current, open_⟩
      · exact .inr calling
  | server action => exact owed.serves taken

theorem Owed.settles {s : System} (owed : Owed s) : s.FlagsSettle := by
  intro settled
  rcases owed with down | ⟨j, synth, known, owes⟩ | ⟨_, ⟨task, current, open_⟩ | calling⟩
  · rw [down]
    exact ⟨rfl, rfl⟩
  · rw [Owes, settled.synths synth (List.mem_of_getElem? known)] at owes
    exact owes.elim
  · cases open_.symm.trans (settled.completed task current)
  · cases calling.symm.trans settled.called

end System

/-- In a run that, with the flags up, skips no synthesis and installs tasks only where the
callbacks are the call's own, the flags are down whenever all is settled. -/
theorem flags_settle (setup : Setup) (actions : List System.Action) (final : System)
    (signalled : Along (System.step setup) (System.Signalled setup) {} actions)
    (taken : run (System.step setup) {} actions = some final) : final.FlagsSettle := by
  have initial : System.Coherent {} ∧ System.Owed {} := ⟨System.initial_coherent, .inl rfl⟩
  exact (invariant_of_run (System.step_owed setup) initial signalled taken).2.settles

theorem oneSentence_flags_settle :
    ∃ final, run (System.step System.volcanoSetup) {} System.oneSentence = some final ∧ final.Settled ∧
      final.FlagsSettle := by
  have signalled : Along (System.step System.volcanoSetup) (System.Signalled System.volcanoSetup) {}
      System.oneSentence := by decide +kernel
  have settled : (run (System.step System.volcanoSetup) {} System.oneSentence).map
      (fun final => decide final.Settled) = some true := by decide +kernel
  obtain ⟨final, taken, settled⟩ := Option.map_eq_some_iff.mp settled
  exact ⟨final, taken, of_decide_eq_true settled,
    flags_settle System.volcanoSetup System.oneSentence final signalled taken⟩

def mimoSetup : Setup := ⟨.mimo, true, noArguments⟩

/-- The segment's own `cancel` makes MIMO skip the first sentence. -/
def skippedReply : List System.Action :=
  System.firstSegment ++ [.turn (.delta "Hi. ".toList), .synth 0 true, .synth 0 true]

def retriedSession : List System.Action :=
  System.firstSegment ++
    [.turn (.delta "Hi. ".toList), .synth 0 true, .synth 0 true, .synth 0 true, .synth 0 true,
      .synth 0 true, .synth 0 false, .synth 0 true, .turn .fails] ++
    System.firstSegment ++
    System.opening 1 ++ System.installing 1 ++ System.answering 1 ++ System.idling

theorem skipped_and_retried_not_flagsSettle :
    (∃ final, run (System.step mimoSetup) {} skippedReply = some final ∧ ¬final.FlagsSettle) ∧
      ∃ final, run (System.step System.volcanoSetup) {} retriedSession = some final ∧
        ¬final.FlagsSettle := by
  have stuck : ∀ {final : System}, (decide final.Settled && final.flags.turnPending) = true →
      ¬final.FlagsSettle := by
    intro final stuck down
    rw [Bool.and_eq_true] at stuck
    cases stuck.2.symm.trans (down (of_decide_eq_true stuck.1)).1
  have skipped : (run (System.step mimoSetup) {} skippedReply).map
      (fun final => decide final.Settled && final.flags.turnPending) = some true := by decide +kernel
  have retried : (run (System.step System.volcanoSetup) {} retriedSession).map
      (fun final => decide final.Settled && final.flags.turnPending) = some true := by decide +kernel
  obtain ⟨skippedFinal, skippedTaken, skipped⟩ := Option.map_eq_some_iff.mp skipped
  obtain ⟨retriedFinal, retriedTaken, retried⟩ := Option.map_eq_some_iff.mp retried
  exact ⟨⟨skippedFinal, skippedTaken, stuck skipped⟩, retriedFinal, retriedTaken, stuck retried⟩

end Fswtch.Seat.CallSystem
