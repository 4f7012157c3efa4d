import Fswtch.Lib.StepRun
import Fswtch.Seat.CallSystemSound

/-! The order of the sentences on the wire. From the installation of its task on, a request
keeps its place in the order; up to there only the scheduler orders the sentences of a
reply. -/

namespace Fswtch.Seat.TtsSession

/-- The requests that wait in the channel, and the one about to be sent. -/
def Session.pending (s : Session) : List Nat :=
  s.driver.commands.filterMap DriverCmd.task ++ s.sendingTask.toList

def Session.writes (s : Session) : Session.Action → Option Nat
  | .drive (.command .sent) =>
    match s.driver.phase with
    | .select _ => s.driver.commands.head?.bind DriverCmd.task
    | _ => none
  | _ => none

theorem pending_of_kept {s s' : Session} (commands : s'.driver.commands = s.driver.commands)
    (sendMutex : s'.sendMutex = s.sendMutex)
    (current : s'.current.map ActiveTask.id = s.current.map ActiveTask.id) : s'.pending = s.pending := by
  rw [Session.pending, Session.pending, Session.sendingTask, Session.sendingTask, commands, sendMutex,
    current]

theorem pending_of_unsent {s s' : Session} (commands : s'.driver.commands = s.driver.commands)
    (unsent : ∀ i, s'.sendMutex ≠ some (i, .sending)) : s'.pending.Sublist s.pending := by
  rw [Session.pending, Session.pending, sendingTask_unsent unsent, commands]
  exact (List.Sublist.refl _).append (List.nil_sublist _)

theorem pending_holds {s s' : Session} {i : Nat} {choice : Bool} {holding : Holding}
    {event : Option Event} (calls : CallsSound s) (oneShot : OneShot s)
    (held : s.sendMutex = some (i, holding)) (moved : HolderStep s i choice holding s' event) :
    s'.pending.Sublist s.pending ∧ s'.nextTask = s.nextTask ∨
      Installs s i choice ∧ s' = s.install.hold i .sending ∧ event = some (.installed i s.nextTask) := by
  cases moved with
  | rests quiet work driver link mutex shown =>
    refine .inl ⟨pending_of_unsent (by rw [driver]) fun holder next => ?_, work.nextTask⟩
    cases (mutex holder _ next).1
  | connects work driver link mutex =>
    refine .inl ⟨?_, work.nextTask⟩
    have nothing : s'.pending = [] := by
      simp [Session.pending, Session.sendingTask, driver, mutex]
    rw [nothing]
    exact List.nil_sublist _
  | pushes command plain quiet work driver link mutex =>
    have unsent : s'.sendingTask = none := by
      refine sendingTask_unsent fun holder next => ?_
      cases (mutex holder _ next).1
    refine .inl ⟨?_, work.nextTask⟩
    rw [Session.pending, Session.pending, unsent, driver, Session.push, List.filterMap_append]
    simp [plain]
  | installs clear => exact .inr ⟨clear, rfl, rfl⟩
  | continues other => exact absurd (oneShot.only_first calls held) other
  | sends isOpen =>
    have sending : s.sendingTask = s.current.map ActiveTask.id := by rw [Session.sendingTask, held]
    refine .inl ⟨?_, rfl⟩
    rw [Session.pending, Session.pending, sending]
    cases found : s.current <;>
      simp [Session.push, Session.release, Session.setPhase, DriverCmd.task, Session.sendingTask]
  | fails closed => exact .inl ⟨pending_of_unsent rfl fun holder next => (by cases next), rfl⟩
  | clears => exact .inl ⟨pending_of_unsent rfl fun holder next => (by cases next), rfl⟩

theorem pending_tail {s : Session} {command : DriverCmd} {rest : List DriverCmd}
    (queued : s.driver.commands = command :: rest) :
    s.pending = command.task.toList ++ (rest.filterMap DriverCmd.task ++ s.sendingTask.toList) := by
  rw [Session.pending, queued]
  cases found : command.task <;> simp [found]

theorem DriveStep.pending {s s' : Session} {wake : Session.Wake} {event : Option Event}
    (moved : DriveStep s wake s' event) : s'.pending.Sublist s.pending := by
  cases moved with
  | loses here queued phase back =>
    rw [pending_tail queued]
    exact List.sublist_append_right _ _
  | requests here queued =>
    rw [pending_tail queued]
    exact List.sublist_append_right _ _
  | @hears deadline frame rest woken here arrived =>
    have route := (routeFrame_spec (s.read rest) frame).1
    rw [pending_of_kept route.commands route.sendMutex (routeFrame_task (s.read rest) frame)]
    exact List.Sublist.refl _
  | @fires exiting here =>
    have same : (s.fireTurnComplete exiting).pending = s.pending := by
      unfold Session.fireTurnComplete
      split
      next task current =>
        split
        · rfl
        · exact pending_of_kept rfl rfl (by simp [current])
      next => rfl
    rw [same]
  | returns here => exact List.sublist_append_right _ _
  | computes | idles | dies | callsBack | delivers | closes => exact List.Sublist.refl _

theorem pending_drives {s s' : Session} {wake : Session.Wake} {event : Option Event}
    (taken : s.step (.drive wake) = some (s', event)) :
    ((s.writes (.drive wake)).toList ++ s'.pending).Sublist s.pending := by
  cases written : s.writes (.drive wake) with
  | none => exact (drive_step taken).pending
  | some task =>
    unfold Session.writes at written
    split at written
    next same =>
      cases same
      split at written
      next deadline here =>
        obtain ⟨command, head, asks⟩ := Option.bind_eq_some_iff.mp written
        cases queued : s.driver.commands with
        | nil => simp [queued] at head
        | cons first rest =>
          have same : first = command := by simpa [queued] using head
          subst same
          have popped : s'.driver.commands = rest ∧ s'.sendingTask = s.sendingTask := by
            simp only [Session.step, Session.drive, here, Session.wake] at taken
            obtain ⟨_, _, _, there, moved⟩ := takeCommand_cases taken
            cases queued.symm.trans there
            rcases moved with ⟨phase, _, rfl⟩ | ⟨task, _, rfl⟩ <;> exact ⟨rfl, rfl⟩
          rw [pending_tail queued, asks, Session.pending, popped.1, popped.2]
      next => cases written
    next => cases written

theorem step_pending {s s' : Session} {action : Session.Action} {event : Option Event}
    (linked : Linked s) (oneShot : OneShot s) (taken : s.step action = some (s', event)) :
    ((s.writes action).toList ++ s'.pending).Sublist s.pending ∧ s'.nextTask = s.nextTask ∨
      ∃ i choice, action = .advance i choice ∧ Installs s i choice ∧
        s' = s.install.hold i .sending ∧ event = some (.installed i s.nextTask) := by
  cases action with
  | advance i choice =>
    obtain ⟨call, found, ⟨_, phase, rfl, _⟩ | ⟨_, _, holding, rfl, start⟩ | ⟨_, holding, held, moved⟩⟩ :=
      advance_cases taken
    · exact .inl ⟨List.Sublist.refl _, rfl⟩
    · refine .inl ⟨pending_of_unsent rfl ?_, rfl⟩
      rintro j ⟨⟩
      simp at start
    · have moves := pending_holds linked.calls oneShot held (advanceHolder_step (by simp [found]) held moved)
      exact moves.imp_right fun done => ⟨i, choice, rfl, done⟩
  | cancelCurrentTurn =>
    cases taken
    have same : s.cancelCurrentTurn.pending = s.pending := by
      refine pending_of_kept rfl rfl ?_
      cases found : s.current <;> simp [Session.cancelCurrentTurn, found]
    exact .inl ⟨same ▸ List.Sublist.refl _, rfl⟩
  | drive wake =>
    refine .inl ⟨pending_drives taken, ?_⟩
    rcases step_current taken with ⟨same, _⟩ | ⟨_, _, away, _⟩
    · exact same
    · cases away
  | emit answering bytes =>
    obtain ⟨_, _, task, _, rfl⟩ := emit_cases taken
    exact .inl ⟨List.Sublist.refl _, rfl⟩
  | tick | enter | answered =>
    cases taken
    exact .inl ⟨List.Sublist.refl _, rfl⟩

def Session.Sends (s : Session) (call : Nat) : Prop :=
  s.sendMutex = some (call, .sending) ∨ s.sendMutex = some (call, .sendFailed)

theorem step_sendMutex {s s' : Session} {action : Session.Action} {event : Option Event} {holder : Nat}
    {holding : Holding} (held : s.sendMutex = some (holder, holding))
    (other : ∀ choice, action ≠ .advance holder choice) (taken : s.step action = some (s', event)) :
    s'.sendMutex = s.sendMutex := by
  cases action with
  | advance i choice =>
    obtain ⟨call, found, ⟨_, phase, rfl, _⟩ | ⟨free, _⟩ | ⟨_, next, there, _⟩⟩ := advance_cases taken
    · rfl
    · cases free.symm.trans held
    · cases there.symm.trans held
      exact absurd rfl (other choice)
  | drive wake => exact (drive_step taken).frame.2.2.1
  | emit answering bytes =>
    obtain ⟨_, _, task, _, rfl⟩ := emit_cases taken
    rfl
  | tick | enter | cancelCurrentTurn | answered =>
    cases taken
    rfl

theorem Session.Sends.others {s s' : Session} {action : Session.Action} {event : Option Event} {call : Nat}
    (sends : s.Sends call) (other : ∀ choice, action ≠ .advance call choice)
    (taken : s.step action = some (s', event)) : s'.Sends call := by
  rcases sends with held | held
  · exact .inl ((step_sendMutex held other taken).trans held)
  · exact .inr ((step_sendMutex held other taken).trans held)

theorem Session.Sends.stays {s s' : Session} {call : Nat} {choice : Bool} {event : Option Event}
    (sends : s.Sends call) (silent : ∀ other result, event ≠ some (.returned other result))
    (taken : s.step (.advance call choice) = some (s', event)) : s'.Sends call := by
  obtain ⟨found, known, ⟨_, phase, rfl, _⟩ | ⟨free, _⟩ | ⟨_, holding, held, moved⟩⟩ := advance_cases taken
  · exact sends
  · rcases sends with held | held <;> cases free.symm.trans held
  · have at_ : holding = .sending ∨ holding = .sendFailed := by
      rcases sends with there | there <;> cases held.symm.trans there
      · exact .inl rfl
      · exact .inr rfl
    cases advanceHolder_step (by simp [known]) held moved with
    | rests quiet | pushes command plain quiet => exact absurd at_ (not_or.mpr quiet)
    | connects | installs | continues => simp at at_
    | sends isOpen => exact absurd rfl (silent _ _)
    | fails closed => exact .inr rfl
    | clears => exact absurd rfl (silent _ _)

end Fswtch.Seat.TtsSession

namespace Fswtch.Seat.CallSystem
open Fswtch.Lib.StepRun Fswtch.Seat.TtsSession

/-- The call of `synthesize` is over, but for what follows its return. -/
def SynthPhase.finished : SynthPhase → Bool
  | .failed | .fired | .done => true
  | _ => false

namespace System

def turnOf (s : System) (j : Nat) : Option Nat := s.synths[j]?.map Synth.turn

def phaseOf (s : System) (j : Nat) : Option SynthPhase := s.synths[j]?.map Synth.phase

def finished (s : System) (j : Nat) : Bool := (s.phaseOf j).any SynthPhase.finished

/-- The record is of the syntheses whose requests were written to a socket. -/
def noteWritten (s : System) (action : Action) (_ : System) (written : List Nat) : List Nat :=
  match action with
  | .server inner => written ++ ((s.session.writes inner).bind (s.owners[·]?)).toList
  | _ => written

abbrev wiredStep (setup : Setup) : System × List Nat → Action → Option (System × List Nat) :=
  recorded (step setup) noteWritten

/-- The sentences of a reply are numbered in the order in which they were cut. -/
def InCutOrder (wired : System × List Nat) : Prop :=
  wired.2.Pairwise fun i j => wired.1.turnOf i = wired.1.turnOf j → i < j

/-- A sentence installs its task after the calls for the earlier ones of its reply are over. -/
def AfterEarlier (wired : System × List Nat) : Action → Prop
  | .synth j choice => wired.1.installsTask (.synth j choice) = true →
      ∀ i, i < j → wired.1.turnOf i = wired.1.turnOf j → wired.1.finished i = true
  | _ => True

instance decidableAfterEarlier (wired : System × List Nat) :
    (action : Action) → Decidable (AfterEarlier wired action)
  | .synth _ _ => inferInstanceAs (Decidable (_ → ∀ i, i < _ → _ → _))
  | .onset | .speechEnd | .tell _ | .forward | .receive | .turn _ | .cancelTask _ | .server _ =>
    isTrue trivial

theorem phaseOf_setPhase (s : System) (j i : Nat) (phase : SynthPhase) :
    (s.setPhase j phase).phaseOf i = if j = i then (s.phaseOf i).map fun _ => phase else s.phaseOf i := by
  rw [phaseOf, System.setPhase, getElem?_setSynth, phaseOf]
  split
  · rw [Option.map_map, Option.map_map]
    rfl
  · rfl

theorem map_setSynth {Part : Type} {change : Synth → Synth} {part : Synth → Part}
    (same : ∀ synth, part (change synth) = part synth) (s : System) (j i : Nat) :
    (s.setSynth j change).synths[i]?.map part = s.synths[i]?.map part := by
  rw [getElem?_setSynth]
  split
  · rw [Option.map_map]
    exact congrArg (Option.map · s.synths[i]?) (funext same)
  · rfl

theorem turnOf_setPhase (s : System) (j i : Nat) (phase : SynthPhase) :
    (s.setPhase j phase).turnOf i = s.turnOf i := by
  apply map_setSynth
  exact fun _ => rfl

theorem phaseOf_called (s : System) (j i : Nat) : (s.called j).phaseOf i = s.phaseOf i := by
  apply map_setSynth
  exact fun _ => rfl

theorem turnOf_called (s : System) (j i : Nat) : (s.called j).turnOf i = s.turnOf i := by
  apply map_setSynth
  exact fun _ => rfl

structure OwnPhase (s : System) (j : Nat) (synth : Synth) (phase : SynthPhase) (s' : System) : Prop where
  phases : ∀ i, s'.phaseOf i = if j = i then some phase else s.phaseOf i
  turns : ∀ i, s'.turnOf i = s.turnOf i
  finished : synth.phase.finished = true → phase.finished = true

theorem OwnPhase.sets {s s₁ s' : System} {j : Nat} {synth : Synth} {phase : SynthPhase}
    (found : s.synths[j]? = some synth) (phases : ∀ i, s₁.phaseOf i = s.phaseOf i)
    (turns : ∀ i, s₁.turnOf i = s.turnOf i) (synths : s'.synths = (s₁.setPhase j phase).synths)
    (finished : synth.phase.finished = true → phase.finished = true) : OwnPhase s j synth phase s' := by
  have there : s.phaseOf j = some synth.phase := by rw [phaseOf, found]; rfl
  refine ⟨fun i => ?_, fun i => ?_, finished⟩
  · have same : s'.phaseOf i = (s₁.setPhase j phase).phaseOf i := by rw [phaseOf, synths, phaseOf]
    rw [same, phaseOf_setPhase, phases]
    split
    next own => rw [← own, there]; rfl
    next => rfl
  · have same : s'.turnOf i = (s₁.setPhase j phase).turnOf i := by rw [turnOf, synths, turnOf]
    rw [same, turnOf_setPhase, turns]

theorem OwnPhase.same {s s' : System} {j : Nat} {synth : Synth} (found : s.synths[j]? = some synth)
    (synths : s'.synths = s.synths) : OwnPhase s j synth synth.phase s' := by
  refine ⟨fun i => ?_, fun i => by rw [turnOf, synths, turnOf], id⟩
  rw [phaseOf, synths, phaseOf]
  split
  next own => rw [← own, found]; rfl
  next => rfl

theorem Coherent.outside {s : System} (coherent : Coherent s) (closed : s.slot ≠ .ready) (i call : Nat) :
    s.phaseOf i ≠ some (.inSession call) := by
  intro phase
  obtain ⟨synth, found, same⟩ := Option.map_eq_some_iff.mp phase
  exact closed (coherent.inSession i synth call found same).1

theorem SynthStep.ownPhase {setup : Setup} {s s' : System} {j : Nat} {synth : Synth} {choice : Bool}
    (coherent : Coherent s) (found : s.synths[j]? = some synth)
    (moved : SynthStep setup s j synth choice s') :
    ∃ phase, OwnPhase s j synth phase s' ∧ ∀ call, phase = .inSession call →
      synth.phase = .inSession call ∨ ∀ i, s.phaseOf i ≠ some (.inSession call) := by
  cases moved with
  | begins here | posts here | skips here =>
    exact ⟨_, .sets found (phaseOf_called s j) (turnOf_called s j) rfl (by simp [here, SynthPhase.finished]),
      nofun⟩
  | creates here empty =>
    exact ⟨_, .sets found (fun _ => rfl) (fun _ => rfl) rfl (by simp [here, SynthPhase.finished]), nofun⟩
  | enters here ready =>
    refine ⟨_, .sets found (fun _ => rfl) (fun _ => rfl) rfl (by simp [here, SynthPhase.finished]), ?_⟩
    rintro call ⟨⟩
    refine .inr fun i phase => ?_
    obtain ⟨other, known, same⟩ := Option.map_eq_some_iff.mp phase
    have kind := (coherent.inSession i other _ known same).2
    simp at kind
  | opens here stepped =>
    refine ⟨_, .sets found (fun _ => rfl) (fun _ => rfl) rfl (by simp [here, SynthPhase.finished]), ?_⟩
    have slot := (coherent.starting j synth _ found here).1
    exact fun call _ => .inr fun i => coherent.outside (by simp [slot]) i call
  | drops here stepped refused =>
    exact ⟨_, .sets found (fun _ => rfl) (fun _ => rfl) rfl (by simp [here, SynthPhase.finished]), nofun⟩
  | connects | moves | installs => exact ⟨_, .same found rfl, fun call same => .inl same⟩
  | leaves here stepped =>
    refine ⟨_, .sets found (fun _ => rfl) (fun _ => rfl) rfl (by simp [here, SynthPhase.finished]), ?_⟩
    intro call same
    split at same <;> cases same
  | plays here | refuses here | clears here | stops here | finishes here =>
    exact ⟨_, .sets found (fun _ => rfl) (fun _ => rfl) rfl (by simp [here, SynthPhase.finished]), nofun⟩

def Distinct (s : System) : Prop :=
  ∀ i j call, s.phaseOf i = some (.inSession call) → s.phaseOf j = some (.inSession call) → i = j

/-- The syntheses whose tasks were installed, in this order. One that is not over is at
its send. -/
structure Installed (s : System) (installed : List Nat) : Prop where
  ordered : installed.Pairwise fun i j => s.turnOf i = s.turnOf j → i < j
  earlier : ∀ j ∈ installed, ∀ i, i < j → s.turnOf i = s.turnOf j → s.finished i = true
  once : ∀ j ∈ installed, s.finished j = true ∨
    ∃ call, s.phaseOf j = some (.inSession call) ∧ s.session.Sends call

structure Wired (s : System) (written : List Nat) : Prop where
  coherent : Coherent s
  distinct : Distinct s
  owned : s.slot ≠ .empty → s.owners.length = s.session.nextTask
  placed : ∃ installed, Installed s installed ∧
    (written ++ s.session.pending.filterMap (s.owners[·]?)).Sublist installed

theorem Installed.lt_length {s : System} {installed : List Nat} (placed : Installed s installed) {j : Nat}
    (member : j ∈ installed) : j < s.synths.length := by
  have there : ∃ phase, s.phaseOf j = some phase := by
    rcases placed.once j member with past | ⟨call, phase, _⟩
    · cases known : s.phaseOf j with
      | none => simp [finished, known] at past
      | some phase => exact ⟨phase, rfl⟩
    · exact ⟨_, phase⟩
  obtain ⟨phase, known⟩ := there
  obtain ⟨synth, found, _⟩ := Option.map_eq_some_iff.mp known
  exact (List.getElem?_eq_some_iff.mp found).choose

structure Progress (s s' : System) : Prop where
  turns : ∀ i, i < s.synths.length → s'.turnOf i = s.turnOf i
  finished : ∀ i, s.finished i = true → s'.finished i = true

theorem Installed.keeps {s s' : System} {installed : List Nat} (placed : Installed s installed)
    (progress : Progress s s')
    (sends : ∀ i ∈ installed, ∀ call, s.phaseOf i = some (.inSession call) → s.session.Sends call →
      s'.finished i = true ∨ s'.phaseOf i = some (.inSession call) ∧ s'.session.Sends call) :
    Installed s' installed := by
  have turns : ∀ {j : Nat}, j ∈ installed → s'.turnOf j = s.turnOf j :=
    fun member => progress.turns _ (placed.lt_length member)
  refine ⟨?_, fun j member i less same => ?_, fun j member => ?_⟩
  · refine placed.ordered.imp_of_mem fun left right less same => less ?_
    rw [← turns left, ← turns right, same]
  · have before : i < s.synths.length := Nat.lt_trans less (placed.lt_length member)
    refine progress.finished i (placed.earlier j member i less ?_)
    rw [← progress.turns i before, ← turns member, same]
  · rcases placed.once j member with past | ⟨call, phase, there⟩
    · exact .inl (progress.finished j past)
    · exact (sends j member call phase there).imp_right fun kept => ⟨call, kept⟩

theorem Wired.keeps {s s' : System} {written more : List Nat} (wired : Wired s written)
    (coherent : Coherent s') (distinct : Distinct s') (progress : Progress s s')
    (owned : s'.slot ≠ .empty → s'.owners.length = s'.session.nextTask)
    (sends : ∀ i call, s.phaseOf i = some (.inSession call) → s.session.Sends call →
      s'.finished i = true ∨ s'.phaseOf i = some (.inSession call) ∧ s'.session.Sends call)
    (queue : (more ++ s'.session.pending.filterMap (s'.owners[·]?)).Sublist
      (s.session.pending.filterMap (s.owners[·]?))) : Wired s' (written ++ more) := by
  obtain ⟨installed, placed, sublist⟩ := wired.placed
  refine ⟨coherent, distinct, owned, installed, placed.keeps progress fun i _ => sends i, ?_⟩
  rw [List.append_assoc]
  exact ((List.Sublist.refl _).append queue).trans sublist

theorem OwnPhase.progress {s s' : System} {j : Nat} {synth : Synth} {phase : SynthPhase}
    (found : s.synths[j]? = some synth) (own : OwnPhase s j synth phase s') : Progress s s' := by
  refine ⟨fun i _ => own.turns i, fun i past => ?_⟩
  rw [System.finished, own.phases]
  split
  next same =>
    subst same
    refine own.finished ?_
    simpa [System.finished, phaseOf, found] using past
  next => exact past

theorem OwnPhase.distinct {s s' : System} {j : Nat} {synth : Synth} {phase : SynthPhase}
    (found : s.synths[j]? = some synth) (own : OwnPhase s j synth phase s') (distinct : Distinct s)
    (fresh : ∀ call, phase = .inSession call →
      synth.phase = .inSession call ∨ ∀ i, s.phaseOf i ≠ some (.inSession call)) : Distinct s' := by
  have there : s.phaseOf j = some synth.phase := by rw [phaseOf, found]; rfl
  have alone : ∀ i call, j ≠ i → phase = .inSession call → s.phaseOf i ≠ some (.inSession call) := by
    intro i call other same known
    rcases fresh call same with before | none
    · exact other (distinct j i call (by rw [there, before]) known)
    · exact none i known
  intro a b call first second
  rw [own.phases] at first second
  split at first <;> split at second
  next left right => exact left.symm.trans right
  next left right => exact absurd second (alone b call right (Option.some.inj first))
  next left right => exact absurd first (alone a call left (Option.some.inj second))
  next => exact distinct a b call first second

theorem Progress.same {s s' : System} (synths : s'.synths = s.synths) : Progress s s' := by
  refine ⟨fun i _ => by rw [turnOf, synths, turnOf], fun i past => ?_⟩
  rw [System.finished, phaseOf, synths]
  exact past

theorem Wired.rests {s s' : System} {written : List Nat} (wired : Wired s written) (coherent : Coherent s')
    (session : s'.session = s.session) (owners : s'.owners = s.owners) (slot : s'.slot = s.slot)
    (added : List Synth) (synths : s'.synths = s.synths ++ added)
    (fresh : ∀ synth ∈ added, synth.phase = .spawned) : Wired s' written := by
  have old : ∀ {i : Nat}, i < s.synths.length → s'.synths[i]? = s.synths[i]? := by
    intro i before
    rw [synths, List.getElem?_append_left before]
  have phases : ∀ i phase, s.phaseOf i = some phase → s'.phaseOf i = some phase := by
    intro i phase known
    obtain ⟨synth, found, _⟩ := Option.map_eq_some_iff.mp known
    rwa [phaseOf, old (List.getElem?_eq_some_iff.mp found).choose]
  have entered : ∀ i call, s'.phaseOf i = some (.inSession call) → s.phaseOf i = some (.inSession call) := by
    intro i call known
    obtain ⟨synth, found, phase⟩ := Option.map_eq_some_iff.mp known
    rw [synths, List.getElem?_append] at found
    split at found
    · rw [phaseOf, found]
      exact congrArg some phase
    · cases (fresh synth (List.mem_of_getElem? found)).symm.trans phase
  have kept : Wired s' (written ++ []) := by
    refine wired.keeps coherent ?_ ⟨fun i before => ?_, fun i past => ?_⟩ ?_ ?_ ?_
    · intro i j call first second
      exact wired.distinct i j call (entered i call first) (entered j call second)
    · rw [turnOf, old before, turnOf]
    · cases known : s.phaseOf i with
      | none => simp [finished, known] at past
      | some phase =>
        rw [finished, phases i phase known]
        simpa [finished, known] using past
    · rw [slot, owners, session]
      exact wired.owned
    · intro i call phase sends
      rw [session]
      exact .inr ⟨phases i _ phase, sends⟩
    · rw [session, owners]
      exact List.Sublist.refl _
  simpa using kept

theorem Wired.idles {s s' : System} {written : List Nat} (wired : Wired s written) (coherent : Coherent s')
    (session : s'.session = s.session) (owners : s'.owners = s.owners) (slot : s'.slot = s.slot)
    (synths : s'.synths = s.synths) : Wired s' written :=
  wired.rests coherent session owners slot [] (by rw [synths, List.append_nil]) nofun

/-- A step of the session that installs no task, and leaves the syntheses alone. -/
theorem Wired.steps {s s' : System} {written : List Nat} {action : Session.Action} {event : Option Event}
    (wired : Wired s written) (coherent : Coherent s') (synths : s'.synths = s.synths)
    (owners : s'.owners = s.owners) (slot : s'.slot = s.slot)
    (stepped : s.session.step action = some (s'.session, event))
    (outside : ∀ i choice, action ≠ .advance i choice) :
    Wired s' (written ++ ((s.session.writes action).bind (s.owners[·]?)).toList) := by
  have phases : ∀ i, s'.phaseOf i = s.phaseOf i := fun i => by rw [phaseOf, synths, phaseOf]
  rcases step_pending wired.coherent.steady.linked wired.coherent.steady.oneShot stepped with
    ⟨less, nextTask⟩ | ⟨i, choice, same, _⟩
  · refine wired.keeps coherent ?_ (.same synths) ?_ ?_ ?_
    · intro i j call first second
      exact wired.distinct i j call (phases i ▸ first) (phases j ▸ second)
    · rw [slot, owners, nextTask]
      exact wired.owned
    · intro i call phase sends
      exact .inr ⟨(phases i).trans phase, sends.others (outside call) stepped⟩
    · rw [owners]
      have mapped := less.filterMap (s.owners[·]?)
      rw [List.filterMap_append] at mapped
      cases written : s.session.writes action with
      | none => simpa [written] using mapped
      | some task => cases owner : s.owners[task]? <;> simpa [written, owner] using mapped
  · exact absurd same (outside i choice)

theorem pending_install {s : Session} {call : Nat} (held : s.sendMutex = some (call, .checking)) :
    (s.install.hold call .sending).pending = s.pending ++ [s.nextTask] := by
  have unsent : s.sendingTask = none := by rw [Session.sendingTask, held]
  have before : s.pending = s.driver.commands.filterMap DriverCmd.task := by
    rw [Session.pending, unsent]
    exact List.append_nil _
  rw [before]
  rfl

theorem Wired.pending_lt {s : System} {written : List Nat} {task : Nat} (wired : Wired s written)
    (owned : s.owners.length = s.session.nextTask) (member : task ∈ s.session.pending) : task < s.owners.length := by
  rw [owned]
  refine wired.coherent.steady.numbered task (mem_outstanding.mpr ?_)
  rcases List.mem_append.mp member with queued | sending
  · obtain ⟨command, waits, asks⟩ := List.mem_filterMap.mp queued
    exact .inr (.inl ⟨command, waits, asks⟩)
  · exact .inl (Option.mem_toList.mp sending)

theorem Wired.queue_install {s : System} {written : List Nat} {j call : Nat} (wired : Wired s written)
    (owned : s.owners.length = s.session.nextTask) (held : s.session.sendMutex = some (call, .checking)) :
    (s.session.install.hold call .sending).pending.filterMap ((s.owners ++ [j])[·]?) =
      s.session.pending.filterMap (s.owners[·]?) ++ [j] := by
  have last : (s.owners ++ [j])[s.session.nextTask]? = some j := by
    rw [← owned]
    exact List.getElem?_concat_length
  rw [pending_install held, List.filterMap_append, List.filterMap_cons, last]
  refine congrArg (· ++ [j]) (List.filterMap_congr fun task member => ?_)
  exact List.getElem?_append_left (wired.pending_lt owned member)

/-- Synthesis `j` installs its task: the earlier ones of its reply are over, and so are all
that installed theirs. -/
theorem Wired.installs {s : System} {written : List Nat} {j call : Nat} {synth : Synth} {choice : Bool}
    (wired : Wired s written) (found : s.synths[j]? = some synth) (here : synth.phase = .inSession call)
    (clear : Installs s.session call choice)
    (earlier : ∀ i, i < j → s.turnOf i = s.turnOf j → s.finished i = true)
    (coherent : Coherent { s with
      session := s.session.install.hold call .sending, owners := s.owners ++ [j] }) :
    Wired { s with session := s.session.install.hold call .sending, owners := s.owners ++ [j] } written := by
  obtain ⟨installed, placed, sublist⟩ := wired.placed
  obtain ⟨held, _, _⟩ := clear
  have phase : s.phaseOf j = some (.inSession call) := by rw [phaseOf, found, ← here]; rfl
  have unfinished : s.finished j ≠ true := by simp [finished, phase, SynthPhase.finished]
  have past : ∀ i ∈ installed, s.finished i = true := by
    intro i member
    rcases placed.once i member with past | ⟨other, _, there | there⟩
    · exact past
    · cases held.symm.trans there
    · cases held.symm.trans there
  have owned : s.owners.length = s.session.nextTask := by
    refine wired.owned fun empty => ?_
    cases empty.symm.trans (coherent.inSession j synth call found here).1
  refine ⟨coherent, wired.distinct, fun _ => ?_, installed ++ [j], ⟨?_, ?_, ?_⟩, ?_⟩
  · simpa [Session.install, Session.hold] using owned
  · refine List.pairwise_append.mpr ⟨placed.ordered, List.pairwise_singleton _ _, fun i member k last => ?_⟩
    rw [List.mem_singleton.mp last]
    intro same
    rcases Nat.lt_trichotomy i j with less | equal | more
    · exact less
    · exact absurd (equal ▸ past i member) unfinished
    · exact absurd (placed.earlier i member j more same.symm) unfinished
  · intro k member i less same
    rcases List.mem_append.mp member with old | new
    · exact placed.earlier k old i less same
    · rw [List.mem_singleton.mp new] at less same
      exact earlier i less same
  · intro k member
    rcases List.mem_append.mp member with old | new
    · exact .inl (past k old)
    · rw [List.mem_singleton.mp new]
      exact .inr ⟨call, phase, .inl rfl⟩
  · dsimp only
    rw [wired.queue_install owned held, ← List.append_assoc]
    exact sublist.append (List.Sublist.refl _)

theorem Wired.queue {s : System} {written : List Nat} {session : Session} {call : Nat} {choice : Bool}
    {event : Option Event} (wired : Wired s written)
    (quiet : ¬Installs s.session call choice ∨ ∀ other task, event ≠ some (.installed other task))
    (stepped : s.session.step (.advance call choice) = some (session, event)) :
    (session.pending.filterMap (s.owners[·]?)).Sublist (s.session.pending.filterMap (s.owners[·]?)) ∧
      session.nextTask = s.session.nextTask := by
  rcases step_pending wired.coherent.steady.linked wired.coherent.steady.oneShot stepped with
    ⟨less, nextTask⟩ | ⟨_, _, same, clear, _, shown⟩
  · exact ⟨less.filterMap _, nextTask⟩
  · cases same
    exact quiet.elim (absurd clear) fun silent => absurd shown (silent _ _)

theorem Wired.synths {setup : Setup} {s s' : System} {j : Nat} {synth : Synth} {choice : Bool}
    {written : List Nat} (wired : Wired s written) (found : s.synths[j]? = some synth)
    (after : AfterEarlier (s, written) (.synth j choice))
    (moved : SynthStep setup s j synth choice s') : Wired s' written := by
  have coherent : Coherent s' := wired.coherent.synths found moved
  obtain ⟨phase, own, fresh⟩ := moved.ownPhase wired.coherent found
  have distinct : Distinct s' := own.distinct found wired.distinct fresh
  have there : s.phaseOf j = some synth.phase := by rw [phaseOf, found]; rfl
  have keeps : (s'.slot ≠ .empty → s'.owners.length = s'.session.nextTask) →
      (∀ i call, s.phaseOf i = some (.inSession call) → s.session.Sends call →
        s'.finished i = true ∨ s'.phaseOf i = some (.inSession call) ∧ s'.session.Sends call) →
      (s'.session.pending.filterMap (s'.owners[·]?)).Sublist
        (s.session.pending.filterMap (s.owners[·]?)) → Wired s' written := by
    intro owned sends queue
    have kept : Wired s' (written ++ []) :=
      wired.keeps coherent distinct (own.progress found) owned sends queue
    simpa using kept
  have others : ∀ i call, j ≠ i → s.phaseOf i = some (.inSession call) →
      s'.phaseOf i = some (.inSession call) := by
    intro i call other known
    rw [own.phases, if_neg other, known]
  -- A synthesis that is not in the session leaves those that are alone.
  have away : (∀ call, synth.phase ≠ .inSession call) → s'.session.sendMutex = s.session.sendMutex →
      ∀ i call, s.phaseOf i = some (.inSession call) → s.session.Sends call →
        s'.finished i = true ∨ s'.phaseOf i = some (.inSession call) ∧ s'.session.Sends call := by
    intro elsewhere sendMutex i call known sends
    refine .inr ⟨others i call ?_ known, ?_⟩
    · rintro rfl
      exact elsewhere call (Option.some.inj (there.symm.trans known))
    · rw [Session.Sends, sendMutex]
      exact sends
  have empty : s.slot ≠ .ready → ∀ i call, s.phaseOf i = some (.inSession call) → s.session.Sends call →
      s'.finished i = true ∨ s'.phaseOf i = some (.inSession call) ∧ s'.session.Sends call :=
    fun closed i call known _ => absurd known (wired.coherent.outside closed i call)
  have starting : ∀ {call : Nat}, synth.phase = .starting call → s.slot = .starting j :=
    fun {call} here => (wired.coherent.starting j synth call found here).1
  cases moved with
  | begins here | posts here | skips here | plays here | refuses here | clears here | stops here
  | finishes here =>
    exact keeps wired.owned (away (by simp [here]) rfl) (List.Sublist.refl _)
  | creates here closed =>
    exact keeps (fun _ => rfl) (empty (by simp [closed])) (List.nil_sublist _)
  | enters here ready => exact keeps wired.owned (away (by simp [here]) rfl) (List.Sublist.refl _)
  | connects here stepped silent =>
    obtain ⟨less, nextTask⟩ := wired.queue (.inl (wired.coherent.starting_uninstalled found here)) stepped
    refine keeps (fun started => ?_) (empty (by simp [starting here])) less
    exact (wired.owned started).trans nextTask.symm
  | opens here stepped =>
    obtain ⟨less, nextTask⟩ := wired.queue (.inl (wired.coherent.starting_uninstalled found here)) stepped
    refine keeps (fun _ => ?_) (empty (by simp [starting here])) less
    exact (wired.owned (by simp [starting here])).trans nextTask.symm
  | drops here stepped refused =>
    exact keeps (fun closed => absurd rfl closed) (empty (by simp [starting here])) (List.nil_sublist _)
  | @moves call session event here stepped silent =>
    obtain ⟨less, nextTask⟩ := wired.queue (.inr silent.2) stepped
    refine keeps (fun ready => (wired.owned ready).trans nextTask.symm) ?_ less
    intro i other known sends
    refine .inr ⟨known, ?_⟩
    by_cases same : other = call
    · subst same
      exact sends.stays silent.1 stepped
    · exact sends.others (fun choice equal => same (by cases equal; rfl)) stepped
  | @installs call other task session here stepped =>
    obtain ⟨clear, rfl⟩ := installed_step wired.coherent.steady.linked stepped
    exact wired.installs found here clear (after (by simp [installsTask, found, here, clear])) coherent
  | @leaves call other session result here stepped =>
    have returned : ∀ other' task, some (.returned other result) ≠ some (Event.installed other' task) := nofun
    obtain ⟨less, nextTask⟩ := wired.queue (.inr returned) stepped
    refine keeps (fun ready => (wired.owned ready).trans nextTask.symm) ?_ less
    intro i number known sends
    by_cases same : j = i
    · subst same
      have before : { s with session }.phaseOf j = some synth.phase := there
      left
      rw [System.finished, phaseOf_setPhase, if_pos rfl, before]
      by_cases failed : result = .failed <;> simp [failed, SynthPhase.finished]
    · refine .inr ⟨others i number same known, sends.others (fun choice equal => same ?_) stepped⟩
      cases equal
      exact wired.distinct j i call (by rw [there, here]) known

theorem Wired.turns {setup : Setup} {s s' : System} {k : Nat} {written : List Nat}
    (wired : Wired s written) (moved : TurnStep setup s k s') : Wired s' written := by
  have coherent : Coherent s' := wired.coherent.turns moved
  cases moved with
  | hears delta here =>
    refine wired.rests coherent rfl rfl rfl _ rfl fun synth added => ?_
    obtain ⟨text, _, rfl⟩ := List.mem_map.mp added
    rfl
  | speaks result provided =>
    refine wired.rests coherent rfl rfl rfl _ rfl fun synth added => ?_
    rw [List.mem_singleton.mp added]
  | walks | returns | acts | persists =>
    exact wired.idles coherent rfl rfl rfl rfl

theorem Wired.receives {setup : Setup} {s s' : System} {written : List Nat} (wired : Wired s written)
    (moved : ReceiveStep setup s s') : Wired s' written := by
  have coherent : Coherent s' := wired.coherent.receives moved
  cases moved with
  | @begins k rest next =>
    have same := cancel_same setup (s.beginTurn k rest) (.segment k)
    exact wired.idles coherent same.session same.owners same.slot same.synths
  | @interrupts k rest next =>
    have same := cancel_same setup (s.interrupt k rest) (.bargeIn k)
    exact wired.idles coherent same.session same.owners same.slot same.synths
  | remembers next => exact wired.idles coherent rfl rfl rfl rfl

theorem Wired.serves {s s' : System} {action : Session.Action} {written : List Nat}
    (wired : Wired s written) (taken : s.server action = some s') :
    Wired s' (written ++ ((s.session.writes action).bind (s.owners[·]?)).toList) := by
  have coherent : Coherent s' := wired.coherent.serves taken
  have outside : ∀ i choice, action ≠ .advance i choice := by
    rintro i choice rfl
    cases taken
  obtain ⟨session, event, stepped, rfl⟩ := server_cases taken
  obtain ⟨flags, heard, frame⟩ := afterServer_frame s session event
  rw [frame] at coherent ⊢
  exact wired.steps coherent rfl rfl rfl stepped outside

def WatchedWired (wired : System × List Nat) : Prop := Wired wired.1 wired.2

theorem step_wired (setup : Setup) (watched : System × List Nat) (action : Action)
    (watched' : System × List Nat) (wired : WatchedWired watched) (after : AfterEarlier watched action)
    (taken : wiredStep setup watched action = some watched') : WatchedWired watched' := by
  obtain ⟨s, written⟩ := watched
  obtain ⟨s', written'⟩ := watched'
  obtain ⟨stepped, noted⟩ := recorded_eq_some taken
  dsimp only at stepped noted
  subst noted
  have coherent : Coherent s' := step_coherent setup s action s' wired.coherent stepped
  cases action with
  | onset | speechEnd | tell | forward =>
    cases listen_step stepped rfl <;> exact wired.idles coherent rfl rfl rfl rfl
  | receive => exact wired.receives (receive_step stepped).2
  | turn move =>
    obtain ⟨k, stage, _, moved⟩ := turn_step stepped
    exact wired.turns moved
  | synth j choice =>
    obtain ⟨synth, found, moved⟩ := synth_step stepped
    exact wired.synths found after moved
  | cancelTask j =>
    cases cancelTask_step stepped with
    | skips => exact wired.idles coherent rfl rfl rfl rfl
    | marks =>
      have marked : s.session.step .cancelCurrentTurn = some (s.session.cancelCurrentTurn, none) := rfl
      have kept : Wired _ (written ++ []) := wired.steps coherent rfl rfl rfl marked nofun
      rw [List.append_nil] at kept
      exact kept
  | server inner => exact wired.serves stepped

theorem initial_wired : Wired {} [] :=
  ⟨initial_coherent, nofun, fun _ => rfl, [], ⟨.nil, nofun, nofun⟩, List.Sublist.refl _⟩

/-- In a run in which every sentence installs its task after the calls for the earlier ones
are over, the requests on the wire carry the sentences of each reply in order. -/
theorem written_inCutOrder (setup : Setup) (actions : List Action) (final : System × List Nat)
    (after : Along (wiredStep setup) AfterEarlier ({}, []) actions)
    (taken : run (wiredStep setup) ({}, []) actions = some final) : InCutOrder final := by
  have wired : WatchedWired final :=
    invariant_of_run (step_wired setup) (show WatchedWired ({}, []) from initial_wired) after taken
  obtain ⟨installed, placed, sublist⟩ := wired.placed
  exact placed.ordered.sublist ((List.sublist_append_left _ _).trans sublist)

/-- Synthesis `j` of a later sentence goes through the open session. -/
def following (j : Nat) : List Action :=
  [.synth j true, .synth j true] ++ installing j ++ answering j

def twoSentences : List Action :=
  firstSegment ++ opening 0 ++ installing 0 ++ answering 0 ++ [.turn (.delta "Bye. ".toList)] ++ following 1

theorem twoSentences_inCutOrder :
    ∃ final, run (wiredStep volcanoSetup) ({}, []) twoSentences = some final ∧
      final.2 = [0, 1] ∧ InCutOrder final := by
  have after : Along (wiredStep volcanoSetup) AfterEarlier ({}, []) twoSentences := by decide +kernel
  have found : (run (wiredStep volcanoSetup) ({}, []) twoSentences).map Prod.snd = some [0, 1] := by
    decide +kernel
  obtain ⟨final, taken, written⟩ := Option.map_eq_some_iff.mp found
  exact ⟨final, taken, written, written_inCutOrder volcanoSetup twoSentences final after taken⟩

def overtakenSentence : List Action :=
  firstSegment ++ [.turn (.delta "Hi. ".toList)] ++ opening 1 ++ installing 1 ++ answering 1 ++ following 0

theorem overtakenSentence_not_inCutOrder :
    ∃ final, run (wiredStep volcanoSetup) ({}, []) overtakenSentence = some final ∧
      (final.2 = [1, 0] ∧ final.1.turnOf 0 = some 0 ∧ final.1.turnOf 1 = some 0) ∧
      ¬InCutOrder final := by
  have found : (run (wiredStep volcanoSetup) ({}, []) overtakenSentence).map
      (fun final => (final.2, final.1.turnOf 0, final.1.turnOf 1)) = some ([1, 0], some 0, some 0) := by
    decide +kernel
  obtain ⟨final, taken, same⟩ := Option.map_eq_some_iff.mp found
  simp only [Prod.mk.injEq] at same
  obtain ⟨written, first, second⟩ := same
  refine ⟨final, taken, ⟨written, first, second⟩, fun ordered => ?_⟩
  rw [InCutOrder, written] at ordered
  have less : (1 : Nat) < 0 := List.rel_of_pairwise_cons ordered (List.mem_singleton_self 0)
    (second.trans first.symm)
  exact absurd less (by decide)

end System

end Fswtch.Seat.CallSystem
