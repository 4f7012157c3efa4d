import Fswtch.Seat.CallSystem
import Fswtch.Seat.LateAudio
import Fswtch.Seat.TtsRequests

/-! The lazily created session of `VolcanoTtsProvider`. A call of `synthesize` that finds no
session takes the callbacks out of the provider before it connects; a start that fails drops
them with its session, and every later session plays to the no-ops left behind. -/

namespace Fswtch.Seat.LazyInit
open Fswtch.Lib.StepRun Fswtch.Seat.TtsSession

/-- A callback: the one given to `new`, or the no-op left in its place. -/
inductive Callback where
  | given
  | noop
  deriving DecidableEq

structure Callbacks where
  onAudio : Callback
  onTurnEnd : Callback
  deriving DecidableEq

structure BoundSession where
  callbacks : Callbacks
  state : Session := {}

/-- The provider's session; its mutex is held while a call of `synthesize` starts it. -/
inductive Slot where
  | empty
  | starting (synth : Nat) (session : BoundSession)
  | ready (session : BoundSession)

inductive SynthPhase where
  | wantSlot
  | starting
  | inSession (call : Nat)
  | returned (ok : Bool)
  deriving DecidableEq

inductive Delivery where
  | audio (heard : Callback) (pcm : List Int16)
  | turnEnd (heard : Callback)
  deriving DecidableEq

def Delivery.heard : Delivery → Callback
  | .audio heard _ | .turnEnd heard => heard

structure VolcanoTtsProvider where
  callbacks : Callbacks := ⟨.given, .given⟩
  slot : Slot := .empty
  synths : List SynthPhase := []
  cancels : Nat := 0
  delivered : List Delivery := []

def Callbacks.deliver (callbacks : Callbacks) : Option Event → List Delivery
  | some (.audio _ pcm) => [.audio callbacks.onAudio pcm]
  | some (.turnEnd _) => [.turnEnd callbacks.onTurnEnd]
  | _ => []

def BoundSession.server (session : BoundSession) (action : Session.Action) :
    Option (BoundSession × List Delivery) :=
  match action with
  | .tick _ | .drive _ | .emit _ _ | .answered =>
    (session.state.step action).map fun after =>
      ({ session with state := after.1 }, session.callbacks.deliver after.2)
  | .enter _ | .advance _ _ | .cancelCurrentTurn => none

namespace VolcanoTtsProvider

def setPhase (p : VolcanoTtsProvider) (j : Nat) (phase : SynthPhase) : VolcanoTtsProvider :=
  { p with synths := p.synths.set j phase }

def createSession (p : VolcanoTtsProvider) (j : Nat) : VolcanoTtsProvider :=
  { p with
    callbacks := ⟨.noop, .noop⟩
    slot := .starting j ⟨p.callbacks, ({} : Session).enter .start⟩ }.setPhase j .starting

def enterSentence (p : VolcanoTtsProvider) (j : Nat) (session : BoundSession) : VolcanoTtsProvider :=
  { p with
    slot := .ready { session with state := session.state.enter (.sentence false) } }.setPhase j
      (.inSession session.state.calls.length)

/-- After a step of `VolcanoBidirectionalSession::start`; when it fails, nothing keeps the session. -/
def afterStart (p : VolcanoTtsProvider) (j : Nat) (session : BoundSession) :
    Option Event → VolcanoTtsProvider
  | some (.returned _ .ok) => p.enterSentence j session
  | some (.returned _ _) => { p with slot := .empty }.setPhase j (.returned false)
  | _ => { p with slot := .starting j session }

def afterSentence (p : VolcanoTtsProvider) (j : Nat) (session : BoundSession) :
    Option Event → VolcanoTtsProvider
  | some (.returned _ result) =>
    { p with slot := .ready session }.setPhase j (.returned (decide (result ≠ CallResult.failed)))
  | _ => { p with slot := .ready session }

def advance (p : VolcanoTtsProvider) (j : Nat) (choice : Bool) : Option VolcanoTtsProvider :=
  match p.synths[j]?, p.slot with
  | some .wantSlot, .empty => some (p.createSession j)
  | some .wantSlot, .ready session => some (p.enterSentence j session)
  | some .starting, .starting holder session =>
    if holder = j then
      (session.state.step (.advance 0 choice)).map fun after =>
        p.afterStart j { session with state := after.1 } after.2
    else none
  | some (.inSession call), .ready session =>
    (session.state.step (.advance call (CallSystem.System.freshToken session.state choice))).map
      fun after => p.afterSentence j { session with state := after.1 } after.2
  | _, _ => none

/-- One of the tasks spawned by `cancel` gets the mutex. -/
def cancelTask (p : VolcanoTtsProvider) : Option VolcanoTtsProvider :=
  if p.cancels = 0 then none
  else
    match p.slot with
    | .empty => some { p with cancels := p.cancels - 1 }
    | .starting _ _ => none
    | .ready session =>
      some { p with
        cancels := p.cancels - 1
        slot := .ready { session with state := session.state.cancelCurrentTurn } }

def server (p : VolcanoTtsProvider) (action : Session.Action) : Option VolcanoTtsProvider :=
  match p.slot with
  | .empty => none
  | .starting j session =>
    (session.server action).map fun after =>
      { p with slot := .starting j after.1, delivered := p.delivered ++ after.2 }
  | .ready session =>
    (session.server action).map fun after =>
      { p with slot := .ready after.1, delivered := p.delivered ++ after.2 }

end VolcanoTtsProvider

/-- Calls of `synthesize` and `cancel`, and the steps of what they started. -/
inductive Action where
  | synthesize
  | cancel
  | advance (j : Nat) (choice : Bool)
  | cancelTask
  | server (action : Session.Action)

def VolcanoTtsProvider.step (p : VolcanoTtsProvider) : Action → Option VolcanoTtsProvider
  | .synthesize => some { p with synths := p.synths ++ [.wantSlot] }
  | .cancel => some { p with cancels := p.cancels + 1 }
  | .advance j choice => p.advance j choice
  | .cancelTask => p.cancelTask
  | .server action => p.server action

def refused : Option Event → Bool
  | some (.returned _ result) => decide (result ≠ CallResult.ok)
  | _ => false

def VolcanoTtsProvider.startFails (p : VolcanoTtsProvider) : Action → Bool
  | .advance j choice =>
    match p.synths[j]?, p.slot with
    | some .starting, .starting holder session =>
      decide (holder = j) &&
        (session.state.step (.advance 0 choice)).any fun after => refused after.2
    | _, _ => false
  | _ => false

def VolcanoTtsProvider.reached (p : VolcanoTtsProvider) : Callbacks :=
  match p.slot with
  | .empty => p.callbacks
  | .starting _ session | .ready session => session.callbacks

def given : Callbacks := ⟨.given, .given⟩

def noops : Callbacks := ⟨.noop, .noop⟩

def Survives (p : VolcanoTtsProvider) (action : Action) : Prop := p.startFails action = false

instance decidableSurvives (p : VolcanoTtsProvider) (action : Action) : Decidable (Survives p action) :=
  inferInstanceAs (Decidable (_ = _))

def invoking : DriverPhase → Bool
  | .callback _ _ | .deliver _ _ _ => true
  | _ => false

/-- A session of which only `start` was called: there is no task, and nothing to deliver. -/
structure Unused (s : Session) : Prop where
  start : s.calls[0]?.map Call.kind = some .start
  current : s.current = none
  silent : invoking s.driver.phase = false

theorem created_unused : Unused (({} : Session).enter .start) := ⟨rfl, rfl, rfl⟩

theorem Unused.drives {s s' : Session} {wake : Session.Wake} {event : Option Event} (unused : Unused s)
    (moved : DriveStep s wake s' event) : invoking s'.driver.phase = false := by
  cases moved with
  | computes | requests | dies | closes | returns => rfl
  | idles here elapsed => cases due : s.stillDue <;> rfl
  | loses here queued phase back => rcases back with rfl | rfl <;> rfl
  | @hears deadline frame rest woken here arrived =>
    obtain ⟨_, _, top | fire | ⟨_, _, task, current, _⟩⟩ := routeFrame_spec (s.read rest) frame
    · rw [top]
      rfl
    · rw [fire]
      rfl
    · cases unused.current.symm.trans current
  | @fires exiting here =>
    rw [Session.fireTurnComplete, unused.current]
    cases exiting <;> rfl
  | callsBack here | delivers here =>
    have silent := unused.silent
    rw [here] at silent
    cases silent

theorem Unused.steps {s s' : Session} {action : Session.Action} {event : Option Event} (unused : Unused s)
    (own : ∀ i choice, action = .advance i choice → i = 0) (taken : s.step action = some (s', event)) :
    Unused s' := by
  refine ⟨step_kind taken unused.start, ?_, ?_⟩
  · cases step_tasks taken with
    | keeps change same current => rw [current, unused.current, Option.map_none]
    | @installs i choice clear =>
      cases own i choice rfl
      cases unused.start.symm.trans clear.2.1
    | clears held => rfl
    | completes here task current => cases unused.current.symm.trans current
    | ends here =>
      have silent := unused.silent
      rw [here] at silent
      cases silent
  · by_cases driven : ∃ wake, action = .drive wake
    · obtain ⟨wake, rfl⟩ := driven
      exact unused.drives (drive_step taken)
    · rcases (step_undelivered (fun wake same => driven ⟨wake, same⟩) taken).2 with same | top
      · rw [same]
        exact unused.silent
      · rw [top]
        rfl

theorem Unused.shows {s s' : Session} {action : Session.Action} {event : Option Event} (unused : Unused s)
    (outside : ∀ i choice, action ≠ .advance i choice) (taken : s.step action = some (s', event)) :
    event = none := by
  cases action with
  | advance i choice => exact absurd rfl (outside i choice)
  | tick | enter | cancelCurrentTurn | answered =>
    cases taken
    rfl
  | emit answering bytes => exact (emit_cases taken).2.1
  | drive wake =>
    cases event with
    | none => rfl
    | some shown =>
      have silent := unused.silent
      rcases (drive_step taken).event with ⟨id, exiting, here, _⟩ | ⟨task, late, pcm, here, _⟩
      · rw [here] at silent
        cases silent
      · rw [here] at silent
        cases silent

theorem server_cases {session : BoundSession} {action : Session.Action}
    {after : BoundSession × List Delivery} (taken : session.server action = some after) :
    (∀ i choice, action ≠ .advance i choice) ∧ ∃ state event,
      session.state.step action = some (state, event) ∧
        after = ({ session with state }, session.callbacks.deliver event) := by
  unfold BoundSession.server at taken
  split at taken
  case h_5 | h_6 | h_7 => cases taken
  all_goals
    obtain ⟨⟨state, event⟩, stepped, rfl⟩ := Option.map_eq_some_iff.mp taken
    exact ⟨nofun, state, event, stepped, rfl⟩

/-- What a step can do to the session of the provider, and whether it fails a start. -/
inductive SlotStep (p p' : VolcanoTtsProvider) : Bool → Prop
  | rests (slot : p'.slot = p.slot) (callbacks : p'.callbacks = p.callbacks)
      (delivered : p'.delivered = p.delivered) : SlotStep p p' false
  | creates (j : Nat) (here : p.slot = .empty)
      (slot : p'.slot = .starting j ⟨p.callbacks, ({} : Session).enter .start⟩)
      (callbacks : p'.callbacks = noops) (delivered : p'.delivered = p.delivered) : SlotStep p p' false
  | starts {j : Nat} {session : BoundSession} {action : Session.Action} {state : Session}
      {event : Option Event} (here : p.slot = .starting j session)
      (stepped : session.state.step action = some (state, event))
      (own : ∀ i choice, action = .advance i choice → i = 0)
      (slot : p'.slot = .starting j { session with state }) (callbacks : p'.callbacks = p.callbacks)
      (delivered : p'.delivered = p.delivered ∨ (∀ i choice, action ≠ .advance i choice) ∧
        p'.delivered = p.delivered ++ session.callbacks.deliver event) : SlotStep p p' false
  | opens {j : Nat} {session : BoundSession} (here : p.slot = .starting j session) (state : Session)
      (slot : p'.slot = .ready { session with state }) (delivered : p'.delivered = p.delivered) :
      SlotStep p p' false
  | fails {j : Nat} {session : BoundSession} (here : p.slot = .starting j session)
      (slot : p'.slot = .empty) (callbacks : p'.callbacks = p.callbacks)
      (delivered : p'.delivered = p.delivered) : SlotStep p p' true
  | runs {session : BoundSession} (here : p.slot = .ready session) (state : Session)
      (slot : p'.slot = .ready { session with state }) (event : Option Event)
      (delivered : p'.delivered = p.delivered ++ session.callbacks.deliver event) : SlotStep p p' false

theorem advance_step {p p' : VolcanoTtsProvider} {j : Nat} {choice : Bool}
    (taken : p.advance j choice = some p') : SlotStep p p' (p.startFails (.advance j choice)) := by
  unfold VolcanoTtsProvider.advance at taken
  unfold VolcanoTtsProvider.startFails
  split at taken
  next phase here =>
    cases taken
    simp only [phase, here]
    exact .creates j here rfl rfl rfl
  next session phase here =>
    cases taken
    simp only [phase, here]
    exact .runs here _ rfl none (List.append_nil _).symm
  next holder session phase here =>
    split at taken
    next same =>
      subst same
      obtain ⟨⟨state, event⟩, stepped, rfl⟩ := Option.map_eq_some_iff.mp taken
      simp only [phase, here, stepped, decide_true, Bool.true_and, Option.any_some]
      have connects (quiet : refused event = false)
          (after : p.afterStart holder { session with state } event =
            { p with slot := .starting holder { session with state } }) :
          SlotStep p (p.afterStart holder { session with state } event) (refused event) := by
        rw [quiet, after]
        exact .starts here stepped (fun i choice same => by cases same; rfl) rfl rfl (.inl rfl)
      rcases event with _ | ⟨call, task⟩ | task | ⟨task, pcm⟩ | ⟨call, result⟩
      case some.returned =>
        cases result with
        | ok => exact .opens here _ rfl rfl
        | cancelled => exact .fails here rfl rfl rfl
        | failed => exact .fails here rfl rfl rfl
      all_goals exact connects rfl rfl
    next => cases taken
  next call session phase here =>
    obtain ⟨⟨state, event⟩, stepped, rfl⟩ := Option.map_eq_some_iff.mp taken
    simp only [phase, here]
    rcases event with _ | ⟨call, task⟩ | task | ⟨task, pcm⟩ | ⟨call, result⟩
    all_goals exact .runs here _ rfl none (List.append_nil _).symm
  next => cases taken

theorem step_cases {p p' : VolcanoTtsProvider} {action : Action} (taken : p.step action = some p') :
    SlotStep p p' (p.startFails action) := by
  cases action with
  | synthesize | cancel =>
    cases taken
    exact .rests rfl rfl rfl
  | advance j choice => exact advance_step taken
  | cancelTask =>
    simp only [VolcanoTtsProvider.step, VolcanoTtsProvider.cancelTask] at taken
    split at taken
    · cases taken
    · split at taken
      next =>
        cases taken
        exact .rests rfl rfl rfl
      next => cases taken
      next session here =>
        cases taken
        exact .runs here _ rfl none (List.append_nil _).symm
  | server action =>
    simp only [VolcanoTtsProvider.step, VolcanoTtsProvider.server] at taken
    split at taken
    next => cases taken
    next j session here =>
      obtain ⟨after, served, rfl⟩ := Option.map_eq_some_iff.mp taken
      obtain ⟨outside, state, event, stepped, rfl⟩ := server_cases served
      exact .starts here stepped (fun i choice same => absurd same (outside i choice)) rfl rfl
        (.inr ⟨outside, rfl⟩)
    next session here =>
      obtain ⟨after, served, rfl⟩ := Option.map_eq_some_iff.mp taken
      obtain ⟨outside, state, event, stepped, rfl⟩ := server_cases served
      exact .runs here state rfl event rfl

def Delivery.To (callbacks : Callbacks) : Delivery → Prop
  | .audio heard _ => heard = callbacks.onAudio
  | .turnEnd heard => heard = callbacks.onTurnEnd

theorem to_of_mem_deliver {callbacks : Callbacks} {event : Option Event} {d : Delivery}
    (member : d ∈ callbacks.deliver event) : d.To callbacks := by
  rcases event with _ | ⟨call, task⟩ | task | ⟨task, pcm⟩ | ⟨call, result⟩
  case some.turnEnd | some.audio =>
    rw [List.mem_singleton.mp member]
    exact rfl
  all_goals cases member

theorem Delivery.To.heard {d : Delivery} {callback : Callback} (went : d.To ⟨callback, callback⟩) :
    d.heard = callback := by
  cases d <;> exact went

/-- Until a session is open nothing has been delivered, and while it starts the provider
holds no-ops. -/
structure Sound (p : VolcanoTtsProvider) : Prop where
  empty : p.slot = .empty → p.delivered = []
  starting : ∀ j session, p.slot = .starting j session →
    p.callbacks = noops ∧ p.delivered = [] ∧ Unused session.state
  heard : ∀ d ∈ p.delivered, d.To p.reached

theorem Sound.unopened {p : VolcanoTtsProvider} (nothing : p.delivered = [])
    (starting : ∀ j session, p.slot = .starting j session → p.callbacks = noops ∧ Unused session.state) :
    Sound p := by
  refine ⟨fun _ => nothing, fun j session here => ?_, fun d member => ?_⟩
  · obtain ⟨callbacks, unused⟩ := starting j session here
    exact ⟨callbacks, nothing, unused⟩
  · rw [nothing] at member
    cases member

theorem Sound.opened {p : VolcanoTtsProvider} {session : BoundSession} (here : p.slot = .ready session)
    (heard : ∀ d ∈ p.delivered, d.To p.reached) : Sound p := by
  refine ⟨fun there => ?_, fun j other there => ?_, heard⟩
  · cases here.symm.trans there
  · cases here.symm.trans there

theorem new_sound : Sound {} := by
  apply Sound.unopened rfl
  intro j session there
  cases there

/-- The callbacks stay where the next delivery goes, unless a start fails. -/
theorem SlotStep.reached {p p' : VolcanoTtsProvider} {failed : Bool} (sound : Sound p)
    (moved : SlotStep p p' failed) : p'.reached = if failed then noops else p.reached := by
  cases moved with
  | rests slot callbacks delivered => simp [VolcanoTtsProvider.reached, slot, callbacks]
  | creates j here slot callbacks delivered => simp [VolcanoTtsProvider.reached, slot, here]
  | starts here stepped own slot callbacks delivered => simp [VolcanoTtsProvider.reached, slot, here]
  | opens here state slot delivered => simp [VolcanoTtsProvider.reached, slot, here]
  | fails here slot callbacks delivered =>
    obtain ⟨moved_out, _⟩ := sound.starting _ _ here
    simp [VolcanoTtsProvider.reached, slot, callbacks, moved_out]
  | runs here state slot event delivered => simp [VolcanoTtsProvider.reached, slot, here]

theorem SlotStep.sound {p p' : VolcanoTtsProvider} {failed : Bool} (sound : Sound p)
    (moved : SlotStep p p' failed) : Sound p' := by
  have reached := moved.reached sound
  cases moved with
  | rests slot callbacks delivered =>
    refine ⟨fun here => ?_, fun j session here => ?_, fun d member => ?_⟩
    · rw [delivered]
      exact sound.empty (slot ▸ here)
    · rw [callbacks, delivered]
      exact sound.starting j session (slot ▸ here)
    · rw [reached]
      exact sound.heard d (delivered ▸ member)
  | creates j here slot callbacks delivered =>
    refine .unopened (delivered.trans (sound.empty here)) fun i session there => ?_
    cases slot.symm.trans there
    exact ⟨callbacks, created_unused⟩
  | @starts j session action state event here stepped own slot callbacks delivered =>
    obtain ⟨moved_out, nothing, unused⟩ := sound.starting _ _ here
    refine .unopened ?_ fun i other there => ?_
    · rcases delivered with same | ⟨outside, more⟩
      · exact same.trans nothing
      · rw [more, nothing, unused.shows outside stepped]
        rfl
    · cases slot.symm.trans there
      exact ⟨callbacks.trans moved_out, unused.steps own stepped⟩
  | opens here state slot delivered =>
    refine .opened slot fun d member => ?_
    obtain ⟨_, nothing, _⟩ := sound.starting _ _ here
    rw [delivered, nothing] at member
    cases member
  | fails here slot callbacks delivered =>
    obtain ⟨_, nothing, _⟩ := sound.starting _ _ here
    exact .unopened (delivered.trans nothing) fun _ _ there => by cases slot.symm.trans there
  | @runs session here state slot event delivered =>
    refine .opened slot fun d member => ?_
    have kept : session.callbacks = p.reached := by simp [VolcanoTtsProvider.reached, here]
    rw [reached]
    rw [delivered] at member
    rcases List.mem_append.mp member with old | new
    · exact sound.heard d old
    · exact kept ▸ to_of_mem_deliver new

theorem step_sound (p : VolcanoTtsProvider) (action : Action) (p' : VolcanoTtsProvider) (sound : Sound p)
    (taken : p.step action = some p') : Sound p' :=
  (step_cases taken).sound sound

/-- A run fails no start and keeps the callbacks, or it loses them to the no-ops. -/
theorem run_reached {actions : List Action} {last : VolcanoTtsProvider}
    (taken : run VolcanoTtsProvider.step {} actions = some last) :
    Along VolcanoTtsProvider.step Survives {} actions ∧ last.reached = given ∨
      ¬Along VolcanoTtsProvider.step Survives {} actions ∧ last.reached = noops := by
  have guarded := along_invariant step_sound new_sound actions
  have kept (along : Along VolcanoTtsProvider.step Survives {} actions) : last.reached = given := by
    have preserved : ∀ p action p', Sound p ∧ p.reached = given → Survives p action →
        p.step action = some p' → Sound p' ∧ p'.reached = given := by
      intro p action p' ⟨sound, held⟩ survives stepped
      have reached := (step_cases stepped).reached sound
      rw [survives] at reached
      exact ⟨step_sound p action p' sound stepped, reached.trans held⟩
    exact (invariant_of_run preserved ⟨new_sound, rfl⟩ along taken).2
  have spoils : ∀ p action p', Sound p → p.step action = some p' → ¬Survives p action →
      p'.reached = noops := by
    intro p action p' sound stepped fails
    have reached := (step_cases stepped).reached sound
    rw [eq_true_of_ne_false fails] at reached
    exact reached
  have stays : ∀ p action p', p.reached = noops → Sound p → p.step action = some p' →
      p'.reached = noops := by
    intro p action p' lost sound stepped
    rw [(step_cases stepped).reached sound, lost, ite_self]
  have ends : Along VolcanoTtsProvider.step Survives {} actions ∨ last.reached = noops :=
    along_or_spoiled spoils stays guarded taken
  rcases ends with along | lost
  · exact .inl ⟨along, kept along⟩
  · refine .inr ⟨fun along => ?_, lost⟩
    cases lost.symm.trans (kept along)

/-- The callbacks given to `new` are where the next delivery goes, and everything delivered has
gone there, exactly in the runs in which no start fails; after a failed start nothing that is
delivered reaches them. -/
theorem callbacks_kept_iff (actions : List Action) (last : VolcanoTtsProvider)
    (taken : run VolcanoTtsProvider.step {} actions = some last) :
    (last.reached = given ∧ (∀ d ∈ last.delivered, d.heard = .given) ↔
        Along VolcanoTtsProvider.step Survives {} actions) ∧
      ((∀ d ∈ last.delivered, d.heard = .given) ↔
        Along VolcanoTtsProvider.step Survives {} actions ∨ last.delivered = []) := by
  have sound : Sound last := invariant_of_any_run step_sound new_sound taken
  rcases run_reached taken with ⟨along, kept⟩ | ⟨stops, lost⟩
  · have heard : ∀ d ∈ last.delivered, d.heard = .given := by
      intro d member
      have went := sound.heard d member
      rw [kept] at went
      exact went.heard
    exact ⟨⟨fun _ => along, fun _ => ⟨kept, heard⟩⟩, ⟨fun _ => .inl along, fun _ => heard⟩⟩
  · have noop : ∀ d ∈ last.delivered, d.heard = .noop := by
      intro d member
      have went := sound.heard d member
      rw [lost] at went
      exact went.heard
    refine ⟨⟨fun ⟨kept, _⟩ => ?_, fun along => absurd along stops⟩, ⟨fun all => ?_, fun either => ?_⟩⟩
    · cases lost.symm.trans kept
    · refine .inr (List.eq_nil_iff_forall_not_mem.mpr fun d member => ?_)
      cases (noop d member).symm.trans (all d member)
    · rcases either with along | nothing
      · exact absurd along stops
      · simp [nothing]

def refusedConnect : List Action :=
  [.synthesize, .advance 0 true, .advance 0 true, .advance 0 true, .advance 0 true, .advance 0 false]

/-- The next one opens a session and sends its request; a sample comes back, and the stream
goes idle. -/
def retried : List Action :=
  refusedConnect ++ [.synthesize, .advance 1 true, .advance 1 true, .advance 1 true, .advance 1 true,
    .advance 1 true, .advance 1 true, .advance 1 true, .advance 1 true, .server (.drive .idle),
    .server (.drive (.command .sent)), .server (.drive .idle), .server (.drive (.command .sent)),
    .server (.emit false sessionStartedFrame), .server (.drive .idle), .server (.drive .frame),
    .advance 1 true, .advance 1 true, .advance 1 true, .advance 1 true, .advance 1 true,
    .server (.drive .idle), .server (.drive (.command .sent)), .server (.emit true audioFrame),
    .server (.drive .idle), .server (.drive .frame), .server (.drive .idle), .server .answered,
    .server (.drive .idle), .server (.tick 400), .server (.drive .idle), .server (.drive .idle),
    .server (.drive .idle)]

theorem retried_plays_to_noop :
    ∃ last, run VolcanoTtsProvider.step {} retried = some last ∧
      last.synths = [.returned false, .returned true] ∧
      last.delivered = [.audio .noop [1], .turnEnd .noop] ∧
      ¬∀ d ∈ last.delivered, d.heard = .given :=
  ⟨_, rfl, by decide +kernel, by decide +kernel,
    fun all => nomatch all (.turnEnd .noop) (by decide +kernel)⟩

theorem retried_callbacks_lost :
    ∃ last, run VolcanoTtsProvider.step {} retried = some last ∧
      ¬(last.reached = given ∧ ∀ d ∈ last.delivered, d.heard = .given) :=
  ⟨_, rfl, mt (callbacks_kept_iff retried _ rfl).1.mp (by decide +kernel)⟩

end Fswtch.Seat.LazyInit
