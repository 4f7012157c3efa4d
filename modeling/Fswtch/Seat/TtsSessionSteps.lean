import Mathlib.Data.Option.Basic
import Fswtch.Seat.TtsSession

/-! What a step of the session can do, once for each party: a call without
`send_mutex`, its holder, and the driver. -/

namespace Fswtch.Seat.TtsSession
open Fswtch.Seat.TtsWsCodec

def Installs (s : Session) (i : Nat) (choice : Bool) : Prop :=
  s.sendMutex = some (i, .checking) ∧ s.calls[i]?.map Call.kind = some (.sentence false) ∧
    choice = false

instance decidableInstalls (s : Session) (i : Nat) (choice : Bool) : Decidable (Installs s i choice) :=
  inferInstanceAs (Decidable (_ ∧ _ ∧ _))

theorem next_eq_some {s s' : Session} {action : Session.Action} (taken : s.next action = some s') :
    ∃ event, s.step action = some (s', event) := by
  obtain ⟨⟨_, event⟩, stepped, rfl⟩ := Option.map_eq_some_iff.mp taken
  exact ⟨event, stepped⟩

def Holding.sends : Holding → Bool
  | .checking | .sending | .sendFailed => true
  | _ => false

def CallKind.allows : CallKind → CallPhase → Bool
  | .start, .entry | .start, .ready | .sentence _, .awaitOther _ => false
  | _, _ => true

/-- What a call that does not hold `send_mutex` can show: only `start` returns there. -/
def Modest (call : Call) (i : Nat) (event : Option Event) : Prop :=
  event = none ∨ call.kind = .start ∧ ∃ result, event = some (.returned i result)

/-- What a step of call `i` can be: a move without `send_mutex`, taking it, or a step
of its holder. -/
theorem advance_cases {s s' : Session} {i : Nat} {choice : Bool} {event : Option Event}
    (taken : s.advance i choice = some (s', event)) :
    ∃ call, s.calls[i]? = some call ∧
      ((call.phase ≠ .holds ∧ ∃ phase, s' = s.setPhase i phase ∧
          (call.kind.allows call.phase = true →
            call.kind.allows phase = true ∧ Modest call i event)) ∨
        (s.sendMutex = none ∧ event = none ∧ ∃ holding, s' = (s.setPhase i .holds).hold i holding ∧
          (holding = .locked ∨ holding = .checking ∧ call.phase = .ready)) ∨
        (call.phase = .holds ∧ ∃ holding, s.sendMutex = some (i, holding) ∧
          s.advanceHolder i call.kind choice holding = some (s', event))) := by
  unfold Session.advance at taken
  cases found : s.calls[i]? with
  | none => simp [found] at taken
  | some call =>
    obtain ⟨kind, phase⟩ := call
    refine ⟨_, rfl, ?_⟩
    simp only [found] at taken
    cases phase with
    | entry =>
      cases taken
      refine .inl ⟨nofun, _, rfl, fun allowed => ⟨?_, .inl rfl⟩⟩
      cases kind with
      | start => cases allowed
      | sentence turnOpen => split <;> rfl
    | ensure =>
      cases kind with
      | start =>
        simp only [Session.finish] at taken
        split at taken
        · cases taken
          exact .inl ⟨nofun, _, rfl, fun _ => ⟨rfl, .inr ⟨rfl, _, rfl⟩⟩⟩
        · cases taken
          exact .inl ⟨nofun, _, rfl, fun _ => ⟨rfl, .inl rfl⟩⟩
      | sentence turnOpen =>
        cases taken
        exact .inl ⟨nofun, _, rfl, fun _ => ⟨by split <;> rfl, .inl rfl⟩⟩
    | wantOpen =>
      dsimp only at taken
      unfold Session.acquire at taken
      split at taken
      next free =>
        cases taken
        exact .inr (.inl ⟨free, rfl, _, rfl, .inl rfl⟩)
      next => cases taken
    | awaitOther deadline =>
      have started : kind.allows (.awaitOther deadline) = true → kind = .start := by
        cases kind with
        | start => exact fun _ => rfl
        | sentence turnOpen => exact nofun
      have ends : ∀ result, kind.allows (.returned result) = true := by
        intro result
        cases kind <;> rfl
      simp only [Session.finish] at taken
      split at taken
      · cases taken
        exact .inl ⟨nofun, _, rfl, fun allowed => ⟨ends _, .inr ⟨started allowed, _, rfl⟩⟩⟩
      · split at taken
        · cases taken
          exact .inl ⟨nofun, _, rfl, fun allowed => ⟨ends _, .inr ⟨started allowed, _, rfl⟩⟩⟩
        · cases taken
    | ready =>
      dsimp only at taken
      unfold Session.acquire at taken
      split at taken
      next free =>
        cases taken
        exact .inr (.inl ⟨free, rfl, _, rfl, .inr ⟨rfl, rfl⟩⟩)
      next => cases taken
    | holds =>
      dsimp only at taken
      split at taken
      next holder holding held =>
        split at taken
        next same =>
          subst same
          exact .inr (.inr ⟨rfl, holding, held, taken⟩)
        next => cases taken
      next => cases taken
    | returned result => cases taken

/-- Nothing happens to the tasks or to what was shown to the outside. -/
structure SameWork (s s' : Session) : Prop where
  now : s'.now = s.now
  current : s'.current = s.current
  nextTask : s'.nextTask = s.nextTask
  cancelledTasks : s'.cancelledTasks = s.cancelledTasks
  ended : s'.ended = s.ended
  played : s'.played = s.played

def SameLink (s s' : Session) : Prop :=
  (s'.cmdTx = s.cmdTx ∧ s'.driverJoin = s.driverJoin) ∨
    (s.channelOpen = false ∧ s'.cmdTx = false ∧ s'.driverJoin = false)

def DriverCmd.task : DriverCmd → Option Nat
  | .taskRequest task => task
  | _ => none

def Session.push (s : Session) (command : DriverCmd) : Session :=
  { s with driver := { s.driver with commands := s.driver.commands ++ [command] } }

/-- What a holder that does not send can show: `ok` is for `start` only, `cancelled` for
a cancelled token. -/
def Restrained (s : Session) (i : Nat) (choice : Bool) (holding : Holding) (event : Option Event) : Prop :=
  event = none ∨ ∃ result, event = some (.returned i result) ∧
    (result = .ok → s.calls[i]?.map Call.kind = some .start) ∧
    (result = .cancelled → holding = .checking ∧ choice = true)

inductive HolderStep (s : Session) (i : Nat) (choice : Bool) : Holding → Session → Option Event → Prop
  | rests {holding : Holding} {s' : Session} {event : Option Event}
      (quiet : holding ≠ .sending ∧ holding ≠ .sendFailed) (work : SameWork s s')
      (driver : s'.driver = s.driver) (link : SameLink s s')
      (mutex : ∀ holder next, s'.sendMutex = some (holder, next) →
        next.sends = false ∧ (next = .connecting → s'.cmdTx = false))
      (shown : Restrained s i choice holding event) : HolderStep s i choice holding s' event
  | connects {s' : Session} (work : SameWork s s') (driver : s'.driver = { phase := .top })
      (link : s'.cmdTx = true ∧ s'.driverJoin = true) (mutex : s'.sendMutex = some (i, .greet)) :
      HolderStep s i choice .connecting s' none
  | pushes {holding : Holding} {s' : Session} (command : DriverCmd) (plain : command.task = none)
      (quiet : holding ≠ .sending ∧ holding ≠ .sendFailed) (work : SameWork s s')
      (driver : s'.driver = (s.push command).driver)
      (link : s'.cmdTx = s.cmdTx ∧ s'.driverJoin = s.driverJoin)
      (mutex : ∀ holder next, s'.sendMutex = some (holder, next) →
        next.sends = false ∧ next ≠ .connecting) :
      HolderStep s i choice holding s' none
  | installs (clear : Installs s i choice) :
      HolderStep s i choice .checking (s.install.hold i .sending) (some (.installed i s.nextTask))
  | continues (other : s.calls[i]?.map Call.kind ≠ some (.sentence false)) :
      HolderStep s i choice .checking (s.hold i .sending) none
  | sends (isOpen : s.channelOpen = true) :
      HolderStep s i choice .sending
        ((s.push (.taskRequest (s.current.map ActiveTask.id))).release i (.returned .ok))
        (some (.returned i .ok))
  | fails (closed : s.channelOpen = false) :
      HolderStep s i choice .sending (s.hold i .sendFailed) none
  | clears :
      HolderStep s i choice .sendFailed ({ s with current := none }.release i (.returned .failed))
        (some (.returned i .failed))

theorem sendRaw_cases {s : Session} {command : DriverCmd} {sent failed : Session → Session.Outcome}
    {outcome : Session × Option Event} (taken : s.sendRaw command sent failed = some outcome) :
    (s.channelOpen = true ∧ sent (s.push command) = some outcome) ∨
      (s.channelOpen = false ∧ failed s = some outcome) := by
  unfold Session.sendRaw at taken
  split at taken
  next isOpen =>
    split at taken
    · exact .inl ⟨isOpen, taken⟩
    · cases taken
  next closed => exact .inr ⟨by simpa using closed, taken⟩

inductive HolderMove (s : Session) (i : Nat) (kind : CallKind) (choice : Bool) :
    Holding → Session → Option Event → Prop
  | joins {holding : Holding} {t s' : Session} {event : Option Event}
      (there : holding = .locked ∧ t = s ∨
        ∃ fresh deadline, holding = .awaitStarted fresh deadline ∧
          t = { s with startedFlag := s.startedFlag || fresh })
      (opened : t.opened i kind = some (s', event)) : HolderMove s i kind choice holding s' event
  | waits (first : kind = .start) : HolderMove s i kind choice .locked
      (s.releaseStaleDriverIfAny.release i (.awaitOther (s.releaseStaleDriverIfAny.now + startedTimeout))) none
  | reopens : HolderMove s i kind choice .locked (s.releaseStaleDriverIfAny.hold i (.resetting false)) none
  | dials (closed : s.releaseStaleDriverIfAny.cmdTx = false) :
      HolderMove s i kind choice .locked (s.releaseStaleDriverIfAny.hold i .connecting) none
  | spawns (chosen : choice = true) : HolderMove s i kind choice .connecting
      { s.hold i .greet with cmdTx := true, driverJoin := true, driver := { phase := .top } } none
  | refused (declined : choice = false) :
      HolderMove s i kind choice .connecting (s.release i (.returned .failed)) (some (.returned i .failed))
  | greets (isOpen : s.channelOpen = true) : HolderMove s i kind choice .greet
      ((s.push .startConnection).hold i (.resetting true)) none
  | ungreeted (closed : s.channelOpen = false) : HolderMove s i kind choice .greet
      ({ s with cmdTx := false, driverJoin := false }.release i (.returned .failed)) (some (.returned i .failed))
  | resets (fresh : Bool) : HolderMove s i kind choice (.resetting fresh)
      { s.hold i (.openingSession fresh) with started := false } none
  | asks (fresh : Bool) (isOpen : s.channelOpen = true) : HolderMove s i kind choice (.openingSession fresh)
      ((s.push .startSession).hold i (.awaitStarted fresh (s.now + startedTimeout))) none
  | unasked (fresh : Bool) (closed : s.channelOpen = false) : HolderMove s i kind choice
      (.openingSession fresh) (s.release i (.returned .failed)) (some (.returned i .failed))
  | expires (fresh : Bool) (deadline : Instant) : HolderMove s i kind choice (.awaitStarted fresh deadline)
      (s.release i (.returned .failed)) (some (.returned i .failed))
  | cancelled (chosen : choice = true) : HolderMove s i kind choice .checking
      (s.release i (.returned .cancelled)) (some (.returned i .cancelled))
  | installs (sure : choice = false) (first : kind = .sentence false) : HolderMove s i kind choice .checking
      (s.install.hold i .sending) (some (.installed i s.nextTask))
  | continues (other : kind ≠ .sentence false) : HolderMove s i kind choice .checking (s.hold i .sending) none
  | sends (isOpen : s.channelOpen = true) : HolderMove s i kind choice .sending
      ((s.push (.taskRequest (s.current.map ActiveTask.id))).release i (.returned .ok)) (some (.returned i .ok))
  | fails (closed : s.channelOpen = false) : HolderMove s i kind choice .sending (s.hold i .sendFailed) none
  | clears : HolderMove s i kind choice .sendFailed
      ({ s with current := none }.release i (.returned .failed)) (some (.returned i .failed))

theorem advanceHolder_move {s s' : Session} {i : Nat} {kind : CallKind} {choice : Bool} {holding : Holding}
    {event : Option Event} (taken : s.advanceHolder i kind choice holding = some (s', event)) :
    HolderMove s i kind choice holding s' event := by
  cases holding with
  | locked =>
    rw [Session.advanceHolder] at taken
    split at taken
    next => exact .joins (.inl ⟨rfl, rfl⟩) taken
    next =>
      dsimp only at taken
      split at taken
      next =>
        cases kind with
        | start =>
          cases taken
          exact .waits rfl
        | sentence turnOpen =>
          cases taken
          exact .reopens
      next closed =>
        cases taken
        exact .dials (Bool.eq_false_iff.mpr closed)
  | connecting =>
    rw [Session.advanceHolder] at taken
    split at taken
    next chosen =>
      cases taken
      exact .spawns chosen
    next declined =>
      cases taken
      exact .refused (Bool.eq_false_iff.mpr declined)
  | greet =>
    rw [Session.advanceHolder] at taken
    rcases sendRaw_cases taken with ⟨isOpen, sent⟩ | ⟨closed, failed⟩
    · cases sent
      exact .greets isOpen
    · cases failed
      exact .ungreeted closed
  | resetting fresh =>
    cases taken
    exact .resets fresh
  | openingSession fresh =>
    rw [Session.advanceHolder] at taken
    rcases sendRaw_cases taken with ⟨isOpen, sent⟩ | ⟨closed, failed⟩
    · cases sent
      exact .asks fresh isOpen
    · cases failed
      exact .unasked fresh closed
  | awaitStarted fresh deadline =>
    rw [Session.advanceHolder] at taken
    split at taken
    next => exact .joins (.inr ⟨fresh, deadline, rfl, rfl⟩) taken
    next =>
      split at taken
      · cases taken
        exact .expires fresh deadline
      · cases taken
  | checking =>
    rw [Session.advanceHolder] at taken
    split at taken
    next chosen =>
      cases taken
      exact .cancelled chosen
    next sure =>
      unfold Session.beginSend at taken
      split at taken
      next =>
        cases taken
        exact .installs (Bool.eq_false_iff.mpr sure) rfl
      next other =>
        cases taken
        exact .continues other
  | sending =>
    rw [Session.advanceHolder] at taken
    rcases sendRaw_cases taken with ⟨isOpen, sent⟩ | ⟨closed, failed⟩
    · cases sent
      exact .sends isOpen
    · cases failed
      exact .fails closed
  | sendFailed =>
    cases taken
    exact .clears

theorem SameWork.refl (s : Session) : SameWork s s := ⟨rfl, rfl, rfl, rfl, rfl, rfl⟩

theorem releaseStaleDriverIfAny_spec (s : Session) :
    SameWork s s.releaseStaleDriverIfAny ∧ s.releaseStaleDriverIfAny.driver = s.driver ∧
      SameLink s s.releaseStaleDriverIfAny := by
  unfold Session.releaseStaleDriverIfAny
  split
  next stale =>
    split
    · exact ⟨⟨rfl, rfl, rfl, rfl, rfl, rfl⟩, rfl,
        .inr ⟨by simp [Session.channelOpen, stale], rfl, rfl⟩⟩
    · exact ⟨.refl s, rfl, .inl ⟨rfl, rfl⟩⟩
  next => exact ⟨.refl s, rfl, .inl ⟨rfl, rfl⟩⟩

section Rests

variable {s t : Session} {i : Nat} {kind : CallKind} {choice : Bool} {holding : Holding}

theorem HolderStep.drops {event : Option Event} (quiet : holding ≠ .sending ∧ holding ≠ .sendFailed)
    (work : SameWork s t) (driver : t.driver = s.driver) (link : SameLink s t) (phase : CallPhase)
    (shown : Restrained s i choice holding event) :
    HolderStep s i choice holding (t.release i phase) event :=
  .rests quiet ⟨work.now, work.current, work.nextTask, work.cancelledTasks, work.ended, work.played⟩
    driver link nofun shown

theorem HolderStep.gives_up (quiet : holding ≠ .sending ∧ holding ≠ .sendFailed) (work : SameWork s t)
    (driver : t.driver = s.driver) (link : SameLink s t) :
    HolderStep s i choice holding (t.release i (.returned .failed)) (some (.returned i .failed)) :=
  .drops quiet work driver link _ (.inr ⟨_, rfl, nofun, nofun⟩)

theorem HolderStep.keeps (quiet : holding ≠ .sending ∧ holding ≠ .sendFailed) (work : SameWork s t)
    (driver : t.driver = s.driver) (link : SameLink s t) (next : Holding)
    (unsent : next.sends = false ∧ (next = .connecting → t.cmdTx = false)) :
    HolderStep s i choice holding (t.hold i next) none := by
  refine .rests quiet ⟨work.now, work.current, work.nextTask, work.cancelledTasks, work.ended, work.played⟩
    driver link (fun holder after same => ?_) (.inl rfl)
  cases same
  exact unsent

theorem HolderStep.finds_open {s' : Session} {event : Option Event}
    (known : s.calls[i]?.map Call.kind = some kind)
    (quiet : holding ≠ .sending ∧ holding ≠ .sendFailed) (work : SameWork s t)
    (driver : t.driver = s.driver) (link : SameLink s t) (taken : t.opened i kind = some (s', event)) :
    HolderStep s i choice holding s' event := by
  cases kind with
  | start =>
    cases taken
    exact .drops quiet work driver link _ (.inr ⟨_, rfl, fun _ => known, nofun⟩)
  | sentence turnOpen =>
    cases taken
    exact .drops quiet work driver link _ (.inl rfl)

end Rests

theorem advanceHolder_step {s s' : Session} {i : Nat} {kind : CallKind} {choice : Bool}
    {holding : Holding} {event : Option Event} (known : s.calls[i]?.map Call.kind = some kind)
    (held : s.sendMutex = some (i, holding))
    (taken : s.advanceHolder i kind choice holding = some (s', event)) :
    HolderStep s i choice holding s' event := by
  have work := SameWork.refl s
  have link : SameLink s s := .inl ⟨rfl, rfl⟩
  obtain ⟨workStale, driverStale, linkStale⟩ := releaseStaleDriverIfAny_spec s
  cases advanceHolder_move taken with
  | joins there opened =>
    rcases there with ⟨rfl, rfl⟩ | ⟨fresh, deadline, rfl, rfl⟩
    · exact .finds_open known (by simp) work rfl link opened
    · have flagged : SameWork s { s with startedFlag := s.startedFlag || fresh } :=
        ⟨rfl, rfl, rfl, rfl, rfl, rfl⟩
      exact .finds_open known (by simp) flagged rfl link opened
  | waits => exact .drops (by simp) workStale driverStale linkStale _ (.inl rfl)
  | reopens => exact .keeps (by simp) workStale driverStale linkStale _ ⟨rfl, nofun⟩
  | dials closed => exact .keeps (by simp) workStale driverStale linkStale _ ⟨rfl, fun _ => closed⟩
  | spawns => exact .connects ⟨rfl, rfl, rfl, rfl, rfl, rfl⟩ rfl ⟨rfl, rfl⟩ rfl
  | refused => exact .gives_up (by simp) work rfl link
  | greets =>
    refine .pushes .startConnection rfl (by simp) ⟨rfl, rfl, rfl, rfl, rfl, rfl⟩ rfl ⟨rfl, rfl⟩ ?_
    intro holder next same
    cases same
    exact ⟨rfl, nofun⟩
  | ungreeted closed =>
    have dropped : SameWork s { s with cmdTx := false, driverJoin := false } :=
      ⟨rfl, rfl, rfl, rfl, rfl, rfl⟩
    exact .gives_up (by simp) dropped rfl (.inr ⟨closed, rfl, rfl⟩)
  | resets fresh =>
    have reset : SameWork s { s with started := false } := ⟨rfl, rfl, rfl, rfl, rfl, rfl⟩
    exact .keeps (by simp) reset rfl link _ ⟨rfl, nofun⟩
  | asks =>
    refine .pushes .startSession rfl (by simp) ⟨rfl, rfl, rfl, rfl, rfl, rfl⟩ rfl ⟨rfl, rfl⟩ ?_
    intro holder next same
    cases same
    exact ⟨rfl, nofun⟩
  | unasked => exact .gives_up (by simp) work rfl link
  | expires => exact .gives_up (by simp) work rfl link
  | cancelled chosen => exact .drops (by simp) work rfl link _ (.inr ⟨_, rfl, nofun, fun _ => ⟨rfl, chosen⟩⟩)
  | installs sure first => exact .installs ⟨held, first ▸ known, sure⟩
  | continues other => exact .continues fun first => other (Option.some.inj (known.symm.trans first))
  | sends isOpen => exact .sends isOpen
  | fails closed => exact .fails closed
  | clears => exact .clears

theorem advanceHolder_calls {s s' : Session} {i : Nat} {kind : CallKind} {choice : Bool}
    {holding : Holding} {event : Option Event}
    (taken : s.advanceHolder i kind choice holding = some (s', event)) :
    (∃ next, s'.sendMutex = some (i, next) ∧ s'.calls = s.calls ∧
        (next.sends = true → holding.sends = true)) ∨
      (s'.sendMutex = none ∧ ∃ phase, s'.calls = (s.setPhase i phase).calls ∧
        kind.allows phase = true) := by
  have returns : ∀ result, kind.allows (.returned result) = true := by
    intro result
    cases kind <;> rfl
  have calls : s.releaseStaleDriverIfAny.calls = s.calls := by
    unfold Session.releaseStaleDriverIfAny
    split
    · split <;> rfl
    · rfl
  cases advanceHolder_move taken with
  | joins there opened =>
    rcases there with ⟨rfl, rfl⟩ | ⟨fresh, deadline, rfl, rfl⟩ <;> cases kind <;> cases opened <;>
      exact .inr ⟨rfl, _, rfl, rfl⟩
  | waits first =>
    subst first
    exact .inr ⟨rfl, _, congrArg (List.modify · i _) calls, rfl⟩
  | reopens => exact .inl ⟨_, rfl, calls, nofun⟩
  | dials => exact .inl ⟨_, rfl, calls, nofun⟩
  | spawns => exact .inl ⟨_, rfl, rfl, nofun⟩
  | greets => exact .inl ⟨_, rfl, rfl, nofun⟩
  | resets => exact .inl ⟨_, rfl, rfl, nofun⟩
  | asks => exact .inl ⟨_, rfl, rfl, nofun⟩
  | installs => exact .inl ⟨_, rfl, rfl, fun _ => rfl⟩
  | continues => exact .inl ⟨_, rfl, rfl, fun _ => rfl⟩
  | fails => exact .inl ⟨_, rfl, rfl, fun _ => rfl⟩
  | refused => exact .inr ⟨rfl, _, rfl, returns _⟩
  | ungreeted => exact .inr ⟨rfl, _, rfl, returns _⟩
  | unasked => exact .inr ⟨rfl, _, rfl, returns _⟩
  | expires => exact .inr ⟨rfl, _, rfl, returns _⟩
  | cancelled => exact .inr ⟨rfl, _, rfl, returns _⟩
  | sends => exact .inr ⟨rfl, _, rfl, returns _⟩
  | clears => exact .inr ⟨rfl, _, rfl, returns _⟩

def Session.popped (s : Session) (rest : List DriverCmd) : Session :=
  { s with driver := { s.driver with commands := rest } }

def Session.read (s : Session) (rest : List Frame) : Session :=
  { s with driver := { s.driver with socket := rest } }

theorem takeCommand_cases {s s' : Session} {outcome : Session.WriteOutcome} {event : Option Event}
    (taken : s.takeCommand outcome = some (s', event)) :
    event = none ∧ ∃ command rest, s.driver.commands = command :: rest ∧
      ((∃ phase, (phase = .top ∨ phase = .closing) ∧ s' = (s.popped rest).goto phase) ∨
        ∃ task, command = .taskRequest task ∧ s' = { s with driver := { s.driver with
          phase := .top, commands := rest, requests := s.driver.requests ++ [task] } }) := by
  unfold Session.takeCommand at taken
  split at taken
  next => cases taken
  next command rest queued =>
    cases outcome with
    | writeFailed =>
      cases taken
      exact ⟨rfl, command, rest, queued, .inl ⟨.closing, .inr rfl, rfl⟩⟩
    | marshalFailed =>
      cases taken
      exact ⟨rfl, command, rest, queued, .inl ⟨.top, .inl rfl, rfl⟩⟩
    | sent =>
      cases command with
      | taskRequest task =>
        cases taken
        exact ⟨rfl, _, rest, queued, .inr ⟨task, rfl, rfl⟩⟩
      | startConnection =>
        cases taken
        exact ⟨rfl, _, rest, queued, .inl ⟨.top, .inl rfl, rfl⟩⟩
      | startSession =>
        cases taken
        exact ⟨rfl, _, rest, queued, .inl ⟨.top, .inl rfl, rfl⟩⟩

inductive DriveStep (s : Session) (wake : Session.Wake) : Session → Option Event → Prop
  | computes (here : s.driver.phase = .top) : DriveStep s wake (s.goto (.select s.turnDeadline)) none
  | idles {due : Instant} (here : s.driver.phase = .select (some due)) (elapsed : due ≤ s.now) :
      DriveStep s wake (s.goto (if s.stillDue then .fire false else .top)) none
  | loses {deadline : Option Instant} {command : DriverCmd} {rest : List DriverCmd}
      (here : s.driver.phase = .select deadline) (queued : s.driver.commands = command :: rest)
      (phase : DriverPhase) (back : phase = .top ∨ phase = .closing) :
      DriveStep s wake ((s.popped rest).goto phase) none
  | requests {deadline : Option Instant} {task : Option Nat} {rest : List DriverCmd}
      (here : s.driver.phase = .select deadline)
      (queued : s.driver.commands = .taskRequest task :: rest) :
      DriveStep s wake { s with driver := { s.driver with
        phase := .top, commands := rest, requests := s.driver.requests ++ [task] } } none
  | hears {deadline : Option Instant} {frame : Frame} {rest : List Frame} (woken : wake = .frame)
      (here : s.driver.phase = .select deadline) (arrived : s.driver.socket = frame :: rest) :
      DriveStep s wake ((s.read rest).routeFrame frame) none
  | dies {deadline : Option Instant} (here : s.driver.phase = .select deadline) :
      DriveStep s wake (s.goto .closing) none
  | fires {exiting : Bool} (here : s.driver.phase = .fire exiting) :
      DriveStep s wake (s.fireTurnComplete exiting) none
  | callsBack {id : Nat} {exiting : Bool} (here : s.driver.phase = .callback id exiting) :
      DriveStep s wake { s.goto (Session.afterFire exiting) with
        ended := s.ended ++ [(id, s.current.map ActiveTask.id)] } (some (.turnEnd id))
  | delivers {task : Option Nat} {late : Bool} {pcm : List Int16}
      (here : s.driver.phase = .deliver task late pcm) :
      DriveStep s wake { s.goto .top with played := s.played ++ [(task, late)] } (some (.audio task pcm))
  | closes (here : s.driver.phase = .closing) :
      DriveStep s wake { s.goto (.fire true) with started := false } none
  | returns (here : s.driver.phase = .returning) : DriveStep s wake { s with driver := {} } none

theorem drive_step {s s' : Session} {wake : Session.Wake} {event : Option Event}
    (taken : s.drive wake = some (s', event)) : DriveStep s wake s' event := by
  unfold Session.drive at taken
  split at taken
  next => cases taken
  next here =>
    cases taken
    exact .computes here
  next deadline here =>
    cases wake with
    | idle =>
      cases deadline with
      | none => cases taken
      | some due =>
        simp only [Session.wake] at taken
        split at taken
        next elapsed =>
          cases taken
          exact .idles here elapsed
        next => cases taken
    | command outcome =>
      obtain ⟨rfl, command, rest, queued, moved⟩ := takeCommand_cases taken
      rcases moved with ⟨phase, back, rfl⟩ | ⟨task, rfl, rfl⟩
      · exact .loses here queued phase back
      · exact .requests here queued
    | frame =>
      simp only [Session.wake] at taken
      split at taken
      next => cases taken
      next frame rest arrived =>
        cases taken
        exact .hears rfl here arrived
    | dead =>
      cases taken
      exact .dies here
  next exiting here =>
    cases taken
    exact .fires here
  next id exiting here =>
    cases taken
    exact .callsBack here
  next task late pcm here =>
    cases taken
    exact .delivers here
  next here =>
    cases taken
    exact .closes here
  next here =>
    cases taken
    exact .returns here

theorem DriveStep.event {s s' : Session} {wake : Session.Wake} {event : Event}
    (moved : DriveStep s wake s' (some event)) :
    (∃ id exiting, s.driver.phase = .callback id exiting ∧ event = .turnEnd id) ∨
      ∃ task late pcm, s.driver.phase = .deliver task late pcm ∧ event = .audio task pcm := by
  cases moved with
  | callsBack here => exact .inl ⟨_, _, here, rfl⟩
  | delivers here => exact .inr ⟨_, _, _, here, rfl⟩

/-- Everything but the clock of the current task, the open flag and the driver's phase. -/
structure SameRoute (s s' : Session) : Prop where
  nextTask : s'.nextTask = s.nextTask
  cancelledTasks : s'.cancelledTasks = s.cancelledTasks
  ended : s'.ended = s.ended
  played : s'.played = s.played
  calls : s'.calls = s.calls
  sendMutex : s'.sendMutex = s.sendMutex
  cmdTx : s'.cmdTx = s.cmdTx
  driverJoin : s'.driverJoin = s.driverJoin
  commands : s'.driver.commands = s.driver.commands
  requests : s'.driver.requests = s.driver.requests
  socket : s'.driver.socket = s.driver.socket

theorem SameRoute.goto (s : Session) (phase : DriverPhase) : SameRoute s (s.goto phase) :=
  ⟨rfl, rfl, rfl, rfl, rfl, rfl, rfl, rfl, rfl, rfl, rfl⟩

theorem SameRoute.starts {s s' : Session} (same : SameRoute s s') (started : Bool) :
    SameRoute s { s' with started } :=
  ⟨same.nextTask, same.cancelledTasks, same.ended, same.played, same.calls, same.sendMutex, same.cmdTx,
    same.driverJoin, same.commands, same.requests, same.socket⟩

theorem SameRoute.hears (s : Session) (phase : DriverPhase) : SameRoute s (s.hearAudio.goto phase) :=
  ⟨rfl, rfl, rfl, rfl, rfl, rfl, rfl, rfl, rfl, rfl, rfl⟩

/-- Audio that the reader takes and that is long enough to be played. -/
def carriesAudio (bytes : List UInt8) : Bool :=
  match unmarshal bytes with
  | .ok message => decide (message.msgType = .audioOnlyServer ∧ 2 ≤ message.payload.length)
  | .error _ => false

theorem routeFrame_spec (s : Session) (frame : Frame) :
    SameRoute s (s.routeFrame frame) ∧
      ((s.routeFrame frame).current = s.current ∨
        (s.routeFrame frame).current = s.hearAudio.current) ∧
      ((s.routeFrame frame).driver.phase = .top ∨ (s.routeFrame frame).driver.phase = .fire false ∨
        (∃ pcm, (s.routeFrame frame).driver.phase = .deliver frame.task
            (frame.task.elim false fun id => decide (id ∈ s.cancelledTasks)) pcm) ∧
          carriesAudio frame.bytes = true ∧ ∃ task, s.current = some task ∧ task.cancelled = false) := by
  unfold Session.routeFrame carriesAudio
  split
  next => exact ⟨.goto s _, .inl rfl, .inl rfl⟩
  next message known =>
    split
    next response =>
      split
      case h_1 => exact ⟨(SameRoute.goto s _).starts true, .inl rfl, .inl rfl⟩
      case h_2 | h_3 | h_4 => exact ⟨(SameRoute.goto s _).starts false, .inl rfl, .inr (.inl rfl)⟩
      case h_5 => exact ⟨.goto s _, .inl rfl, .inr (.inl rfl)⟩
      case h_6 => exact ⟨.goto s _, .inl rfl, .inl rfl⟩
    next audio =>
      split
      next task current =>
        split
        · exact ⟨.hears s _, .inr rfl, .inl rfl⟩
        next loud =>
          simp only [Bool.or_eq_true, decide_eq_true_eq, not_or, Bool.not_eq_true] at loud
          refine ⟨.hears s _, .inr rfl, .inr (.inr ⟨⟨_, rfl⟩, ?_, task, current, loud.1⟩)⟩
          simp only [known, audio, true_and, decide_eq_true_eq]
          omega
      next => exact ⟨.goto s _, .inl rfl, .inl rfl⟩
    next => exact ⟨.goto s _, .inl rfl, .inr (.inl rfl)⟩
    next => exact ⟨.goto s _, .inl rfl, .inl rfl⟩

def DriverPhase.calling : DriverPhase → Bool
  | .callback _ _ => true
  | _ => false

def DriverPhase.selecting : DriverPhase → Bool
  | .select _ => true
  | _ => false

def ActiveTask.Timed (task : ActiveTask) : Prop :=
  task.firstAudioReceived = true → task.lastAudioAt ≠ none

inductive TaskStep (s : Session) : Session.Action → Session → Prop
  | keeps {action : Session.Action} {s' : Session} (change : ActiveTask → ActiveTask)
      (same : ∀ task, (change task).id = task.id ∧ (change task).completed = task.completed ∧
        (task.Timed → (change task).Timed))
      (current : s'.current = s.current.map change) (nextTask : s'.nextTask = s.nextTask)
      (ended : s'.ended = s.ended)
      (phase : ∀ id exiting, s'.driver.phase = .callback id exiting →
        s.driver.phase = .callback id exiting) :
      TaskStep s action s'
  | installs {i : Nat} {choice : Bool} (clear : Installs s i choice) :
      TaskStep s (.advance i choice) (s.install.hold i .sending)
  | clears {i : Nat} {choice : Bool} (held : s.sendMutex = some (i, .sendFailed)) :
      TaskStep s (.advance i choice)
        ({ s with current := none }.release i (.returned .failed))
  | completes {wake : Session.Wake} {exiting : Bool} (here : s.driver.phase = .fire exiting)
      (task : ActiveTask) (current : s.current = some task) (open_ : task.completed = false) :
      TaskStep s (.drive wake)
        { s.goto (.callback task.id exiting) with current := some { task with completed := true } }
  | ends {wake : Session.Wake} {id : Nat} {exiting : Bool}
      (here : s.driver.phase = .callback id exiting) :
      TaskStep s (.drive wake) { s.goto (Session.afterFire exiting) with
        ended := s.ended ++ [(id, s.current.map ActiveTask.id)] }

theorem TaskStep.ofSame {s s' : Session} {action : Session.Action} (current : s'.current = s.current)
    (nextTask : s'.nextTask = s.nextTask) (ended : s'.ended = s.ended)
    (phase : ∀ id exiting, s'.driver.phase = .callback id exiting →
      s.driver.phase = .callback id exiting) : TaskStep s action s' :=
  .keeps id (fun _ => ⟨rfl, rfl, fun timed => timed⟩) (by simp [current]) nextTask ended phase

theorem TaskStep.ofHolder {s s' : Session} {i : Nat} {choice : Bool} {holding : Holding}
    {event : Option Event} (held : s.sendMutex = some (i, holding))
    (moved : HolderStep s i choice holding s' event) : TaskStep s (.advance i choice) s' := by
  cases moved with
  | rests quiet work driver link mutex shown =>
    exact .ofSame work.current work.nextTask work.ended fun _ _ there => driver ▸ there
  | connects work driver link mutex =>
    refine .ofSame work.current work.nextTask work.ended fun _ _ there => ?_
    rw [driver] at there
    cases there
  | pushes command plain quiet work driver link mutex =>
    refine .ofSame work.current work.nextTask work.ended fun _ _ there => ?_
    rwa [driver] at there
  | installs clear => exact .installs clear
  | continues other => exact .ofSame rfl rfl rfl fun _ _ there => there
  | sends isOpen => exact .ofSame rfl rfl rfl fun _ _ there => there
  | fails closed => exact .ofSame rfl rfl rfl fun _ _ there => there
  | clears => exact .clears held

theorem TaskStep.ofDrive {s s' : Session} {wake : Session.Wake} {event : Option Event}
    (moved : DriveStep s wake s' event) : TaskStep s (.drive wake) s' := by
  cases moved with
  | computes here => exact .ofSame rfl rfl rfl nofun
  | idles here elapsed =>
    refine .ofSame rfl rfl rfl fun id exiting there => ?_
    simp only [Session.goto] at there
    split at there <;> cases there
  | loses here queued phase back =>
    refine .ofSame rfl rfl rfl fun id exiting there => ?_
    simp only [Session.goto] at there
    rcases back with rfl | rfl <;> cases there
  | requests here queued => exact .ofSame rfl rfl rfl nofun
  | @hears deadline frame rest woken here arrived =>
    obtain ⟨route, current, phase⟩ := routeFrame_spec (s.read rest) frame
    have away : ∀ id exiting, ((s.read rest).routeFrame frame).driver.phase ≠ .callback id exiting := by
      intro id exiting there
      rcases phase with top | fire | ⟨⟨pcm, deliver⟩, -⟩ <;> simp_all
    rcases current with same | heard
    · exact .ofSame same route.nextTask route.ended fun id exiting there => absurd there (away id exiting)
    · exact .keeps
        (fun task => { task with firstAudioReceived := true, lastAudioAt := some s.now })
        (fun task => ⟨rfl, rfl, fun _ => by simp [ActiveTask.Timed]⟩) heard route.nextTask route.ended
        fun id exiting there => absurd there (away id exiting)
  | dies here => exact .ofSame rfl rfl rfl nofun
  | @fires exiting here =>
    rw [Session.fireTurnComplete]
    split
    next task current =>
      split
      · refine .ofSame rfl rfl rfl fun id other there => ?_
        cases exiting <;> cases there
      next open_ => exact .completes here task current (by simpa using open_)
    next =>
      refine .ofSame rfl rfl rfl fun id other there => ?_
      cases exiting <;> cases there
  | callsBack here => exact .ends here
  | delivers here => exact .ofSame rfl rfl rfl nofun
  | closes here => exact .ofSame rfl rfl rfl nofun
  | returns here => exact .ofSame rfl rfl rfl nofun

theorem emit_cases {s s' : Session} {answering : Bool} {bytes : List UInt8} {event : Option Event}
    (taken : s.emit answering bytes = some (s', event)) :
    s.driver.phase ≠ .off ∧ event = none ∧ ∃ task, (task = none ∨ task ∈ s.driver.requests) ∧
      s' = { s with driver := { s.driver with socket := s.driver.socket ++ [⟨task, bytes⟩] } } := by
  unfold Session.emit at taken
  split at taken
  next => cases taken
  next live =>
    split at taken
    · obtain ⟨task, head, same⟩ := Option.bind_eq_some_iff.mp taken
      cases same
      exact ⟨live, rfl, task, .inr (List.mem_of_head? head), rfl⟩
    · cases taken
      exact ⟨live, rfl, none, .inl rfl, rfl⟩

theorem step_tasks {s s' : Session} {action : Session.Action} {event : Option Event}
    (taken : s.step action = some (s', event)) : TaskStep s action s' := by
  cases action with
  | tick elapsed =>
    cases taken
    exact .ofSame rfl rfl rfl fun _ _ there => there
  | enter kind =>
    cases taken
    exact .ofSame rfl rfl rfl fun _ _ there => there
  | advance i choice =>
    obtain ⟨call, found, ⟨_, phase, rfl, _⟩ | ⟨_, _, holding, rfl, _⟩ | ⟨_, holding, held, moved⟩⟩ :=
      advance_cases taken
    · exact .ofSame rfl rfl rfl fun _ _ there => there
    · exact .ofSame rfl rfl rfl fun _ _ there => there
    · exact .ofHolder held (advanceHolder_step (by simp [found]) held moved)
  | cancelCurrentTurn =>
    cases taken
    exact .keeps (fun task => { task with cancelled := true })
      (fun task => ⟨rfl, rfl, fun timed => timed⟩) rfl rfl rfl fun _ _ there => there
  | drive wake => exact .ofDrive (drive_step taken)
  | emit answering bytes =>
    obtain ⟨_, _, task, _, rfl⟩ := emit_cases taken
    exact .ofSame rfl rfl rfl fun _ _ there => there
  | answered =>
    cases taken
    exact .ofSame rfl rfl rfl fun _ _ there => there

end Fswtch.Seat.TtsSession
