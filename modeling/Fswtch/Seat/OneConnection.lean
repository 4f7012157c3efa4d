import Fswtch.Lib.StepRun
import Fswtch.Seat.TtsSessionSound

/-! The drivers of a session. `Session` keeps the one spawned last; here a driver that is
replaced runs on over the shared state, with its own channel and socket. No driver is ever
replaced before it has returned. -/

namespace Fswtch.Seat.TtsSession
open Fswtch.Lib.StepRun

def Session.spawns (s : Session) : Session.Action → Bool
  | .advance i choice =>
    choice && decide (s.sendMutex = some (i, .connecting)) &&
      decide (s.calls[i]?.map Call.phase = some .holds)
  | _ => false

def Session.Action.ofDriver : Session.Action → Bool
  | .drive _ | .emit _ _ | .answered => true
  | _ => false

/-- Drivers are numbered as they are spawned. `sender` is the driver `cmd_tx` sends to. -/
structure Fleet where
  session : Session
  replaced : List Driver := []
  spawned : Nat := 0
  sender : Option Nat := none

inductive FleetAction where
  | session (action : Session.Action)
  | replaced (k : Nat) (action : Session.Action)

namespace Fleet

/-- A driver returns with its channel and socket, and only then its phase is `off`. -/
def running (f : Fleet) : Nat :=
  (f.replaced ++ [f.session.driver]).countP fun driver => decide (driver.phase ≠ .off)

def afterSession (f : Fleet) (action : Session.Action) (next : Session) : Fleet :=
  if f.session.spawns action then
    { session := next
      replaced := f.replaced ++ [f.session.driver]
      spawned := f.spawned + 1
      sender := some f.spawned }
  else { f with session := next, sender := if next.cmdTx then f.sender else none }

def afterReplaced (f : Fleet) (k : Nat) (next : Session) : Fleet :=
  { f with
    session := { next with driver := f.session.driver }
    replaced := f.replaced.set k next.driver }

/-- A replaced driver acts on the shared state as the latest one would. -/
def stepReplaced (f : Fleet) (k : Nat) (action : Session.Action) : Option Fleet :=
  if action.ofDriver then
    f.replaced[k]?.bind fun driver =>
      (Session.next { f.session with driver } action).map (f.afterReplaced k)
  else none

def step (f : Fleet) : FleetAction → Option Fleet
  | .session action => (f.session.next action).map (f.afterSession action)
  | .replaced k action => f.stepReplaced k action

/-- At most one driver loop runs, and `cmd_tx` sends to the one spawned last. -/
structure OneConnection (f : Fleet) : Prop where
  running : f.running ≤ 1
  present : f.sender.isSome = f.session.cmdTx
  latest : ∀ k, f.sender = some k → k + 1 = f.spawned

theorem next_cmdTx {s s' : Session} {action : Session.Action} (taken : s.next action = some s')
    (spawns : s.spawns action = false) (sends : s'.cmdTx = true) : s.cmdTx = true := by
  obtain ⟨event, stepped⟩ := next_eq_some taken
  cases action with
  | advance i choice =>
    obtain ⟨call, found, ⟨_, phase, rfl, _⟩ | ⟨_, _, holding, rfl, _⟩ | ⟨phase, holding, held, moved⟩⟩ :=
      advance_cases stepped
    · exact sends
    · exact sends
    · cases advanceHolder_step (by simp [found]) held moved with
      | rests quiet work driver link mutex shown =>
        rcases link with ⟨same, _⟩ | ⟨_, dropped, _⟩
        · exact same.symm.trans sends
        · cases dropped.symm.trans sends
      | connects work driver link mutex =>
        have refused : choice = false := by simpa [Session.spawns, held, found, phase] using spawns
        subst refused
        cases moved
      | pushes command plain quiet work driver link mutex => exact link.1.symm.trans sends
      | installs | continues | sends | fails | clears => exact sends
  | drive wake => exact (drive_step stepped).frame.2.1.symm.trans sends
  | emit answering bytes =>
    obtain ⟨_, _, _, _, rfl⟩ := emit_cases stepped
    exact sends
  | tick | enter | cancelCurrentTurn | answered =>
    cases stepped
    exact sends

theorem spawns_cases {s s' : Session} {action : Session.Action} (linked : Linked s)
    (spawns : s.spawns action = true) (taken : s.next action = some s') :
    s.driver.phase = .off ∧ s'.cmdTx = true := by
  obtain ⟨event, stepped⟩ := next_eq_some taken
  cases action with
  | advance i choice =>
    simp only [Session.spawns, Bool.and_eq_true, decide_eq_true_eq] at spawns
    obtain ⟨⟨rfl, held⟩, phase⟩ := spawns
    refine ⟨linked.link.connecting i held, ?_⟩
    obtain ⟨call, found, same⟩ := Option.map_eq_some_iff.mp phase
    obtain ⟨other, known, ⟨elsewhere, _⟩ | ⟨free, _⟩ | ⟨_, holding, _, moved⟩⟩ := advance_cases stepped
    · cases found.symm.trans known
      exact absurd same elsewhere
    · cases free.symm.trans held
    next there =>
      cases there.symm.trans held
      cases moved
      rfl
  | tick | enter | cancelCurrentTurn | drive | emit | answered => cases spawns

structure Sound (f : Fleet) : Prop where
  linked : Linked f.session
  returned : ∀ driver ∈ f.replaced, driver.phase = .off
  present : f.sender.isSome = f.session.cmdTx
  latest : ∀ k, f.sender = some k → k + 1 = f.spawned

theorem Sound.oneConnection {f : Fleet} (sound : Sound f) : f.OneConnection := by
  refine ⟨?_, sound.present, sound.latest⟩
  have none : f.replaced.countP (fun driver => decide (driver.phase ≠ .off)) = 0 := by
    rw [List.countP_eq_zero]
    intro driver member
    simp [sound.returned driver member]
  rw [running, List.countP_append, none, Nat.zero_add]
  exact List.countP_le_length

theorem Sound.afterSession {f : Fleet} {action : Session.Action} {next : Session} (sound : Sound f)
    (taken : f.session.next action = some next) : Sound (f.afterSession action next) := by
  obtain ⟨event, stepped⟩ := next_eq_some taken
  have linked : Linked next := step_linked sound.linked stepped
  unfold Fleet.afterSession
  split
  next spawns =>
    obtain ⟨off, sends⟩ := spawns_cases sound.linked spawns taken
    refine ⟨linked, fun driver member => ?_, sends.symm, ?_⟩
    · rcases List.mem_append.mp member with old | new
      · exact sound.returned driver old
      · rw [List.mem_singleton.mp new]
        exact off
    · rintro k ⟨⟩
      rfl
  next spawns =>
    by_cases sends : next.cmdTx = true
    · have before : f.session.cmdTx = true := next_cmdTx taken (by simpa using spawns) sends
      rw [if_pos sends]
      exact ⟨linked, sound.returned, sound.present.trans (before.trans sends.symm), sound.latest⟩
    · rw [if_neg sends]
      exact ⟨linked, sound.returned, (Bool.eq_false_iff.mpr sends).symm, nofun⟩

theorem next_off {s s' : Session} {action : Session.Action} (off : s.driver.phase = .off)
    (driver : action.ofDriver = true) (taken : s.next action = some s') :
    s'.driver.phase = .off ∧ s' = { s with driver := s'.driver } := by
  obtain ⟨event, stepped⟩ := next_eq_some taken
  cases action with
  | drive wake => exact absurd off (drive_step stepped).frame.1
  | emit answering bytes => exact absurd off (emit_cases stepped).1
  | answered =>
    cases stepped
    exact ⟨off, rfl⟩
  | tick | enter | advance | cancelCurrentTurn => cases driver

theorem Sound.stepReplaced {f f' : Fleet} {k : Nat} {action : Session.Action} (sound : Sound f)
    (taken : f.stepReplaced k action = some f') : Sound f' := by
  unfold Fleet.stepReplaced at taken
  split at taken
  next driver =>
    obtain ⟨old, found, moved⟩ := Option.bind_eq_some_iff.mp taken
    obtain ⟨next, stepped, rfl⟩ := Option.map_eq_some_iff.mp moved
    have off : old.phase = .off := sound.returned old (List.mem_of_getElem? found)
    obtain ⟨still, same⟩ := next_off off driver stepped
    have session : { next with driver := f.session.driver } = f.session := by rw [same]
    rw [Fleet.afterReplaced, session]
    refine ⟨sound.linked, fun other member => ?_, sound.present, sound.latest⟩
    rcases List.mem_or_eq_of_mem_set member with old | rfl
    · exact sound.returned other old
    · exact still
  next => cases taken

theorem step_sound (f : Fleet) (action : FleetAction) (f' : Fleet) (sound : Sound f)
    (taken : f.step action = some f') : Sound f' := by
  cases action with
  | session action =>
    obtain ⟨next, stepped, rfl⟩ := Option.map_eq_some_iff.mp taken
    exact sound.afterSession stepped
  | replaced k action => exact sound.stepReplaced taken

end Fleet

/-- In every run at most one driver loop of the session is running, whether or not it has
been sent `Shutdown`, and `cmd_tx` is the sender of the driver spawned last. -/
theorem one_connection (now : Instant) (actions : List FleetAction) (final : Fleet)
    (taken : run Fleet.step { session := { now } } actions = some final) : final.OneConnection := by
  have initial : Fleet.Sound { session := { now } } :=
    ⟨initial_linked now, fun _ member => absurd member List.not_mem_nil, rfl, nofun⟩
  exact (invariant_of_any_run Fleet.step_sound initial taken).oneConnection

def reconnected : List FleetAction :=
  let dies : List Session.Action :=
    [.drive .idle, .drive .dead, .drive .idle, .drive .idle, .drive .idle, .drive .idle]
  let connects : List Session.Action :=
    [.enter (.sentence false), .advance 1 false, .advance 1 false, .advance 1 false, .advance 1 true]
  (firstSentence ++ firstRequest ++ dies ++ connects).map .session

theorem reconnected_one_connection :
    ∃ final, run Fleet.step { session := {} } reconnected = some final ∧
      (final.spawned = 2 ∧ final.sender = some 1 ∧ final.running = 1) ∧ final.OneConnection := by
  have found : (run Fleet.step { session := {} } reconnected).map
      (fun final => (final.spawned, final.sender, final.running)) = some (2, some 1, 1) := by
    decide +kernel
  obtain ⟨final, taken, same⟩ := Option.map_eq_some_iff.mp found
  simp only [Prod.mk.injEq] at same
  exact ⟨final, taken, same, one_connection 0 reconnected final taken⟩

end Fswtch.Seat.TtsSession
