import Mathlib.Data.List.Forall2
import Fswtch.Seat.OneConnection

/-! What goes over the WebSocket of a session. A sentence looks once whether the session is
open and takes `send_mutex` later; in between the server can end the session. -/

namespace Fswtch.Seat.TtsSession
open Fswtch.Lib.StepRun Fswtch.Seat.TtsWsCodec

inductive Mark where
  | startConnection
  | startSession
  | taskRequest
  | started
  | ended
  deriving DecidableEq

def DriverCmd.mark : DriverCmd → Mark
  | .startConnection => .startConnection
  | .startSession => .startSession
  | .taskRequest _ => .taskRequest

def heard (bytes : List UInt8) : Option Mark :=
  match unmarshal bytes with
  | .error _ => none
  | .ok message =>
    match message.msgType with
    | .fullServerResponse =>
      match message.event with
      | .sessionStarted => some .started
      | .sessionFinished | .sessionFailed => some .ended
      | _ => none
    | _ => none

/-- A `task_request` with the log of its WebSocket when it was queued and when it was written. -/
structure Request where
  queued : List Mark
  written : List Mark

/-- The log of the WebSocket now open, what it was when each command in the channel was
queued, and the requests written so far. -/
structure Wire where
  log : List Mark := []
  queued : List (List Mark) := []
  requests : List Request := []

namespace Wire

def connects (w : Wire) : Wire := { w with log := [], queued := [] }

def queues (w : Wire) : Wire := { w with queued := w.queued ++ [w.log] }

def loses (w : Wire) : Wire := { w with queued := w.queued.tail }

def writes (w : Wire) (command : DriverCmd) : Wire :=
  { log := w.log ++ [command.mark]
    queued := w.queued.tail
    requests := w.requests ++
      match command with
      | .taskRequest _ => [⟨w.queued.headD [], w.log⟩]
      | _ => [] }

def hears (w : Wire) (bytes : List UInt8) : Wire := { w with log := w.log ++ (heard bytes).toList }

def noteWake (s : Session) (w : Wire) : Session.Wake → Wire
  | .command .sent => s.driver.commands.head?.elim w w.writes
  | .command _ => w.loses
  | .frame => s.driver.socket.head?.elim w fun frame => w.hears frame.bytes
  | _ => w

def note (s : Session) (action : Session.Action) (next : Session) (w : Wire) : Wire :=
  match action with
  | .advance _ _ =>
    if s.spawns action then w.connects
    else if s.driver.commands.length < next.driver.commands.length then w.queues
    else w
  | .drive wake =>
    match s.driver.phase with
    | .select _ => w.noteWake s wake
    | .returning => { w with queued := [] }
    | _ => w
  | _ => w

end Wire

abbrev watchedStep : Session × Wire → Session.Action → Option (Session × Wire) :=
  recorded Session.next Wire.note

def Greeted (log : List Mark) : Prop := [Mark.startConnection, Mark.startSession].Sublist log

/-- `SessionStarted` came after `start_connection` and `start_session`, and no end after it. -/
def Open (log : List Mark) : Prop :=
  ∃ before after, log = before ++ .started :: after ∧ Greeted before ∧ Mark.ended ∉ after

def InSession (w : Wire) : Prop :=
  ∀ request ∈ w.requests, Open request.queued ∧ request.queued.IsPrefix request.written

def Answers (watched : Session × Wire) : Session.Action → Prop
  | .emit _ bytes => heard bytes = some .started → Greeted watched.2.log
  | _ => True

/-- `started` still holds when a request is queued. -/
def StillStarted (watched : Session × Wire) : Session.Action → Prop
  | .advance i _ =>
    watched.1.sendMutex = some (i, .sending) → watched.1.channelOpen = true → watched.1.started = true
  | _ => True

def Orderly (watched : Session × Wire) (action : Session.Action) : Prop :=
  Answers watched action ∧ StillStarted watched action

instance decidableAnswers (watched : Session × Wire) :
    (action : Session.Action) → Decidable (Answers watched action)
  | .emit _ _ => inferInstanceAs (Decidable (_ → List.Sublist _ _))
  | .tick _ | .enter _ | .advance _ _ | .cancelCurrentTurn | .drive _ | .answered => isTrue trivial

instance decidableStillStarted (watched : Session × Wire) :
    (action : Session.Action) → Decidable (StillStarted watched action)
  | .advance _ _ => inferInstanceAs (Decidable (_ → _ → _))
  | .tick _ | .enter _ | .emit _ _ | .cancelCurrentTurn | .drive _ | .answered => isTrue trivial

instance decidableOrderly (watched : Session × Wire) (action : Session.Action) :
    Decidable (Orderly watched action) :=
  inferInstanceAs (Decidable (_ ∧ _))

theorem Greeted.append {log : List Mark} (greeted : Greeted log) (more : List Mark) :
    Greeted (log ++ more) :=
  List.Sublist.trans greeted (List.sublist_append_left log more)

theorem Greeted.opens {log : List Mark} (greeted : Greeted log) : Open (log ++ [.started]) :=
  ⟨log, [], rfl, greeted, List.not_mem_nil⟩

theorem Open.append {log more : List Mark} (isOpen : Open log) (quiet : Mark.ended ∉ more) :
    Open (log ++ more) := by
  obtain ⟨before, after, rfl, greeted, still⟩ := isOpen
  refine ⟨before, after ++ more, by simp, greeted, fun member => ?_⟩
  rcases List.mem_append.mp member with old | new
  · exact still old
  · exact quiet new

theorem not_open_of_ended (log : List Mark) : ¬Open (log ++ [.ended]) := by
  rintro ⟨before, after, same, _, quiet⟩
  have last := congrArg List.getLast? same
  cases after with
  | nil => simp at last
  | cons mark rest =>
    have final : (mark :: rest).getLast? = some .ended := by simpa using last.symm
    exact quiet (List.mem_of_getLast? final)

def DriverPhase.left : DriverPhase → Bool
  | .off | .fire true | .callback _ true | .returning => true
  | _ => false

def DriverCmd.isRequest : DriverCmd → Bool
  | .taskRequest _ => true
  | _ => false

theorem advanceHolder_driver {s s' : Session} {i : Nat} {kind : CallKind} {choice : Bool}
    {holding : Holding} {event : Option Event}
    (taken : s.advanceHolder i kind choice holding = some (s', event)) :
    (s'.started = true → s.started = true) ∧
      ((holding = .connecting → choice = false) ∧ s'.driver = s.driver ∨
        holding = .connecting ∧ choice = true ∧ s'.driver = { phase := .top } ∨
        holding ≠ .connecting ∧ s.channelOpen = true ∧ ∃ command,
          s'.driver = (s.push command).driver ∧ (command.isRequest = true → holding = .sending)) := by
  have stale : s.releaseStaleDriverIfAny.driver = s.driver ∧
      s.releaseStaleDriverIfAny.started = s.started := by
    unfold Session.releaseStaleDriverIfAny
    split
    · split <;> exact ⟨rfl, rfl⟩
    · exact ⟨rfl, rfl⟩
  cases advanceHolder_move taken with
  | joins there opened =>
    rcases there with ⟨rfl, rfl⟩ | ⟨fresh, deadline, rfl, rfl⟩ <;> cases kind <;> cases opened <;>
      exact ⟨id, .inl ⟨by simp, rfl⟩⟩
  | waits => exact ⟨fun still => stale.2.symm.trans still, .inl ⟨by simp, stale.1⟩⟩
  | reopens => exact ⟨fun still => stale.2.symm.trans still, .inl ⟨by simp, stale.1⟩⟩
  | dials => exact ⟨fun still => stale.2.symm.trans still, .inl ⟨by simp, stale.1⟩⟩
  | spawns chosen => exact ⟨id, .inr (.inl ⟨rfl, chosen, rfl⟩)⟩
  | refused declined => exact ⟨id, .inl ⟨fun _ => declined, rfl⟩⟩
  | greets isOpen => exact ⟨id, .inr (.inr ⟨by simp, isOpen, _, rfl, fun asks => by cases asks⟩)⟩
  | asks _ isOpen => exact ⟨id, .inr (.inr ⟨by simp, isOpen, _, rfl, fun asks => by cases asks⟩)⟩
  | sends isOpen => exact ⟨id, .inr (.inr ⟨by simp, isOpen, _, rfl, fun _ => rfl⟩)⟩
  | resets => exact ⟨fun started => (by cases started), .inl ⟨by simp, rfl⟩⟩
  | _ => exact ⟨id, .inl ⟨by simp, rfl⟩⟩

theorem routeFrame_started {s : Session} {frame : Frame} (started : (s.routeFrame frame).started = true) :
    heard frame.bytes = some .started ∨ s.started = true ∧ heard frame.bytes ≠ some .ended := by
  unfold Session.routeFrame at started
  unfold heard
  revert started
  cases unmarshal frame.bytes with
  | error _ => exact fun started => .inr ⟨started, nofun⟩
  | ok message =>
    obtain ⟨_, _, msgType, _, _, _, event, _⟩ := message
    cases msgType with
    | fullServerResponse =>
      cases event with
      | sessionStarted => exact fun _ => .inl rfl
      | sessionFinished | sessionFailed | connectionFailed => exact nofun
      | _ => exact fun started => .inr ⟨started, nofun⟩
    | audioOnlyServer =>
      intro started
      refine .inr ⟨?_, nofun⟩
      dsimp only at started
      split at started
      · split at started <;> exact started
      · exact started
    | _ => exact fun started => .inr ⟨started, nofun⟩

theorem fireTurnComplete_frame (s : Session) (exiting : Bool) :
    (s.fireTurnComplete exiting).started = s.started ∧
      (s.fireTurnComplete exiting).driver.phase.left = exiting ∧
      (s.fireTurnComplete exiting).driver.commands = s.driver.commands ∧
      (s.fireTurnComplete exiting).driver.socket = s.driver.socket := by
  unfold Session.fireTurnComplete
  split
  · split <;> cases exiting <;> exact ⟨rfl, rfl, rfl, rfl⟩
  · cases exiting <;> exact ⟨rfl, rfl, rfl, rfl⟩

def Waits (log : List Mark) (command : DriverCmd) (queued : List Mark) : Prop :=
  (command.isRequest = true → Open queued) ∧ queued.IsPrefix log

structure InProtocol (s : Session) (w : Wire) : Prop where
  linked : Linked s
  opened : s.started = true → Open w.log
  down : s.driver.phase.left = true → s.started = false
  waits : List.Forall₂ (Waits w.log) s.driver.commands w.queued
  answered : ∀ frame ∈ s.driver.socket, heard frame.bytes = some .started → Greeted w.log
  inSession : InSession w

theorem InProtocol.rests {s s' : Session} {w : Wire} (sound : InProtocol s w) (linked : Linked s')
    (started : s'.started = true → s.started = true)
    (down : s'.driver.phase.left = true → s.driver.phase.left = true ∨ s'.started = false)
    (commands : s'.driver.commands = s.driver.commands) (socket : s'.driver.socket = s.driver.socket) :
    InProtocol s' w := by
  refine ⟨linked, fun isOpen => sound.opened (started isOpen), fun left => ?_, commands ▸ sound.waits,
    socket ▸ sound.answered, sound.inSession⟩
  rcases down left with before | closed
  · exact Bool.eq_false_iff.mpr fun isOpen => by
      cases (sound.down before).symm.trans (started isOpen)
  · exact closed

theorem Waits.append {log queued : List Mark} {command : DriverCmd} (waits : Waits log command queued)
    (more : List Mark) : Waits (log ++ more) command queued :=
  ⟨waits.1, waits.2.trans (List.prefix_append log more)⟩

theorem InProtocol.loses {s s' : Session} {w : Wire} {command : DriverCmd} {rest : List DriverCmd}
    (sound : InProtocol s w) (linked : Linked s') (queued : s.driver.commands = command :: rest)
    (started : s'.started = s.started) (down : s'.driver.phase.left = false)
    (commands : s'.driver.commands = rest) (socket : s'.driver.socket = s.driver.socket) :
    InProtocol s' w.loses := by
  have waits := sound.waits
  rw [queued] at waits
  obtain ⟨first, others, _, waiting, same⟩ := List.forall₂_cons_left_iff.mp waits
  refine ⟨linked, fun isOpen => sound.opened (started.symm.trans isOpen), fun left => ?_, ?_,
    socket ▸ sound.answered, sound.inSession⟩
  · cases down.symm.trans left
  · rw [commands, Wire.loses, same]
    exact waiting

theorem InProtocol.writes {s s' : Session} {w : Wire} {command : DriverCmd} {rest : List DriverCmd}
    (sound : InProtocol s w) (linked : Linked s') (queued : s.driver.commands = command :: rest)
    (started : s'.started = s.started) (down : s'.driver.phase.left = false)
    (commands : s'.driver.commands = rest) (socket : s'.driver.socket = s.driver.socket) :
    InProtocol s' (w.writes command) := by
  have waits := sound.waits
  rw [queued] at waits
  obtain ⟨first, others, front, waiting, same⟩ := List.forall₂_cons_left_iff.mp waits
  have quiet : Mark.ended ∉ [command.mark] := by cases command <;> simp [DriverCmd.mark]
  refine ⟨linked, fun isOpen => (sound.opened (started.symm.trans isOpen)).append quiet, fun left => ?_,
    ?_, fun frame member told => ?_, fun request member => ?_⟩
  · cases down.symm.trans left
  · have tail : (w.writes command).queued = others := congrArg List.tail same
    rw [commands, tail]
    exact waiting.imp fun _ _ waits => waits.append _
  · exact (sound.answered frame (socket ▸ member) told).append _
  · rcases List.mem_append.mp member with old | new
    · exact sound.inSession request old
    · cases command with
      | taskRequest task =>
        simp only [same, List.headD_cons, List.mem_singleton] at new
        rw [new]
        exact ⟨front.1 rfl, front.2⟩
      | startConnection | startSession => cases new

theorem InProtocol.hears {s s' : Session} {w : Wire} {frame : Frame} {rest : List Frame}
    (sound : InProtocol s w) (linked : Linked s') (arrived : s.driver.socket = frame :: rest)
    (started : s'.started = true →
      heard frame.bytes = some .started ∨ s.started = true ∧ heard frame.bytes ≠ some .ended)
    (down : s'.driver.phase.left = false) (commands : s'.driver.commands = s.driver.commands)
    (socket : s'.driver.socket = rest) : InProtocol s' (w.hears frame.bytes) := by
  refine ⟨linked, fun isOpen => ?_, fun left => ?_, ?_, fun other member told => ?_, sound.inSession⟩
  · rcases started isOpen with told | ⟨before, still⟩
    · rw [Wire.hears, told]
      exact (sound.answered frame (by simp [arrived]) told).opens
    · refine (sound.opened before).append fun member => still ?_
      simpa using member
  · cases down.symm.trans left
  · rw [commands]
    exact sound.waits.imp fun _ _ waits => waits.append _
  · have there : other ∈ s.driver.socket := by
      rw [arrived]
      exact List.mem_cons_of_mem _ (socket ▸ member)
    exact (sound.answered other there told).append _

theorem InProtocol.returns {s : Session} {w : Wire} (sound : InProtocol s w)
    (linked : Linked { s with driver := {} }) (here : s.driver.phase = .returning) :
    InProtocol { s with driver := {} } { w with queued := [] } :=
  ⟨linked, sound.opened, fun _ => sound.down (by rw [here]; rfl), .nil,
    fun _ member => absurd member List.not_mem_nil, sound.inSession⟩

theorem InProtocol.connects {s s' : Session} {w : Wire} (sound : InProtocol s w) (linked : Linked s')
    (off : s.driver.phase = .off) (started : s'.started = true → s.started = true)
    (driver : s'.driver = { phase := .top }) : InProtocol s' w.connects := by
  have closed : s'.started = false := by
    refine Bool.eq_false_iff.mpr fun isOpen => ?_
    cases (sound.down (by rw [off]; rfl)).symm.trans (started isOpen)
  refine ⟨linked, fun isOpen => ?_, fun _ => closed, ?_, fun frame member => ?_, sound.inSession⟩
  · cases closed.symm.trans isOpen
  · rw [driver]
    exact .nil
  · rw [driver] at member
    cases member

theorem InProtocol.queues {s s' : Session} {w : Wire} {command : DriverCmd} (sound : InProtocol s w)
    (linked : Linked s') (started : s'.started = true → s.started = true)
    (driver : s'.driver = (s.push command).driver)
    (still : command.isRequest = true → s.started = true) : InProtocol s' w.queues := by
  refine ⟨linked, fun isOpen => sound.opened (started isOpen), fun left => ?_, ?_, ?_, sound.inSession⟩
  · rw [driver] at left
    exact Bool.eq_false_iff.mpr fun isOpen => by
      cases (sound.down left).symm.trans (started isOpen)
  · rw [driver]
    exact List.rel_append sound.waits
      (.cons ⟨fun request => sound.opened (still request), List.prefix_rfl⟩ .nil)
  · rw [driver]
    exact sound.answered

theorem InProtocol.advances {s s' : Session} {w : Wire} {i : Nat} {choice : Bool}
    (sound : InProtocol s w) (still : StillStarted (s, w) (.advance i choice))
    (taken : s.next (.advance i choice) = some s') :
    InProtocol s' (w.note s (.advance i choice) s') := by
  obtain ⟨event, stepped⟩ := next_eq_some taken
  have linked : Linked s' := step_linked sound.linked stepped
  have same : s.spawns (.advance i choice) = false → s'.driver = s.driver →
      (s'.started = true → s.started = true) → InProtocol s' (w.note s (.advance i choice) s') := by
    intro spawns driver started
    have quiet : w.note s (.advance i choice) s' = w := by simp [Wire.note, spawns, driver]
    rw [quiet]
    exact sound.rests linked started (fun left => .inl (driver ▸ left)) (by rw [driver]) (by rw [driver])
  obtain ⟨call, found, ⟨elsewhere, phase, rfl, _⟩ | ⟨free, _, holding, rfl, _⟩ |
    ⟨phase, holding, held, moved⟩⟩ := advance_cases stepped
  · exact same (by simp [Session.spawns, found, elsewhere]) rfl id
  · exact same (by simp [Session.spawns, free]) rfl id
  · have spawns : s.spawns (.advance i choice) = (choice && decide (holding = .connecting)) := by
      simp [Session.spawns, held, found, phase]
    obtain ⟨started, ⟨apart, driver⟩ | ⟨rfl, rfl, driver⟩ | ⟨apart, isOpen, command, driver, request⟩⟩ :=
      advanceHolder_driver moved
    · refine same ?_ driver started
      rw [spawns, Bool.and_eq_false_iff, decide_eq_false_iff_not]
      by_cases connecting : holding = .connecting
      · exact .inl (apart connecting)
      · exact .inr connecting
    · have connected : w.note s (.advance i true) s' = w.connects := by simp [Wire.note, spawns]
      rw [connected]
      exact sound.connects linked (sound.linked.link.connecting i held) started driver
    · have queued : w.note s (.advance i choice) s' = w.queues := by
        simp [Wire.note, spawns, apart, driver, Session.push]
      rw [queued]
      refine sound.queues linked started driver fun asks => ?_
      have sending : holding = .sending := request asks
      exact still (sending ▸ held) isOpen

theorem InProtocol.wakes {s s' : Session} {w : Wire} {deadline : Option Instant} {wake : Session.Wake}
    {event : Option Event} (sound : InProtocol s w) (linked : Linked s')
    (here : s.driver.phase = .select deadline) (taken : s.wake deadline wake = some (s', event)) :
    InProtocol s' (w.noteWake s wake) := by
  cases wake with
  | idle =>
    cases deadline with
    | none => cases taken
    | some due =>
      simp only [Session.wake] at taken
      split at taken
      · cases taken
        refine sound.rests linked id (fun left => ?_) rfl rfl
        simp only [Session.goto] at left
        split at left <;> cases left
      · cases taken
  | command outcome =>
    obtain ⟨_, command, rest, queued, moved⟩ := takeCommand_cases taken
    obtain ⟨started, down, commands, socket⟩ : s'.started = s.started ∧ s'.driver.phase.left = false ∧
        s'.driver.commands = rest ∧ s'.driver.socket = s.driver.socket := by
      rcases moved with ⟨phase, rfl | rfl, rfl⟩ | ⟨task, _, rfl⟩ <;> exact ⟨rfl, rfl, rfl, rfl⟩
    cases outcome with
    | writeFailed | marshalFailed => exact sound.loses linked queued started down commands socket
    | sent =>
      have written : w.noteWake s (.command .sent) = w.writes command := by
        simp [Wire.noteWake, queued]
      rw [written]
      exact sound.writes linked queued started down commands socket
  | frame =>
    simp only [Session.wake] at taken
    split at taken
    next => cases taken
    next frame rest arrived =>
      cases taken
      have listened : w.noteWake s .frame = w.hears frame.bytes := by simp [Wire.noteWake, arrived]
      obtain ⟨route, _, phase⟩ := routeFrame_spec (s.read rest) frame
      rw [listened]
      refine sound.hears linked arrived (routeFrame_started (s := s.read rest)) ?_ route.commands
        route.socket
      rcases phase with top | fire | ⟨⟨pcm, deliver⟩, -⟩
      · exact congrArg DriverPhase.left top
      · exact congrArg DriverPhase.left fire
      · exact congrArg DriverPhase.left deliver
  | dead =>
    cases taken
    exact sound.rests linked id (fun left => by cases left) rfl rfl

theorem InProtocol.drives {s s' : Session} {w : Wire} {wake : Session.Wake} (sound : InProtocol s w)
    (taken : s.next (.drive wake) = some s') : InProtocol s' (w.note s (.drive wake) s') := by
  obtain ⟨event, stepped⟩ := next_eq_some taken
  have linked : Linked s' := step_linked sound.linked stepped
  simp only [Session.step, Session.drive] at stepped
  simp only [Wire.note]
  cases here : s.driver.phase with
  | off =>
    rw [here] at stepped
    cases stepped
  | top =>
    rw [here] at stepped
    cases stepped
    exact sound.rests linked id (fun left => by cases left) rfl rfl
  | select deadline =>
    rw [here] at stepped
    exact sound.wakes linked here stepped
  | fire exiting =>
    rw [here] at stepped
    cases stepped
    obtain ⟨started, left, commands, socket⟩ := fireTurnComplete_frame s exiting
    refine sound.rests linked (fun isOpen => started ▸ isOpen) (fun leaves => .inl ?_) commands socket
    rw [here, ← leaves, left]
    cases exiting <;> rfl
  | callback id exiting =>
    rw [here] at stepped
    cases stepped
    refine sound.rests linked (fun isOpen => isOpen) (fun leaves => .inl ?_) rfl rfl
    rw [here]
    cases exiting
    · cases leaves
    · rfl
  | deliver task late pcm =>
    rw [here] at stepped
    cases stepped
    exact sound.rests linked id (fun left => by cases left) rfl rfl
  | closing =>
    rw [here] at stepped
    cases stepped
    exact sound.rests linked (fun isOpen => by cases isOpen) (fun _ => .inr rfl) rfl rfl
  | returning =>
    rw [here] at stepped
    cases stepped
    exact sound.returns linked here

def WatchedInProtocol (watched : Session × Wire) : Prop := InProtocol watched.1 watched.2

theorem step_inProtocol (watched : Session × Wire) (action : Session.Action) (watched' : Session × Wire)
    (sound : WatchedInProtocol watched) (orderly : Orderly watched action)
    (taken : watchedStep watched action = some watched') : WatchedInProtocol watched' := by
  obtain ⟨s, w⟩ := watched
  obtain ⟨s', w'⟩ := watched'
  obtain ⟨stepped, noted⟩ := recorded_eq_some taken
  dsimp only at stepped noted
  subst noted
  obtain ⟨event, moved⟩ := next_eq_some stepped
  have linked : Linked s' := step_linked sound.linked moved
  cases action with
  | advance i choice => exact sound.advances orderly.2 stepped
  | drive wake => exact sound.drives stepped
  | emit answering bytes =>
    obtain ⟨_, _, task, _, rfl⟩ := emit_cases moved
    refine ⟨linked, sound.opened, sound.down, sound.waits, fun frame member told => ?_, sound.inSession⟩
    rcases List.mem_append.mp member with old | new
    · exact sound.answered frame old told
    · rw [List.mem_singleton.mp new] at told
      exact orderly.1 told
  | tick | enter | cancelCurrentTurn | answered =>
    cases moved
    exact sound.rests linked id .inl rfl rfl

/-- In every run in which the server answers what it was asked and `started` still holds
whenever a request is queued, each request goes over a WebSocket whose session is open. -/
theorem requests_inSession (now : Instant) (actions : List Session.Action) (final : Session × Wire)
    (orderly : Along watchedStep Orderly ({ now }, {}) actions)
    (taken : run watchedStep ({ now }, {}) actions = some final) : InSession final.2 := by
  have initial : WatchedInProtocol ({ now }, {}) :=
    ⟨initial_linked now, nofun, fun _ => rfl, .nil, fun _ member => absurd member List.not_mem_nil,
      fun _ member => absurd member List.not_mem_nil⟩
  exact (invariant_of_run step_inProtocol initial orderly taken).inSession

theorem firstRequest_inSession :
    ∃ final, run watchedStep ({}, {}) (firstSentence ++ firstRequest) = some final ∧
      final.2.requests.length = 1 ∧ InSession final.2 := by
  have orderly : Along watchedStep Orderly ({}, {}) (firstSentence ++ firstRequest) := by
    decide +kernel
  have found : (run watchedStep ({}, {}) (firstSentence ++ firstRequest)).map
      (fun final => final.2.requests.length) = some 1 := by decide +kernel
  obtain ⟨final, taken, length⟩ := Option.map_eq_some_iff.mp found
  exact ⟨final, taken, length, requests_inSession 0 (firstSentence ++ firstRequest) final orderly taken⟩

def sessionFinishedFrame : List UInt8 := [0x11, 0x94, 0x10, 0, 0, 0, 0, 152, 0, 0, 0, 0, 0, 0, 0, 0]

/-- The session ends between the second sentence's look at `started` and its send. -/
def endedMeanwhile : List Session.Action :=
  firstSentence ++ firstRequest ++
    [.enter (.sentence false), .advance 1 false, .emit false sessionFinishedFrame, .drive .idle,
      .drive .frame, .advance 1 false, .advance 1 false, .advance 1 false, .drive .idle,
      .drive .idle, .drive .idle, .drive (.command .sent)]

theorem endedMeanwhile_not_inSession :
    ∃ final, run watchedStep ({}, {}) endedMeanwhile = some final ∧
      final.2.requests.map Request.queued =
        [[.startConnection, .startSession, .started],
          [.startConnection, .startSession, .started, .taskRequest, .ended]] ∧
      ¬InSession final.2 := by
  have found : (run watchedStep ({}, {}) endedMeanwhile).map
      (fun final => final.2.requests.map Request.queued) =
        some [[.startConnection, .startSession, .started],
          [.startConnection, .startSession, .started, .taskRequest, .ended]] := by decide +kernel
  obtain ⟨final, taken, queued⟩ := Option.map_eq_some_iff.mp found
  refine ⟨final, taken, queued, fun inSession => ?_⟩
  have second : [.startConnection, .startSession, .started, .taskRequest, .ended] ∈
      final.2.requests.map Request.queued := by simp [queued]
  obtain ⟨request, member, same⟩ := List.mem_map.mp second
  have isOpen := (inSession request member).1
  rw [same] at isOpen
  exact not_open_of_ended [.startConnection, .startSession, .started, .taskRequest] isOpen

end Fswtch.Seat.TtsSession
