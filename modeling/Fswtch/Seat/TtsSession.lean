import Fswtch.Seat.TtsWsCodec

/-! One TTS session of a call: any number of concurrent `start` and
`synthesize_sentence` calls, the driver that owns the socket, and the server behind
it. Every `await` and every lock is a point where another party may move; what runs
under one lock without awaiting is one step. -/

namespace Fswtch.Seat.TtsSession
open Fswtch.Seat.TtsWsCodec

abbrev Instant := Nat

def ttsIdleTimeout : Nat := 400

def ttsFirstAudioTimeout : Nat := 15000

def startedTimeout : Nat := 20000

def commandCapacity : Nat := 64

structure ActiveTask where
  id : Nat
  cancelled : Bool := false
  start : Instant
  firstAudioReceived : Bool := false
  completed : Bool := false
  lastAudioAt : Option Instant := none
  deriving DecidableEq

/-- A command to the driver; a `task_request` belongs to the task current when it was sent. -/
inductive DriverCmd where
  | startConnection
  | startSession
  | taskRequest (task : Option Nat)
  deriving DecidableEq

/-- A binary frame on the socket, and the task whose request it answers, if any. -/
structure Frame where
  task : Option Nat
  bytes : List UInt8
  deriving DecidableEq

/-- Where the driver is. `exiting` tells the fire at the exit of the loop from one inside. -/
inductive DriverPhase where
  | off
  | top
  | select (deadline : Option Instant)
  | fire (exiting : Bool)
  | callback (id : Nat) (exiting : Bool)
  | deliver (task : Option Nat) (late : Bool) (pcm : List Int16)
  | closing
  | returning
  deriving DecidableEq

structure Driver where
  phase : DriverPhase := .off
  commands : List DriverCmd := []
  requests : List (Option Nat) := []
  socket : List Frame := []

inductive CallKind where
  | start
  | sentence (turnOpen : Bool)
  deriving DecidableEq

inductive CallResult where
  | ok
  | cancelled
  | failed
  deriving DecidableEq

/-- Where a call is while it holds `send_mutex`. `fresh` is set on the path that has
just connected. -/
inductive Holding where
  | locked
  | connecting
  | greet
  | resetting (fresh : Bool)
  | openingSession (fresh : Bool)
  | awaitStarted (fresh : Bool) (deadline : Instant)
  | checking
  | sending
  | sendFailed
  deriving DecidableEq

inductive CallPhase where
  | entry
  | ensure
  | wantOpen
  | holds
  | awaitOther (deadline : Instant)
  | ready
  | returned (result : CallResult)
  deriving DecidableEq

structure Call where
  kind : CallKind
  phase : CallPhase
  deriving DecidableEq

/-- The shared state, the calls, and the record of the run: the tasks cancelled so far,
the completions with the task then current, and the audio handed out, marked when its
task had been cancelled before the frame came in. -/
structure Session where
  now : Instant := 0
  started : Bool := false
  startedFlag : Bool := false
  current : Option ActiveTask := none
  cmdTx : Bool := false
  driverJoin : Bool := false
  driver : Driver := {}
  sendMutex : Option (Nat × Holding) := none
  calls : List Call := []
  nextTask : Nat := 0
  cancelledTasks : List Nat := []
  ended : List (Nat × Option Nat) := []
  played : List (Option Nat × Bool) := []

/-- What a step shows to the outside of the session. -/
inductive Event where
  | installed (call task : Nat)
  | turnEnd (task : Nat)
  | audio (task : Option Nat) (pcm : List Int16)
  | returned (call : Nat) (result : CallResult)

namespace Session

abbrev Outcome := Option (Session × Option Event)

def quietly (s : Session) : Outcome := some (s, none)

def setPhase (s : Session) (i : Nat) (phase : CallPhase) : Session :=
  { s with calls := s.calls.modify i fun call => { call with phase } }

def acquire (s : Session) (i : Nat) (holding : Holding) : Outcome :=
  match s.sendMutex with
  | none => quietly { s.setPhase i .holds with sendMutex := some (i, holding) }
  | some _ => none

def hold (s : Session) (i : Nat) (holding : Holding) : Session :=
  { s with sendMutex := some (i, holding) }

def release (s : Session) (i : Nat) (phase : CallPhase) : Session :=
  { s.setPhase i phase with sendMutex := none }

def finish (s : Session) (i : Nat) (result : CallResult) : Outcome :=
  some (s.setPhase i (.returned result), some (.returned i result))

def releaseFinish (s : Session) (i : Nat) (result : CallResult) : Outcome :=
  some (s.release i (.returned result), some (.returned i result))

/-- What follows an open session: `start` returns, a sentence goes on to its send. -/
def opened (s : Session) (i : Nat) : CallKind → Outcome
  | .start => s.releaseFinish i .ok
  | .sentence _ => quietly (s.release i .ready)

def releaseStaleDriverIfAny (s : Session) : Session :=
  match s.driver.phase with
  | .off =>
    if s.driverJoin then { s with cmdTx := false, driverJoin := false, startedFlag := false } else s
  | _ => s

def channelOpen (s : Session) : Bool :=
  match s.driver.phase with
  | .off => false
  | _ => s.cmdTx

/-- `send_raw`, which waits while the channel is full and fails when it is closed. -/
def sendRaw (s : Session) (command : DriverCmd) (sent failed : Session → Outcome) : Outcome :=
  if s.channelOpen then
    if s.driver.commands.length < commandCapacity then
      sent { s with driver := { s.driver with commands := s.driver.commands ++ [command] } }
    else none
  else failed s

def install (s : Session) : Session :=
  { s with
    current := some { id := s.nextTask, start := s.now }
    nextTask := s.nextTask + 1
    cancelledTasks := s.cancelledTasks ++ (s.current.map ActiveTask.id).toList }

def alreadyOpen (s : Session) : CallKind → Bool
  | .start => s.startedFlag
  | .sentence _ => s.started

def reopen (s : Session) (i : Nat) : CallKind → Outcome
  | .start => quietly (s.release i (.awaitOther (s.now + startedTimeout)))
  | .sentence _ => quietly (s.hold i (.resetting false))

def beginSend (s : Session) (i : Nat) : CallKind → Outcome
  | .sentence false => some (s.install.hold i .sending, some (.installed i s.nextTask))
  | _ => quietly (s.hold i .sending)

/-- The next step of the call that holds `send_mutex`; `choice` is what the outside
decides: whether the connect succeeds, and whether the caller's token is cancelled. -/
def advanceHolder (s : Session) (i : Nat) (kind : CallKind) (choice : Bool) : Holding → Outcome
  | .locked =>
    if s.alreadyOpen kind then s.opened i kind
    else
      let s := s.releaseStaleDriverIfAny
      if s.cmdTx then s.reopen i kind else quietly (s.hold i .connecting)
  | .connecting =>
    if choice then
      quietly { s.hold i .greet with cmdTx := true, driverJoin := true, driver := { phase := .top } }
    else s.releaseFinish i .failed
  | .greet =>
    s.sendRaw .startConnection (fun s => quietly (s.hold i (.resetting true)))
      fun s => { s with cmdTx := false, driverJoin := false }.releaseFinish i .failed
  | .resetting fresh => quietly { s.hold i (.openingSession fresh) with started := false }
  | .openingSession fresh =>
    s.sendRaw .startSession (fun s => quietly (s.hold i (.awaitStarted fresh (s.now + startedTimeout))))
      fun s => s.releaseFinish i .failed
  | .awaitStarted fresh deadline =>
    if s.started then { s with startedFlag := s.startedFlag || fresh }.opened i kind
    else if deadline ≤ s.now then s.releaseFinish i .failed
    else none
  | .checking => if choice then s.releaseFinish i .cancelled else s.beginSend i kind
  | .sending =>
    s.sendRaw (.taskRequest (s.current.map ActiveTask.id)) (fun s => s.releaseFinish i .ok)
      fun s => quietly (s.hold i .sendFailed)
  | .sendFailed => { s with current := none }.releaseFinish i .failed

def advance (s : Session) (i : Nat) (choice : Bool) : Outcome :=
  match s.calls[i]? with
  | none => none
  | some call =>
    match call.phase with
    | .entry => quietly (s.setPhase i (if s.started then .ready else .ensure))
    | .ensure =>
      match call.kind with
      | .start => if s.startedFlag then s.finish i .ok else quietly (s.setPhase i .wantOpen)
      | .sentence _ => quietly (s.setPhase i (if s.started then .ready else .wantOpen))
    | .wantOpen => s.acquire i .locked
    | .awaitOther deadline =>
      if s.started then s.finish i .ok
      else if deadline ≤ s.now then s.finish i .failed
      else none
    | .ready => s.acquire i .checking
    | .holds =>
      match s.sendMutex with
      | some (holder, holding) =>
        if holder = i then s.advanceHolder i call.kind choice holding else none
      | none => none
    | .returned _ => none

/-- A new call; a continuation sentence first looks whether the session is still open. -/
def enter (s : Session) (kind : CallKind) : Session :=
  let phase := match kind with
    | .sentence true => .entry
    | _ => .ensure
  { s with calls := s.calls ++ [{ kind, phase }] }

def cancelCurrentTurn (s : Session) : Session :=
  { s with
    current := s.current.map fun task => { task with cancelled := true }
    cancelledTasks := s.cancelledTasks ++ (s.current.map ActiveTask.id).toList }

def goto (s : Session) (phase : DriverPhase) : Session :=
  { s with driver := { s.driver with phase } }

def turnDeadline (s : Session) : Option Instant :=
  s.current.bind fun task =>
    if task.completed then none
    else if task.firstAudioReceived then task.lastAudioAt.map (· + ttsIdleTimeout)
    else some (task.start + ttsFirstAudioTimeout)

def stillDue (s : Session) : Bool :=
  match s.current with
  | some task =>
    !task.completed &&
      if task.firstAudioReceived then
        task.lastAudioAt.elim false fun at_ => decide (ttsIdleTimeout ≤ s.now - at_)
      else decide (ttsFirstAudioTimeout ≤ s.now - task.start)
  | none => false

def afterFire (exiting : Bool) : DriverPhase := if exiting then .returning else .top

/-- The part of `fire_turn_complete` under the state lock. -/
def fireTurnComplete (s : Session) (exiting : Bool) : Session :=
  match s.current with
  | some task =>
    if task.completed then s.goto (afterFire exiting)
    else { s.goto (.callback task.id exiting) with current := some { task with completed := true } }
  | none => s.goto (afterFire exiting)

def parsePcmLe : List UInt8 → List Int16
  | low :: high :: rest => Int16.ofNat (low.toNat + 256 * high.toNat) :: parsePcmLe rest
  | _ => []

def hearAudio (s : Session) : Session :=
  { s with current := s.current.map fun task =>
      { task with firstAudioReceived := true, lastAudioAt := some s.now } }

/-- `route_frame` up to its last use of the state lock. -/
def routeFrame (s : Session) (frame : Frame) : Session :=
  match unmarshal frame.bytes with
  | .error _ => s.goto .top
  | .ok message =>
    match message.msgType with
    | .fullServerResponse =>
      match message.event with
      | .sessionStarted => { s.goto .top with started := true }
      | .sessionFinished | .sessionFailed | .connectionFailed =>
        { s.goto (.fire false) with started := false }
      | .ttsSentenceEnd => s.goto (.fire false)
      | _ => s.goto .top
    | .audioOnlyServer =>
      match s.current with
      | some task =>
        if task.cancelled || decide (message.payload.length < 2) then s.hearAudio.goto .top
        else
          let late := frame.task.elim false fun id => decide (id ∈ s.cancelledTasks)
          s.hearAudio.goto (.deliver frame.task late (parsePcmLe message.payload))
      | none => s.goto .top
    | .error => s.goto (.fire false)
    | _ => s.goto .top

inductive WriteOutcome where
  | sent
  | writeFailed
  | marshalFailed

/-- The driver's next command: written to the socket, where the server sees the
requests, or lost. -/
def takeCommand (s : Session) (outcome : WriteOutcome) : Outcome :=
  match s.driver.commands with
  | [] => none
  | command :: rest =>
    let s := { s with driver := { s.driver with commands := rest } }
    match outcome with
    | .writeFailed => quietly (s.goto .closing)
    | .marshalFailed => quietly (s.goto .top)
    | .sent =>
      match command with
      | .taskRequest task =>
        quietly ({ s with driver := { s.driver with requests := s.driver.requests ++ [task] } }.goto .top)
      | _ => quietly (s.goto .top)

/-- What wakes the driver from its select. The source prefers the first that is ready;
here any may win. -/
inductive Wake where
  | idle
  | command (outcome : WriteOutcome)
  | frame
  | dead

def wake (s : Session) (deadline : Option Instant) : Wake → Outcome
  | .idle =>
    match deadline with
    | some due =>
      if due ≤ s.now then quietly (s.goto (if s.stillDue then .fire false else .top)) else none
    | none => none
  | .command outcome => s.takeCommand outcome
  | .frame =>
    match s.driver.socket with
    | [] => none
    | frame :: rest => quietly ({ s with driver := { s.driver with socket := rest } }.routeFrame frame)
  | .dead => quietly (s.goto .closing)

def drive (s : Session) (w : Wake) : Outcome :=
  match s.driver.phase with
  | .off => none
  | .top => quietly (s.goto (.select s.turnDeadline))
  | .select deadline => s.wake deadline w
  | .fire exiting => quietly (s.fireTurnComplete exiting)
  | .callback id exiting =>
    some ({ s.goto (afterFire exiting) with
      ended := s.ended ++ [(id, s.current.map ActiveTask.id)] }, some (.turnEnd id))
  | .deliver task late pcm =>
    some ({ s.goto .top with played := s.played ++ [(task, late)] }, some (.audio task pcm))
  | .closing => quietly { s.goto (.fire true) with started := false }
  | .returning => quietly { s with driver := {} }

inductive Action where
  | tick (elapsed : Nat)
  | enter (kind : CallKind)
  | advance (call : Nat) (choice : Bool)
  | cancelCurrentTurn
  | drive (wake : Wake)
  | emit (answering : Bool) (bytes : List UInt8)
  | answered

/-- The server answers its requests in order; it may send other frames at any time. -/
def emit (s : Session) (answering : Bool) (bytes : List UInt8) : Outcome :=
  match s.driver.phase with
  | .off => none
  | _ =>
    if answering then
      s.driver.requests.head?.bind fun task =>
        quietly { s with driver := { s.driver with socket := s.driver.socket ++ [⟨task, bytes⟩] } }
    else quietly { s with driver := { s.driver with socket := s.driver.socket ++ [⟨none, bytes⟩] } }

def step (s : Session) : Action → Outcome
  | .tick elapsed => quietly { s with now := s.now + elapsed }
  | .enter kind => quietly (s.enter kind)
  | .advance call choice => s.advance call choice
  | .cancelCurrentTurn => quietly s.cancelCurrentTurn
  | .drive wake => s.drive wake
  | .emit answering bytes => s.emit answering bytes
  | .answered =>
    quietly { s with driver := { s.driver with requests := s.driver.requests.tail } }

def next (s : Session) (action : Action) : Option Session := (s.step action).map Prod.fst

end Session

def sessionStartedFrame : List UInt8 := [0x11, 0x94, 0x10, 0, 0, 0, 0, 150, 0, 0, 0, 0, 0, 0, 0, 0]

def audioFrame : List UInt8 := [0x11, 0xb0, 0x10, 0, 0, 0, 0, 2, 1, 0]

/-- The first sentence of a call connects, opens the session and installs its task. -/
def firstSentence : List Session.Action :=
  [.enter (.sentence false), .advance 0 false, .advance 0 false, .advance 0 false, .advance 0 true,
    .advance 0 false, .advance 0 false, .advance 0 false, .drive .idle, .drive (.command .sent),
    .drive .idle, .drive (.command .sent), .emit false sessionStartedFrame, .drive .idle,
    .drive .frame, .advance 0 false, .advance 0 false, .advance 0 false]

def firstRequest : List Session.Action := [.advance 0 false, .drive .idle, .drive (.command .sent)]

/-- Call 1, another first sentence, installs its task in the open session. -/
def secondSentence : List Session.Action :=
  [.enter (.sentence false), .advance 1 false, .advance 1 false, .advance 1 false]

end Fswtch.Seat.TtsSession
