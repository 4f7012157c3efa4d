import Fswtch.Seat.ReplyText
import Fswtch.Seat.TtsSession

/-! One call as a system: the media thread that hears the caller, the actor with its
mailbox and the turn pipeline that runs inside it, the TTS provider, and the tasks they
spawn. Any of them may move next. -/

namespace Fswtch.Seat.CallSystem
open Fswtch.Seat.SentenceSplit Fswtch.Seat.ReplyText Fswtch.Seat.TtsSession

structure TurnFlags where
  turnPending : Bool := false
  ttsAudioActive : Bool := false
  deriving DecidableEq

def TurnFlags.begin (_ : TurnFlags) : TurnFlags := ⟨true, true⟩

def TurnFlags.end_ (_ : TurnFlags) : TurnFlags := ⟨false, false⟩

inductive Provider where
  | none
  | volcano
  | mimo
  deriving DecidableEq

structure Setup where
  provider : Provider
  llm : Bool
  args : ArgumentReader

/-- Where a call of `TtsProvider::synthesize` is; the numbers are calls of the session. -/
inductive SynthPhase where
  | spawned
  | wantSlot
  | starting (call : Nat)
  | inSession (call : Nat)
  | http
  | failed
  | fired
  | done
  deriving DecidableEq

/-- One call of `synthesize`: by a spawned sentence task, or awaited by its turn in
`synthesize_and_play`. `begun` is its number in the order of calls and cancels. -/
structure Synth where
  turn : Nat
  text : Text
  awaited : Bool
  begun : Nat := 0
  phase : SynthPhase := .spawned
  deriving DecidableEq

/-- The handler that called `TtsProvider::cancel`. -/
inductive Canceller where
  | segment (k : Nat)
  | bargeIn (k : Nat)
  deriving DecidableEq

/-- The task spawned by one `VolcanoTtsProvider::cancel`. -/
structure CancelTask where
  canceller : Canceller
  issued : Nat
  deriving DecidableEq

/-- The provider's lazily created session; its mutex is held while it starts. -/
inductive Slot where
  | empty
  | starting (synth : Nat)
  | ready
  deriving DecidableEq

inductive Message where
  | segment (k : Nat)
  | bargeIn (k : Nat)
  | turnDone
  deriving DecidableEq

inductive Effect where
  | sendDtmf (digits : Text)
  | transfer (dest : Text)
  | hangup
  deriving DecidableEq

inductive Stage where
  | hearing
  | streaming (stream : StreamState) (reply : Text)
  | replied (ttsAlreadyFired : Bool) (result : ToolExecutionResult)
  | speaking (synth : Nat) (result : ToolExecutionResult)
  | waiting (result : ToolExecutionResult)
  | acting (effects : List Effect)

inductive ActorState where
  | idle
  | turn (k : Nat) (stage : Stage)

/-- The record of the actor: barge-ins as they reach the mailbox and as they are handled
(with the turn whose token is cancelled), and the turns with what they do. -/
inductive Mark where
  | queued (k : Nat)
  | begun (k : Nat)
  | spoke (k : Nat) (text : Text)
  | acted (k : Nat) (effect : Effect)
  | returned (k : Nat)
  | handled (k : Nat) (turn : Option Nat)
  deriving DecidableEq

/-- Speech segments are numbered by their onsets. The last fields are a record: `owners`
holds the synthesis of each installed task, `silencedBelow` the number of tasks installed
when a handler last called `cancel`, `heard` the pending flag at each `on_audio` for a
request not cancelled, and `marked` the cancels with the syntheses whose task they found
current. -/
structure System where
  flags : TurnFlags := {}
  inSpeech : Bool := false
  onsets : Nat := 0
  speech : List Nat := []
  tells : List Nat := []
  mailbox : List Message := []
  actor : ActorState := .idle
  turnCancel : Bool := false
  tokenTurn : Option Nat := none
  slot : Slot := .empty
  session : Session := {}
  heldReal : Bool := true
  sessionReal : Bool := true
  mimoCancelled : Bool := false
  synths : List Synth := []
  cancels : List CancelTask := []
  stamp : Nat := 0
  owners : List Nat := []
  silencedBelow : Nat := 0
  heard : List Bool := []
  marked : List (CancelTask × Synth) := []
  trace : List Mark := []

namespace System

def setSynth (s : System) (j : Nat) (change : Synth → Synth) : System :=
  { s with synths := s.synths.modify j change }

def setPhase (s : System) (j : Nat) (phase : SynthPhase) : System :=
  s.setSynth j fun synth => { synth with phase }

def endTurn (s : System) : System := { s with flags := s.flags.end_ }

def speechCapacity : Nat := 8

/-- Speech starts; over a pending turn a task is spawned that tells the actor. -/
def onset (s : System) : Option System :=
  if s.inSpeech then none
  else
    some { s with
      inSpeech := true
      onsets := s.onsets + 1
      tells := if s.flags.turnPending then s.tells ++ [s.onsets] else s.tells }

def speechEnd (s : System) : Option System :=
  if s.inSpeech then
    some { s with
      inSpeech := false
      speech := if s.speech.length < speechCapacity then s.speech ++ [s.onsets - 1] else s.speech }
  else none

def tell (s : System) (j : Nat) : Option System :=
  s.tells[j]?.map fun k =>
    { s with
      tells := s.tells.eraseIdx j
      mailbox := s.mailbox ++ [.bargeIn k]
      trace := s.trace ++ [.queued k] }

def forward (s : System) : Option System :=
  match s.speech with
  | [] => none
  | k :: rest => some { s with speech := rest, mailbox := s.mailbox ++ [.segment k] }

def cancel (setup : Setup) (s : System) (canceller : Canceller) : System :=
  match setup.provider with
  | .none => s
  | .volcano =>
    { s with
      cancels := s.cancels ++ [⟨canceller, s.stamp⟩]
      stamp := s.stamp + 1 }
  | .mimo => { s with mimoCancelled := true }

def currentSynth (s : System) : Option Synth :=
  s.session.current.bind fun task => s.owners[task.id]?.bind fun j => s.synths[j]?

/-- The task that `cancel` spawned marks whatever is current when it gets the slot. -/
def cancelTask (s : System) (j : Nat) : Option System :=
  match s.cancels[j]?, s.slot with
  | none, _ => none
  | some _, .starting _ => none
  | some _, .empty => some { s with cancels := s.cancels.eraseIdx j }
  | some cancelled, .ready =>
    some { s with
      cancels := s.cancels.eraseIdx j
      session := s.session.cancelCurrentTurn
      marked := s.marked ++
        (s.currentSynth.map (cancelled, ·)).toList }

def enterSentence (s : System) (j : Nat) : System :=
  { s with session := s.session.enter (.sentence false) }.setPhase j (.inSession s.session.calls.length)

def freshSession (s : System) : Session := { now := s.session.now }

/-- The first `synthesize` takes the callbacks out of the provider and starts a session. -/
def createSession (s : System) (j : Nat) : System :=
  { s with
    slot := .starting j
    session := s.freshSession.enter .start
    heldReal := false
    sessionReal := s.heldReal
    owners := []
    silencedBelow := 0 }.setPhase j (.starting 0)

def freshToken (session : Session) (choice : Bool) : Bool :=
  match session.sendMutex with
  | some (_, .checking) => false
  | _ => choice

def afterStart (s : System) (j : Nat) (session : Session) : Option Event → System
  | some (.returned _ .ok) => { s with session, slot := .ready }.enterSentence j
  | some (.returned _ _) => { s with session := s.freshSession, slot := .empty }.setPhase j .failed
  | _ => { s with session }

def afterSentence (s : System) (j : Nat) (session : Session) : Option Event → System
  | some (.returned _ .failed) => { s with session }.setPhase j .failed
  | some (.returned _ _) => { s with session }.setPhase j .fired
  | some (.installed _ _) => { s with session, owners := s.owners ++ [j] }
  | _ => { s with session }

def called (s : System) (j : Nat) : System :=
  { s with stamp := s.stamp + 1 }.setSynth j fun synth => { synth with begun := s.stamp }

def beginSynth (setup : Setup) (s : System) (j : Nat) : Option System :=
  match setup.provider with
  | .none => none
  | .volcano => some ((s.called j).setPhase j .wantSlot)
  | .mimo => some ((s.called j).setPhase j (if s.mimoCancelled then .fired else .http))

def synth (setup : Setup) (s : System) (j : Nat) (choice : Bool) : Option System :=
  s.synths[j]?.bind fun synth =>
    match synth.phase with
    | .spawned => s.beginSynth setup j
    | .wantSlot =>
      match s.slot with
      | .empty => some (s.createSession j)
      | .starting _ => none
      | .ready => some (s.enterSentence j)
    | .starting call =>
      (s.session.step (.advance call choice)).map fun after => s.afterStart j after.1 after.2
    | .inSession call =>
      (s.session.step (.advance call (freshToken s.session choice))).map fun after =>
        s.afterSentence j after.1 after.2
    | .http => some (if choice then s.endTurn.setPhase j .fired else s.setPhase j .failed)
    | .failed => some (s.endTurn.setPhase j .done)
    | .fired => some (if synth.awaited && s.turnCancel then s.endTurn.setPhase j .done else s.setPhase j .done)
    | .done => none

def hear (s : System) (task : Nat) : System :=
  if task ∈ s.session.cancelledTasks ∨ task < s.silencedBelow then s
  else { s with heard := s.heard ++ [s.flags.turnPending] }

def afterServer (s : System) (session : Session) : Option Event → System
  | some (.turnEnd _) => if s.sessionReal then { s with session }.endTurn else { s with session }
  | some (.audio (some task) _) => { s.hear task with session }
  | _ => { s with session }

def server (s : System) (action : Session.Action) : Option System :=
  match action with
  | .tick _ | .drive _ | .emit _ _ | .answered =>
    (s.session.step action).map fun after => s.afterServer after.1 after.2
  | .enter _ | .advance _ _ | .cancelCurrentTurn => none

/-- The handler of a segment up to its `cancel`: a fresh token for the turn. -/
def beginTurn (s : System) (k : Nat) (rest : List Message) : System :=
  { s with
    mailbox := rest
    turnCancel := false
    tokenTurn := some k
    actor := .turn k .hearing
    silencedBelow := s.session.nextTask
    trace := s.trace ++ [.begun k] }

def interrupt (s : System) (k : Nat) (rest : List Message) : System :=
  { s with
    mailbox := rest
    turnCancel := true
    flags := s.flags.end_
    silencedBelow := s.session.nextTask
    trace := s.trace ++ [.handled k s.tokenTurn] }

def receive (setup : Setup) (s : System) : Option System :=
  match s.actor, s.mailbox with
  | .idle, .segment k :: rest => some ((s.beginTurn k rest).cancel setup (.segment k))
  | .idle, .bargeIn k :: rest => some ((s.interrupt k rest).cancel setup (.bargeIn k))
  | .idle, .turnDone :: rest => some { s with mailbox := rest }
  | _, _ => none

/-- What the outside does to a turn: the model's deltas and tool calls, a failure, or the
end of what the turn awaits. -/
inductive TurnMove where
  | proceed
  | fails
  | delta (text : Text)
  | concludes (calls : List ToolCall)

def goto (s : System) (k : Nat) (stage : Stage) : System := { s with actor := .turn k stage }

def returns (s : System) (k : Nat) : System :=
  { s with actor := .idle, trace := s.trace ++ [.returned k] }

def effects (result : ToolExecutionResult) : List Effect :=
  (result.dtmf.map Effect.sendDtmf).toList ++ (result.transfer.map Effect.transfer).toList ++
    if result.hangup then [.hangup] else []

def afterSpeech (result : ToolExecutionResult) : Stage :=
  if result.hangup && decide (0 < result.hangupDelay) then .waiting result
  else .acting (effects result)

def onTextDelta (setup : Setup) (s : System) (k : Nat) (stream : StreamState) (reply delta : Text) :
    System :=
  let next := stream.onTextDelta (decide (setup.provider ≠ .none)) s.turnCancel delta
  let sentences := next.spawned.drop stream.spawned.length
  { s with
    flags := if next.begins = stream.begins then s.flags else s.flags.begin
    synths := s.synths ++ sentences.map fun text => { turn := k, text, awaited := false }
    actor := .turn k (.streaming next (reply ++ delta))
    trace := s.trace ++ sentences.map (.spoke k) }

def synthesizeAndPlay (s : System) (k : Nat) (result : ToolExecutionResult) : System :=
  { s with
    flags := s.flags.begin
    synths := s.synths ++ [{ turn := k, text := result.reply, awaited := true }]
    actor := .turn k (.speaking s.synths.length result)
    trace := s.trace ++ [.spoke k result.reply] }

def turnPipeline (setup : Setup) (s : System) (k : Nat) (move : TurnMove) : Stage → Option System
  | .hearing =>
    match move with
    | .fails => some (s.returns k)
    | .proceed =>
      if s.turnCancel then some (s.returns k)
      else some (s.goto k (if setup.llm then .streaming {} [] else .replied false {}))
    | _ => none
  | .streaming stream reply =>
    match move with
    | .fails => some (s.returns k)
    | .delta text => some (s.onTextDelta setup k stream reply text)
    | .concludes calls =>
      some (s.goto k (.replied stream.ttsFired (executeToolCalls setup.args reply calls)))
    | .proceed => none
  | .replied ttsAlreadyFired result =>
    match move with
    | .proceed =>
      if s.turnCancel then some (s.returns k)
      else if result.reply ≠ [] ∧ s.turnCancel = false ∧ ttsAlreadyFired = false ∧
          setup.provider ≠ .none then
        some (s.synthesizeAndPlay k result)
      else some (s.goto k (afterSpeech result))
    | _ => none
  | .speaking synth result =>
    match move with
    | .proceed =>
      if s.synths[synth]?.map Synth.phase = some .done then some (s.goto k (afterSpeech result))
      else none
    | _ => none
  | .waiting result =>
    match move with
    | .proceed => some (s.goto k (.acting (effects result)))
    | _ => none
  | .acting [] =>
    match move with
    | .proceed => some { s.returns k with mailbox := s.mailbox ++ [.turnDone] }
    | _ => none
  | .acting (effect :: rest) =>
    match move with
    | .proceed => some { s.goto k (.acting rest) with trace := s.trace ++ [.acted k effect] }
    | _ => none

def turn (setup : Setup) (s : System) (move : TurnMove) : Option System :=
  match s.actor with
  | .idle => none
  | .turn k stage => s.turnPipeline setup k move stage

inductive Action where
  | onset
  | speechEnd
  | tell (j : Nat)
  | forward
  | receive
  | turn (move : TurnMove)
  | synth (j : Nat) (choice : Bool)
  | cancelTask (j : Nat)
  | server (action : Session.Action)

def step (setup : Setup) (s : System) : Action → Option System
  | .onset => s.onset
  | .speechEnd => s.speechEnd
  | .tell j => s.tell j
  | .forward => s.forward
  | .receive => s.receive setup
  | .turn move => s.turn setup move
  | .synth j choice => s.synth setup j choice
  | .cancelTask j => s.cancelTask j
  | .server action => s.server action

def volcanoSetup : Setup := ⟨.volcano, true, noArguments⟩

def firstSegment : List Action := [.onset, .speechEnd, .forward, .receive, .turn .proceed]

def opening (j : Nat) : List Action :=
  [.turn (.delta "Hi. ".toList), .synth j true, .synth j true, .synth j true, .synth j true,
    .synth j true, .synth j true, .synth j true, .synth j true, .synth j true, .server (.drive .idle),
    .server (.drive (.command .sent)), .server (.drive .idle), .server (.drive (.command .sent)),
    .server (.emit false sessionStartedFrame), .server (.drive .idle), .server (.drive .frame),
    .synth j true]

/-- A synthesis in the open session gets `send_mutex` and installs its task. -/
def installing (j : Nat) : List Action := [.synth j true, .synth j true, .synth j true]

def answering (j : Nat) : List Action :=
  [.synth j true, .synth j true, .server (.drive .idle), .server (.drive (.command .sent)),
    .server (.emit true audioFrame), .server (.drive .idle), .server (.drive .frame),
    .server (.drive .idle), .server .answered]

def idling : List Action :=
  [.server (.drive .idle), .server (.tick 400), .server (.drive .idle), .server (.drive .idle),
    .server (.drive .idle)]

def oneSentence : List Action := firstSegment ++ opening 0 ++ installing 0 ++ answering 0 ++ idling

end System

end Fswtch.Seat.CallSystem
