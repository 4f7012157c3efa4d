import Fswtch.Seat.CallSystem
import Fswtch.Seat.TtsSessionSteps

/-! What a step of the call can do, once for a synthesis and once for a turn. -/

namespace Fswtch.Seat.CallSystem
open Fswtch.Seat.SentenceSplit Fswtch.Seat.ReplyText Fswtch.Seat.TtsSession

namespace System

def Silent (event : Option Event) : Prop :=
  (∀ call result, event ≠ some (.returned call result)) ∧ ∀ call task, event ≠ some (.installed call task)

inductive SynthStep (setup : Setup) (s : System) (j : Nat) (synth : Synth) (choice : Bool) : System → Prop
  | begins (here : synth.phase = .spawned) (volcano : setup.provider = .volcano) :
      SynthStep setup s j synth choice ((s.called j).setPhase j .wantSlot)
  | posts (here : synth.phase = .spawned) (mimo : setup.provider = .mimo) (clear : s.mimoCancelled = false) :
      SynthStep setup s j synth choice ((s.called j).setPhase j .http)
  | skips (here : synth.phase = .spawned) (mimo : setup.provider = .mimo) (sticky : s.mimoCancelled = true) :
      SynthStep setup s j synth choice ((s.called j).setPhase j .fired)
  | creates (here : synth.phase = .wantSlot) (empty : s.slot = .empty) :
      SynthStep setup s j synth choice (s.createSession j)
  | enters (here : synth.phase = .wantSlot) (ready : s.slot = .ready) :
      SynthStep setup s j synth choice (s.enterSentence j)
  | connects {call : Nat} {session : Session} {event : Option Event} (here : synth.phase = .starting call)
      (stepped : s.session.step (.advance call choice) = some (session, event))
      (silent : ∀ call result, event ≠ some (.returned call result)) :
      SynthStep setup s j synth choice { s with session }
  | opens {call other : Nat} {session : Session} (here : synth.phase = .starting call)
      (stepped : s.session.step (.advance call choice) = some (session, some (.returned other .ok))) :
      SynthStep setup s j synth choice ({ s with session, slot := .ready }.enterSentence j)
  | drops {call other : Nat} {session : Session} {result : CallResult} (here : synth.phase = .starting call)
      (stepped : s.session.step (.advance call choice) = some (session, some (.returned other result)))
      (refused : result ≠ .ok) :
      SynthStep setup s j synth choice
        ({ s with session := s.freshSession, slot := .empty }.setPhase j .failed)
  | moves {call : Nat} {session : Session} {event : Option Event} (here : synth.phase = .inSession call)
      (stepped : s.session.step (.advance call (freshToken s.session choice)) = some (session, event))
      (silent : Silent event) : SynthStep setup s j synth choice { s with session }
  | installs {call other task : Nat} {session : Session} (here : synth.phase = .inSession call)
      (stepped : s.session.step (.advance call (freshToken s.session choice)) =
        some (session, some (.installed other task))) :
      SynthStep setup s j synth choice { s with session, owners := s.owners ++ [j] }
  | leaves {call other : Nat} {session : Session} {result : CallResult} (here : synth.phase = .inSession call)
      (stepped : s.session.step (.advance call (freshToken s.session choice)) =
        some (session, some (.returned other result))) :
      SynthStep setup s j synth choice
        ({ s with session }.setPhase j (if result = CallResult.failed then SynthPhase.failed else .fired))
  | plays (here : synth.phase = .http) (played : choice = true) :
      SynthStep setup s j synth choice (s.endTurn.setPhase j .fired)
  | refuses (here : synth.phase = .http) : SynthStep setup s j synth choice (s.setPhase j .failed)
  | clears (here : synth.phase = .failed) : SynthStep setup s j synth choice (s.endTurn.setPhase j .done)
  | stops (here : synth.phase = .fired) (cancelled : synth.awaited = true ∧ s.turnCancel = true) :
      SynthStep setup s j synth choice (s.endTurn.setPhase j .done)
  | finishes (here : synth.phase = .fired) : SynthStep setup s j synth choice (s.setPhase j .done)

theorem synth_step {setup : Setup} {s s' : System} {j : Nat} {choice : Bool}
    (taken : s.synth setup j choice = some s') :
    ∃ synth, s.synths[j]? = some synth ∧ SynthStep setup s j synth choice s' := by
  obtain ⟨synth, found, taken⟩ := Option.bind_eq_some_iff.mp taken
  refine ⟨synth, found, ?_⟩
  cases here : synth.phase with
  | spawned =>
    simp only [here, beginSynth] at taken
    cases provider : setup.provider with
    | none => simp [provider] at taken
    | volcano =>
      simp only [provider, Option.some.injEq] at taken
      subst taken
      exact .begins here provider
    | mimo =>
      simp only [provider, Option.some.injEq] at taken
      subst taken
      split
      next sticky => exact .skips here provider sticky
      next clear => exact .posts here provider (by simpa using clear)
  | wantSlot =>
    simp only [here] at taken
    cases slot : s.slot with
    | empty =>
      simp only [slot, Option.some.injEq] at taken
      subst taken
      exact .creates here slot
    | starting other => simp [slot] at taken
    | ready =>
      simp only [slot, Option.some.injEq] at taken
      subst taken
      exact .enters here slot
  | starting call =>
    simp only [here] at taken
    obtain ⟨⟨session, event⟩, stepped, rfl⟩ := Option.map_eq_some_iff.mp taken
    rcases event with _ | ⟨other, task⟩ | task | ⟨task, pcm⟩ | ⟨other, result⟩
    case some.returned =>
      cases result with
      | ok => exact .opens here stepped
      | cancelled => exact .drops here stepped nofun
      | failed => exact .drops here stepped nofun
    all_goals exact .connects here stepped nofun
  | inSession call =>
    simp only [here] at taken
    obtain ⟨⟨session, event⟩, stepped, rfl⟩ := Option.map_eq_some_iff.mp taken
    rcases event with _ | ⟨other, task⟩ | task | ⟨task, pcm⟩ | ⟨other, result⟩
    case some.returned => cases result <;> exact .leaves here stepped
    case some.installed => exact .installs here stepped
    all_goals exact .moves here stepped ⟨nofun, nofun⟩
  | http =>
    simp only [here, Option.some.injEq] at taken
    subst taken
    cases choice with
    | true => exact .plays here rfl
    | false => exact .refuses here
  | failed =>
    simp only [here, Option.some.injEq] at taken
    subst taken
    exact .clears here
  | fired =>
    simp only [here, Option.some.injEq] at taken
    subst taken
    split
    next cancelled => exact .stops here (by simpa using cancelled)
    next => exact .finishes here
  | done => simp [here] at taken

theorem server_cases {s s' : System} {action : Session.Action} (taken : s.server action = some s') :
    ∃ session event, s.session.step action = some (session, event) ∧ s' = s.afterServer session event := by
  have mapped : (s.session.step action).map (fun after => s.afterServer after.1 after.2) = some s' := by
    cases action with
    | enter | advance | cancelCurrentTurn => cases taken
    | _ => exact taken
  obtain ⟨⟨session, event⟩, stepped, rfl⟩ := Option.map_eq_some_iff.mp mapped
  exact ⟨session, event, stepped, rfl⟩

theorem afterServer_frame (s : System) (session : Session) (event : Option Event) :
    ∃ flags heard, s.afterServer session event = { s with session, flags, heard } := by
  unfold afterServer
  split
  · split <;> exact ⟨_, _, rfl⟩
  · unfold hear
    split <;> exact ⟨_, _, rfl⟩
  · exact ⟨_, _, rfl⟩

def installsTask (s : System) : Action → Bool
  | .synth j choice => s.synths[j]?.any fun synth =>
      match synth.phase with
      | .inSession call => decide (Installs s.session call (freshToken s.session choice))
      | _ => false
  | _ => false

/-- The branches of `turn_pipeline`, by the stage it is at. -/
inductive PipelineStep (setup : Setup) (s : System) (k : Nat) : Stage → TurnMove → System → Prop
  | unheard : PipelineStep setup s k .hearing .fails (s.returns k)
  | silenced (cancelled : s.turnCancel = true) : PipelineStep setup s k .hearing .proceed (s.returns k)
  | asks (live : s.turnCancel = false) (model : setup.llm = true) :
      PipelineStep setup s k .hearing .proceed (s.goto k (.streaming {} []))
  | answers (live : s.turnCancel = false) (alone : setup.llm = false) :
      PipelineStep setup s k .hearing .proceed (s.goto k (.replied false {}))
  | breaks (stream : StreamState) (reply : Text) : PipelineStep setup s k (.streaming stream reply) .fails (s.returns k)
  | hears (stream : StreamState) (reply delta : Text) :
      PipelineStep setup s k (.streaming stream reply) (.delta delta) (s.onTextDelta setup k stream reply delta)
  | concludes (stream : StreamState) (reply : Text) (calls : List ToolCall) :
      PipelineStep setup s k (.streaming stream reply) (.concludes calls)
        (s.goto k (.replied stream.ttsFired (executeToolCalls setup.args reply calls)))
  | muted (ttsAlreadyFired : Bool) (result : ToolExecutionResult) (cancelled : s.turnCancel = true) :
      PipelineStep setup s k (.replied ttsAlreadyFired result) .proceed (s.returns k)
  | speaks (result : ToolExecutionResult) (live : s.turnCancel = false) (said : result.reply ≠ [])
      (provided : setup.provider ≠ .none) :
      PipelineStep setup s k (.replied false result) .proceed (s.synthesizeAndPlay k result)
  | quiet (ttsAlreadyFired : Bool) (result : ToolExecutionResult) (live : s.turnCancel = false)
      (silent : ¬(result.reply ≠ [] ∧ ttsAlreadyFired = false ∧ setup.provider ≠ .none)) :
      PipelineStep setup s k (.replied ttsAlreadyFired result) .proceed (s.goto k (afterSpeech result))
  | spoken (synth : Nat) (result : ToolExecutionResult) :
      PipelineStep setup s k (.speaking synth result) .proceed (s.goto k (afterSpeech result))
  | waited (result : ToolExecutionResult) :
      PipelineStep setup s k (.waiting result) .proceed (s.goto k (.acting (effects result)))
  | persists : PipelineStep setup s k (.acting []) .proceed { s.returns k with mailbox := s.mailbox ++ [.turnDone] }
  | acts (effect : Effect) (rest : List Effect) :
      PipelineStep setup s k (.acting (effect :: rest)) .proceed
        { s.goto k (.acting rest) with trace := s.trace ++ [.acted k effect] }

theorem turnPipeline_step {setup : Setup} {s s' : System} {k : Nat} {move : TurnMove} {stage : Stage}
    (taken : s.turnPipeline setup k move stage = some s') : PipelineStep setup s k stage move s' := by
  cases stage with
  | hearing =>
    cases move with
    | fails => cases taken; exact .unheard
    | proceed =>
      simp only [turnPipeline] at taken
      split at taken
      next cancelled => cases taken; exact .silenced cancelled
      next live =>
        cases taken
        cases model : setup.llm with
        | true => exact .asks (by simpa using live) model
        | false => exact .answers (by simpa using live) model
    | delta text => cases taken
    | concludes calls => cases taken
  | streaming stream reply =>
    cases move with
    | fails => cases taken; exact .breaks stream reply
    | delta text => cases taken; exact .hears stream reply text
    | concludes calls => cases taken; exact .concludes stream reply calls
    | proceed => cases taken
  | replied ttsAlreadyFired result =>
    cases move with
    | proceed =>
      simp only [turnPipeline] at taken
      split at taken
      next cancelled => cases taken; exact .muted ttsAlreadyFired result cancelled
      next live =>
        have live : s.turnCancel = false := by simpa using live
        split at taken
        next speaks =>
          cases taken
          obtain ⟨said, -, rfl, provided⟩ := speaks
          exact .speaks result live said provided
        next silent =>
          cases taken
          exact .quiet ttsAlreadyFired result live fun speaks => silent ⟨speaks.1, live, speaks.2.1, speaks.2.2⟩
    | fails => cases taken
    | delta text => cases taken
    | concludes calls => cases taken
  | speaking synth result =>
    cases move with
    | proceed =>
      simp only [turnPipeline] at taken
      split at taken <;> cases taken
      exact .spoken synth result
    | fails => cases taken
    | delta text => cases taken
    | concludes calls => cases taken
  | waiting result =>
    cases move with
    | proceed => cases taken; exact .waited result
    | fails => cases taken
    | delta text => cases taken
    | concludes calls => cases taken
  | acting rest =>
    cases move with
    | proceed =>
      cases rest with
      | nil => cases taken; exact .persists
      | cons effect rest => cases taken; exact .acts effect rest
    | fails => cases rest <;> cases taken
    | delta text => cases rest <;> cases taken
    | concludes calls => cases rest <;> cases taken

inductive TurnStep (setup : Setup) (s : System) (k : Nat) : System → Prop
  | walks (stage : Stage) : TurnStep setup s k (s.goto k stage)
  | returns : TurnStep setup s k (s.returns k)
  | hears {stream : StreamState} {reply : Text} (delta : Text)
      (here : s.actor = .turn k (.streaming stream reply)) :
      TurnStep setup s k (s.onTextDelta setup k stream reply delta)
  | speaks (result : ToolExecutionResult) (provided : setup.provider ≠ .none) :
      TurnStep setup s k (s.synthesizeAndPlay k result)
  | acts (effect : Effect) (rest : List Effect) :
      TurnStep setup s k { s.goto k (.acting rest) with trace := s.trace ++ [.acted k effect] }
  | persists : TurnStep setup s k { s.returns k with mailbox := s.mailbox ++ [.turnDone] }

theorem turn_step {setup : Setup} {s s' : System} {move : TurnMove}
    (taken : s.turn setup move = some s') :
    ∃ k stage, s.actor = .turn k stage ∧ TurnStep setup s k s' := by
  unfold turn at taken
  split at taken
  next => cases taken
  next k stage here =>
    refine ⟨k, stage, here, ?_⟩
    cases turnPipeline_step taken with
    | unheard | silenced | breaks | muted => exact .returns
    | asks | answers | concludes | quiet | spoken | waited => exact .walks _
    | hears stream reply delta => exact .hears delta here
    | speaks result live said provided => exact .speaks result provided
    | persists => exact .persists
    | acts effect rest => exact .acts effect rest

/-- Calling `cancel` leaves everything but the provider alone. -/
structure SameButCancel (s s' : System) : Prop where
  flags : s'.flags = s.flags
  actor : s'.actor = s.actor
  turnCancel : s'.turnCancel = s.turnCancel
  tokenTurn : s'.tokenTurn = s.tokenTurn
  mailbox : s'.mailbox = s.mailbox
  slot : s'.slot = s.slot
  session : s'.session = s.session
  sessionReal : s'.sessionReal = s.sessionReal
  synths : s'.synths = s.synths
  owners : s'.owners = s.owners
  silencedBelow : s'.silencedBelow = s.silencedBelow
  heard : s'.heard = s.heard
  marked : s'.marked = s.marked
  trace : s'.trace = s.trace

theorem cancel_same (setup : Setup) (s : System) (canceller : Canceller) :
    SameButCancel s (s.cancel setup canceller) := by
  unfold cancel
  split <;> exact ⟨rfl, rfl, rfl, rfl, rfl, rfl, rfl, rfl, rfl, rfl, rfl, rfl, rfl, rfl⟩

/-- The three messages an idle actor takes. -/
inductive ReceiveStep (setup : Setup) (s : System) : System → Prop
  | begins {k : Nat} {rest : List Message} (next : s.mailbox = .segment k :: rest) :
      ReceiveStep setup s ((s.beginTurn k rest).cancel setup (.segment k))
  | interrupts {k : Nat} {rest : List Message} (next : s.mailbox = .bargeIn k :: rest) :
      ReceiveStep setup s ((s.interrupt k rest).cancel setup (.bargeIn k))
  | remembers {rest : List Message} (next : s.mailbox = .turnDone :: rest) :
      ReceiveStep setup s { s with mailbox := rest }

theorem receive_step {setup : Setup} {s s' : System} (taken : s.receive setup = some s') :
    s.actor = .idle ∧ ReceiveStep setup s s' := by
  unfold receive at taken
  split at taken
  next k rest idle next =>
    cases taken
    exact ⟨idle, .begins next⟩
  next k rest idle next =>
    cases taken
    exact ⟨idle, .interrupts next⟩
  next rest idle next =>
    cases taken
    exact ⟨idle, .remembers next⟩
  next => cases taken

inductive ListenStep (s : System) : System → Prop
  | hears (silent : s.inSpeech = false) :
      ListenStep s { s with
        inSpeech := true
        onsets := s.onsets + 1
        tells := if s.flags.turnPending then s.tells ++ [s.onsets] else s.tells }
  | ends (speaking : s.inSpeech = true) :
      ListenStep s { s with
        inSpeech := false
        speech := if s.speech.length < speechCapacity then s.speech ++ [s.onsets - 1] else s.speech }
  | tells {j k : Nat} (waiting : s.tells[j]? = some k) :
      ListenStep s { s with
        tells := s.tells.eraseIdx j
        mailbox := s.mailbox ++ [.bargeIn k]
        trace := s.trace ++ [.queued k] }
  | forwards {k : Nat} {rest : List Nat} (offered : s.speech = k :: rest) :
      ListenStep s { s with speech := rest, mailbox := s.mailbox ++ [.segment k] }

def Action.listens : Action → Bool
  | .onset | .speechEnd | .tell _ | .forward => true
  | _ => false

theorem listen_step {setup : Setup} {s s' : System} {action : Action}
    (taken : s.step setup action = some s') (listens : action.listens = true) : ListenStep s s' := by
  cases action with
  | onset =>
    simp only [step, onset] at taken
    split at taken <;> cases taken
    next silent => exact .hears (Bool.not_eq_true _ ▸ silent)
  | speechEnd =>
    simp only [step, speechEnd] at taken
    split at taken <;> cases taken
    next speaking => exact .ends speaking
  | tell j =>
    obtain ⟨k, waiting, rfl⟩ := Option.map_eq_some_iff.mp taken
    exact .tells waiting
  | forward =>
    simp only [step, forward] at taken
    split at taken <;> cases taken
    next offered => exact .forwards offered
  | receive | turn | synth | cancelTask | server => cases listens

/-- What a spawned cancel does when it is polled. -/
inductive CancelTaskStep (s : System) (j : Nat) : System → Prop
  | skips (none : s.slot = .empty) : CancelTaskStep s j { s with cancels := s.cancels.eraseIdx j }
  | marks {cancelled : CancelTask} (pending : s.cancels[j]? = some cancelled) (ready : s.slot = .ready) :
      CancelTaskStep s j { s with
        cancels := s.cancels.eraseIdx j
        session := s.session.cancelCurrentTurn
        marked := s.marked ++ (s.currentSynth.map (cancelled, ·)).toList }

theorem cancelTask_step {s s' : System} {j : Nat} (taken : s.cancelTask j = some s') :
    CancelTaskStep s j s' := by
  unfold cancelTask at taken
  split at taken <;> cases taken
  next none => exact .skips none
  next pending ready => exact .marks pending ready

end System

end Fswtch.Seat.CallSystem
