import Mathlib.Data.List.Induction
import Fswtch.Lib.StepRun
import Fswtch.Seat.BargeInOrder

/-! The turns of a call, as its other parts see them. Whatever the media thread, the spawned tasks and the
provider do meanwhile, the turns come one after the other in the order of their segments, and each does what
`turn_pipeline` does when it runs alone. -/

namespace Fswtch.Seat.CallSystem
open Fswtch.Lib.StepRun Fswtch.Seat.SentenceSplit Fswtch.Seat.ReplyText Fswtch.Seat.TtsSession

section
variable (args : ArgumentReader)

def spokenBy (call : ToolCall) : Option Text :=
  if call.name = "speak" then (args.stringArg call.arguments "text").filter (· ≠ []) else none

def transcribedBy (call : ToolCall) : Option Text :=
  if call.name = "speak" then (args.stringArg call.arguments "asr").filter (· ≠ []) else none

def delayedBy (call : ToolCall) : Option ℚ :=
  if call.name = "speak" ∧ (args.boolArg call.arguments "hangup").getD false = true then
    some (hangupDelay args call.arguments)
  else none

def hungUpBy (call : ToolCall) : Bool := call.name == "hangup" || (delayedBy args call).isSome

def dialledBy (call : ToolCall) : Option Text :=
  if call.name = "send_dtmf" then args.stringArg call.arguments "digits" else none

def transferredBy (call : ToolCall) : Option Text :=
  if call.name = "transfer" then args.stringArg call.arguments "destination" else none

def spaced (texts : List Text) : Text := [' '].intercalate texts

/-- What the calls come to after a reply that the model wrote; every field is read off them by itself. -/
structure Reads (replyFromLlm : Text) (calls : List ToolCall) (result : ToolExecutionResult) : Prop where
  reply : result.reply = spaced ((replyFromLlm :: calls.filterMap (spokenBy args)).filter (· ≠ []))
  asr : result.asr =
    if calls.filterMap (transcribedBy args) = [] then none
    else some (spaced (calls.filterMap (transcribedBy args)))
  hangup : result.hangup = calls.any (hungUpBy args)
  hangupDelay : result.hangupDelay = (calls.filterMap (delayedBy args)).getLast?.getD 0
  delayBounds : result.hangupDelay = 0 ∨ 1 / 2 ≤ result.hangupDelay ∧ result.hangupDelay ≤ 15
  dtmf : result.dtmf = (calls.filterMap (dialledBy args)).getLast?
  transfer : result.transfer = (calls.filterMap (transferredBy args)).getLast?

theorem spaced_concat {texts : List Text} (some : texts ≠ []) (text : Text) :
    spaced (texts ++ [text]) = spaced texts ++ ' ' :: text := by
  unfold spaced
  induction texts with
  | nil => exact absurd rfl some
  | cons first rest ih =>
    cases rest with
    | nil => simp
    | cons second rest =>
      have later := ih (List.cons_ne_nil second rest)
      rw [List.cons_append, List.intercalate_cons_of_ne_nil (List.append_ne_nil_of_left_ne_nil
        (List.cons_ne_nil second rest) [text]), later, List.intercalate_cons_of_ne_nil (List.cons_ne_nil second rest)]
      simp only [List.append_assoc]

theorem spaced_ne_nil {texts : List Text} (some : texts ≠ []) (nonempty : ∀ text ∈ texts, text ≠ []) :
    spaced texts ≠ [] := by
  cases texts with
  | nil => exact absurd rfl some
  | cons first rest =>
    have here := nonempty first List.mem_cons_self
    cases rest with
    | nil => simpa [spaced] using here
    | cons second rest =>
      rw [spaced, List.intercalate_cons_of_ne_nil (List.cons_ne_nil second rest)]
      simp [here]

theorem joined_spaced {texts : List Text} (nonempty : ∀ text ∈ texts, text ≠ []) (text : Text) :
    joined (spaced texts) text = spaced (texts ++ [text]) := by
  unfold joined
  by_cases none : texts = []
  · simp [none, spaced]
  · rw [if_neg (spaced_ne_nil none nonempty), spaced_concat none]

theorem spokenBy_ne_nil {call : ToolCall} {text : Text} (read : spokenBy args call = some text) : text ≠ [] := by
  unfold spokenBy at read
  split at read
  next => exact of_decide_eq_true (Option.filter_eq_some_iff.mp read).2
  next => cases read

theorem delayedBy_bounds {call : ToolCall} {delay : ℚ} (read : delayedBy args call = some delay) :
    1 / 2 ≤ delay ∧ delay ≤ 15 := by
  unfold delayedBy at read
  split at read
  next =>
    cases read
    exact ⟨le_max_left _ _, max_le (by decide +kernel) (min_le_left _ _)⟩
  next => cases read

theorem speak_eq (result : ToolExecutionResult) (arguments : String) :
    speak args result arguments =
      { result with
        reply := ((args.stringArg arguments "text").filter (· ≠ [])).elim result.reply (joined result.reply)
        asr := ((args.stringArg arguments "asr").filter (· ≠ [])).elim result.asr
          fun asr => some (result.asr.elim asr fun before => before ++ ' ' :: asr)
        hangup := result.hangup || (args.boolArg arguments "hangup").getD false
        hangupDelay :=
          if (args.boolArg arguments "hangup").getD false then hangupDelay args arguments
          else result.hangupDelay } := by
  have filtered (read : Option Text) :
      read.filter (· ≠ []) = if read.getD [] = [] then none else some (read.getD []) := by
    cases read with
    | none => rfl
    | some text => by_cases empty : text = [] <;> simp [empty, Option.filter]
  rw [filtered, filtered]
  unfold speak
  dsimp only
  split <;> split <;> split <;> simp_all

theorem executeToolCall_eq (result : ToolExecutionResult) (call : ToolCall) :
    executeToolCall args result call =
      { reply := (spokenBy args call).elim result.reply (joined result.reply)
        asr := (transcribedBy args call).elim result.asr
          fun asr => some (result.asr.elim asr fun before => before ++ ' ' :: asr)
        hangup := result.hangup || hungUpBy args call
        hangupDelay := (delayedBy args call).getD result.hangupDelay
        dtmf := (dialledBy args call).or result.dtmf
        transfer := (transferredBy args call).or result.transfer } := by
  unfold executeToolCall spokenBy transcribedBy hungUpBy delayedBy dialledBy transferredBy
  by_cases spoken : call.name = "speak"
  · simp only [spoken, if_true, speak_eq]
    cases (args.boolArg call.arguments "hangup").getD false <;> simp
  · rw [if_neg spoken]
    by_cases hung : call.name = "hangup"
    · simp [hung]
    · by_cases dialled : call.name = "send_dtmf"
      · cases args.stringArg call.arguments "digits" <;> simp [dialled]
      · by_cases transferred : call.name = "transfer"
        · cases args.stringArg call.arguments "destination" <;> simp [transferred]
        · simp [spoken, dialled, transferred, beq_eq_false_iff_ne.mpr hung, hung]

/-- The last call that says something decides the digits, the destination and the delay; the texts are joined
in the order of the calls. -/
theorem executeToolCalls_reads (replyFromLlm : Text) (calls : List ToolCall) :
    Reads args replyFromLlm calls (executeToolCalls args replyFromLlm calls) := by
  induction calls using List.reverseRecOn with
  | nil =>
    have written : spaced ([replyFromLlm].filter (· ≠ [])) = replyFromLlm := by
      by_cases empty : replyFromLlm = [] <;> simp [spaced, empty]
    exact ⟨written.symm, rfl, rfl, rfl, .inl rfl, rfl, rfl⟩
  | append_singleton calls call ih =>
    obtain ⟨reply, asr, hangup, delay, bounds, dtmf, transfer⟩ := ih
    have snoc : executeToolCalls args replyFromLlm (calls ++ [call]) =
        executeToolCall args (executeToolCalls args replyFromLlm calls) call := by
      simp [executeToolCalls]
    rw [snoc, executeToolCall_eq]
    refine ⟨?_, ?_, ?_, ?_, ?_, ?_, ?_⟩
    · cases read : spokenBy args call with
      | none => simp [reply, read]
      | some text =>
        have written := spokenBy_ne_nil args read
        have before : ∀ text ∈ (replyFromLlm :: calls.filterMap (spokenBy args)).filter (· ≠ []), text ≠ [] :=
          fun text inside => of_decide_eq_true (List.mem_filter.mp inside).2
        simp only [Option.elim_some, reply, joined_spaced before, List.filterMap_append, List.filterMap_cons, read,
          List.filterMap_nil, ← List.cons_append, List.filter_append]
        simp [written]
    · cases read : transcribedBy args call with
      | none => simp [asr, read]
      | some text =>
        simp only [Option.elim_some, asr, List.filterMap_append, List.filterMap_cons, read, List.filterMap_nil]
        by_cases none : calls.filterMap (transcribedBy args) = []
        · simp [none, spaced]
        · simp [none, spaced_concat none]
    · simp [hangup]
    · simp only [delay, List.filterMap_append]
      cases read : delayedBy args call <;> simp [read]
    · cases read : delayedBy args call with
      | none => exact bounds
      | some delay => exact .inr (delayedBy_bounds args read)
    · simp only [dtmf, List.filterMap_append]
      cases read : dialledBy args call <;> simp [read]
    · simp only [transfer, List.filterMap_append]
      cases read : transferredBy args call <;> simp [read]

end

def Setup.tts (setup : Setup) : Bool := decide (setup.provider ≠ .none)

/-- The sentences that were handed to TTS while the model wrote `deltas`. -/
def streamedMarks (setup : Setup) (k : Nat) (deltas : List Text) : List Mark :=
  .begun k :: (streamWithTools setup.tts false deltas).1.spawned.map (.spoke k)

def spokenMarks (setup : Setup) (k : Nat) (deltas : List Text) (calls : List ToolCall) : List Mark :=
  let speech := turnPipeline setup.args setup.tts deltas calls
  .begun k :: (speech.spawned ++ speech.whole.toList).map (.spoke k)

def sideEffects (setup : Setup) (deltas : List Text) (calls : List ToolCall) : List Effect :=
  System.effects (executeToolCalls setup.args deltas.flatten calls)

def wholeTurn (setup : Setup) (k : Nat) (deltas : List Text) (calls : List ToolCall) : List Mark :=
  spokenMarks setup k deltas calls ++ (sideEffects setup deltas calls).map (.acted k) ++ [.returned k]

def cutTurn (setup : Setup) (k : Nat) (deltas : List Text) : List Mark :=
  streamedMarks setup k deltas ++ [.returned k]

/-- What the model has answered in a turn: its deltas, and its tool calls once the answer is at its end. -/
structure Answer where
  turn : Nat
  deltas : List Text := []
  calls : Option (List ToolCall) := none

def Answer.toolCalls (answer : Answer) : List ToolCall := answer.calls.getD []

def Answer.Concluded (setup : Setup) (answer : Answer) : Prop := setup.llm = true → answer.calls.isSome = true

def amendLast (change : Answer → Answer) (answers : List Answer) : List Answer :=
  answers.dropLast ++ (answers.getLast?.map change).toList

/-- A segment's turn begins without an answer, and what the model sends is added to it. -/
def noteAnswer (_ : System) (action : System.Action) (next : System) (answers : List Answer) : List Answer :=
  match action with
  | .receive =>
    match next.actor with
    | .idle => answers
    | .turn k _ => answers ++ [{ turn := k }]
  | .turn (.delta text) => amendLast (fun answer => { answer with deltas := answer.deltas ++ [text] }) answers
  | .turn (.concludes calls) => amendLast (fun answer => { answer with calls := some calls }) answers
  | _ => answers

def answeredStep (setup : Setup) : System × List Answer → System.Action → Option (System × List Answer) :=
  recorded (System.step setup) noteAnswer

/-- The traces of turns one after the other, each with its answer, and of barge-ins handled between two of
them. A turn that is cut short had no answer to its end. -/
inductive Turns (setup : Setup) : List Answer → List Mark → Prop
  | start : Turns setup [] []
  | handled {answers : List Answer} {trace : List Mark} (before : Turns setup answers trace) (j : Nat)
      (turn : Option Nat) : Turns setup answers (trace ++ [.handled j turn])
  | whole {answers : List Answer} {trace : List Mark} (before : Turns setup answers trace) (answer : Answer)
      (concluded : answer.Concluded setup) :
      Turns setup (answers ++ [answer]) (trace ++ wholeTurn setup answer.turn answer.deltas answer.toolCalls)
  | cut {answers : List Answer} {trace : List Mark} (before : Turns setup answers trace) (answer : Answer)
      (open_ : answer.calls = none) :
      Turns setup (answers ++ [answer]) (trace ++ cutTurn setup answer.turn answer.deltas)

def Mark.isQueued : Mark → Bool
  | .queued _ => true
  | _ => false

def Message.segmentOf : Message → Option Nat
  | .segment k => some k
  | _ => none

def Mark.begunOf : Mark → Option Nat
  | .begun k => some k
  | _ => none

def ofActor (trace : List Mark) : List Mark := trace.filter fun mark => !mark.isQueued

def Stage.Left (setup : Setup) (answer : Answer) (part : List Mark) : Stage → Prop
  | .hearing => answer.deltas = [] ∧ answer.calls = none ∧ part = [.begun answer.turn]
  | .streaming stream reply =>
    answer.calls = none ∧ (stream, reply) = streamWithTools setup.tts false answer.deltas ∧
      part = streamedMarks setup answer.turn answer.deltas
  | .replied ttsAlreadyFired result =>
    answer.Concluded setup ∧ ttsAlreadyFired = (streamWithTools setup.tts false answer.deltas).1.ttsFired ∧
      result = executeToolCalls setup.args answer.deltas.flatten answer.toolCalls ∧
      part = streamedMarks setup answer.turn answer.deltas
  | .speaking _ result | .waiting result =>
    answer.Concluded setup ∧ result = executeToolCalls setup.args answer.deltas.flatten answer.toolCalls ∧
      part = spokenMarks setup answer.turn answer.deltas answer.toolCalls
  | .acting rest =>
    answer.Concluded setup ∧ ∃ done, sideEffects setup answer.deltas answer.toolCalls = done ++ rest ∧
      part = spokenMarks setup answer.turn answer.deltas answer.toolCalls ++ done.map (.acted answer.turn)

theorem amendLast_concat (change : Answer → Answer) (answers : List Answer) (answer : Answer) :
    amendLast change (answers ++ [answer]) = answers ++ [change answer] := by
  simp [amendLast]

section
variable {setup : Setup} {k : Nat}

theorem streamWithTools_concat (tts cancelled : Bool) (deltas : List Text) (delta : Text) :
    streamWithTools tts cancelled (deltas ++ [delta]) =
      ((streamWithTools tts cancelled deltas).1.onTextDelta tts cancelled delta,
        (streamWithTools tts cancelled deltas).2 ++ delta) := by
  simp [streamWithTools]

theorem streamWithTools_reply (tts cancelled : Bool) (deltas : List Text) :
    (streamWithTools tts cancelled deltas).2 = deltas.flatten := by
  induction deltas using List.reverseRecOn with
  | nil => rfl
  | append_singleton deltas delta ih => rw [streamWithTools_concat, ih]; simp

theorem streamedMarks_concat (deltas : List Text) (delta : Text) :
    streamedMarks setup k (deltas ++ [delta]) = streamedMarks setup k deltas ++
      (((streamWithTools setup.tts false deltas).1.onTextDelta setup.tts false delta).spawned.drop
        (streamWithTools setup.tts false deltas).1.spawned.length).map (.spoke k) := by
  obtain ⟨new, spawned, _⟩ := onTextDelta_begins setup.tts false (streamWithTools setup.tts false deltas).1 delta
  simp [streamedMarks, streamWithTools_concat, spawned]

/-- Where the sentences were handed over already, or there is nothing to say, the turn says no more. -/
theorem spokenMarks_quiet {deltas : List Text} {calls : List ToolCall}
    (quiet : ¬((executeToolCalls setup.args deltas.flatten calls).reply ≠ [] ∧
      (streamWithTools setup.tts false deltas).1.ttsFired = false ∧ setup.tts = true)) :
    spokenMarks setup k deltas calls = streamedMarks setup k deltas := by
  simp only [spokenMarks, turnPipeline, streamWithTools_reply, if_neg quiet, Option.toList_none, List.append_nil]
  rfl

theorem spokenMarks_whole {deltas : List Text} {calls : List ToolCall}
    (said : (executeToolCalls setup.args deltas.flatten calls).reply ≠ [] ∧
      (streamWithTools setup.tts false deltas).1.ttsFired = false ∧ setup.tts = true) :
    spokenMarks setup k deltas calls =
      streamedMarks setup k deltas ++ [.spoke k (executeToolCalls setup.args deltas.flatten calls).reply] := by
  simp only [spokenMarks, turnPipeline, streamWithTools_reply, if_pos said]
  simp [streamedMarks]

theorem left_prefix {answer : Answer} {part : List Mark} (stage : Stage) (left : stage.Left setup answer part) :
    part <+: wholeTurn setup answer.turn answer.deltas answer.toolCalls := by
  have streamed : streamedMarks setup answer.turn answer.deltas <+:
      wholeTurn setup answer.turn answer.deltas answer.toolCalls := by
    refine ⟨((turnPipeline setup.args setup.tts answer.deltas answer.toolCalls).whole.toList).map (.spoke answer.turn) ++
      ((sideEffects setup answer.deltas answer.toolCalls).map (.acted answer.turn) ++ [.returned answer.turn]), ?_⟩
    simp [streamedMarks, wholeTurn, spokenMarks, turnPipeline]
  cases stage with
  | hearing =>
    obtain ⟨silent, -, rfl⟩ := left
    have begun : streamedMarks setup answer.turn answer.deltas = [.begun answer.turn] := by rw [silent]; rfl
    rwa [begun] at streamed
  | streaming stream reply =>
    obtain ⟨-, -, rfl⟩ := left
    exact streamed
  | replied ttsAlreadyFired result =>
    obtain ⟨-, -, -, rfl⟩ := left
    exact streamed
  | speaking synth result | waiting result =>
    obtain ⟨-, -, rfl⟩ := left
    rw [wholeTurn, List.append_assoc]
    exact List.prefix_append _ _
  | acting rest =>
    obtain ⟨-, acted, effects, rfl⟩ := left
    refine ⟨rest.map (.acted answer.turn) ++ [.returned answer.turn], ?_⟩
    simp [wholeTurn, effects]

/-- A reply with nothing to wait for goes on with its side effects. -/
theorem left_afterSpeech {answer : Answer} (concluded : answer.Concluded setup) :
    Stage.Left setup answer (spokenMarks setup answer.turn answer.deltas answer.toolCalls)
      (System.afterSpeech (executeToolCalls setup.args answer.deltas.flatten answer.toolCalls)) := by
  unfold System.afterSpeech
  split
  · exact ⟨concluded, rfl, rfl⟩
  · exact ⟨concluded, [], rfl, (List.append_nil _).symm⟩

end

namespace System

def Placed (setup : Setup) (s : System) (answers : List Answer) : Prop :=
  match s.actor with
  | .idle => Turns setup answers (ofActor s.trace)
  | .turn k stage => ∃ earlier answer done part, answers = earlier ++ [answer] ∧ answer.turn = k ∧
      ofActor s.trace = done ++ part ∧ Turns setup earlier done ∧ stage.Left setup answer part

section
variable {setup : Setup} {s s' : System}

theorem Placed.same {answers : List Answer} (placed : Placed setup s answers) (actor : s'.actor = s.actor)
    (trace : ofActor s'.trace = ofActor s.trace) : Placed setup s' answers := by
  unfold Placed
  rw [actor, trace]
  exact placed

theorem ofActor_append (trace more : List Mark) : ofActor (trace ++ more) = ofActor trace ++ ofActor more :=
  List.filter_append ..

theorem ofActor_map {α : Type} (mark : α → Mark) (unqueued : ∀ item, (mark item).isQueued = false) (items : List α) :
    ofActor (items.map mark) = items.map mark := by
  rw [ofActor, List.filter_eq_self]
  intro made inside
  obtain ⟨item, _, rfl⟩ := List.mem_map.mp inside
  simp [unqueued item]

inductive Proceeds (setup : Setup) (s : System) (k : Nat) (answer : Answer) (part : List Mark) : System → Prop
  | goes {s' : System} (stage : Stage) (more : List Mark) (trace : s'.trace = s.trace ++ more)
      (unqueued : ofActor more = more) (actor : s'.actor = .turn k stage)
      (left : stage.Left setup answer (part ++ more)) : Proceeds setup s k answer part s'
  | ends {s' : System} (trace : s'.trace = s.trace ++ [.returned k]) (actor : s'.actor = .idle)
      (turn : ∀ {answers : List Answer} {trace : List Mark}, Turns setup answers trace →
        Turns setup (answers ++ [answer]) (trace ++ (part ++ [.returned k]))) : Proceeds setup s k answer part s'

theorem Proceeds.placed {k : Nat} {answer : Answer} {part : List Mark} (moved : Proceeds setup s k answer part s')
    (number : answer.turn = k) {earlier : List Answer} {done : List Mark} (whole : ofActor s.trace = done ++ part)
    (turns : Turns setup earlier done) : Placed setup s' (earlier ++ [answer]) := by
  unfold Placed
  cases moved with
  | goes stage more trace unqueued actor left =>
    rw [actor]
    refine ⟨earlier, answer, done, part ++ more, rfl, number, ?_, turns, left⟩
    rw [trace, ofActor_append, whole, unqueued, List.append_assoc]
  | ends trace actor turn =>
    rw [actor]
    have same : ofActor s'.trace = done ++ (part ++ [.returned k]) := by
      rw [trace, ofActor_append, whole]
      simp [ofActor, Mark.isQueued]
    rw [same]
    exact turn turns

def Answer.after (answer : Answer) : TurnMove → Answer
  | .delta text => { answer with deltas := answer.deltas ++ [text] }
  | .concludes calls => { answer with calls := some calls }
  | .proceed | .fails => answer

theorem turnPipeline_proceeds {move : TurnMove} {k : Nat} {stage : Stage} {answer : Answer} {part : List Mark}
    (number : answer.turn = k) (left : stage.Left setup answer part) (uncancelled : s.turnCancel = false)
    (taken : s.turnPipeline setup k move stage = some s') :
    Proceeds setup s k (Answer.after answer move) part s' := by
  subst number
  have goes {next : Stage} {answer' : Answer} (left : next.Left setup answer' part) :
      Proceeds setup s answer.turn answer' part (s.goto answer.turn next) :=
    .goes next [] (List.append_nil s.trace).symm rfl rfl ((List.append_nil part).symm ▸ left)
  have cuts (open_ : answer.calls = none) (same : part = streamedMarks setup answer.turn answer.deltas) :
      Proceeds setup s answer.turn answer part (s.returns answer.turn) :=
    .ends rfl rfl fun turns => same ▸ turns.cut answer open_
  cases turnPipeline_step taken with
  | unheard =>
    obtain ⟨silent, open_, rfl⟩ := left
    exact cuts open_ (by rw [silent]; rfl)
  | asks live model =>
    obtain ⟨silent, open_, rfl⟩ := left
    exact goes ⟨open_, by rw [Answer.after, silent]; rfl, by rw [Answer.after, silent]; rfl⟩
  | answers live alone =>
    obtain ⟨silent, open_, rfl⟩ := left
    refine goes ⟨fun model => ?_, ?_, ?_, ?_⟩
    · cases alone.symm.trans model
    · rw [Answer.after, silent]
      rfl
    · rw [Answer.after, silent, Answer.toolCalls, open_]
      rfl
    · rw [Answer.after, silent]
      rfl
  | breaks stream reply =>
    obtain ⟨open_, same, rfl⟩ := left
    exact cuts open_ rfl
  | hears stream reply delta =>
    obtain ⟨open_, same, rfl⟩ := left
    obtain ⟨rfl, rfl⟩ := Prod.mk.inj same
    refine .goes _ _ ?_ (ofActor_map (.spoke answer.turn) (fun _ => rfl) _) rfl
      ⟨open_, ?_, (streamedMarks_concat answer.deltas delta).symm⟩
    · rw [onTextDelta, uncancelled]
      rfl
    · rw [uncancelled, Answer.after, streamWithTools_concat]
      rfl
  | concludes stream reply calls =>
    obtain ⟨open_, same, rfl⟩ := left
    obtain ⟨rfl, rfl⟩ := Prod.mk.inj same
    have written := streamWithTools_reply setup.tts false answer.deltas
    exact goes ⟨fun _ => rfl, rfl, congrArg (executeToolCalls setup.args · calls) written, rfl⟩
  | silenced cancelled | muted _ _ cancelled => cases uncancelled.symm.trans cancelled
  | speaks result live said provided =>
    obtain ⟨concluded, fired, rfl, rfl⟩ := left
    exact .goes _ _ rfl rfl rfl
      ⟨concluded, rfl, (spokenMarks_whole ⟨said, fired.symm, decide_eq_true provided⟩).symm⟩
  | quiet ttsAlreadyFired result live silent =>
    obtain ⟨concluded, rfl, rfl, rfl⟩ := left
    refine goes (spokenMarks_quiet (fun said => ?_) ▸ left_afterSpeech concluded)
    exact silent ⟨said.1, said.2.1, of_decide_eq_true said.2.2⟩
  | spoken synth result =>
    obtain ⟨concluded, rfl, rfl⟩ := left
    exact goes (left_afterSpeech concluded)
  | waited result =>
    obtain ⟨concluded, rfl, rfl⟩ := left
    exact goes ⟨concluded, [], rfl, (List.append_nil _).symm⟩
  | persists =>
    obtain ⟨concluded, acted, effects, rfl⟩ := left
    rw [List.append_nil] at effects
    exact .ends rfl rfl fun turns => effects ▸ turns.whole answer concluded
  | acts effect rest =>
    obtain ⟨concluded, acted, effects, rfl⟩ := left
    refine .goes (.acting rest) [.acted answer.turn effect] rfl rfl rfl ⟨concluded, acted ++ [effect], ?_, ?_⟩
    · rw [Answer.after, effects, List.append_assoc]
      rfl
    · rw [List.map_append, List.append_assoc]
      rfl

theorem noteAnswer_turn (s next : System) (move : TurnMove) (earlier : List Answer) (answer : Answer) :
    noteAnswer s (.turn move) next (earlier ++ [answer]) = earlier ++ [Answer.after answer move] := by
  cases move with
  | delta text => exact amendLast_concat _ _ _
  | concludes calls => exact amendLast_concat _ _ _
  | proceed | fails => rfl

theorem Placed.receives {answers : List Answer} (placed : Placed setup s answers) (idle : s.actor = .idle)
    (moved : ReceiveStep setup s s') : Placed setup s' (noteAnswer s .receive s' answers) := by
  have turns : Turns setup answers (ofActor s.trace) := by
    unfold Placed at placed
    rwa [idle] at placed
  unfold Placed noteAnswer
  cases moved with
  | @begins k rest next =>
    have same := cancel_same setup (s.beginTurn k rest) (.segment k)
    have actor : ((s.beginTurn k rest).cancel setup (.segment k)).actor = .turn k .hearing := same.actor
    simp only [actor]
    refine ⟨answers, { turn := k }, ofActor s.trace, [.begun k], rfl, rfl, ?_, turns, rfl, rfl, rfl⟩
    rw [same.trace, beginTurn, ofActor_append]
    rfl
  | @interrupts k rest next =>
    have same := cancel_same setup (s.interrupt k rest) (.bargeIn k)
    have actor : ((s.interrupt k rest).cancel setup (.bargeIn k)).actor = .idle := same.actor.trans idle
    simp only [actor]
    rw [same.trace, interrupt, ofActor_append]
    exact turns.handled k s.tokenTurn
  | remembers next => simpa only [idle] using turns

theorem step_placed {answers : List Answer} {action : Action} (sequential : s.Sequential)
    (placed : Placed setup s answers) (taken : s.step setup action = some s') :
    Placed setup s' (noteAnswer s action s' answers) := by
  cases action with
  | onset | speechEnd | tell | forward =>
    cases listen_step taken rfl with
    | tells waiting => exact placed.same rfl (by rw [ofActor_append]; exact List.append_nil _)
    | hears | ends | forwards => exact placed.same rfl rfl
  | receive =>
    obtain ⟨idle, moved⟩ := receive_step taken
    exact placed.receives idle moved
  | turn move =>
    simp only [step, turn] at taken
    split at taken
    next => cases taken
    next k stage here =>
      unfold Placed at placed
      rw [here] at placed
      obtain ⟨earlier, answer, done, part, rfl, number, whole, turns, left⟩ := placed
      rw [noteAnswer_turn]
      have moved := turnPipeline_proceeds number left (sequential.uncancelled k stage here) taken
      refine moved.placed ?_ whole turns
      cases move <;> exact number
  | synth j choice =>
    obtain ⟨synth, _, moved⟩ := synth_step taken
    exact placed.same moved.actor.1 (by rw [moved.actor.2.2])
  | cancelTask j =>
    cases cancelTask_step taken <;> exact placed.same rfl rfl
  | server action =>
    obtain ⟨session, event, _, rfl⟩ := server_cases taken
    obtain ⟨flags, heard, frame⟩ := afterServer_frame s session event
    rw [frame]
    exact placed.same rfl rfl

def segments (s : System) : List Nat :=
  s.mailbox.filterMap Message.segmentOf ++ s.speech ++ if s.inSpeech then [s.onsets - 1] else []

/-- Segments are never reordered or repeated on the way to their turns. -/
structure Fifo (s : System) : Prop where
  rising : (s.trace.filterMap Mark.begunOf ++ s.segments).Pairwise (· < ·)
  heard : ∀ k ∈ s.trace.filterMap Mark.begunOf ++ s.segments, k < s.onsets
  speaking : s.inSpeech = true → 0 < s.onsets

theorem Fifo.of_sublist (ordered : Fifo s) (onsets : s'.onsets = s.onsets)
    (fewer : (s'.trace.filterMap Mark.begunOf ++ s'.segments).Sublist (s.trace.filterMap Mark.begunOf ++ s.segments))
    (speaking : s'.inSpeech = true → s.inSpeech = true) : Fifo s' where
  rising := ordered.rising.sublist fewer
  heard k inside := onsets ▸ ordered.heard k (fewer.subset inside)
  speaking := fun now => onsets ▸ ordered.speaking (speaking now)

/-- A step that leaves the channels and the order of the turns as they are. -/
theorem Fifo.same (ordered : Fifo s) (begun : s'.trace.filterMap Mark.begunOf = s.trace.filterMap Mark.begunOf)
    (mailbox : s'.mailbox.filterMap Message.segmentOf = s.mailbox.filterMap Message.segmentOf)
    (speech : s'.speech = s.speech) (inSpeech : s'.inSpeech = s.inSpeech) (onsets : s'.onsets = s.onsets) :
    Fifo s' := by
  refine ordered.of_sublist onsets ?_ (fun now => inSpeech ▸ now)
  rw [segments, begun, mailbox, speech, inSpeech, onsets]
  exact List.Sublist.refl _

theorem cancel_segments (setup : Setup) (s : System) (canceller : Canceller) :
    (s.cancel setup canceller).segments = s.segments ∧ (s.cancel setup canceller).onsets = s.onsets ∧
      (s.cancel setup canceller).inSpeech = s.inSpeech ∧ (s.cancel setup canceller).trace = s.trace := by
  unfold cancel
  split <;> exact ⟨rfl, rfl, rfl, rfl⟩

theorem Fifo.receives (ordered : Fifo s) (moved : ReceiveStep setup s s') : Fifo s' := by
  cases moved with
  | @begins k rest next =>
    obtain ⟨segments, onsets, inSpeech, trace⟩ := cancel_segments setup (s.beginTurn k rest) (.segment k)
    refine ordered.of_sublist onsets ?_ fun now => inSpeech ▸ now
    rw [segments, trace, System.segments, System.segments, next]
    simp only [beginTurn, List.filterMap_append, List.filterMap_cons, Mark.begunOf, Message.segmentOf,
      List.filterMap_nil, List.append_assoc, List.cons_append, List.nil_append]
    exact List.Sublist.refl _
  | @interrupts k rest next =>
    obtain ⟨segments, onsets, inSpeech, trace⟩ := cancel_segments setup (s.interrupt k rest) (.bargeIn k)
    refine ordered.of_sublist onsets ?_ fun now => inSpeech ▸ now
    rw [segments, trace, System.segments, System.segments, next]
    simp only [interrupt, List.filterMap_append, List.filterMap_cons, Mark.begunOf, Message.segmentOf,
      List.filterMap_nil, List.append_nil]
    exact List.Sublist.refl _
  | remembers next => exact ordered.same rfl (by rw [next]; rfl) rfl rfl rfl

theorem Fifo.listens (ordered : Fifo s) (moved : ListenStep s s') : Fifo s' := by
  cases moved with
  | hears silent =>
    have before : s.trace.filterMap Mark.begunOf ++ s.segments =
        s.trace.filterMap Mark.begunOf ++ (s.mailbox.filterMap Message.segmentOf ++ s.speech) := by
      simp [segments, silent]
    obtain ⟨rising, heard, _⟩ := ordered
    rw [before] at rising heard
    constructor
    · simp only [segments, if_true, Nat.add_sub_cancel, ← List.append_assoc] at rising heard ⊢
      rw [List.pairwise_append]
      refine ⟨rising, List.pairwise_singleton _ _, fun k inside onset same => ?_⟩
      rw [List.mem_singleton.mp same]
      exact heard k inside
    · intro k inside
      simp only [segments, if_true, Nat.add_sub_cancel, ← List.append_assoc] at heard inside
      rcases List.mem_append.mp inside with before | now
      · exact Nat.lt_succ_of_lt (heard k before)
      · rw [List.mem_singleton.mp now]
        exact Nat.lt_succ_self _
    · exact fun _ => Nat.succ_pos _
  | ends speaking =>
    refine ordered.of_sublist rfl ?_ nofun
    simp only [segments, speaking, if_true]
    refine (List.Sublist.refl _).append ?_
    split
    · simp
    · simp
  | tells waiting => exact ordered.same (by simp [Mark.begunOf]) (by simp [Message.segmentOf]) rfl rfl rfl
  | @forwards k rest offered =>
    refine ordered.of_sublist rfl ?_ id
    simp [segments, offered, Message.segmentOf]

theorem begunOf_map {α : Type} (mark : α → Mark) (unbegun : ∀ item, (mark item).begunOf = none) (trace : List Mark)
    (items : List α) : (trace ++ items.map mark).filterMap Mark.begunOf = trace.filterMap Mark.begunOf := by
  have silent : (items.map mark).filterMap Mark.begunOf = [] := by
    rw [List.filterMap_map, List.filterMap_eq_nil_iff]
    exact fun item _ => unbegun item
  rw [List.filterMap_append, silent, List.append_nil]

theorem step_fifo {action : Action} (ordered : Fifo s) (taken : s.step setup action = some s') :
    Fifo s' := by
  cases action with
  | onset | speechEnd | tell | forward => exact ordered.listens (listen_step taken rfl)
  | receive => exact ordered.receives (receive_step taken).2
  | turn move =>
    obtain ⟨k, stage, _, moved⟩ := turn_step taken
    cases moved with
    | walks stage => exact ordered.same rfl rfl rfl rfl rfl
    | returns => exact ordered.same (by simp [returns, Mark.begunOf]) rfl rfl rfl rfl
    | hears delta here => exact ordered.same (begunOf_map (.spoke k) (fun _ => rfl) _ _) rfl rfl rfl rfl
    | speaks result provided => exact ordered.same (by simp [synthesizeAndPlay, Mark.begunOf]) rfl rfl rfl rfl
    | acts effect rest => exact ordered.same (by simp [Mark.begunOf]) rfl rfl rfl rfl
    | persists =>
      exact ordered.same (by simp [returns, Mark.begunOf]) (by simp [Message.segmentOf]) rfl rfl rfl
  | synth j choice =>
    obtain ⟨synth, _, moved⟩ := synth_step taken
    cases moved <;> exact ordered.same rfl rfl rfl rfl rfl
  | cancelTask j =>
    cases cancelTask_step taken <;> exact ordered.same rfl rfl rfl rfl rfl
  | server action =>
    obtain ⟨session, event, _, rfl⟩ := server_cases taken
    obtain ⟨flags, heard, frame⟩ := afterServer_frame s session event
    rw [frame]
    exact ordered.same rfl rfl rfl rfl rfl

end

end System

section
variable {setup : Setup} {actions : List System.Action} {final : System}

/-- In every run of the call, whatever moves in between, the actor's marks are whole turns one after the other
with barge-ins handled between them; each says and does what `turn_pipeline` alone makes of what the model
answered in it, and what the turn in progress has left is a front of what its answer so far comes to. -/
theorem turns_whole {answers : List Answer}
    (taken : run (answeredStep setup) ({}, []) actions = some (final, answers)) :
    match final.actor with
    | .idle => Turns setup answers (ofActor final.trace)
    | .turn k _ => ∃ earlier answer done part, answers = earlier ++ [answer] ∧ answer.turn = k ∧
        ofActor final.trace = done ++ part ∧ Turns setup earlier done ∧
        part <+: wholeTurn setup k answer.deltas answer.toolCalls := by
  have preserved : ∀ (watched : System × List Answer) (action : System.Action) (next : System × List Answer),
      watched.1.Sequential ∧ watched.1.Placed setup watched.2 → answeredStep setup watched action = some next →
      next.1.Sequential ∧ next.1.Placed setup next.2 := by
    intro watched action next both stepped
    obtain ⟨moved, noted⟩ := recorded_eq_some stepped
    rw [noted]
    exact ⟨System.step_sequential setup _ _ _ both.1 moved, System.step_placed both.1 both.2 moved⟩
  have start : System.Sequential {} ∧ System.Placed setup {} [] := ⟨System.initial_sequential, .start⟩
  obtain ⟨_, placed⟩ : final.Sequential ∧ final.Placed setup answers := invariant_of_any_run preserved start taken
  unfold System.Placed at placed
  cases actor : final.actor with
  | idle => simpa only [actor] using placed
  | turn k stage =>
    simp only [actor] at placed
    obtain ⟨earlier, answer, done, part, same, rfl, whole, turns, left⟩ := placed
    exact ⟨earlier, answer, done, part, same, rfl, whole, turns, left_prefix stage left⟩

/-- The turns are begun in the order in which their segments were spoken, each segment at most once. -/
theorem turns_inOrder (taken : run (System.step setup) {} actions = some final) :
    (final.trace.filterMap Mark.begunOf).Pairwise (· < ·) ∧
      ∀ k, .begun k ∈ final.trace → k < final.onsets := by
  have initial : System.Fifo {} := ⟨List.Pairwise.nil, fun k inside => absurd inside List.not_mem_nil, nofun⟩
  have ordered : final.Fifo :=
    invariant_of_any_run (fun _ _ _ before stepped => System.step_fifo before stepped) initial taken
  refine ⟨(List.pairwise_append.mp ordered.rising).1, fun k begun => ?_⟩
  exact ordered.heard k (List.mem_append_left _ (List.mem_filterMap.mpr ⟨_, begun, rfl⟩))

end

theorem bargedIn_turns_whole : ∃ final answers, run (answeredStep dtmfSetup) ({}, []) bargedIn = some (final, answers) ∧
    final.trace = bargedInTrace ∧ answers.map Answer.deltas = [["Hi. ".toList]] ∧
      answers.flatMap (fun answer => answer.toolCalls.map ToolCall.name) = ["send_dtmf", "hangup"] ∧
      Turns dtmfSetup answers (ofActor final.trace) := by
  have traced : (run (answeredStep dtmfSetup) ({}, []) bargedIn).map
      (fun watched => (watched.1.trace, watched.2.map Answer.deltas,
        watched.2.flatMap (fun answer => answer.toolCalls.map ToolCall.name), watched.1.turnNumber)) =
        some (bargedInTrace, [["Hi. ".toList]], ["send_dtmf", "hangup"], none) := by decide +kernel
  obtain ⟨⟨final, answers⟩, taken, known⟩ := Option.map_eq_some_iff.mp traced
  simp only [Prod.mk.injEq] at known
  obtain ⟨trace, deltas, calls, number⟩ := known
  have turns := turns_whole taken
  refine ⟨final, answers, taken, trace, deltas, calls, ?_⟩
  unfold System.turnNumber at number
  split at number
  next idle => rwa [idle] at turns
  next => cases number

theorem bargedIn_turns_inOrder : ∃ final, run (System.step dtmfSetup) {} bargedIn = some final ∧
    .begun 0 ∈ final.trace ∧ (final.trace.filterMap Mark.begunOf).Pairwise (· < ·) ∧
      ∀ k, .begun k ∈ final.trace → k < final.onsets := by
  have traced : (run (System.step dtmfSetup) {} bargedIn).map System.trace = some bargedInTrace := by
    decide +kernel
  obtain ⟨final, taken, trace⟩ := Option.map_eq_some_iff.mp traced
  exact ⟨final, taken, trace ▸ List.mem_cons_self, turns_inOrder taken⟩

end Fswtch.Seat.CallSystem
