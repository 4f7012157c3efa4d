import Mathlib.Data.List.Flatten
import Mathlib.Data.Rat.Defs
import Mathlib.Order.Lattice
import Mathlib.Algebra.Order.Ring.Unbundled.Rat
import Fswtch.Lib.WordOrder
import Fswtch.Seat.SentenceSplit

/-! The text of a reply on its way to TTS. While the model streams, complete sentences
are handed to spawned tasks; the whole reply is synthesized at the end only if none
was. The turn here is one with a model, not cancelled, whose stream ends well. -/

namespace Fswtch.Seat.ReplyText
open Fswtch.Lib.WordOrder Fswtch.Seat.SentenceSplit

/-- The state behind `on_text_delta`, with the sentences cut so far and those of them
handed to spawned tasks. -/
structure StreamState where
  sentenceBuffer : Text := []
  turnOpen : Bool := false
  ttsFired : Bool := false
  begins : Nat := 0
  cut : List Text := []
  spawned : List Text := []

def StreamState.onSentence (tts cancelled : Bool) (s : StreamState) (sentence : Text) :
    StreamState :=
  let s := { s with cut := s.cut ++ [sentence] }
  if isBlank sentence || cancelled then s
  else if tts then
    { s with
      begins := if s.turnOpen then s.begins else s.begins + 1
      turnOpen := true
      ttsFired := true
      spawned := s.spawned ++ [sentence] }
  else s

def StreamState.onTextDelta (tts cancelled : Bool) (s : StreamState) (delta : Text) :
    StreamState :=
  let drained := drainSentences (s.sentenceBuffer ++ delta)
  drained.1.foldl (StreamState.onSentence tts cancelled) { s with sentenceBuffer := drained.2 }

/-- The stream's deltas, each appended to the full reply and passed on. -/
def streamWithTools (tts cancelled : Bool) (deltas : List Text) : StreamState × Text :=
  deltas.foldl (fun state delta => (state.1.onTextDelta tts cancelled delta, state.2 ++ delta))
    ({}, [])

structure ToolCall where
  name : String
  arguments : String

/-- A field of a call's JSON arguments, by type. -/
structure ArgumentReader where
  stringArg : String → String → Option Text
  boolArg : String → String → Option Bool
  numberArg : String → String → Option ℚ

structure ToolExecutionResult where
  reply : Text := []
  asr : Option Text := none
  hangup : Bool := false
  hangupDelay : ℚ := 0
  dtmf : Option Text := none
  transfer : Option Text := none

def joined (before text : Text) : Text := if before = [] then text else before ++ ' ' :: text

/-- The delay asked for, or one estimated from the length of the text, within bounds. -/
def hangupDelay (args : ArgumentReader) (arguments : String) : ℚ :=
  let chars := ((args.stringArg arguments "text").map fun text => (text.length : ℚ)).getD 20
  max (1 / 2) (min 15 ((args.numberArg arguments "hangup_delay").getD (max 1 (chars * (3 / 20)))))

def speak (args : ArgumentReader) (result : ToolExecutionResult) (arguments : String) :
    ToolExecutionResult :=
  let text := (args.stringArg arguments "text").getD []
  let asr := (args.stringArg arguments "asr").getD []
  let result := if text = [] then result else { result with reply := joined result.reply text }
  let result :=
    if asr = [] then result
    else { result with asr := some (result.asr.elim asr fun before => before ++ ' ' :: asr) }
  if (args.boolArg arguments "hangup").getD false then
    { result with hangup := true, hangupDelay := hangupDelay args arguments }
  else result

def executeToolCall (args : ArgumentReader) (result : ToolExecutionResult) (call : ToolCall) :
    ToolExecutionResult :=
  if call.name = "speak" then speak args result call.arguments
  else if call.name = "hangup" then { result with hangup := true }
  else if call.name = "send_dtmf" then
    (args.stringArg call.arguments "digits").elim result fun digits =>
      { result with dtmf := some digits }
  else if call.name = "transfer" then
    (args.stringArg call.arguments "destination").elim result fun dest =>
      { result with transfer := some dest }
  else result

def executeToolCalls (args : ArgumentReader) (replyFromLlm : Text) (calls : List ToolCall) :
    ToolExecutionResult := calls.foldl (executeToolCall args) { reply := replyFromLlm }

/-- The sentences of the spawned tasks, in the order they were spawned, and the text of
the final synthesis if there is one. -/
structure TurnSpeech where
  spawned : List Text
  whole : Option Text

def turnPipeline (args : ArgumentReader) (tts : Bool) (deltas : List Text)
    (toolCalls : List ToolCall) : TurnSpeech :=
  let streamed := streamWithTools tts false deltas
  let result := executeToolCalls args streamed.2 toolCalls
  { spawned := streamed.1.spawned
    whole := if result.reply ≠ [] ∧ streamed.1.ttsFired = false ∧ tts then some result.reply else none }

/-- The texts to hand over, in the order in which the pipeline comes to them. -/
def TurnSpeech.tasks (speech : TurnSpeech) : List Text := speech.spawned ++ speech.whole.toList

def TurnSpeech.Schedule (speech : TurnSpeech) (order : List Nat) : Prop :=
  order.Perm (List.range speech.tasks.length)

instance (speech : TurnSpeech) (order : List Nat) : Decidable (speech.Schedule order) :=
  inferInstanceAs (Decidable (order.Perm _))

/-- The calls of `synthesize` in the order they are made: each task makes one when it gets to run. -/
def TurnSpeech.calls (speech : TurnSpeech) (order : List Nat) : List Text :=
  order.filterMap fun task => speech.tasks[task]?

def cutDelta (cut : List Text × Text) (delta : Text) : List Text × Text :=
  let drained := drainSentences (cut.2 ++ delta)
  (cut.1 ++ drained.1, drained.2)

def cutDeltas (deltas : List Text) : List Text × Text := deltas.foldl cutDelta ([], [])

def pieces (deltas : List Text) : List Text := (cutDeltas deltas).1 ++ [(cutDeltas deltas).2]

def SaysReply (deltas calls : List Text) : Prop :=
  ∃ kept : List Text, kept.Sublist (pieces deltas) ∧
    kept.filter (fun piece => !isBlank piece) = (pieces deltas).filter (fun piece => !isBlank piece) ∧
    kept.flatten = calls.flatten

def speaksText (args : ArgumentReader) (call : ToolCall) : Prop :=
  call.name = "speak" ∧ (args.stringArg call.arguments "text").getD [] ≠ []

instance (args : ArgumentReader) (call : ToolCall) : Decidable (speaksText args call) :=
  inferInstanceAs (Decidable (_ ∧ _))

def sentences (deltas : List Text) : List Text := (cutDeltas deltas).1.filter fun piece => !isBlank piece

/-- Behind the sentences nothing but blanks is left; where there are none, no `speak` call repeats the
text. -/
def Complete (args : ArgumentReader) (deltas : List Text) (toolCalls : List ToolCall) : Prop :=
  if sentences deltas = [] then ∀ call ∈ toolCalls, ¬speaksText args call
  else isBlank (cutDeltas deltas).2 = true

instance (args : ArgumentReader) (deltas : List Text) (toolCalls : List ToolCall) :
    Decidable (Complete args deltas toolCalls) := inferInstanceAs (Decidable (ite _ _ _))

def sentenceAt (deltas : List Text) (number : Nat) : Text := (sentences deltas)[number]?.getD []

theorem onSentence_foldl (s : StreamState) (sentences : List Text) :
    let final := sentences.foldl (StreamState.onSentence true false) s
    final.cut = s.cut ++ sentences ∧
      final.spawned = s.spawned ++ sentences.filter (fun piece => !isBlank piece) ∧
      final.ttsFired = (s.ttsFired || sentences.any fun piece => !isBlank piece) ∧
      final.sentenceBuffer = s.sentenceBuffer := by
  induction sentences generalizing s with
  | nil => simp
  | cons sentence rest ih =>
    obtain ⟨cut, spawned, fired, buffer⟩ := ih (s.onSentence true false sentence)
    cases blank : isBlank sentence <;>
      simp [StreamState.onSentence, blank] at cut spawned fired buffer ⊢ <;>
      exact ⟨cut, spawned, fired, buffer⟩

theorem onTextDelta_spec (s : StreamState) (delta : Text) :
    let drained := drainSentences (s.sentenceBuffer ++ delta)
    let next := s.onTextDelta true false delta
    next.cut = s.cut ++ drained.1 ∧
      next.spawned = s.spawned ++ drained.1.filter (fun piece => !isBlank piece) ∧
      next.ttsFired = (s.ttsFired || drained.1.any fun piece => !isBlank piece) ∧
      next.sentenceBuffer = drained.2 := onSentence_foldl _ _

theorem onTextDelta_begins (tts cancelled : Bool) (s : StreamState) (delta : Text) :
    ∃ new, (s.onTextDelta tts cancelled delta).spawned = s.spawned ++ new ∧
      (new = [] → (s.onTextDelta tts cancelled delta).begins = s.begins) := by
  have folds : ∀ (sentences : List Text) (s : StreamState),
      ∃ new, (sentences.foldl (StreamState.onSentence tts cancelled) s).spawned = s.spawned ++ new ∧
        (new = [] → (sentences.foldl (StreamState.onSentence tts cancelled) s).begins = s.begins) := by
    intro sentences
    induction sentences with
    | nil => exact fun s => ⟨[], (List.append_nil _).symm, fun _ => rfl⟩
    | cons sentence rest ih =>
      intro s
      obtain ⟨new, spawned, begins⟩ := ih (s.onSentence tts cancelled sentence)
      rw [List.foldl_cons]
      by_cases silent : (isBlank sentence || cancelled) = true ∨ tts = false
      · have kept : s.onSentence tts cancelled sentence = { s with cut := s.cut ++ [sentence] } := by
          rcases silent with silent | silent <;> simp [StreamState.onSentence, silent]
        rw [kept] at spawned begins ⊢
        exact ⟨new, spawned, begins⟩
      · rw [not_or, Bool.not_eq_true, Bool.not_eq_false] at silent
        refine ⟨sentence :: new, ?_, nofun⟩
        rw [spawned]
        simp [StreamState.onSentence, silent]
  exact folds _ _

structure Streamed (seen : List Text) (state : StreamState × Text) : Prop where
  pieces : (state.1.cut, state.1.sentenceBuffer) = cutDeltas seen
  whole : state.1.cut.flatten ++ state.1.sentenceBuffer = seen.flatten
  reply : state.2 = seen.flatten
  nonempty : ∀ sentence ∈ state.1.cut, sentence ≠ []
  spawned : state.1.spawned = state.1.cut.filter fun piece => !isBlank piece
  fired : state.1.ttsFired = state.1.cut.any fun piece => !isBlank piece

theorem onTextDelta_streamed {seen : List Text} {state : StreamState × Text}
    (known : Streamed seen state) (delta : Text) :
    Streamed (seen ++ [delta]) (state.1.onTextDelta true false delta, state.2 ++ delta) := by
  obtain ⟨cut, spawned, fired, buffer⟩ := onTextDelta_spec state.1 delta
  refine ⟨?_, ?_, ?_, ?_, ?_, ?_⟩
  · simp only [cut, buffer, cutDeltas, List.foldl_append, List.foldl_cons, List.foldl_nil]
    rw [← cutDeltas, ← known.pieces, cutDelta]
  · simp only [cut, buffer, List.flatten_append, List.append_assoc, drainSentences_flatten]
    rw [← List.append_assoc, known.whole]
    simp
  · simp [known.reply]
  · simp only [cut, List.mem_append]
    rintro sentence (old | new)
    · exact known.nonempty sentence old
    · exact drainSentences_nonempty _ sentence new
  · simp only [cut, spawned, known.spawned, List.filter_append]
  · simp only [cut, fired, known.fired, List.any_append]

theorem streamWithTools_streamed (deltas : List Text) :
    Streamed deltas (streamWithTools true false deltas) := by
  have grows : ∀ (rest seen : List Text) (state : StreamState × Text), Streamed seen state →
      Streamed (seen ++ rest) (rest.foldl
        (fun state delta => (state.1.onTextDelta true false delta, state.2 ++ delta)) state) := by
    intro rest
    induction rest with
    | nil =>
      intro seen state known
      simpa using known
    | cons delta rest ih =>
      intro seen state known
      simpa using ih (seen ++ [delta]) _ (onTextDelta_streamed known delta)
  exact grows deltas [] ({}, []) ⟨rfl, rfl, rfl, by simp, rfl, rfl⟩

theorem streamWithTools_cut (deltas : List Text) :
    (streamWithTools true false deltas).1.cut = (cutDeltas deltas).1 :=
  congrArg Prod.fst (streamWithTools_streamed deltas).pieces

theorem streamWithTools_spawned (deltas : List Text) :
    (streamWithTools true false deltas).1.spawned = sentences deltas := by
  rw [(streamWithTools_streamed deltas).spawned, streamWithTools_cut, sentences]

theorem streamWithTools_fired (deltas : List Text) :
    (streamWithTools true false deltas).1.ttsFired = false ↔ sentences deltas = [] := by
  rw [(streamWithTools_streamed deltas).fired, streamWithTools_cut, sentences, List.filter_eq_nil_iff,
    List.any_eq_false]

/-- Cutting loses and reorders nothing. -/
theorem pieces_flatten (deltas : List Text) : (pieces deltas).flatten = deltas.flatten := by
  have known := streamWithTools_streamed deltas
  have buffer : (streamWithTools true false deltas).1.sentenceBuffer = (cutDeltas deltas).2 :=
    congrArg Prod.snd known.pieces
  have whole := known.whole
  rw [streamWithTools_cut, buffer] at whole
  simpa [pieces] using whole

theorem joined_length_lt {before text : Text} (nonempty : text ≠ []) :
    before.length < (joined before text).length := by
  have positive := List.length_pos_of_ne_nil nonempty
  unfold joined
  split
  next empty => simpa [empty] using positive
  next =>
    rw [List.length_append, List.length_cons]
    omega

theorem executeToolCall_reply (args : ArgumentReader) (result : ToolExecutionResult)
    (call : ToolCall) :
    (executeToolCall args result call).reply =
      if call.name = "speak" ∧ (args.stringArg call.arguments "text").getD [] ≠ [] then
        joined result.reply ((args.stringArg call.arguments "text").getD [])
      else result.reply := by
  unfold executeToolCall
  by_cases spoken : call.name = "speak"
  · rw [if_pos spoken]
    unfold speak
    by_cases empty : (args.stringArg call.arguments "text").getD [] = []
    · simp only [empty, ne_eq, not_true_eq_false, and_false, if_false, if_true]
      split <;> split <;> rfl
    · simp only [empty, spoken, ne_eq, not_false_eq_true, and_self, if_true, if_false]
      split <;> split <;> rfl
  · have unspoken : (if call.name = "speak" ∧ (args.stringArg call.arguments "text").getD [] ≠ []
        then joined result.reply ((args.stringArg call.arguments "text").getD [])
        else result.reply) = result.reply := if_neg fun both => spoken both.1
    rw [unspoken, if_neg spoken]
    split
    · rfl
    split
    · cases args.stringArg call.arguments "digits" <;> rfl
    split
    · cases args.stringArg call.arguments "destination" <;> rfl
    · rfl

theorem executeToolCalls_reply_le (args : ArgumentReader) (result : ToolExecutionResult)
    (calls : List ToolCall) :
    result.reply.length ≤ (calls.foldl (executeToolCall args) result).reply.length := by
  induction calls generalizing result with
  | nil => exact le_refl _
  | cons call rest ih =>
    refine le_trans ?_ (ih (executeToolCall args result call))
    rw [executeToolCall_reply]
    split
    next spoken => exact (joined_length_lt spoken.2).le
    next => exact le_refl _

theorem executeToolCalls_reply_silent (args : ArgumentReader) (result : ToolExecutionResult)
    (calls : List ToolCall) (silent : ∀ call ∈ calls, ¬speaksText args call) :
    (calls.foldl (executeToolCall args) result).reply = result.reply := by
  induction calls generalizing result with
  | nil => rfl
  | cons call rest ih =>
    rw [List.foldl_cons, ih _ fun other member => silent other (List.mem_cons_of_mem _ member),
      executeToolCall_reply]
    exact if_neg (silent call List.mem_cons_self)

theorem executeToolCalls_reply_spoken (args : ArgumentReader) (result : ToolExecutionResult)
    (calls : List ToolCall) (spoken : ∃ call ∈ calls, speaksText args call) :
    result.reply.length < (calls.foldl (executeToolCall args) result).reply.length := by
  obtain ⟨call, member, speaks⟩ := spoken
  induction calls generalizing result with
  | nil => cases member
  | cons first rest ih =>
    rcases List.mem_cons.mp member with rfl | later
    · refine lt_of_lt_of_le ?_ (executeToolCalls_reply_le args _ rest)
      rw [executeToolCall_reply]
      exact (joined_length_lt speaks.2).trans_eq (congrArg List.length (if_pos speaks).symm)
    · exact lt_of_le_of_lt (executeToolCalls_reply_le args result [first])
        (ih (executeToolCall args result first) later)

theorem flatten_eq_of_short {kept : List Text}
    (short : kept.flatten.length ≤ (kept.filter fun piece => !isBlank piece).flatten.length) :
    kept.flatten = (kept.filter fun piece => !isBlank piece).flatten := by
  induction kept with
  | nil => rfl
  | cons piece rest ih =>
    have bound := (rest.filter_sublist (p := fun piece => !isBlank piece)).flatten.length_le
    cases blank : isBlank piece with
    | true =>
      simp only [List.filter_cons, blank, Bool.not_true, Bool.false_eq_true, if_false,
        List.flatten_cons, List.length_append] at short ⊢
      have empty : piece = [] := List.eq_nil_of_length_eq_zero (by omega)
      rw [empty, List.nil_append]
      exact ih (by omega)
    | false =>
      simp only [List.filter_cons, blank, Bool.not_false, if_true, List.flatten_cons,
        List.length_append] at short ⊢
      rw [ih (by omega)]

theorem pieces_filter (deltas : List Text) :
    (pieces deltas).filter (fun piece => !isBlank piece) =
      sentences deltas ++ [(cutDeltas deltas).2].filter fun piece => !isBlank piece := by
  rw [pieces, List.filter_append, sentences]

/-- The sentences, in any order, say the reply exactly if nothing but blanks is left behind them and they
read like the sentences in order. -/
theorem saysReply_sentences {deltas calls : List Text} (order : calls.Perm (sentences deltas)) :
    SaysReply deltas calls ↔
      isBlank (cutDeltas deltas).2 = true ∧ calls.flatten = (sentences deltas).flatten := by
  have size := order.flatten.length_eq
  constructor
  · rintro ⟨kept, sub, same, said⟩
    have filtered := same.trans (pieces_filter deltas)
    have bound := (kept.filter_sublist (p := fun piece => !isBlank piece)).flatten.length_le
    rw [filtered, said, size] at bound
    cases blank : isBlank (cutDeltas deltas).2 with
    | true =>
      have none : [(cutDeltas deltas).2].filter (fun piece => !isBlank piece) = [] := by
        simp [blank]
      rw [none, List.append_nil] at filtered
      refine ⟨rfl, ?_⟩
      have short : kept.flatten.length ≤
          (kept.filter fun piece => !isBlank piece).flatten.length := by
        rw [said, size, filtered]
      rw [← said, flatten_eq_of_short short, filtered]
    | false =>
      have nonempty : (cutDeltas deltas).2 ≠ [] := by
        rintro empty
        rw [empty] at blank
        cases blank
      have positive := List.length_pos_of_ne_nil nonempty
      have some : [(cutDeltas deltas).2].filter (fun piece => !isBlank piece) = [(cutDeltas deltas).2] := by
        simp [blank]
      rw [some] at bound
      simp only [List.flatten_append, List.flatten_cons, List.flatten_nil, List.append_nil,
        List.length_append] at bound
      omega
  · rintro ⟨blank, said⟩
    have none : [(cutDeltas deltas).2].filter (fun piece => !isBlank piece) = [] := by
      simp [blank]
    refine ⟨sentences deltas, ?_, ?_, said.symm⟩
    · exact List.filter_sublist.trans (List.sublist_append_left _ _)
    · rw [pieces_filter, none, List.append_nil, sentences, List.filter_filter]
      simp

theorem saysReply_whole (args : ArgumentReader) (deltas calls : List Text)
    (toolCalls : List ToolCall)
    (said : calls.flatten = (executeToolCalls args deltas.flatten toolCalls).reply) :
    SaysReply deltas calls ↔ ∀ call ∈ toolCalls, ¬speaksText args call := by
  constructor
  · rintro ⟨kept, sub, _, same⟩ call member spoken
    have longer := executeToolCalls_reply_spoken args { reply := deltas.flatten } toolCalls
      ⟨call, member, spoken⟩
    have bound := sub.flatten.length_le
    rw [same, said, pieces_flatten] at bound
    exact absurd longer (by simpa [executeToolCalls] using bound)
  · intro silent
    refine ⟨pieces deltas, List.Sublist.refl _, rfl, ?_⟩
    rw [pieces_flatten, said]
    exact (executeToolCalls_reply_silent args { reply := deltas.flatten } toolCalls silent).symm

theorem calls_flatten (speech : TurnSpeech) (order : List Nat) :
    (speech.calls order).flatten = order.flatMap fun task => speech.tasks[task]?.getD [] := by
  induction order with
  | nil => rfl
  | cons task rest ih =>
    rw [List.flatMap_cons, ← ih, TurnSpeech.calls, List.filterMap_cons]
    cases speech.tasks[task]? <;> rfl

theorem calls_range (speech : TurnSpeech) :
    speech.calls (List.range speech.tasks.length) = speech.tasks := filterMap_range speech.tasks

theorem calls_perm {speech : TurnSpeech} {order : List Nat} (schedule : speech.Schedule order) :
    (speech.calls order).Perm speech.tasks := by
  have all : (speech.calls order).Perm (speech.calls (List.range speech.tasks.length)) := schedule.filterMap _
  rwa [calls_range] at all

section Turn

variable (args : ArgumentReader) {deltas : List Text} (toolCalls : List ToolCall)

theorem turnPipeline_tasks (some : sentences deltas ≠ []) :
    (turnPipeline args true deltas toolCalls).tasks = sentences deltas := by
  have fired : ¬(streamWithTools true false deltas).1.ttsFired = false :=
    fun quiet => some ((streamWithTools_fired deltas).mp quiet)
  simp [TurnSpeech.tasks, turnPipeline, fired, streamWithTools_spawned]

theorem calls_whole (none : sentences deltas = []) {calls : List Text}
    (perm : calls.Perm (turnPipeline args true deltas toolCalls).tasks) :
    calls.flatten = (executeToolCalls args deltas.flatten toolCalls).reply := by
  have quiet := (streamWithTools_fired deltas).mpr none
  simp only [TurnSpeech.tasks, turnPipeline, streamWithTools_spawned, none, quiet,
    (streamWithTools_streamed deltas).reply, and_true, List.nil_append] at perm
  split at perm
  next =>
    rw [List.perm_singleton.mp perm]
    simp
  next empty =>
    rw [List.perm_nil.mp perm, List.flatten_nil]
    exact (not_not.mp empty).symm

theorem saysReply_schedule {order : List Nat}
    (schedule : (turnPipeline args true deltas toolCalls).Schedule order) :
    SaysReply deltas ((turnPipeline args true deltas toolCalls).calls order) ↔
      Complete args deltas toolCalls ∧ (sentences deltas ≠ [] →
        order.flatMap (sentenceAt deltas) = (sentences deltas).flatten) := by
  unfold Complete
  have perm := calls_perm schedule
  by_cases none : sentences deltas = []
  · rw [if_pos none, saysReply_whole args deltas _ toolCalls (calls_whole args toolCalls none perm)]
    simp [none]
  · have tasks := turnPipeline_tasks args toolCalls none
    rw [if_neg none, saysReply_sentences (tasks ▸ perm), calls_flatten, tasks]
    simp only [none, not_false_eq_true, ne_eq, forall_const]
    rfl

/-- The text of a turn gets through a schedule, if the sentences that overtake others read the same in
either order, exactly where it is complete, and where it is not complete it gets through none. It gets
through all schedules exactly where it is complete and every two sentences read the same in either order. -/
theorem saysReply_iff (deltas : List Text) :
    (∀ order, (turnPipeline args true deltas toolCalls).Schedule order →
      (SaysReply deltas ((turnPipeline args true deltas toolCalls).calls order) →
        Complete args deltas toolCalls) ∧
      (OvertakesAlike (sentenceAt deltas) order → Complete args deltas toolCalls →
        SaysReply deltas ((turnPipeline args true deltas toolCalls).calls order))) ∧
    ((∀ order, (turnPipeline args true deltas toolCalls).Schedule order →
        SaysReply deltas ((turnPipeline args true deltas toolCalls).calls order)) ↔
      Complete args deltas toolCalls ∧
        ∀ first ∈ sentences deltas, ∀ second ∈ sentences deltas, Alike first second) := by
  have through : ∀ order, (turnPipeline args true deltas toolCalls).Schedule order →
      OvertakesAlike (sentenceAt deltas) order → Complete args deltas toolCalls →
      SaysReply deltas ((turnPipeline args true deltas toolCalls).calls order) := by
    intro order schedule alike complete
    refine (saysReply_schedule args toolCalls schedule).mpr ⟨complete, fun some => ?_⟩
    rw [TurnSpeech.Schedule, turnPipeline_tasks args toolCalls some] at schedule
    rw [flatMap_eq_range schedule alike]
    exact flatMap_range (sentences deltas)
  refine ⟨fun order schedule => ⟨fun said => ((saysReply_schedule args toolCalls schedule).mp said).1,
    through order schedule⟩, fun all => ?_, ?_⟩
  · have inOrder := (saysReply_schedule args toolCalls (List.Perm.refl _)).mp (all _ (List.Perm.refl _))
    refine ⟨inOrder.1, fun first member second memberToo => ?_⟩
    have some : sentences deltas ≠ [] := List.ne_nil_of_mem member
    obtain ⟨i, below, rfl⟩ := List.getElem_of_mem member
    obtain ⟨j, belowToo, rfl⟩ := List.getElem_of_mem memberToo
    have same : ∀ order : List Nat, order.Perm (List.range (sentences deltas).length) →
        order.flatMap (sentenceAt deltas) =
          (List.range (sentences deltas).length).flatMap (sentenceAt deltas) := by
      intro order perm
      have schedule : (turnPipeline args true deltas toolCalls).Schedule order := by
        rwa [TurnSpeech.Schedule, turnPipeline_tasks args toolCalls some]
      exact (((saysReply_schedule args toolCalls schedule).mp (all order schedule)).2 some).trans
        (flatMap_range (sentences deltas)).symm
    have alike := alike_of_orders same below belowToo
    simpa [sentenceAt, below, belowToo] using alike
  · rintro ⟨complete, alike⟩ order schedule
    refine through order schedule ?_ complete
    refine List.pairwise_of_forall fun one other _ => ?_
    unfold sentenceAt
    cases at_ : (sentences deltas)[one]? with
    | none => exact (List.append_nil _).symm
    | some first =>
      cases atToo : (sentences deltas)[other]? with
      | none => exact List.append_nil _
      | some second => exact alike first (List.mem_of_getElem? at_) second (List.mem_of_getElem? atToo)

end Turn

def noArguments : ArgumentReader := ⟨fun _ _ => none, fun _ _ => none, fun _ _ => none⟩

/-- A reply cut in two over three deltas, a line break behind it. -/
def twoSentences : List Text := ["Hi. Th".toList, "ere.".toList, "\n".toList]

theorem twoSentences_saysReply :
    (turnPipeline noArguments true twoSentences []).calls [0, 1] = ["Hi. ".toList, "There.".toList] ∧
      SaysReply twoSentences ((turnPipeline noArguments true twoSentences []).calls [0, 1]) :=
  ⟨by decide +kernel, (((saysReply_iff noArguments [] twoSentences).1 [0, 1] (by decide +kernel)).2
    (by decide +kernel) (by decide +kernel))⟩

/-- The words behind the last boundary are never handed over. -/
theorem not_saysReply_remainder :
    (turnPipeline noArguments true ["Hi. there".toList] []).calls [0] = ["Hi. ".toList] ∧
      ¬SaysReply ["Hi. there".toList] ["Hi. ".toList] := by
  refine ⟨by decide +kernel, ?_⟩
  intro said
  have blank := ((saysReply_sentences (List.Perm.of_eq (by decide +kernel))).mp said).1
  revert blank
  decide +kernel

end Fswtch.Seat.ReplyText
