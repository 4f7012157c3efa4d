import Mathlib.Data.List.Induction
import Fswtch.Lib.StepRun
import Fswtch.Seat.DoubaoStream

/-! The text of a `speak` call on its way through a turn. Its arguments may be forwarded as
they stream in, and stage 3 adds the text of the completed call. Every character carries
where it comes from, so that the share of a call in the message and in what TTS is handed
can be read off. The turn is one with a model and TTS that is not cancelled. -/

namespace Fswtch.Seat.SpokenOnce
open Fswtch.Lib.StepRun Fswtch.Lib.CharBytes Fswtch.Lib.ChunkedText
open Fswtch.Seat.SentenceSplit Fswtch.Seat.ReplyText Fswtch.Seat.DoubaoStream

abbrev Event := String × Json

def step (s : StreamingState) (event : Event) : Option StreamingState := s.onEvent event.1 event.2

/-- The events of a response, handled in order; `none` when handling one panics. -/
def stream (events : List Event) : Option StreamingState := run step {} events

def parsed (parse : Parser) (blocks : List Text) : List Event :=
  blocks.filterMap fun block =>
    if (readBlock block).2 = [] then none
    else (parse (readBlock block).2).map fun data => ((readBlock block).1, data)

def unrecorded (s : StreamingState) : StreamingState := { s with events := [] }

theorem onArgumentsDelta_unrecorded (s : StreamingState) (data : Json) :
    (unrecorded s).onArgumentsDelta data = (s.onArgumentsDelta data).map unrecorded := by
  unfold StreamingState.onArgumentsDelta
  split
  next => rfl
  next delta _ =>
    by_cases speaking : s.pendingName = some "speak"
    · simp only [unrecorded, speaking, if_true]
      cases extractPartialJsonString (s.pendingArgs ++ delta) "text".toList with
      | none => rfl
      | some found =>
        cases found with
        | none => rfl
        | some textSoFar =>
          simp only [Option.bind_some, Option.elim_some, StreamingState.forwardSuffix]
          split
          next => cases splitBytes s.forwardedTextLen textSoFar <;> rfl
          next => rfl
    · simp only [unrecorded, speaking, if_false]
      rfl

theorem onEvent_unrecorded (s : StreamingState) (eventType : String) (data : Json) :
    (unrecorded s).onEvent eventType data = (s.onEvent eventType data).map unrecorded := by
  unfold StreamingState.onEvent
  split
  next =>
    unfold StreamingState.onOutputTextDelta
    split <;> rfl
  split
  next =>
    unfold StreamingState.onOutputItemAdded
    split
    next => split <;> rfl
    next => rfl
  split
  next => exact onArgumentsDelta_unrecorded s data
  split
  next =>
    unfold StreamingState.onOutputItemDone
    split
    next => split <;> rfl
    next => rfl
  next => rfl

theorem streamWithTools_stream (parse : Parser) (chunks : List (List UInt8)) :
    (streamWithTools parse chunks).map unrecorded = stream (parsed parse (blocks chunks)) := by
  have folds : ∀ (blocks : List Text) (s : StreamingState),
      (blocks.foldlM (onBlock parse) s).map unrecorded =
        run step (unrecorded s) (parsed parse blocks) := by
    intro blocks
    induction blocks with
    | nil => exact fun s => rfl
    | cons block rest ih =>
      intro s
      rw [List.foldlM_cons, parsed, List.filterMap_cons]
      unfold onBlock
      simp only
      by_cases empty : (readBlock block).2 = []
      · simp only [if_pos empty]
        exact ih s
      · simp only [if_neg empty]
        cases parse (readBlock block).2 with
        | none => exact ih { s with events := s.events ++ [readBlock block] }
        | some data =>
          simp only [Option.map_some, run, step]
          rw [onEvent_unrecorded s]
          have recording := onEvent_unrecorded { s with events := s.events ++ [readBlock block] }
            (readBlock block).1 data
          have same : unrecorded { s with events := s.events ++ [readBlock block] } = unrecorded s := rfl
          rw [same, onEvent_unrecorded s] at recording
          rw [recording]
          cases StreamingState.onEvent { s with events := s.events ++ [readBlock block] }
            (readBlock block).1 data with
          | none => rfl
          | some next => exact ih next
  rw [streamWithTools_eq]
  exact folds _ _

theorem step_arguments (s : StreamingState) {event : Event}
    (arguments : event.1 = "response.function_call_arguments.delta") :
    step s event = s.onArgumentsDelta event.2 := by
  unfold step StreamingState.onEvent
  rw [arguments, if_neg (by decide), if_neg (by decide), if_pos rfl]

def TextComes (s : StreamingState) (event : Event) : Prop :=
  event.1 = "response.function_call_arguments.delta" ∧ s.pendingName = some "speak" ∧
    ∃ delta text, event.2.getStr "delta" = some delta ∧
      extractPartialJsonString (s.pendingArgs ++ delta) "text".toList = some (some text) ∧ text ≠ []

/-- If the event extends the arguments of the pending `speak` call, their text and its new
suffix are cut at character boundaries. -/
def Sliceable (s : StreamingState) (event : Event) : Prop :=
  event.1 = "response.function_call_arguments.delta" → s.pendingName = some "speak" →
    ∀ delta, event.2.getStr "delta" = some delta →
      ∃ found, extractPartialJsonString (s.pendingArgs ++ delta) "text".toList = some found ∧
        ∀ text, found = some text → s.forwardedTextLen < byteLen text →
          (splitBytes s.forwardedTextLen text).isSome

theorem sliceable_iff {s : StreamingState} {event : Event} {delta : Text}
    (arguments : event.1 = "response.function_call_arguments.delta")
    (speaking : s.pendingName = some "speak") (read : event.2.getStr "delta" = some delta) :
    Sliceable s event ↔
      ∃ found, extractPartialJsonString (s.pendingArgs ++ delta) "text".toList = some found ∧
        ∀ text, found = some text → s.forwardedTextLen < byteLen text →
          (splitBytes s.forwardedTextLen text).isSome := by
  constructor
  · exact fun sliceable => sliceable arguments speaking delta read
  · intro known _ _ other same
    cases read.symm.trans same
    exact known

theorem forwardSuffix_isSome (s : StreamingState) (text : Text) :
    (s.forwardSuffix text).isSome ↔
      (s.forwardedTextLen < byteLen text → (splitBytes s.forwardedTextLen text).isSome) := by
  unfold StreamingState.forwardSuffix
  by_cases longer : s.forwardedTextLen < byteLen text
  · simp [longer]
  · simp [longer]

theorem onArgumentsDelta_isSome (s : StreamingState) {event : Event}
    (arguments : event.1 = "response.function_call_arguments.delta") :
    (s.onArgumentsDelta event.2).isSome ↔ Sliceable s event := by
  unfold StreamingState.onArgumentsDelta
  split
  next unread =>
    refine iff_of_true rfl fun _ _ delta read => ?_
    cases unread.symm.trans read
  next delta read =>
    by_cases speaking : s.pendingName = some "speak"
    · rw [sliceable_iff arguments speaking read]
      simp only [if_pos speaking]
      cases extractPartialJsonString (s.pendingArgs ++ delta) "text".toList with
      | none => simp
      | some found =>
        cases found with
        | none => simp
        | some text =>
          simp only [Option.bind_some, Option.elim_some]
          refine (forwardSuffix_isSome _ _).trans ?_
          simp
    · simp [Sliceable, speaking]

/-- Handling an event panics exactly when it slices a string off a boundary. -/
theorem step_isSome (s : StreamingState) (event : Event) : (step s event).isSome ↔ Sliceable s event := by
  by_cases arguments : event.1 = "response.function_call_arguments.delta"
  · rw [step_arguments s arguments]
    exact onArgumentsDelta_isSome s arguments
  · have sliceable : Sliceable s event := fun same => absurd same arguments
    refine iff_of_true ?_ sliceable
    unfold step StreamingState.onEvent
    rw [if_neg arguments]
    split
    next => rfl
    split
    next => rfl
    split <;> rfl

def Recorded (s : StreamingState) (item : Nat) : Prop :=
  ∃ text, text ≠ [] ∧ (Origin.argument item, text) ∈ s.deltas

structure Sound (s : StreamingState) : Prop where
  reply : s.fullReply = (s.deltas.map Prod.snd).flatten
  announced : s.pendingName.isSome → s.pendingItem.isSome
  forwarded : 0 < s.forwardedTextLen → ∃ item, s.pendingItem = some item ∧ Recorded s item
  paired : s.items.length = s.toolCalls.length

theorem recorded_forward (s : StreamingState) (origin : Origin) (text : Text) (item : Nat) :
    Recorded (s.forward origin text) item ↔ Recorded s item ∨ origin = .argument item ∧ text ≠ [] := by
  unfold Recorded StreamingState.forward
  constructor
  · rintro ⟨known, nonempty, member⟩
    rcases List.mem_append.mp member with old | new
    · exact Or.inl ⟨known, nonempty, old⟩
    · cases List.mem_singleton.mp new
      exact Or.inr ⟨rfl, nonempty⟩
  · rintro (⟨known, nonempty, member⟩ | ⟨rfl, nonempty⟩)
    · exact ⟨known, nonempty, List.mem_append_left _ member⟩
    · exact ⟨text, nonempty, List.mem_append_right _ (List.mem_singleton.mpr rfl)⟩

theorem forward_reply {s : StreamingState} (sound : Sound s) (origin : Origin) (text : Text) :
    (s.forward origin text).fullReply =
      ((s.forward origin text).deltas.map Prod.snd).flatten := by
  simp [StreamingState.forward, sound.reply]

theorem sound_of_kept {s next : StreamingState} (sound : Sound s) (deltas : next.deltas = s.deltas)
    (reply : next.fullReply = s.fullReply) (announced : next.pendingName.isSome → next.pendingItem.isSome)
    (forwarded : next.forwardedTextLen = 0 ∨
      next.forwardedTextLen = s.forwardedTextLen ∧ next.pendingItem = s.pendingItem)
    (paired : next.items.length = next.toolCalls.length) :
    Sound next ∧ ∀ item, Recorded next item ↔ Recorded s item := by
  have same : ∀ item, Recorded next item ↔ Recorded s item := fun item => by
    unfold Recorded
    rw [deltas]
  refine ⟨⟨?_, announced, ?_, paired⟩, same⟩
  · rw [reply, deltas, sound.reply]
  · intro positive
    rcases forwarded with none | ⟨length, pending⟩
    · omega
    · rw [length] at positive
      obtain ⟨item, known, record⟩ := sound.forwarded positive
      exact ⟨item, pending.trans known, (same item).mpr record⟩

theorem sound_of_idle {s next : StreamingState} (sound : Sound s)
    (idle : next = s ∨ ∃ args, next = { s with pendingArgs := args }) :
    Sound next ∧ ∀ item, Recorded next item ↔ Recorded s item := by
  rcases idle with rfl | ⟨args, rfl⟩
  · exact sound_of_kept sound rfl rfl sound.announced (Or.inr ⟨rfl, rfl⟩) sound.paired
  · exact sound_of_kept sound rfl rfl sound.announced (Or.inr ⟨rfl, rfl⟩) sound.paired

theorem textComes_iff {s : StreamingState} {event : Event} {delta text : Text}
    (arguments : event.1 = "response.function_call_arguments.delta")
    (speaking : s.pendingName = some "speak") (read : event.2.getStr "delta" = some delta)
    (known : extractPartialJsonString (s.pendingArgs ++ delta) "text".toList = some (some text)) :
    TextComes s event ↔ text ≠ [] := by
  constructor
  · rintro ⟨_, _, other, otherText, readToo, knownToo, nonempty⟩
    cases read.symm.trans readToo
    cases known.symm.trans knownToo
    exact nonempty
  · exact fun nonempty => ⟨arguments, speaking, delta, text, read, known, nonempty⟩

theorem byteLen_pos {text : Text} (nonempty : text ≠ []) : 0 < byteLen text := by
  cases text with
  | nil => exact absurd rfl nonempty
  | cons c rest =>
    rw [byteLen_cons]
    have size := c.utf8Size_pos
    omega

theorem forwardSuffix_sound {s next : StreamingState} {text : Text} {item : Nat} (sound : Sound s)
    (pending : s.pendingItem = some item) (forwarded : s.forwardSuffix text = some next) :
    Sound next ∧ ∀ other, Recorded next other ↔
      Recorded s other ∨ s.pendingItem = some other ∧ text ≠ [] := by
  have origin : s.origin = .argument item := by
    unfold StreamingState.origin
    rw [pending]
    rfl
  unfold StreamingState.forwardSuffix at forwarded
  split at forwarded
  next longer =>
    obtain ⟨halves, cut, rfl⟩ := Option.map_eq_some_iff.mp forwarded
    obtain ⟨rfl, front⟩ := splitBytes_eq_some cut
    rw [byteLen_append, front] at longer
    have suffix : halves.2 ≠ [] := by
      intro empty
      rw [empty, byteLen_nil] at longer
      omega
    have nonempty : halves.1 ++ halves.2 ≠ [] := by simp [suffix]
    have records : ∀ other, Recorded (s.forward (.argument item) halves.2) other ↔
        Recorded s other ∨ s.pendingItem = some other ∧ halves.1 ++ halves.2 ≠ [] := by
      intro other
      rw [recorded_forward, pending]
      simp only [Origin.argument.injEq, Option.some.injEq, suffix, nonempty, ne_eq, not_false_eq_true, and_true]
    rw [origin]
    refine ⟨⟨?_, sound.announced, fun _ => ⟨item, pending, ?_⟩, sound.paired⟩, records⟩
    · exact forward_reply sound _ _
    · exact (records item).mpr (Or.inr ⟨pending, nonempty⟩)
  next short =>
    cases forwarded
    refine ⟨sound, fun other => (or_iff_left_of_imp ?_).symm⟩
    rintro ⟨named, nonempty⟩
    have positive := byteLen_pos nonempty
    obtain ⟨known, pendingToo, record⟩ := sound.forwarded (by omega)
    cases pendingToo.symm.trans named
    exact record

theorem onArgumentsDelta_sound {s next : StreamingState} {event : Event} (sound : Sound s)
    (arguments : event.1 = "response.function_call_arguments.delta")
    (handled : s.onArgumentsDelta event.2 = some next) :
    Sound next ∧ ∀ item, Recorded next item ↔
      Recorded s item ∨ s.pendingItem = some item ∧ TextComes s event := by
  have silent : (next = s ∨ ∃ args, next = { s with pendingArgs := args }) → ¬TextComes s event →
      Sound next ∧ ∀ item, Recorded next item ↔
        Recorded s item ∨ s.pendingItem = some item ∧ TextComes s event := by
    intro idle nothing
    obtain ⟨kept, same⟩ := sound_of_idle sound idle
    refine ⟨kept, fun item => ?_⟩
    rw [same item]
    exact (or_iff_left fun comes => nothing comes.2).symm
  unfold StreamingState.onArgumentsDelta at handled
  split at handled
  next unread =>
    cases handled
    refine silent (Or.inl rfl) ?_
    rintro ⟨_, _, delta, _, read, _⟩
    cases unread.symm.trans read
  next delta read =>
    simp only at handled
    split at handled
    next speaking =>
      obtain ⟨found, extracted, forwarded⟩ := Option.bind_eq_some_iff.mp handled
      cases found with
      | none =>
        cases forwarded
        refine silent (Or.inr ⟨_, rfl⟩) ?_
        rintro ⟨_, _, other, _, readToo, known, _⟩
        cases read.symm.trans readToo
        cases extracted.symm.trans known
      | some text =>
        obtain ⟨item, pending⟩ := Option.isSome_iff_exists.mp (sound.announced (by rw [speaking]; rfl))
        obtain ⟨received, same⟩ := sound_of_idle sound (Or.inr ⟨s.pendingArgs ++ delta, rfl⟩)
        obtain ⟨after, records⟩ := forwardSuffix_sound received pending forwarded
        refine ⟨after, fun other => ?_⟩
        rw [records other, same other, textComes_iff arguments speaking read extracted]
    next quiet =>
      cases handled
      exact silent (Or.inr ⟨_, rfl⟩) fun comes => quiet comes.2.1

theorem step_sound {s next : StreamingState} {event : Event} (sound : Sound s)
    (stepped : step s event = some next) :
    Sound next ∧ ∀ item, Recorded next item ↔
      Recorded s item ∨ s.pendingItem = some item ∧ TextComes s event := by
  by_cases arguments : event.1 = "response.function_call_arguments.delta"
  · rw [step_arguments s arguments] at stepped
    exact onArgumentsDelta_sound sound arguments stepped
  · have silent : (Sound next ∧ ∀ item, Recorded next item ↔ Recorded s item) →
        Sound next ∧ ∀ item, Recorded next item ↔
          Recorded s item ∨ s.pendingItem = some item ∧ TextComes s event := by
      rintro ⟨soundToo, same⟩
      refine ⟨soundToo, fun item => (same item).trans ?_⟩
      exact (or_iff_left fun comes => arguments comes.2.1).symm
    have idle : Sound s ∧ ∀ item, Recorded s item ↔ Recorded s item := ⟨sound, fun item => Iff.rfl⟩
    refine silent ?_
    unfold step StreamingState.onEvent at stepped
    rw [if_neg arguments] at stepped
    split at stepped
    next =>
      cases stepped
      unfold StreamingState.onOutputTextDelta
      split
      next delta _ =>
        have records := recorded_forward s .text delta
        refine ⟨⟨forward_reply sound .text delta, sound.announced, fun positive => ?_, sound.paired⟩,
          fun item => (records item).trans (or_iff_left nofun)⟩
        obtain ⟨item, pending, record⟩ := sound.forwarded positive
        exact ⟨item, pending, (records item).mpr (Or.inl record)⟩
      next => exact idle
    split at stepped
    next =>
      cases stepped
      unfold StreamingState.onOutputItemAdded
      split
      next =>
        split
        next => exact sound_of_kept sound rfl rfl (fun _ => rfl) (Or.inl rfl) sound.paired
        next => exact idle
      next => exact idle
    split at stepped
    next =>
      cases stepped
      unfold StreamingState.onOutputItemDone
      simp only
      split
      next =>
        split
        next => exact sound_of_kept sound rfl rfl nofun (Or.inl rfl) (by simp [sound.paired])
        next => exact sound_of_kept sound rfl rfl nofun (Or.inl rfl) sound.paired
      next => exact sound_of_kept sound rfl rfl nofun (Or.inl rfl) sound.paired
    next =>
      cases stepped
      exact idle

def Forwards (events : List Event) (item : Nat) : Prop :=
  ∃ before event after s, events = before ++ event :: after ∧ stream before = some s ∧
    s.pendingItem = some item ∧ TextComes s event

theorem stream_append {events : List Event} {event : Event} {final : StreamingState}
    (streamed : stream (events ++ [event]) = some final) :
    ∃ s, stream events = some s ∧ step s event = some final := by
  rw [stream, run_append] at streamed
  obtain ⟨s, first, last⟩ := Option.bind_eq_some_iff.mp streamed
  obtain ⟨next, stepped, done⟩ := run_cons last
  cases done
  exact ⟨s, first, stepped⟩

theorem forwards_append {events : List Event} {event : Event} {s : StreamingState} (item : Nat)
    (streamed : stream events = some s) :
    Forwards (events ++ [event]) item ↔
      Forwards events item ∨ s.pendingItem = some item ∧ TextComes s event := by
  constructor
  · rintro ⟨before, other, after, at_, split, reached, pending, comes⟩
    rcases split_concat split with ⟨_, rfl, rfl⟩ | ⟨rest, _, inside⟩
    · cases streamed.symm.trans reached
      exact Or.inr ⟨pending, comes⟩
    · exact Or.inl ⟨before, other, rest, at_, inside, reached, pending, comes⟩
  · rintro (⟨before, other, after, at_, rfl, reached, pending, comes⟩ | ⟨pending, comes⟩)
    · exact ⟨before, other, after ++ [event], at_, by simp, reached, pending, comes⟩
    · exact ⟨events, event, [], s, rfl, streamed, pending, comes⟩

theorem stream_sound {events : List Event} {s : StreamingState} (streamed : stream events = some s) :
    Sound s ∧ ∀ item, Recorded s item ↔ Forwards events item := by
  induction events using List.reverseRecOn generalizing s with
  | nil =>
    cases streamed
    refine ⟨⟨rfl, nofun, fun positive => absurd positive (by decide), rfl⟩, fun item => ?_⟩
    refine iff_of_false ?_ ?_
    · rintro ⟨text, _, member⟩
      cases member
    · rintro ⟨before, event, after, _, split, _⟩
      simp at split
  | append_singleton before event ih =>
    obtain ⟨middle, reached, stepped⟩ := stream_append streamed
    obtain ⟨sound, same⟩ := ih reached
    obtain ⟨soundToo, step⟩ := step_sound sound stepped
    refine ⟨soundToo, fun item => ?_⟩
    rw [step item, same item, forwards_append item reached]

/-- A response comes to its end exactly when every event can be handled. -/
theorem stream_isSome (events : List Event) :
    (stream events).isSome ↔ ∀ before event after s, events = before ++ event :: after →
      stream before = some s → Sliceable s event := by
  induction events using List.reverseRecOn with
  | nil =>
    refine iff_of_true rfl fun before event after s split _ => ?_
    simp at split
  | append_singleton front last ih =>
    have steps : stream (front ++ [last]) = (stream front).bind fun s => step s last := by
      rw [stream, run_append]
      cases reached : run step {} front with
      | none => simp [stream, reached]
      | some s => cases taken : step s last <;> simp [stream, reached, run, taken]
    constructor
    · intro ends before event after s split reached
      obtain ⟨final, streamed⟩ := Option.isSome_iff_exists.mp ends
      obtain ⟨middle, first, stepped⟩ := stream_append streamed
      rcases split_concat split with ⟨_, rfl, rfl⟩ | ⟨rest, _, inside⟩
      · cases first.symm.trans reached
        exact (step_isSome _ _).mp (Option.isSome_iff_exists.mpr ⟨final, stepped⟩)
      · exact ih.mp (Option.isSome_iff_exists.mpr ⟨middle, first⟩) before event rest s inside reached
    · intro sliceable
      have earlier : (stream front).isSome := ih.mpr fun before event after s split reached =>
        sliceable before event (after ++ [last]) s (by simp [split]) reached
      obtain ⟨s, reached⟩ := Option.isSome_iff_exists.mp earlier
      rw [steps, reached]
      exact (step_isSome s last).mpr (sliceable front last [] s rfl reached)

/-- Where a character of the reply comes from: it was streamed, or stage 3 added it for a tool
call, or put it in front of one. -/
inductive Share where
  | streamed (origin : Origin)
  | call (index : Nat)
  | space

abbrev Tagged := List (Share × Char)

def tagged (share : Share) (text : Text) : Tagged := text.map fun ch => (share, ch)

def chars (tags : Tagged) : Text := tags.map Prod.snd

@[simp] theorem chars_tagged (share : Share) (text : Text) : chars (tagged share text) = text := by
  simp [chars, tagged, Function.comp_def]

@[simp] theorem chars_append (first second : Tagged) :
    chars (first ++ second) = chars first ++ chars second := List.map_append

theorem chars_eq_nil {tags : Tagged} : chars tags = [] ↔ tags = [] := List.map_eq_nil_iff

def streamedTags (s : StreamingState) : Tagged :=
  s.deltas.flatMap fun delta => tagged (.streamed delta.1) delta.2

def spokenText (args : ArgumentReader) (call : ToolCall) : Text :=
  (args.stringArg call.arguments "text").getD []

def joinedTags (before tags : Tagged) : Tagged :=
  if before = [] then tags else before ++ (.space, ' ') :: tags

def toolTags (args : ArgumentReader) : Nat → List ToolCall → Tagged → Tagged
  | _, [], before => before
  | index, call :: rest, before =>
    toolTags args (index + 1) rest
      (if speaksText args call then joinedTags before (tagged (.call index) (spokenText args call))
        else before)

def messageTags (args : ArgumentReader) (s : StreamingState) : Tagged :=
  toolTags args 0 s.toolCalls (streamedTags s)

def tagPieces : List Text → Tagged → List Tagged
  | [], _ => []
  | piece :: rest, tags =>
    let later := tagPieces rest (tags.drop piece.length)
    if isBlank piece then later else tags.take piece.length :: later

def spokenStream (s : StreamingState) : StreamState :=
  (ReplyText.streamWithTools true false (s.deltas.map Prod.snd)).1

/-- What the calls of `synthesize` are handed: the sentences of the spawned tasks and, if none
was fired, the whole reply. -/
def handedTags (args : ArgumentReader) (s : StreamingState) : List Tagged :=
  tagPieces (spokenStream s).cut (streamedTags s) ++
    if messageTags args s ≠ [] ∧ (spokenStream s).ttsFired = false then [messageTags args s] else []

theorem chars_streamedTags (s : StreamingState) :
    chars (streamedTags s) = (s.deltas.map Prod.snd).flatten := by
  unfold streamedTags
  induction s.deltas with
  | nil => rfl
  | cons delta rest ih =>
    rw [List.flatMap_cons, chars_append, ih, chars_tagged]
    rfl

theorem chars_joinedTags (before tags : Tagged) :
    chars (joinedTags before tags) = joined (chars before) (chars tags) := by
  unfold joinedTags joined
  by_cases empty : before = []
  · rw [if_pos empty, if_pos (chars_eq_nil.mpr empty)]
  · rw [if_neg empty, if_neg fun same => empty (chars_eq_nil.mp same), chars_append]
    rfl

theorem chars_toolTags (args : ArgumentReader) (index : Nat) (calls : List ToolCall) (before : Tagged)
    (result : ToolExecutionResult) (same : chars before = result.reply) :
    chars (toolTags args index calls before) = (calls.foldl (executeToolCall args) result).reply := by
  induction calls generalizing index before result with
  | nil => exact same
  | cons call rest ih =>
    refine ih _ _ (executeToolCall args result call) ?_
    rw [executeToolCall_reply]
    by_cases speaks : speaksText args call
    · rw [if_pos speaks, chars_joinedTags, chars_tagged, same]
      exact (if_pos speaks).symm
    · rw [if_neg speaks, same]
      exact (if_neg speaks).symm

theorem chars_messageTags (args : ArgumentReader) {s : StreamingState} (sound : Sound s) :
    chars (messageTags args s) = (executeToolCalls args s.fullReply s.toolCalls).reply := by
  refine chars_toolTags args 0 s.toolCalls _ _ ?_
  rw [chars_streamedTags, sound.reply]

theorem chars_tagPieces {pieces : List Text} {tags : Tagged} {rest : Text}
    (same : chars tags = pieces.flatten ++ rest) :
    (tagPieces pieces tags).map chars = pieces.filter fun piece => !isBlank piece := by
  induction pieces generalizing tags with
  | nil => rfl
  | cons piece later ih =>
    rw [List.flatten_cons, List.append_assoc] at same
    have front : chars (tags.take piece.length) = piece := by
      rw [chars, List.map_take]
      exact (congrArg (List.take piece.length) same).trans List.take_left
    have back : chars (tags.drop piece.length) = later.flatten ++ rest := by
      rw [chars, List.map_drop]
      exact (congrArg (List.drop piece.length) same).trans List.drop_left
    cases blank : isBlank piece with
    | true => simpa [tagPieces, blank] using ih back
    | false => simpa [tagPieces, blank, front] using ih back

theorem chars_handedTags (args : ArgumentReader) {s : StreamingState} (sound : Sound s) :
    (handedTags args s).map chars =
      (turnPipeline args true (s.deltas.map Prod.snd) s.toolCalls).spawned ++
        (turnPipeline args true (s.deltas.map Prod.snd) s.toolCalls).whole.toList := by
  have known := streamWithTools_streamed (s.deltas.map Prod.snd)
  have message := chars_messageTags args sound
  have reply : (executeToolCalls args (ReplyText.streamWithTools true false (s.deltas.map Prod.snd)).2
      s.toolCalls).reply = chars (messageTags args s) := by
    rw [message, known.reply, sound.reply]
  rw [handedTags, List.map_append]
  congr 1
  · exact (chars_tagPieces ((chars_streamedTags s).trans known.whole.symm)).trans known.spawned.symm
  · unfold turnPipeline
    simp only [reply, and_true]
    by_cases whole : messageTags args s ≠ [] ∧ (spokenStream s).ttsFired = false
    · rw [if_pos whole, if_pos ⟨fun empty => whole.1 (chars_eq_nil.mp empty), whole.2⟩]
      rfl
    · rw [if_neg whole, if_neg fun both => whole ⟨fun empty => both.1 (chars_eq_nil.mpr empty), both.2⟩]
      rfl

/-- The tool call added these characters, or they were streamed as its arguments. -/
def belongs (s : StreamingState) (index : Nat) : Share → Bool
  | .streamed (.argument item) => s.items[index]? = some (some item)
  | .call other => other = index
  | _ => false

def share (s : StreamingState) (index : Nat) (tags : Tagged) : Text :=
  chars (tags.filter fun tag => belongs s index tag.1)

/-- The turn comes to its end, and the text of each `speak` call is once in the message and, in
whatever order the sentence tasks run, once in what TTS is handed. -/
def EachOnce (args : ArgumentReader) (events : List Event) : Prop :=
  ∃ s, stream events = some s ∧
    ∀ index call, s.toolCalls[index]? = some call → speaksText args call →
      share s index (messageTags args s) = spokenText args call ∧
        ∀ calls : List Tagged, calls.Perm (handedTags args s) →
          share s index calls.flatten = spokenText args call

/-- No string is sliced off a boundary; no text of a `speak` call that completes comes with its
streamed arguments; and if there is such a call, the sentences cut while streaming are blank. -/
structure CountsOnce (args : ArgumentReader) (events : List Event) : Prop where
  sliceable : ∀ before event after s, events = before ++ event :: after →
    stream before = some s → Sliceable s event
  unforwarded : ∀ (s : StreamingState) (index : Nat) (call : ToolCall) (item : Nat), stream events = some s →
    s.toolCalls[index]? = some call → speaksText args call → s.items[index]? = some (some item) →
    ¬Forwards events item
  unfired : ∀ s, stream events = some s → (∃ call ∈ s.toolCalls, speaksText args call) →
    ∀ sentence ∈ (spokenStream s).cut, isBlank sentence = true

section
variable {s : StreamingState} {index : Nat}

theorem share_append (first second : Tagged) :
    share s index (first ++ second) = share s index first ++ share s index second := by
  simp [share]

theorem share_tagged_of_belongs {part : Share} (own : belongs s index part = true) (text : Text) :
    share s index (tagged part text) = text := by
  have whole : (tagged part text).filter (fun tag => belongs s index tag.1) = tagged part text := by
    refine List.filter_eq_self.mpr fun tag member => ?_
    obtain ⟨ch, _, rfl⟩ := List.mem_map.mp member
    exact own
  rw [share, whole, chars_tagged]

theorem share_tagged_of_other {part : Share} (other : belongs s index part = false) (text : Text) :
    share s index (tagged part text) = [] := by
  have none : (tagged part text).filter (fun tag => belongs s index tag.1) = [] := by
    refine List.filter_eq_nil_iff.mpr fun tag member => ?_
    obtain ⟨ch, _, rfl⟩ := List.mem_map.mp member
    simp [other]
  rw [share, none]
  rfl

theorem share_joinedTags (before tags : Tagged) :
    share s index (joinedTags before tags) = share s index before ++ share s index tags := by
  unfold joinedTags
  by_cases empty : before = []
  · rw [if_pos empty, empty]
    rfl
  · have space : (Share.space, ' ') :: tags = tagged .space [' '] ++ tags := rfl
    rw [if_neg empty, share_append, space, share_append, share_tagged_of_other rfl, List.nil_append]

/-- Stage 3 adds nothing to a call before the one it stands at. -/
theorem share_toolTags_earlier (args : ArgumentReader) {start : Nat} (earlier : index < start)
    (calls : List ToolCall) (before : Tagged) :
    share s index (toolTags args start calls before) = share s index before := by
  induction calls generalizing start before with
  | nil => rfl
  | cons call rest ih =>
    refine (ih (Nat.lt_succ_of_lt earlier) _).trans ?_
    split
    next =>
      have other : belongs s index (.call start) = false := by simp [belongs, earlier.ne']
      rw [share_joinedTags, share_tagged_of_other other, List.append_nil]
    next => rfl

theorem share_toolTags (args : ArgumentReader) {calls : List ToolCall} {offset start : Nat}
    {call : ToolCall} (at_ : calls[offset]? = some call) (speaks : speaksText args call)
    (before : Tagged) :
    share s (start + offset) (toolTags args start calls before) =
      share s (start + offset) before ++ spokenText args call := by
  induction calls generalizing offset start before with
  | nil => cases at_
  | cons first rest ih =>
    cases offset with
    | zero =>
      cases at_
      have own : belongs s (start + 0) (.call start) = true := by simp [belongs]
      refine (share_toolTags_earlier args (Nat.lt_succ_self start) rest _).trans ?_
      rw [if_pos speaks, share_joinedTags]
      exact congrArg _ (share_tagged_of_belongs own _)
    | succ later =>
      have next : start + (later + 1) = start + 1 + later := by omega
      rw [next]
      refine (ih at_ _).trans (congrArg (· ++ spokenText args call) ?_)
      split
      next =>
        have other : belongs s (start + 1 + later) (.call start) = false := by
          simp only [belongs, decide_eq_false_iff_not]
          omega
        rw [share_joinedTags, share_tagged_of_other other, List.append_nil]
      next => rfl

theorem share_messageTags (args : ArgumentReader) {call : ToolCall}
    (at_ : s.toolCalls[index]? = some call) (speaks : speaksText args call) :
    share s index (messageTags args s) = share s index (streamedTags s) ++ spokenText args call := by
  have added := @share_toolTags s args s.toolCalls index 0 call at_ speaks (streamedTags s)
  rwa [Nat.zero_add] at added

/-- Nothing of a call was streamed exactly when none of its arguments was forwarded. -/
theorem share_streamedTags :
    share s index (streamedTags s) = [] ↔
      ∀ item, s.items[index]? = some (some item) → ¬Recorded s item := by
  unfold share Recorded
  rw [chars_eq_nil, List.filter_eq_nil_iff]
  constructor
  · rintro none item owned ⟨text, nonempty, member⟩
    obtain ⟨ch, rest, rfl⟩ := List.exists_cons_of_ne_nil nonempty
    refine none (.streamed (.argument item), ch) ?_ (by simp [belongs, owned])
    exact List.mem_flatMap.mpr ⟨_, member, List.mem_map.mpr ⟨ch, List.mem_cons_self, rfl⟩⟩
  · intro unrecorded tag member own
    obtain ⟨delta, present, inside⟩ := List.mem_flatMap.mp member
    obtain ⟨ch, character, rfl⟩ := List.mem_map.mp inside
    obtain ⟨origin, text⟩ := delta
    cases origin with
    | text => cases own
    | argument item =>
      exact unrecorded item (by simpa [belongs] using own) ⟨text, List.ne_nil_of_mem character, present⟩

end

theorem tagPieces_sublist (pieces : List Text) (tags : Tagged) :
    (tagPieces pieces tags).flatten.Sublist tags := by
  induction pieces generalizing tags with
  | nil => exact List.nil_sublist _
  | cons piece rest ih =>
    have later := ih (tags.drop piece.length)
    unfold tagPieces
    simp only
    split
    next => exact later.trans (List.drop_sublist _ _)
    next =>
      have both := (List.Sublist.refl (tags.take piece.length)).append later
      rwa [List.take_append_drop] at both

theorem tagPieces_blank {pieces : List Text} (blank : ∀ piece ∈ pieces, isBlank piece = true)
    (tags : Tagged) : tagPieces pieces tags = [] := by
  induction pieces generalizing tags with
  | nil => rfl
  | cons piece rest ih =>
    rw [List.forall_mem_cons] at blank
    simpa [tagPieces, blank.1] using ih blank.2 _

theorem spokenStream_ttsFired (s : StreamingState) :
    (spokenStream s).ttsFired = false ↔ ∀ sentence ∈ (spokenStream s).cut, isBlank sentence = true := by
  rw [spokenStream, (streamWithTools_streamed _).fired, List.any_eq_false]
  simp

theorem countsOnce_of_eachOnce {args : ArgumentReader} {events : List Event}
    (once : EachOnce args events) : CountsOnce args events := by
  obtain ⟨s, streamed, shares⟩ := once
  have sound := stream_sound streamed
  have unforwarded : ∀ index call, s.toolCalls[index]? = some call → speaksText args call →
      share s index (streamedTags s) = [] := by
    intro index call at_ speaks
    have message := (shares index call at_ speaks).1
    rw [share_messageTags args at_ speaks] at message
    exact List.append_left_eq_self.mp message
  refine ⟨(stream_isSome events).mp (Option.isSome_iff_exists.mpr ⟨s, streamed⟩), ?_, ?_⟩
  · intro other index call item streamedToo at_ speaks owned forwards
    cases streamed.symm.trans streamedToo
    exact share_streamedTags.mp (unforwarded index call at_ speaks) item owned
      ((sound.2 item).mpr forwards)
  · rintro other streamedToo ⟨call, member, speaks⟩
    cases streamed.symm.trans streamedToo
    obtain ⟨index, at_⟩ := List.mem_iff_getElem?.mp member
    rw [← spokenStream_ttsFired]
    by_contra fired
    have handed := (shares index call at_ speaks).2 _ (List.Perm.refl _)
    have unspoken : handedTags args s = tagPieces (spokenStream s).cut (streamedTags s) := by
      rw [handedTags, if_neg fun both => fired both.2, List.append_nil]
    have part : (share s index (handedTags args s).flatten).Sublist (share s index (streamedTags s)) := by
      rw [unspoken]
      exact ((tagPieces_sublist _ _).filter _).map _
    rw [unforwarded index call at_ speaks, handed] at part
    exact speaks.2 (List.sublist_nil.mp part)

theorem eachOnce_of_countsOnce {args : ArgumentReader} {events : List Event}
    (counts : CountsOnce args events) : EachOnce args events := by
  obtain ⟨s, streamed⟩ := Option.isSome_iff_exists.mp ((stream_isSome events).mpr counts.sliceable)
  have sound := stream_sound streamed
  refine ⟨s, streamed, fun index call at_ speaks => ?_⟩
  have unstreamed : share s index (streamedTags s) = [] := by
    refine share_streamedTags.mpr fun item owned record => ?_
    exact counts.unforwarded s index call item streamed at_ speaks owned ((sound.2 item).mp record)
  have message : share s index (messageTags args s) = spokenText args call := by
    rw [share_messageTags args at_ speaks, unstreamed, List.nil_append]
  refine ⟨message, fun calls order => ?_⟩
  have blank := counts.unfired s streamed ⟨call, List.mem_of_getElem? at_, speaks⟩
  have nonempty : messageTags args s ≠ [] := by
    intro empty
    rw [empty] at message
    exact speaks.2 message.symm
  have whole : handedTags args s = [messageTags args s] := by
    rw [handedTags, tagPieces_blank blank, if_pos ⟨nonempty, (spokenStream_ttsFired s).mpr blank⟩,
      List.nil_append]
  rw [whole] at order
  rw [List.perm_singleton.mp order, List.flatten_cons, List.flatten_nil, List.append_nil]
  exact message

/-- Each spoken text is counted once exactly when none of it is forwarded while streaming and
no sentence is fired before it. -/
theorem eachOnce_iff (args : ArgumentReader) (events : List Event) :
    EachOnce args events ↔ CountsOnce args events :=
  ⟨countsOnce_of_eachOnce, eachOnce_of_countsOnce⟩

/-- What is counted is what the turn does: the bytes of a response come to the state of its events, and read as
characters the tagged message is the reply of the turn and the tagged texts are those that it hands over. -/
theorem streamWithTools_tagged (args : ArgumentReader) (parse : Parser) (chunks : List (List UInt8)) :
    (streamWithTools parse chunks).map unrecorded = stream (parsed parse (blocks chunks)) ∧
      ((stream (parsed parse (blocks chunks))).map fun s =>
          (chars (messageTags args s), (handedTags args s).map chars)) =
        (stream (parsed parse (blocks chunks))).map fun s =>
          let speech := turnPipeline args true (s.deltas.map Prod.snd) s.toolCalls
          ((executeToolCalls args s.fullReply s.toolCalls).reply, speech.spawned ++ speech.whole.toList) := by
  refine ⟨streamWithTools_stream parse chunks, ?_⟩
  cases streamed : stream (parsed parse (blocks chunks)) with
  | none => rfl
  | some s =>
    obtain ⟨sound, -⟩ := stream_sound streamed
    rw [Option.map_some, Option.map_some, chars_messageTags args sound, chars_handedTags args sound]

def hiArguments : ArgumentReader :=
  ⟨fun _ field => if field = "text" then some "Hi".toList else none, fun _ _ => none, fun _ _ => none⟩

def streamedSpeak : List Event :=
  [("response.output_item.added",
      .object [("item",
        .object [("type", .string "function_call".toList), ("name", .string "speak".toList)])]),
    ("response.function_call_arguments.delta", .object [("delta", .string "\x7b\"text\":\"Hi\"\x7d".toList)]),
    ("response.output_item.done",
      .object [("item", .object [("type", .string "function_call".toList), ("name", .string "speak".toList),
        ("arguments", .string "\x7b\"text\":\"Hi\"\x7d".toList)])])]

/-- Its text is in the message twice. -/
theorem streamedSpeak_not_eachOnce : ¬EachOnce hiArguments streamedSpeak := by
  rintro ⟨s, streamed, shares⟩
  have found : (stream streamedSpeak).map (fun s =>
      (s.toolCalls[0]?, share s 0 (messageTags hiArguments s))) =
      some (some (ToolCall.mk "speak" "\x7b\"text\":\"Hi\"\x7d"), "HiHi".toList) := rfl
  rw [streamed] at found
  injection found with both
  injection both with at_ share
  have once := (shares 0 _ at_ (by decide)).1
  rw [share] at once
  revert once
  decide

end Fswtch.Seat.SpokenOnce
