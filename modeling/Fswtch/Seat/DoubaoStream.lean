import Fswtch.Lib.ChunkedText
import Fswtch.Seat.ReplyText

/-! The response stream of the model. Its bytes come in chunks that are decoded one by one,
the text is cut into event blocks, and each event moves the state of the call that is being
streamed. -/

namespace Fswtch.Seat.DoubaoStream
open Fswtch.Lib.ByteReader Fswtch.Lib.CharBytes Fswtch.Lib.ChunkedText
open Fswtch.Seat.SentenceSplit Fswtch.Seat.ReplyText

/-- A parsed value, as far as the stream looks into it. -/
inductive Json where
  | string (text : Text)
  | object (fields : List (String × Json))
  | array (items : List Json)
  | other

def Json.get (field : String) : Json → Option Json
  | .object fields => (fields.find? fun entry => entry.1 = field).map Prod.snd
  | _ => none

def Json.asStr : Json → Option Text
  | .string text => some text
  | _ => none

def Json.getStr (field : String) (json : Json) : Option Text := (json.get field).bind Json.asStr

/-- `serde_json::from_str`; a text that is not JSON gives `none`. -/
abbrev Parser := Text → Option Json

def afterFirst (pattern : Text) : Text → Option Text
  | [] => if pattern = [] then some [] else none
  | ch :: rest =>
    if pattern.isPrefixOf (ch :: rest) then some ((ch :: rest).drop pattern.length)
    else afterFirst pattern rest

/-- The byte offset at which the string value ends, as far as it has come: `i` is the offset
of the next character, `stop` the end of the value up to it. -/
def scanValue (i stop : Nat) : Text → Nat
  | [] => stop
  | ['\\'] => i + 2
  | '\\' :: ch :: rest => scanValue (i + 1 + ch.utf8Size) (i + 2) rest
  | ch :: rest => if ch = '"' then i else scanValue (i + ch.utf8Size) (i + ch.utf8Size) rest

/-- The value of a string field of JSON that is not complete. Slicing off a character boundary
or past the end panics, which is the outer `none`. -/
def extractPartialJsonString (json field : Text) : Option (Option Text) :=
  match (afterFirst ('"' :: field ++ ['"']) json).bind (afterFirst [':']) with
  | none => some none
  | some afterColon =>
    match afterColon.dropWhile isWhitespace with
    | '"' :: valueStart =>
      (splitBytes (scanValue 0 0 valueStart) valueStart).map fun halves => some halves.1
    | _ => some none

/-- Where text passed to `on_text_delta` comes from: a text delta, or the arguments of a
function call, numbered in the order in which the calls are announced. -/
inductive Origin where
  | text
  | argument (item : Nat)
  deriving DecidableEq

/-- The last fields are a record: the function calls announced, the one pending, the one each
tool call was, the deltas with their origins, and the events. -/
structure StreamingState where
  fullReply : Text := []
  toolCalls : List ToolCall := []
  pendingName : Option String := none
  pendingArgs : Text := []
  forwardedTextLen : Nat := 0
  announced : Nat := 0
  pendingItem : Option Nat := none
  items : List (Option Nat) := []
  deltas : List (Origin × Text) := []
  events : List (String × Text) := []

namespace StreamingState

def forward (s : StreamingState) (origin : Origin) (text : Text) : StreamingState :=
  { s with fullReply := s.fullReply ++ text, deltas := s.deltas ++ [(origin, text)] }

def origin (s : StreamingState) : Origin := s.pendingItem.elim .text .argument

def onOutputTextDelta (s : StreamingState) (parsed : Json) : StreamingState :=
  match parsed.getStr "delta" with
  | some delta => s.forward .text delta
  | none => s

def onOutputItemAdded (s : StreamingState) (parsed : Json) : StreamingState :=
  match parsed.get "item" with
  | some item =>
    if item.getStr "type" = some "function_call".toList then
      { s with
        pendingName := (item.getStr "name").map String.ofList
        pendingArgs := []
        forwardedTextLen := 0
        announced := s.announced + 1
        pendingItem := some s.announced }
    else s
  | none => s

/-- The new suffix of a `speak` call's text is forwarded at once. -/
def forwardSuffix (s : StreamingState) (textSoFar : Text) : Option StreamingState :=
  if s.forwardedTextLen < byteLen textSoFar then
    (splitBytes s.forwardedTextLen textSoFar).map fun halves =>
      { s.forward s.origin halves.2 with forwardedTextLen := byteLen textSoFar }
  else some s

def onArgumentsDelta (s : StreamingState) (parsed : Json) : Option StreamingState :=
  match parsed.getStr "delta" with
  | none => some s
  | some delta =>
    let s := { s with pendingArgs := s.pendingArgs ++ delta }
    if s.pendingName = some "speak" then
      (extractPartialJsonString s.pendingArgs "text".toList).bind fun found =>
        found.elim (some s) s.forwardSuffix
    else some s

def onOutputItemDone (s : StreamingState) (parsed : Json) : StreamingState :=
  let s :=
    match parsed.get "item" with
    | some item =>
      if item.getStr "type" = some "function_call".toList then
        let name := (item.getStr "name").getD []
        let args := (item.getStr "arguments").getD s.pendingArgs
        { s with
          toolCalls := s.toolCalls ++ [ToolCall.mk (String.ofList name) (String.ofList args)]
          items := s.items ++ [s.pendingItem] }
      else s
    | none => s
  { s with pendingName := none, pendingArgs := [], forwardedTextLen := 0, pendingItem := none }

def onEvent (s : StreamingState) (eventType : String) (parsed : Json) : Option StreamingState :=
  if eventType = "response.output_text.delta" then some (s.onOutputTextDelta parsed)
  else if eventType = "response.output_item.added" then some (s.onOutputItemAdded parsed)
  else if eventType = "response.function_call_arguments.delta" then s.onArgumentsDelta parsed
  else if eventType = "response.output_item.done" then some (s.onOutputItemDone parsed)
  else some s

end StreamingState

def trim (text : Text) : Text :=
  ((text.dropWhile isWhitespace).reverse.dropWhile isWhitespace).reverse

def stripStart (start : String) (line : Text) : Option Text :=
  if start.toList.isPrefixOf line then some (line.drop start.length) else none

def pushLine (data line : Text) : Text := if data = [] then line else data ++ '\n' :: line

/-- One line of a block, over the event type and the data read so far. -/
def readLine (fields : String × Text) (raw : Text) : String × Text :=
  let line := trim raw
  if line = [] ∨ line.head? = some ':' then fields
  else
    match stripStart "event: " line with
    | some event => (String.ofList event, fields.2)
    | none =>
      match stripStart "data: " line with
      | some data => (fields.1, pushLine fields.2 data)
      | none =>
        match stripStart "data:" line with
        | some data => (fields.1, pushLine fields.2 data)
        | none => fields

def readBlock (block : Text) : String × Text := (block.splitOn '\n').foldl readLine ("", [])

def onBlock (parse : Parser) (s : StreamingState) (block : Text) : Option StreamingState :=
  let event := readBlock block
  if event.2 = [] then some s
  else
    let s := { s with events := s.events ++ [event] }
    match parse event.2 with
    | some parsed => s.onEvent event.1 parsed
    | none => some s

def onChunk (parse : Parser) (state : Text × StreamingState) (bytes : List UInt8) :
    Option (Text × StreamingState) := feed (onBlock parse) state (decoded bytes)

/-- The response body from its first chunk to its end; `none` when the stream panics. -/
def streamWithTools (parse : Parser) (chunks : List (List UInt8)) : Option StreamingState :=
  (chunks.foldlM (onChunk parse) ([], {})).map Prod.snd

def StreamingState.outcome (s : StreamingState) :
    List (String × Text) × Text × List ToolCall × Text :=
  (s.events, (s.deltas.map Prod.snd).flatten, s.toolCalls, s.fullReply)

/-- However the bytes of `text` are cut into chunks, the response yields the same. -/
def CutsAlike (parse : Parser) (text : String) : Prop :=
  ∀ first second : List (List UInt8), first.flatten = utf8 text → second.flatten = utf8 text →
    (streamWithTools parse first).map StreamingState.outcome =
      (streamWithTools parse second).map StreamingState.outcome

def blocks (chunks : List (List UInt8)) : List Text :=
  (drainBlocks (withoutReturns (chunks.flatMap decoded))).1

/-- No cut of the bytes of `text` leaves a block with data in it. -/
def Silent (text : String) : Prop :=
  ∀ chunks : List (List UInt8), chunks.flatten = utf8 text →
    ∀ block ∈ blocks chunks, (readBlock block).2 = []

theorem streamWithTools_eq (parse : Parser) (chunks : List (List UInt8)) :
    streamWithTools parse chunks = (blocks chunks).foldlM (onBlock parse) {} := by
  have decodes : chunks.foldlM (onChunk parse) ([], {}) =
      (chunks.map decoded).foldlM (feed (onBlock parse)) ([], {}) := by
    rw [List.foldlM_map]
    rfl
  rw [streamWithTools, decodes, foldlM_feed settled_nil, feed, List.nil_append,
    ← List.flatMap_def]
  cases handled : (blocks chunks).foldlM (onBlock parse) {} with
  | none =>
    rw [blocks] at handled
    simp only [handled, Option.map_none]
  | some final =>
    rw [blocks] at handled
    simp only [handled, Option.map_some]

theorem forwardSuffix_events {s next : StreamingState} {textSoFar : Text}
    (forwarded : s.forwardSuffix textSoFar = some next) : next.events = s.events := by
  unfold StreamingState.forwardSuffix at forwarded
  split at forwarded
  next =>
    obtain ⟨halves, _, rfl⟩ := Option.map_eq_some_iff.mp forwarded
    rfl
  next =>
    cases forwarded
    rfl

theorem onArgumentsDelta_events {s next : StreamingState} {parsed : Json}
    (handled : s.onArgumentsDelta parsed = some next) : next.events = s.events := by
  unfold StreamingState.onArgumentsDelta at handled
  split at handled
  next =>
    cases handled
    rfl
  next delta _ =>
    simp only at handled
    split at handled
    next =>
      obtain ⟨found, _, forwarded⟩ := Option.bind_eq_some_iff.mp handled
      cases found with
      | none =>
        cases forwarded
        rfl
      | some textSoFar => exact (forwardSuffix_events forwarded).trans rfl
    next =>
      cases handled
      rfl

theorem onEvent_events {s next : StreamingState} {eventType : String} {parsed : Json}
    (handled : s.onEvent eventType parsed = some next) : next.events = s.events := by
  unfold StreamingState.onEvent at handled
  split at handled
  next =>
    cases handled
    unfold StreamingState.onOutputTextDelta
    split <;> rfl
  split at handled
  next =>
    cases handled
    unfold StreamingState.onOutputItemAdded
    split
    next => split <;> rfl
    next => rfl
  split at handled
  next => exact onArgumentsDelta_events handled
  split at handled
  next =>
    cases handled
    unfold StreamingState.onOutputItemDone
    simp only
    split
    next => split <;> rfl
    next => rfl
  next =>
    cases handled
    rfl

theorem onBlock_events {parse : Parser} {s next : StreamingState} {block : Text}
    (handled : onBlock parse s block = some next) :
    next.events = s.events ++ if (readBlock block).2 = [] then [] else [readBlock block] := by
  unfold onBlock at handled
  simp only at handled
  split at handled
  next empty =>
    cases handled
    rw [if_pos empty, List.append_nil]
  next full =>
    rw [if_neg full]
    split at handled
    next => exact onEvent_events handled
    next =>
      cases handled
      rfl

theorem foldlM_onBlock_events {parse : Parser} {s final : StreamingState} {blocks : List Text}
    (handled : blocks.foldlM (onBlock parse) s = some final) :
    final.events = s.events ++ (blocks.map readBlock).filter fun event => event.2 ≠ [] := by
  induction blocks generalizing s with
  | nil =>
    cases handled
    exact (List.append_nil _).symm
  | cons block rest ih =>
    rw [List.foldlM_cons] at handled
    obtain ⟨next, first, later⟩ := Option.bind_eq_some_iff.mp handled
    rw [ih later, onBlock_events first, List.append_assoc, List.map_cons, List.filter_cons]
    by_cases empty : (readBlock block).2 = []
    · simp [empty]
    · simp [empty]

theorem foldlM_onBlock_silent {parse : Parser} {s : StreamingState} {blocks : List Text}
    (silent : ∀ block ∈ blocks, (readBlock block).2 = []) :
    blocks.foldlM (onBlock parse) s = some s := by
  induction blocks with
  | nil => rfl
  | cons block rest ih =>
    have first : onBlock parse s block = some s := if_pos (silent block List.mem_cons_self)
    rw [List.foldlM_cons, first]
    exact ih fun other member => silent other (List.mem_cons_of_mem block member)

theorem streamWithTools_of_decodes {parse : Parser} {chunks : List (List UInt8)} {text : String}
    (whole : chunks.flatten = utf8 text) (decodes : ∀ chunk ∈ chunks, (fromUtf8 chunk).isSome) :
    streamWithTools parse chunks =
      (drainBlocks (withoutReturns text.toList)).1.foldlM (onBlock parse) {} := by
  rw [streamWithTools_eq, blocks, (decoded_eq_iff whole).mpr decodes]

theorem silent_of_cutsAlike {parse : Parser} {text : String} (alike : CutsAlike parse text)
    {c : Char} (member : c ∈ text.toList) (wide : c.utf8Size ≠ 1) : Silent text := by
  intro chunks whole
  obtain ⟨front, back, cut, lost, lostToo⟩ := exists_lost_cut member wide
  rw [String.ofList_toList] at cut
  have nothing : blocks [front, back] = [] := by
    simp only [blocks, List.flatMap_cons, List.flatMap_nil, lost, lostToo, List.append_nil]
    exact congrArg Prod.fst (drainBlocks_none rfl)
  have same := alike chunks [front, back] whole (by simpa using cut)
  rw [streamWithTools_eq parse [front, back], nothing] at same
  obtain ⟨final, streamed, yields⟩ := Option.map_eq_some_iff.mp same
  have none : final.events = [] := congrArg Prod.fst yields
  rw [streamWithTools_eq] at streamed
  have events := foldlM_onBlock_events streamed
  rw [none, eq_comm, List.append_eq_nil_iff] at events
  intro block present
  have dropped := List.filter_eq_nil_iff.mp events.2 _ (List.mem_map_of_mem present)
  simpa using dropped

/-- All cuts of a response yield the same exactly when each of its characters is one byte, or
no cut leaves any data; and a cut whose chunks all decode yields what the whole does. -/
theorem streamWithTools_cuts (parse : Parser) (text : String) :
    (CutsAlike parse text ↔ (∀ c ∈ text.toList, c.utf8Size = 1) ∨ Silent text) ∧
      ∀ chunks : List (List UInt8), chunks.flatten = utf8 text →
        (∀ chunk ∈ chunks, (fromUtf8 chunk).isSome) →
        streamWithTools parse chunks = streamWithTools parse [utf8 text] := by
  constructor
  · constructor
    · intro alike
      by_cases narrow : ∀ c ∈ text.toList, c.utf8Size = 1
      · exact Or.inl narrow
      · obtain ⟨c, wide⟩ := not_forall.mp narrow
        obtain ⟨member, wide⟩ := Classical.not_imp.mp wide
        exact Or.inr (silent_of_cutsAlike alike member wide)
    · rintro (narrow | silent) first second whole wholeToo
      · have decodes : ∀ chunks : List (List UInt8), chunks.flatten = utf8 text →
            ∀ chunk ∈ chunks, (fromUtf8 chunk).isSome := by
          intro chunks cut
          exact isSome_of_narrow narrow (by rwa [String.ofList_toList])
        rw [streamWithTools_of_decodes whole (decodes first whole),
          streamWithTools_of_decodes wholeToo (decodes second wholeToo)]
      · rw [streamWithTools_eq, streamWithTools_eq, foldlM_onBlock_silent (silent first whole),
          foldlM_onBlock_silent (silent second wholeToo)]
  · intro chunks whole decodes
    have single : [utf8 text].flatten = utf8 text := by simp
    have decodesToo : ∀ chunk ∈ [utf8 text], (fromUtf8 chunk).isSome := by
      intro chunk member
      rw [List.mem_singleton.mp member]
      exact Option.isSome_iff_exists.mpr ⟨text, (fromUtf8_eq_some _ _).mpr rfl⟩
    rw [streamWithTools_of_decodes whole decodes, streamWithTools_of_decodes single decodesToo]

def accented : String := "event: response.output_text.delta\ndata: \x7b\"delta\":\"é\"\x7d\n\n"

def accentedParser : Parser := fun data =>
  if data = "\x7b\"delta\":\"é\"\x7d".toList then some (.object [("delta", .string "é".toList)]) else none

theorem accented_cut_after_line :
    streamWithTools accentedParser [(utf8 accented).take 34, (utf8 accented).drop 34] =
      streamWithTools accentedParser [utf8 accented] :=
  (streamWithTools_cuts accentedParser accented).2 _ (by simp) (by decide +kernel)

/-- Cut inside its character, nothing does. -/
theorem accented_not_cutsAlike : ¬CutsAlike accentedParser accented := by
  intro alike
  have same := alike [utf8 accented] [(utf8 accented).take 51, (utf8 accented).drop 51] (by simp) (by simp)
  have whole : decoded (utf8 accented) = accented.toList := by decide +kernel
  have lost : decoded ((utf8 accented).take 51) = [] := by decide +kernel
  have lostToo : decoded ((utf8 accented).drop 51) = [] := by decide +kernel
  simp only [streamWithTools_eq, blocks, List.flatMap_cons, List.flatMap_nil, whole, lost, lostToo,
    List.append_nil] at same
  have replies := congrArg (Option.map fun outcome => outcome.2.2.2) same
  revert replies
  decide +kernel

end Fswtch.Seat.DoubaoStream
