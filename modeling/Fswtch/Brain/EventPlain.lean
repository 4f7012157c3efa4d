import Fswtch.Brain.EslFrames
import Fswtch.Lib.PercentText

/-! Events on the wire: the outer header block announces the length of the inner one and of the
body behind it. `recv_event` reads back the headers and the body of every event. -/

namespace Fswtch.Brain.Esl
open Fswtch.Lib.PythonText Fswtch.Lib.SocketReader Fswtch.Lib.StepRun
open Fswtch.Lib.ByteReader (utf8)
open Fswtch.Lib.ChunkedText (utf8_cons)

structure EventHeader where
  name : List Char
  value : List Char
  written : List Char
  oneLine : '\n' ∉ name
  whole : ¬[':', ' '] <:+: name
  quoted : Quoted value written

def EventHeader.line (header : EventHeader) : List UInt8 :=
  utf8 (String.ofList header.name) ++ colon ++ utf8 (String.ofList header.written)

def EventHeader.entry (header : EventHeader) : String × String := (String.ofList header.name, String.ofList header.value)

/-- An event, and the lines of the outer header block beside the length. -/
structure PlainEvent where
  before : List (List UInt8)
  after : List (List UInt8)
  headers : List EventHeader
  body : List UInt8
  plain : ∀ line ∈ before ++ after, PlainLine line
  distinct : (headers.map EventHeader.name).Nodup

def PlainEvent.data (event : PlainEvent) : List UInt8 :=
  (event.headers.map EventHeader.line).flatMap (· ++ [newline]) ++ newline :: event.body

def PlainEvent.frame (event : PlainEvent) : Frame := ⟨event.before, event.after, some event.data, event.plain⟩

def PlainEvent.result (event : PlainEvent) : Result := .event (event.headers.map EventHeader.entry) event.body

def PlainEvent.Headed (event : PlainEvent) : Prop := event.headers ≠ [] ∨ event.body = []

theorem newline_not_mem_utf8 {text : List Char} (oneLine : '\n' ∉ text) : newline ∉ utf8 (String.ofList text) := by
  intro member
  obtain ⟨c, inside, same, small⟩ := mem_utf8_of_small (by decide) member
  have ends : c = '\n' := eq_of_byte small (by decide) same
  exact oneLine (ends ▸ inside)

theorem EventHeader.line_plain (header : EventHeader) : header.line ≠ [] ∧ newline ∉ header.line := by
  constructor
  · intro empty
    rw [line, List.append_eq_nil_iff, List.append_eq_nil_iff, colon_eq] at empty
    cases empty.1.2
  · rw [line, List.mem_append, List.mem_append, not_or, not_or]
    exact ⟨⟨newline_not_mem_utf8 header.oneLine, by decide⟩, newline_not_mem_utf8 header.quoted.oneLine⟩

/-- The first of two letters is passed over where another than the second follows. -/
theorem splitOnce_skip {x y : UInt8} {rest : List UInt8} (apart : rest.head? ≠ some y) :
    splitOnce [x, y] (x :: rest) = (splitOnce [x, y] rest).map fun halves => (x :: halves.1, halves.2) := by
  apply splitOnce_cons
  rintro ⟨back, whole⟩
  exact apart (congrArg List.head? (List.cons.inj whole).2).symm

theorem splitOnce_name {name : List Char} (whole : ¬[':', ' '] <:+: name) (rest : List UInt8) :
    splitOnce colon (utf8 (String.ofList name) ++ (colon ++ rest)) = some (utf8 (String.ofList name), rest) := by
  rw [colon_eq]
  induction name with
  | nil => exact splitOnce_here 58 [32] rest
  | cons c more ih =>
    have later := ih fun inside => whole (inside.trans (List.suffix_cons c more).isInfix)
    rw [utf8_cons, List.append_assoc]
    by_cases marks : c = ':'
    · subst marks
      have apart : (utf8 (String.ofList more) ++ ([58, 32] ++ rest)).head? ≠ some 32 := by
        cases more with
        | nil => nofun
        | cons next more =>
          obtain ⟨b, others, bytes⟩ := List.exists_cons_of_ne_nil (@String.utf8EncodeChar_ne_nil next)
          rw [utf8_cons, bytes]
          intro head
          cases head
          rcases utf8EncodeChar_cases next with ⟨ascii, single⟩ | ⟨_, wide⟩
          · have same := (List.cons.inj (single.symm.trans bytes)).1
            have blank : next = ' ' := eq_of_byte ascii (by decide) same
            exact whole ⟨[], more, by rw [blank]; rfl⟩
          · exact absurd (wide 32 (bytes ▸ List.mem_cons_self)) (by decide)
      rw [show String.utf8EncodeChar ':' = [58] from rfl, List.singleton_append, splitOnce_skip apart, later]
      rfl
    · have clean : (58 : UInt8) ∉ String.utf8EncodeChar c := by
        intro member
        rcases utf8EncodeChar_cases c with ⟨ascii, single⟩ | ⟨_, wide⟩
        · rw [single, List.mem_singleton] at member
          exact marks (eq_of_byte ascii (by decide) member.symm)
        · exact absurd (wide 58 member) (by decide)
      rw [splitOnce_pass clean, later]
      rfl

/-- The inner block ends at the first blank line. -/
theorem splitOnce_lines {lines : List (List UInt8)} (plain : ∀ line ∈ lines, line ≠ [] ∧ newline ∉ line)
    (nonempty : lines ≠ []) (body : List UInt8) :
    splitOnce [newline, newline] (lines.flatMap (· ++ [newline]) ++ newline :: body) =
      some ([newline].intercalate lines, body) := by
  induction lines with
  | nil => exact absurd rfl nonempty
  | cons line rest ih =>
    obtain ⟨⟨_, clean⟩, later⟩ := List.forall_mem_cons.mp plain
    rw [List.flatMap_cons, List.append_assoc, List.append_assoc, splitOnce_pass clean, List.singleton_append]
    cases rest with
    | nil =>
      have here : splitOnce [newline, newline] (newline :: newline :: body) = some ([], body) :=
        splitOnce_here newline [newline] body
      rw [List.flatMap_nil, List.nil_append, here]
      simp [List.intercalate]
    | cons next more =>
      obtain ⟨⟨some_, cleanNext⟩, _⟩ := List.forall_mem_cons.mp later
      have apart : ((next :: more).flatMap (· ++ [newline]) ++ newline :: body).head? ≠ some newline := by
        obtain ⟨b, others, rfl⟩ := List.exists_cons_of_ne_nil some_
        intro head
        cases head
        exact cleanNext List.mem_cons_self
      rw [splitOnce_skip apart, ih later (List.cons_ne_nil next more)]
      simp [List.intercalate, List.intersperse]

theorem addHeader_line (headers : Headers) (header : EventHeader) :
    addHeader (fun v => unquote (decode v)) headers header.line = headers.set header.entry.1 header.entry.2 := by
  rw [addHeader, EventHeader.line, List.append_assoc, splitOnce_name header.whole]
  dsimp only
  rw [decode_utf8, unquote_quoted header.quoted]
  rfl

theorem foldl_addHeader_lines (headers : List EventHeader) (distinct : (headers.map EventHeader.name).Nodup)
    (before : Headers) (new : ∀ header ∈ headers, header.entry.1 ∉ before.map Prod.fst) :
    (headers.map EventHeader.line).foldl (addHeader fun v => unquote (decode v)) before =
      before ++ headers.map EventHeader.entry := by
  induction headers generalizing before with
  | nil => exact (List.append_nil before).symm
  | cons header rest ih =>
    obtain ⟨first, later⟩ := List.forall_mem_cons.mp new
    rw [List.map_cons, List.nodup_cons] at distinct
    rw [List.map_cons, List.foldl_cons, addHeader_line, Dict.set_of_new first, ih distinct.2, List.append_assoc]
    · rfl
    · intro other member
      rw [List.map_append, List.mem_append, not_or]
      refine ⟨later other member, fun same => distinct.1 ?_⟩
      have names := String.ofList_injective (List.mem_singleton.mp same)
      exact names ▸ List.mem_map_of_mem member

theorem parseEvent_data (event : PlainEvent) (headed : event.Headed) :
    parseEvent event.data = (event.headers.map EventHeader.entry, event.body) := by
  rw [parseEvent]
  by_cases empty : event.headers = []
  · have nothing : event.body = [] := headed.resolve_left fun some_ => some_ empty
    rw [PlainEvent.data, empty, nothing]
    rfl
  · have plain : ∀ line ∈ event.headers.map EventHeader.line, line ≠ [] ∧ newline ∉ line := by
      intro line member
      obtain ⟨header, _, rfl⟩ := List.mem_map.mp member
      exact header.line_plain
    have nonempty : event.headers.map EventHeader.line ≠ [] := mt List.map_eq_nil_iff.mp empty
    have lines := List.splitOn_intercalate newline (fun line member => (plain line member).2) nonempty
    rw [PlainEvent.data, splitOnce_lines plain nonempty, Option.getD_some]
    dsimp only
    rw [lines, foldl_addHeader_lines event.headers event.distinct [] (fun _ _ => List.not_mem_nil)]
    rfl

/-- Successive calls return the events in order, however the bytes arrive, and read all of them. -/
theorem recvEvent_inverts (events : List PlainEvent) (headed : ∀ event ∈ events, event.Headed) (source : Source)
    (stream : source.unread = events.flatMap fun event => event.frame.bytes) :
    ∃ final, run Link.step { source } (List.replicate events.length .recvEvent) = some final ∧
      final.results = events.map PlainEvent.result ∧ final.source.unread = [] := by
  have reads : ∀ (events : List PlainEvent) (link : Link), (∀ event ∈ events, event.Headed) →
      link.source.unread = events.flatMap (fun event => event.frame.bytes) →
      ∃ final, run Link.step link (List.replicate events.length .recvEvent) = some final ∧
        final.results = link.results ++ events.map PlainEvent.result ∧ final.source.unread = [] := by
    intro events
    induction events with
    | nil => exact fun link _ stream => ⟨link, rfl, (List.append_nil _).symm, stream⟩
    | cons event rest ih =>
      intro link headed stream
      obtain ⟨first, later⟩ := List.forall_mem_cons.mp headed
      have taken : link.step .recvEvent =
          some (link.exchange ⟨[], recvEvent⟩ fun read => .event read.1 read.2) := rfl
      obtain ⟨left, results⟩ := step_reads (f := event.frame) stream taken
      obtain ⟨final, ran, known, ended⟩ := ih _ later left
      refine ⟨final, ran, ?_, ended⟩
      have parsed : parseEvent (event.frame.body.getD []) = (event.headers.map EventHeader.entry, event.body) :=
        parseEvent_data event first
      rw [known, results, Call.result, parsed, List.append_assoc]
      rfl
  exact reads events { source } headed stream

def speaker : EventHeader where
  name := "Event-Subclass".toList
  value := ['é', ':']
  written := ['é', '%', '3', 'A']
  oneLine := by decide
  whole := by decide
  quoted := .literal 'é' _ _ (by decide) (by decide) <| .escaped ':' [] ['%', '3', 'A'] []
    (.cons '3' 'A' 3 10 [] [] (by decide) rfl rfl .nil) .nil

def speakerEvent : PlainEvent where
  before := [utf8 "Content-Type: text/event-plain"]
  after := []
  headers := [speaker]
  body := utf8 "a\n\nb: c"
  plain := startTalking.plain
  distinct := by decide

theorem speakerEvents_inverted :
    ∃ final, run Link.step { source := trickle [speakerEvent.frame, speakerEvent.frame] } [.recvEvent, .recvEvent] =
        some final ∧
      final.results = [speakerEvent.result, speakerEvent.result] ∧ final.source.unread = [] := by
  have headed : speakerEvent.Headed := .inl (List.cons_ne_nil speaker [])
  exact recvEvent_inverts [speakerEvent, speakerEvent]
    (List.forall_mem_cons.mpr ⟨headed, List.forall_mem_cons.mpr ⟨headed, nofun⟩⟩) _ (by decide +kernel)

def headlessEvent : PlainEvent where
  before := []
  after := []
  headers := []
  body := utf8 "x"
  plain := nofun
  distinct := List.nodup_nil

/-- Its body is lost: the blank line before it is no blank line behind a line. -/
theorem headlessEvent_not_inverted :
    ¬∀ (events : List PlainEvent) (source : Source),
      source.unread = events.flatMap (fun event => event.frame.bytes) →
      ∃ final, run Link.step { source } (List.replicate events.length .recvEvent) = some final ∧
        final.results = events.map PlainEvent.result ∧ final.source.unread = [] := by
  intro inverts
  obtain ⟨final, ran, results, _⟩ := inverts [headlessEvent] (trickle [headlessEvent.frame]) (by decide +kernel)
  have read : (run Link.step { source := trickle [headlessEvent.frame] } [.recvEvent]).map Link.results =
      some [.event [] []] := by decide +kernel
  rw [show run Link.step { source := trickle [headlessEvent.frame] } [.recvEvent] = some final from ran,
    Option.map_some, results] at read
  revert read
  decide +kernel

end Fswtch.Brain.Esl
