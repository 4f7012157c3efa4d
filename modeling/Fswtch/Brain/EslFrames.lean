import Mathlib.Data.List.Infix
import Fswtch.Brain.Esl
import Fswtch.Lib.StepRun

/-! The session's reads stay on the frames of the server's stream as long as `send_event`, which
reads no body, never meets a frame that has one. -/

namespace Fswtch.Brain.Esl
open Fswtch.Lib.PythonText Fswtch.Lib.SocketReader Fswtch.Lib.StepRun
open Fswtch.Lib.ByteReader (utf8)

def contentLengthKey : List UInt8 := asciiBytes "Content-Length".toList

def contentLengthLine (n : Nat) : List UInt8 := contentLengthKey ++ colon ++ asciiBytes (Nat.toDigits 10 n)

structure PlainLine (line : List UInt8) : Prop where
  nonempty : line ≠ []
  oneLine : newline ∉ line
  other : ¬(contentLengthKey ++ colon) <+: line

instance (line : List UInt8) : Decidable (PlainLine line) :=
  decidable_of_iff (line ≠ [] ∧ newline ∉ line ∧ ¬(contentLengthKey ++ colon) <+: line)
    ⟨fun all => ⟨all.1, all.2.1, all.2.2⟩, fun plain => ⟨plain.nonempty, plain.oneLine, plain.other⟩⟩

/-- What the server sends as one message: a header block, with the length of the body
somewhere in it if there is one, and the body. -/
structure Frame where
  before : List (List UInt8)
  after : List (List UInt8)
  body : Option (List UInt8)
  plain : ∀ line ∈ before ++ after, PlainLine line

def Frame.lines (f : Frame) : List (List UInt8) :=
  f.before ++ (f.body.map fun body => contentLengthLine body.length).toList ++ f.after

def Frame.bytes (f : Frame) : List UInt8 :=
  f.lines.flatMap (· ++ [newline]) ++ newline :: f.body.getD []

def Frame.headers (f : Frame) : Headers := f.lines.foldl (addHeader decode) []

theorem ascii_toDigits (n : Nat) : Ascii (Nat.toDigits 10 n) := by
  intro c member
  have digit : c.isDigit := Nat.isDigit_of_mem_toDigits (by decide) (by decide) member
  have bounds := isDigit_bounds digit
  omega

theorem decode_eq_contentLength (key : List UInt8) : decode key = "Content-Length" ↔ key = contentLengthKey := by
  have whole : "Content-Length" = String.ofList "Content-Length".toList := String.ofList_toList.symm
  rw [whole]
  exact decode_eq_iff (by decide) key

theorem colon_eq : colon = [58, 32] := by decide

theorem split_contentLengthLine (n : Nat) :
    splitOnce colon (contentLengthLine n) = some (contentLengthKey, asciiBytes (Nat.toDigits 10 n)) := by
  have clean : (58 : UInt8) ∉ contentLengthKey := by decide
  rw [contentLengthLine, colon_eq]
  exact splitOnce_append clean [32] _

theorem PlainLine.get_addHeader {line : List UInt8} (plain : PlainLine line) (headers : Headers) :
    (addHeader decode headers line).get "Content-Length" = headers.get "Content-Length" := by
  unfold addHeader
  cases split : splitOnce colon line with
  | none => rfl
  | some halves =>
    have apart : decode halves.1 ≠ "Content-Length" := by
      intro same
      rw [decode_eq_contentLength] at same
      refine plain.other ⟨halves.2, ?_⟩
      rw [splitOnce_eq_some split, same]
    exact (Dict.get_set _ _ _ _).trans (if_neg apart)

theorem get_addHeaders {lines : List (List UInt8)} (plain : ∀ line ∈ lines, PlainLine line) (headers : Headers) :
    (lines.foldl (addHeader decode) headers).get "Content-Length" = headers.get "Content-Length" := by
  induction lines generalizing headers with
  | nil => rfl
  | cons line rest ih =>
    rw [List.forall_mem_cons] at plain
    rw [List.foldl_cons, ih plain.2, plain.1.get_addHeader]

theorem get_contentLengthLine (n : Nat) (headers : Headers) :
    (addHeader decode headers (contentLengthLine n)).get "Content-Length" =
      some (String.ofList (Nat.toDigits 10 n)) := by
  rw [addHeader, split_contentLengthLine]
  change (headers.set (decode contentLengthKey) (decode _)).get _ = _
  rw [(decode_eq_contentLength _).mpr rfl, Dict.get_set, if_pos rfl, (decode_eq_iff (ascii_toDigits n) _).mpr rfl]

theorem Frame.get_contentLength (f : Frame) :
    f.headers.get "Content-Length" = f.body.map fun body => String.ofList (Nat.toDigits 10 body.length) := by
  have plain := List.forall_mem_append.mp f.plain
  rw [Frame.headers, Frame.lines, List.foldl_append, get_addHeaders plain.2, List.foldl_append]
  cases f.body with
  | none => exact get_addHeaders plain.1 []
  | some body => exact get_contentLengthLine body.length _

theorem contentLengthLine_plain (n : Nat) : contentLengthLine n ≠ [] ∧ newline ∉ contentLengthLine n := by
  refine ⟨List.cons_ne_nil _ _, fun member => ?_⟩
  rcases List.mem_append.mp member with fixed | digits
  · revert fixed
    decide
  · obtain ⟨c, known, same⟩ := List.mem_map.mp digits
    have digit : c.isDigit := Nat.isDigit_of_mem_toDigits (by decide) (by decide) known
    have bounds := isDigit_bounds digit
    have code := congrArg UInt8.toNat same
    rw [UInt8.toNat_ofNat', show newline.toNat = 10 from rfl] at code
    omega

theorem Frame.line_plain (f : Frame) : ∀ line ∈ f.lines, line ≠ [] ∧ newline ∉ line := by
  have plain := List.forall_mem_append.mp f.plain
  refine List.forall_mem_append.mpr ⟨List.forall_mem_append.mpr ⟨fun line member => ?_, fun line member => ?_⟩,
    fun line member => ?_⟩
  · exact ⟨(plain.1 line member).nonempty, (plain.1 line member).oneLine⟩
  · obtain ⟨body, _, rfl⟩ := Option.map_eq_some_iff.mp (Option.mem_toList.mp member)
    exact contentLengthLine_plain body.length
  · exact ⟨(plain.2 line member).nonempty, (plain.2 line member).oneLine⟩

theorem readHeaderLines_returns {lines : List (List UInt8)} (plain : ∀ line ∈ lines, line ≠ [] ∧ newline ∉ line)
    (headers : Headers) {rest : List UInt8} {fuel : Nat} (enough : lines.length < fuel) {s : Source}
    (stream : s.unread = lines.flatMap (· ++ [newline]) ++ newline :: rest) :
    Returns (readHeaderLines fuel headers) s (lines.foldl (addHeader decode) headers) rest := by
  induction lines generalizing headers fuel s with
  | nil =>
    obtain ⟨fuel, rfl⟩ := Nat.exists_eq_succ_of_ne_zero (Nat.ne_of_gt enough)
    have blank : Returns (readLine closed) s [] rest := readLine_returns closed stream List.not_mem_nil
    refine blank.bind fun s' left => ?_
    rw [if_pos rfl, ← left]
    exact returns_pure headers s'
  | cons line more ih =>
    obtain ⟨fuel, rfl⟩ := Nat.exists_eq_succ_of_ne_zero (Nat.ne_of_gt (Nat.zero_lt_of_lt enough))
    obtain ⟨⟨nonempty, clean⟩, later⟩ := List.forall_mem_cons.mp plain
    rw [List.flatMap_cons, List.append_assoc, List.append_assoc, List.singleton_append] at stream
    refine (readLine_returns closed stream clean).bind fun s' left => ?_
    rw [if_neg nonempty]
    exact ih later _ (Nat.lt_of_succ_lt_succ enough) left

theorem length_le_lines (lines : List (List UInt8)) :
    lines.length ≤ (lines.flatMap (· ++ [newline])).length := by
  induction lines with
  | nil => exact Nat.le_refl 0
  | cons line rest ih =>
    rw [List.flatMap_cons, List.length_append, List.length_append, List.length_cons, List.length_singleton]
    omega

theorem runOn_readHeaders (s : Source) :
    runOn readHeaders s = runOn (readHeaderLines (s.unread.length + 1) []) s := by
  rw [readHeaders, runOn_bind]
  rfl

section
variable (f : Frame) {s : Source} {rest : List UInt8}

theorem readHeaders_returns (stream : s.unread = f.bytes ++ rest) :
    Returns readHeaders s f.headers (f.body.getD [] ++ rest) := by
  rw [Frame.bytes, List.append_assoc, List.cons_append] at stream
  have enough : f.lines.length < s.unread.length + 1 := by
    have lines := length_le_lines f.lines
    rw [stream, List.length_append]
    omega
  obtain ⟨s', ran, left⟩ := readHeaderLines_returns f.line_plain [] enough stream
  exact ⟨s', (runOn_readHeaders s).trans ran, left⟩

theorem readBody_returns (stream : s.unread = f.body.getD [] ++ rest) :
    Returns (readBody f.headers) s f.body rest := by
  rw [readBody, f.get_contentLength]
  cases known : f.body with
  | none =>
    rw [known] at stream
    have absent : Returns (pure none : Receive (Option (List UInt8))) s none s.unread := returns_pure none s
    rwa [stream] at absent
  | some body =>
    rw [known] at stream
    simp only [Option.map_some, int_toDigits]
    refine (readSlice_returns closedMidBody stream).bind fun s' left => ?_
    rw [← left]
    exact returns_pure (some body) s'

/-- What `send_cmd` returns where the frame is its reply. -/
def Frame.reply : Headers :=
  match f.body with
  | none => f.headers
  | some body => f.headers.set "_body" (strip (decode body))

theorem readReply_returns (stream : s.unread = f.bytes ++ rest) : Returns readReply s f.reply rest := by
  refine (readHeaders_returns f stream).bind fun s' left => ?_
  refine (readBody_returns f left).bind fun s'' left' => ?_
  rw [Frame.reply, ← left']
  cases f.body with
  | none => exact returns_pure _ s''
  | some body => exact returns_pure _ s''

theorem recvEvent_returns (stream : s.unread = f.bytes ++ rest) :
    Returns recvEvent s (parseEvent (f.body.getD [])) rest := by
  refine (readHeaders_returns f stream).bind fun s' left => ?_
  refine (readBody_returns f left).bind fun s'' left' => ?_
  rw [← left']
  exact returns_pure _ s''

end

theorem readHeaders_fails {s : Source} (over_ : s.unread = []) : Fails readHeaders s closed [] := by
  have failed := readLine_fails closed (by rw [over_]; exact List.not_mem_nil)
  obtain ⟨s', ran, left⟩ := failed.bind fun line =>
    if line = [] then pure [] else readHeaderLines s.unread.length (addHeader decode [] line)
  exact ⟨s', (runOn_readHeaders s).trans ran, left.trans over_⟩

inductive Call
  | sendCmd (cmd : String)
  | sendEvent (subclass : String) (headers : Headers) (body : List UInt8)
  | recvEvent
  deriving DecidableEq

inductive Result
  | reply (headers : Headers)
  | event (headers : Headers) (body : List UInt8)
  deriving DecidableEq

/-- A session, what was written to its socket, and what its calls returned, oldest first. -/
structure Link where
  source : Source
  sent : List UInt8 := []
  results : List Result := []
  deriving DecidableEq

def Link.exchange {α : Type} (link : Link) (call : Exchange α) (result : α → Result) : Link :=
  match runOn call.answer link.source with
  | (.ok value, source) => ⟨source, link.sent ++ call.written, link.results ++ [result value]⟩
  | (.error _, source) => ⟨source, link.sent ++ call.written, link.results⟩

def Link.step (link : Link) : Call → Option Link
  | .sendCmd cmd => some (link.exchange (Esl.sendCmd cmd) .reply)
  | .sendEvent subclass headers body => some (link.exchange (Esl.sendEvent subclass headers body) .reply)
  | .recvEvent => some (link.exchange ⟨[], Esl.recvEvent⟩ fun event => .event event.1 event.2)

def Call.result (f : Frame) : Call → Result
  | .sendCmd _ => .reply f.reply
  | .sendEvent _ _ _ => .reply f.headers
  | .recvEvent => .event (parseEvent (f.body.getD [])).1 (parseEvent (f.body.getD [])).2

def Call.leaves (f : Frame) : Call → List UInt8
  | .sendEvent _ _ _ => f.body.getD []
  | .sendCmd _ | .recvEvent => []

theorem exchange_returns {α : Type} {link : Link} {call : Exchange α} {value : α} {rest : List UInt8}
    (returned : Returns call.answer link.source value rest) (result : α → Result) :
    (link.exchange call result).source.unread = rest ∧
      (link.exchange call result).results = link.results ++ [result value] := by
  obtain ⟨s', ran, left⟩ := returned
  rw [Link.exchange, ran]
  exact ⟨left, rfl⟩

theorem exchange_fails {α : Type} {link : Link} {call : Exchange α} {error : Error} {rest : List UInt8}
    (failed : Fails call.answer link.source error rest) (result : α → Result) :
    (link.exchange call result).source.unread = rest ∧
      (link.exchange call result).results = link.results := by
  obtain ⟨s', ran, left⟩ := failed
  rw [Link.exchange, ran]
  exact ⟨left, rfl⟩

theorem step_reads {link link' : Link} {call : Call} {f : Frame} {rest : List UInt8}
    (stream : link.source.unread = f.bytes ++ rest) (taken : link.step call = some link') :
    link'.source.unread = call.leaves f ++ rest ∧ link'.results = link.results ++ [call.result f] := by
  cases call with
  | sendCmd cmd =>
    cases taken
    exact exchange_returns (readReply_returns f stream) _
  | sendEvent subclass headers body =>
    cases taken
    exact exchange_returns (readHeaders_returns f stream) _
  | recvEvent =>
    cases taken
    exact exchange_returns (recvEvent_returns f stream) _

theorem step_closed {link link' : Link} {call : Call} (ended : link.source.unread = [])
    (taken : link.step call = some link') :
    link'.source.unread = [] ∧ link'.results = link.results := by
  have failed := readHeaders_fails ended
  cases call with
  | sendCmd cmd =>
    cases taken
    exact exchange_fails (failed.bind _) _
  | sendEvent subclass headers body =>
    cases taken
    exact exchange_fails failed _
  | recvEvent =>
    cases taken
    exact exchange_fails (failed.bind _) _

def AtBoundary (frames : List Frame) (unread : List UInt8) : Prop :=
  ∃ later, later <:+ frames ∧ unread = later.flatMap Frame.bytes

instance (frames : List Frame) (unread : List UInt8) : Decidable (AtBoundary frames unread) :=
  decidable_of_iff (∃ later ∈ frames.tails, unread = later.flatMap Frame.bytes)
    (exists_congr fun later => and_congr_left fun _ => List.mem_tails later frames)

def Bodiless (frames : List Frame) (link : Link) : Call → Prop
  | .sendEvent _ _ _ => ∀ f, frames[link.results.length]? = some f → f.body.getD [] = []
  | .sendCmd _ | .recvEvent => True

instance decidableBodiless (frames : List Frame) (link : Link) : (call : Call) → Decidable (Bodiless frames link call)
  | .sendEvent _ _ _ => inferInstanceAs (Decidable (∀ _, _ → _))
  | .sendCmd _ | .recvEvent => isTrue trivial

def Aligned (frames : List Frame) (link : Link) : Prop :=
  link.source.unread = (frames.drop link.results.length).flatMap Frame.bytes

theorem Aligned.next {frames : List Frame} {link : Link} (aligned : Aligned frames link) :
    (∃ f, frames[link.results.length]? = some f ∧
        link.source.unread = f.bytes ++ (frames.drop (link.results.length + 1)).flatMap Frame.bytes) ∨
      frames.length ≤ link.results.length ∧ link.source.unread = [] := by
  rw [Aligned] at aligned
  by_cases more : link.results.length < frames.length
  · refine .inl ⟨frames[link.results.length], List.getElem?_eq_getElem more, ?_⟩
    rw [aligned, List.drop_eq_getElem_cons more, List.flatMap_cons]
  · have ended := Nat.not_lt.mp more
    refine .inr ⟨ended, ?_⟩
    rw [aligned, List.drop_eq_nil_of_le ended, List.flatMap_nil]

theorem step_aligned (frames : List Frame) (link : Link) (call : Call) (link' : Link)
    (aligned : Aligned frames link) (bodiless : Bodiless frames link call)
    (taken : link.step call = some link') : Aligned frames link' := by
  rcases aligned.next with ⟨f, known, stream⟩ | ⟨_, ended⟩
  · obtain ⟨left, results⟩ := step_reads stream taken
    have none_left : call.leaves f = [] := by
      cases call with
      | sendEvent subclass headers body => exact bodiless f known
      | sendCmd cmd | recvEvent => rfl
    rw [Aligned, left, none_left, results, List.length_append]
    rfl
  · obtain ⟨left, results⟩ := step_closed ended taken
    rw [Aligned, left, results, ← aligned, ended]

/-- In every run in which `send_event` meets no body the calls stay on frame boundaries. -/
theorem framing_aligned (frames : List Frame) (source : Source) (calls : List Call) (final : Link)
    (stream : source.unread = frames.flatMap Frame.bytes)
    (bodiless : Along Link.step (Bodiless frames) { source } calls)
    (taken : run Link.step { source } calls = some final) : AtBoundary frames final.source.unread := by
  have start : Aligned frames { source } := stream
  have aligned := invariant_of_run (step_aligned frames) start bodiless taken
  exact ⟨frames.drop final.results.length, List.drop_suffix _ _, aligned⟩

def trickle (frames : List Frame) : Source := ⟨[], (frames.flatMap Frame.bytes).map fun b => ⟨b, []⟩⟩

def startTalking : Frame :=
  ⟨[utf8 "Content-Type: text/event-plain"], [], some (utf8 "Vad-State: start-talking\n\n"), by decide⟩

def commandReply : Frame := ⟨[utf8 "Content-Type: command/reply", utf8 "Reply-Text: +OK"], [], none, by decide⟩

def apiResponse : Frame := ⟨[utf8 "Content-Type: api/response"], [], some (utf8 "+OK\n"), by decide⟩

def orderly : List Frame := [apiResponse, startTalking, commandReply]

def orderlyCalls : List Call :=
  [.sendCmd "api uuid_answer", .recvEvent, .sendEvent "fswtch::downlink_pcm" [] []]

theorem orderly_aligned :
    ∃ final, run Link.step { source := trickle orderly } orderlyCalls = some final ∧
      final.results.length = 3 ∧ AtBoundary orderly final.source.unread :=
  ⟨_, rfl, by decide +kernel,
    framing_aligned orderly (trickle orderly) orderlyCalls _ (by decide +kernel) (by decide +kernel) rfl⟩

/-- An event arrives before the reply to `send_event`. -/
theorem eventBeforeReply_not_aligned :
    ∃ final, run Link.step { source := trickle [startTalking, commandReply] }
        [.sendEvent "fswtch::downlink_pcm" [] []] = some final ∧
      ¬AtBoundary [startTalking, commandReply] final.source.unread :=
  ⟨_, rfl, by decide +kernel⟩

end Fswtch.Brain.Esl
