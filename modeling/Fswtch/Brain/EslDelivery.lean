import Fswtch.Brain.EslFrames

/-! The handler's `recv_event` loop and the `send_event` calls of a pipeline read frames off one
connection. No event is lost as long as each `send_event` is met by a command reply. -/

namespace Fswtch.Brain.Esl
open Fswtch.Lib.SocketReader Fswtch.Lib.StepRun
open Fswtch.Lib.ByteReader (utf8)

def Call.streams : Call → Bool
  | .sendEvent _ _ _ | .recvEvent => true
  | .sendCmd _ => false

def Frame.event (f : Frame) : Option (Headers × List UInt8) :=
  (f.body.map parseEvent).filter fun event => event.1 ≠ []

/-- What the server sends while audio is streaming: a command reply, or an event. -/
def Frame.streams (f : Frame) : Bool := f.body.isNone || f.event.isSome

/-- An event that `recv_event` returned; without headers it was a reply. -/
def Result.received : Result → Option (Headers × List UInt8)
  | .event headers body => if headers = [] then none else some (headers, body)
  | .reply _ => none

def Link.events (link : Link) : List (Headers × List UInt8) := link.results.filterMap Result.received

/-- The events of the frames read so far were returned, each once and in order, and the rest
of the stream is still unread. -/
def Delivered (frames : List Frame) (link : Link) : Prop :=
  ∃ done later, frames = done ++ later ∧ link.source.unread = later.flatMap Frame.bytes ∧
    link.events = done.filterMap Frame.event

instance (frames : List Frame) (link : Link) : Decidable (Delivered frames link) :=
  decidable_of_iff (∃ k < frames.length + 1,
      link.source.unread = (frames.drop k).flatMap Frame.bytes ∧
        link.events = (frames.take k).filterMap Frame.event) <| by
    constructor
    · rintro ⟨k, _, delivered⟩
      exact ⟨frames.take k, frames.drop k, (List.take_append_drop k frames).symm, delivered⟩
    · rintro ⟨done, later, rfl, unread, events⟩
      refine ⟨done.length, ?_, ?_⟩
      · rw [List.length_append]
        omega
      · rw [List.drop_left, List.take_left]
        exact ⟨unread, events⟩

/-- Where `send_event` reads a frame, it is a command reply. -/
def Matched (frames : List Frame) (link : Link) : Call → Prop
  | .sendEvent _ _ _ => ∀ f, frames[link.results.length]? = some f → f.body = none
  | .sendCmd _ | .recvEvent => True

instance decidableMatched (frames : List Frame) (link : Link) : (call : Call) → Decidable (Matched frames link call)
  | .sendEvent _ _ _ => inferInstanceAs (Decidable (∀ _, _ → _))
  | .sendCmd _ | .recvEvent => isTrue trivial

theorem Matched.bodiless {frames : List Frame} {link : Link} {call : Call} (matched : Matched frames link call) :
    Bodiless frames link call := by
  cases call with
  | sendEvent subclass headers body =>
    intro f known
    rw [matched f known]
    rfl
  | sendCmd cmd | recvEvent => trivial

theorem received_recvEvent (f : Frame) : (Call.recvEvent.result f).received = f.event := by
  unfold Call.result Result.received Frame.event
  cases f.body with
  | none => rfl
  | some body =>
    by_cases empty : (parseEvent body).1 = [] <;> simp [Option.filter, empty]

theorem received_result {frames : List Frame} {link : Link} {call : Call} {f : Frame} (streams : call.streams = true)
    (matched : Matched frames link call) (known : frames[link.results.length]? = some f) :
    (call.result f).received = f.event := by
  cases call with
  | recvEvent => exact received_recvEvent f
  | sendEvent subclass headers body =>
    rw [Frame.event, matched f known]
    rfl
  | sendCmd cmd => cases streams

structure Delivers (frames : List Frame) (link : Link) : Prop where
  aligned : Aligned frames link
  events : link.events = (frames.take link.results.length).filterMap Frame.event

theorem step_delivers (frames : List Frame) (link : Link) (call : Call) (link' : Link)
    (delivers : Delivers frames link) (matched : call.streams = true ∧ Matched frames link call)
    (taken : link.step call = some link') : Delivers frames link' := by
  refine ⟨step_aligned frames link call link' delivers.aligned matched.2.bodiless taken, ?_⟩
  rcases delivers.aligned.next with ⟨f, known, stream⟩ | ⟨_, ended⟩
  · obtain ⟨_, results⟩ := step_reads stream taken
    have event := received_result matched.1 matched.2 known
    rw [Link.events, results, List.filterMap_append, ← Link.events, delivers.events, List.length_append,
      List.length_singleton, List.take_add_one, known, List.filterMap_append]
    simp only [List.filterMap_cons, List.filterMap_nil, event, Option.toList_some]
  · obtain ⟨_, results⟩ := step_closed ended taken
    rw [Link.events, results]
    exact delivers.events

/-- In every run in which `send_event` is met by replies only, no event is lost. -/
theorem events_delivered (frames : List Frame) (source : Source) (calls : List Call) (final : Link)
    (stream : source.unread = frames.flatMap Frame.bytes) (streams : ∀ call ∈ calls, call.streams = true)
    (matched : Along Link.step (Matched frames) { source } calls)
    (taken : run Link.step { source } calls = some final) : Delivered frames final := by
  have start : Delivers frames { source } := ⟨stream, rfl⟩
  have delivers := invariant_of_run (step_delivers frames) start (along_and streams matched) taken
  exact ⟨_, _, (List.take_append_drop final.results.length frames).symm, delivers.aligned, delivers.events⟩

def stopTalking : Frame :=
  ⟨[utf8 "Content-Type: text/event-plain"], [], some (utf8 "Vad-State: stop-talking\n\n"), startTalking.plain⟩

/-- Two events around the reply to a `send_event`. -/
def replied : List Frame := [startTalking, commandReply, stopTalking]

def repliedCalls : List Call := [.recvEvent, .sendEvent "fswtch::downlink_pcm" [] [], .recvEvent]

theorem replied_delivered :
    ∃ final, run Link.step { source := trickle replied } repliedCalls = some final ∧
      final.events = [([("Vad-State", "start-talking")], []), ([("Vad-State", "stop-talking")], [])] ∧
      Delivered replied final :=
  ⟨_, rfl, by decide +kernel,
    events_delivered replied (trickle replied) repliedCalls _ (by decide +kernel) (by decide)
      (by decide +kernel) rfl⟩

/-- An event that arrives before the reply is taken for it, and the loop reads on in its body. -/
theorem eventBeforeReply_lost :
    (∀ f ∈ [startTalking, commandReply], f.streams = true) ∧
      ∃ final, run Link.step { source := trickle [startTalking, commandReply] }
          [.sendEvent "fswtch::downlink_pcm" [] [], .recvEvent, .recvEvent] = some final ∧
        ¬Delivered [startTalking, commandReply] final :=
  ⟨by decide +kernel, _, rfl, by decide +kernel⟩

end Fswtch.Brain.Esl
