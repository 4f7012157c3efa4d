import Fswtch.Brain.TtsFrames
import Mathlib.Data.List.TakeWhile

/-! The loop over the audio of a synthesis. Frames are read until one of them ends the session;
a read that times out tells the server that the turn is done, and a second one leaves the loop,
but only after the audio has begun. -/

namespace Fswtch.Brain.TtsAudioLoop
open Fswtch.Lib.ByteReader Fswtch.Brain.TtsFrames

def msgFullServer : UInt8 := 0x9

def msgAudioOnlyServer : UInt8 := 0xB

def eFinishSession : Int := 102

def eSessionFinished : Int := 152

def eSessionFailed : Int := 153

def eTtsSentenceEnd : Int := 351

/-- A message of the server, a `str` or `bytes`. -/
inductive ServerFrame where
  | text
  | binary (data : List UInt8)

inductive Received where
  | frame (frame : ServerFrame)
  | timedOut

inductive Failure where
  | parser (error : PyError)
  | runtime (text : String)
  deriving DecidableEq

inductive Ending where
  | returned
  | raised (failure : Failure)
  deriving DecidableEq

structure Loop where
  sawAudio : Bool := false
  finished : Bool := false
  timeoutMs : Nat := 1500
  sent : List (List UInt8) := []
  chunks : List (List UInt8) := []

inductive Status where
  | running (loop : Loop)
  | ended (ending : Ending) (loop : Loop)

def serverError (code : Option Nat) : Failure :=
  .runtime ("TTS server error: code=" ++ (code.map toString).getD "None")

/-- A request that cannot be packed or sent is passed over. -/
def onTimeout (sessionId : String) (loop : Loop) : Status :=
  if loop.sawAudio = false then .running loop
  else if loop.finished = false then
    .running { loop with
      sent := loop.sent ++ (marshalControl eFinishSession sessionId (utf8 "\x7b\x7d")).toList
      finished := true
      timeoutMs := 5000 }
  else .ended .returned loop

def onFrame (loop : Loop) (frame : ParsedFrame) : Status :=
  if frame.msgType = msgAudioOnlyServer then
    .running { loop with
      sawAudio := true
      chunks := if 2 ≤ frame.payload.length then loop.chunks ++ [frame.payload] else loop.chunks }
  else if frame.msgType = msgFullServer ∧ frame.flag = flagWithEvent ∧
      frame.event = some eTtsSentenceEnd then .ended .returned loop
  else if frame.msgType = msgFullServer ∧ frame.flag = flagWithEvent ∧
      frame.event ∈ [some eSessionFinished, some eSessionFailed] then .ended .returned loop
  else if frame.msgType = msgError then .ended (.raised (serverError frame.error)) loop
  else .running loop

def step (sessionId : String) (loop : Loop) : Received → Status
  | .timedOut => onTimeout sessionId loop
  | .frame .text => .running loop
  | .frame (.binary raw) =>
    match parseFrame raw with
    | .error error => .ended (.raised (.parser error)) loop
    | .ok frame => onFrame loop frame

def after (sessionId : String) (recv : Nat → Received) : Nat → Status
  | 0 => .running {}
  | k + 1 =>
    match after sessionId recv k with
    | .running loop => step sessionId loop (recv k)
    | .ended ending loop => .ended ending loop

def ServerFrame.audio : ServerFrame → Option (List UInt8)
  | .text => none
  | .binary raw =>
    match parseFrame raw with
    | .error _ => none
    | .ok frame => if frame.msgType = msgAudioOnlyServer then some frame.payload else none

def ServerFrame.ending : ServerFrame → Option Ending
  | .text => none
  | .binary raw =>
    match parseFrame raw with
    | .error error => some (.raised (.parser error))
    | .ok frame =>
      if frame.msgType = msgFullServer ∧ frame.flag = flagWithEvent ∧
          frame.event ∈ [some eTtsSentenceEnd, some eSessionFinished, some eSessionFailed] then some .returned
      else if frame.msgType = msgError then some (.raised (serverError frame.error))
      else none

def streamed (frames : List ServerFrame) : List ServerFrame := frames.takeWhile fun frame => frame.ending.isNone

def payloads (frames : List ServerFrame) : List (List UInt8) :=
  (frames.filterMap ServerFrame.audio).filter fun payload => 2 ≤ payload.length

def thenSilence (frames : List ServerFrame) (k : Nat) : Received :=
  match frames[k]? with
  | some frame => .frame frame
  | none => .timedOut

def Finishes (sessionId : String) (frames : List ServerFrame) : Prop :=
  ∃ k loop, after sessionId (thenSilence frames) k = .ended .returned loop ∧
    loop.chunks = payloads (streamed frames)

def Loop.hear (loop : Loop) (frames : List ServerFrame) : Loop :=
  { loop with
    sawAudio := loop.sawAudio || frames.any fun frame => frame.audio.isSome
    chunks := loop.chunks ++ payloads frames }

theorem Loop.hear_none {frame : ServerFrame} (other : frame.audio = none) (loop : Loop) :
    loop.hear [frame] = loop := by
  simp [hear, payloads, other]

theorem Loop.hear_some {frame : ServerFrame} {payload : List UInt8} (found : frame.audio = some payload)
    (loop : Loop) : loop.hear [frame] = { loop with
      sawAudio := true
      chunks := if 2 ≤ payload.length then loop.chunks ++ [payload] else loop.chunks } := by
  by_cases long : 2 ≤ payload.length
  · simp [hear, payloads, found, long]
  · simp [hear, payloads, found, long]

theorem Loop.hear_cons (loop : Loop) (frame : ServerFrame) (rest : List ServerFrame) :
    loop.hear (frame :: rest) = (loop.hear [frame]).hear rest := by
  cases found : frame.audio with
  | none => simp [hear, payloads, found]
  | some payload =>
    by_cases long : 2 ≤ payload.length
    · simp [hear, payloads, found, long]
    · simp [hear, payloads, found, long]

theorem step_frame (sessionId : String) (loop : Loop) (frame : ServerFrame) :
    step sessionId loop (.frame frame) =
      match frame.ending with
      | some ending => .ended ending loop
      | none => .running (loop.hear [frame]) := by
  cases frame with
  | text =>
    rw [Loop.hear_none rfl]
    rfl
  | binary raw =>
    cases parsed : parseFrame raw with
    | error error => simp [step, ServerFrame.ending, parsed]
    | ok frame =>
      by_cases audio : frame.msgType = msgAudioOnlyServer
      · have found : (ServerFrame.binary raw).audio = some frame.payload := by
          simp [ServerFrame.audio, parsed, audio]
        rw [Loop.hear_some found]
        simp [step, ServerFrame.ending, parsed, onFrame, audio, msgAudioOnlyServer, msgFullServer, msgError]
      · have other : (ServerFrame.binary raw).audio = none := by simp [ServerFrame.audio, parsed, audio]
        rw [Loop.hear_none other]
        simp only [step, ServerFrame.ending, parsed, onFrame, if_neg audio, List.mem_cons]
        by_cases event : frame.msgType = msgFullServer ∧ frame.flag = flagWithEvent
        · simp only [event, true_and]
          by_cases sentence : frame.event = some eTtsSentenceEnd
          · rw [if_pos sentence, if_pos (.inl sentence)]
          · rw [if_neg sentence]
            simp only [sentence, false_or]
            split_ifs <;> rfl
        · have never : ∀ p, ¬(frame.msgType = msgFullServer ∧ frame.flag = flagWithEvent ∧ p) :=
            fun p all => event ⟨all.1, all.2.1⟩
          simp only [never, if_false]
          split_ifs <;> rfl

section Running

variable {sessionId : String} {recv : Nat → Received}

theorem after_ended {k : Nat} {ending : Ending} {loop : Loop} (ended : after sessionId recv k = .ended ending loop)
    (n : Nat) : after sessionId recv (k + n) = .ended ending loop := by
  induction n with
  | zero => exact ended
  | succ n ih => rw [← Nat.add_assoc, after, ih]

theorem ended_unique {k n : Nat} {ending other : Ending} {loop last : Loop}
    (ended : after sessionId recv k = .ended ending loop) (again : after sessionId recv n = .ended other last) :
    ending = other := by
  have later := after_ended ended n
  rw [Nat.add_comm, after_ended again k] at later
  cases later
  rfl

theorem after_running {k : Nat} {loop : Loop} (running : after sessionId recv k = .running loop) :
    after sessionId recv (k + 1) = step sessionId loop (recv k) := by
  rw [after, running]

theorem after_frames {k : Nat} {loop : Loop} {frames : List ServerFrame}
    (begins : after sessionId recv k = .running loop)
    (reads : ∀ i frame, frames[i]? = some frame → recv (k + i) = .frame frame) :
    after sessionId recv (k + frames.length) =
      match frames.findSome? ServerFrame.ending with
      | some ending => .ended ending (loop.hear (streamed frames))
      | none => .running (loop.hear frames) := by
  induction frames generalizing k loop with
  | nil => simpa [Loop.hear, payloads] using begins
  | cons frame rest ih =>
    have next : after sessionId recv (k + 1) = _ := after_running begins
    have read : recv k = .frame frame := reads 0 frame rfl
    rw [read, step_frame] at next
    have shift : k + (frame :: rest).length = k + 1 + rest.length := by
      rw [List.length_cons]
      omega
    rw [shift]
    cases ends : frame.ending with
    | some ending =>
      rw [ends] at next
      rw [after_ended next, List.findSome?_cons, ends]
      simp [streamed, ends, Loop.hear, payloads]
    | none =>
      rw [ends] at next
      rw [ih next fun i later found => ?_, List.findSome?_cons, ends]
      · simp [streamed, ends, ← Loop.hear_cons]
      · rw [← reads (i + 1) later found]
        congr 1
        omega

/-- Before the audio has begun, neither silence nor other frames end the loop. -/
theorem after_quiet (quiet : ∀ k frame, recv k = .frame frame → frame.audio = none ∧ frame.ending = none)
    (k : Nat) : after sessionId recv k = .running {} := by
  induction k with
  | zero => rfl
  | succ k ih =>
    rw [after_running ih]
    cases heard : recv k with
    | timedOut => rfl
    | frame frame =>
      obtain ⟨other, goes⟩ := quiet k frame heard
      rw [step_frame, goes, Loop.hear_none other]

/-- Once the audio has begun, two reads that time out end the loop. -/
theorem after_idle {k : Nat} {loop : Loop} (begins : after sessionId recv k = .running loop)
    (audio : loop.sawAudio = true) (working : loop.finished = false) (first : recv k = .timedOut)
    (second : recv (k + 1) = .timedOut) :
    ∃ last, after sessionId recv (k + 2) = .ended .returned last ∧ last.chunks = loop.chunks := by
  have requested := after_running begins
  rw [first, step, onTimeout, if_neg (by simp [audio]), if_pos working] at requested
  have left := after_running requested
  rw [second, step, onTimeout, if_neg (by simp [audio]), if_neg (by simp)] at left
  exact ⟨_, left, rfl⟩

end Running

theorem mem_of_thenSilence {frames : List ServerFrame} {k : Nat} {frame : ServerFrame}
    (heard : thenSilence frames k = .frame frame) : frame ∈ frames := by
  unfold thenSilence at heard
  split at heard
  next read found =>
    cases heard
    exact List.mem_of_getElem? found
  next => cases heard

theorem after_thenSilence (sessionId : String) (frames : List ServerFrame) :
    after sessionId (thenSilence frames) (0 + frames.length) =
      match frames.findSome? ServerFrame.ending with
      | some ending => .ended ending (Loop.hear {} (streamed frames))
      | none => .running (Loop.hear {} frames) := by
  apply after_frames rfl
  intro i frame found
  rw [Nat.zero_add, thenSilence, found]

theorem finishes_of_ending (sessionId : String) {frames : List ServerFrame} {ending : Ending}
    (ends : frames.findSome? ServerFrame.ending = some ending) :
    Finishes sessionId frames ↔ ending = .returned := by
  have heard := after_thenSilence sessionId frames
  rw [ends] at heard
  constructor
  · rintro ⟨k, loop, ended, -⟩
    exact ended_unique heard ended
  · rintro rfl
    exact ⟨_, _, heard, rfl⟩

theorem finishes_of_audio (sessionId : String) {frames : List ServerFrame}
    (goesOn : ∀ frame ∈ frames, frame.ending = none)
    (audio : frames.any (fun frame => frame.audio.isSome) = true) : Finishes sessionId frames := by
  have none := List.findSome?_eq_none_iff.mpr goesOn
  have whole : streamed frames = frames := by
    rw [streamed, List.takeWhile_eq_self_iff]
    intro frame member
    rw [goesOn frame member]
    rfl
  have past : ∀ i, frames.length ≤ i → thenSilence frames i = .timedOut := by
    intro i beyond
    rw [thenSilence, List.getElem?_eq_none beyond]
  have heard := after_thenSilence sessionId frames
  rw [none] at heard
  obtain ⟨last, left, chunks⟩ := after_idle heard (by simp [Loop.hear, audio]) rfl
    (past _ (by omega)) (past _ (by omega))
  rw [Finishes, whole]
  exact ⟨_, last, left, chunks⟩

theorem not_finishes (sessionId : String) {frames : List ServerFrame}
    (silent : ∀ frame ∈ frames, frame.audio = none ∧ frame.ending = none) : ¬Finishes sessionId frames := by
  rintro ⟨k, loop, ended, _⟩
  rw [after_quiet (fun _ frame heard => silent frame (mem_of_thenSilence heard)) k] at ended
  cases ended

/-- The loop returns exactly where the first terminal event is no error, and where audio comes and no
terminal event does. -/
theorem finishes_iff (sessionId : String) (frames : List ServerFrame) :
    Finishes sessionId frames ↔ frames.findSome? ServerFrame.ending = some .returned ∨
      frames.findSome? ServerFrame.ending = none ∧ ∃ frame ∈ frames, frame.audio.isSome := by
  cases ends : frames.findSome? ServerFrame.ending with
  | some ending => simp [finishes_of_ending sessionId ends]
  | none =>
    have goesOn : ∀ frame ∈ frames, frame.ending = none := List.findSome?_eq_none_iff.mp ends
    simp only [reduceCtorEq, false_or, true_and]
    constructor
    · intro finishes
      by_contra silent
      refine not_finishes sessionId (fun frame member => ⟨?_, goesOn frame member⟩) finishes
      have without : ¬frame.audio.isSome := fun audio => silent ⟨frame, member, audio⟩
      simpa using without
    · rintro ⟨frame, member, audio⟩
      exact finishes_of_audio sessionId goesOn (List.any_eq_true.mpr ⟨frame, member, audio⟩)

/-- A server that takes the request and never answers. -/
theorem silence_waits :
    (∀ k, after "s" (thenSilence []) k = .running {}) ∧ ¬Finishes "s" [] :=
  ⟨after_quiet fun _ _ heard => absurd (mem_of_thenSilence heard) List.not_mem_nil, not_finishes "s" nofun⟩

/-- A frame of audio that is followed by the end of the sentence. -/
example : Finishes "s" [.text, .binary audioFrame,
    .binary [0x11, 0x94, 0x10, 0x00, 0, 0, 1, 95, 0, 0, 0, 1, 115, 0, 0, 0, 0]] :=
  ⟨3, { sawAudio := true, chunks := [[7, 8]] }, rfl, rfl⟩

end Fswtch.Brain.TtsAudioLoop
