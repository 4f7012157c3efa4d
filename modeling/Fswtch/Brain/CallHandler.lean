import Fswtch.Brain.Esl

/-! The handler of one call (`brain/brain.py`): its event loop sets and clears one cancel flag
and starts a pipeline thread for every utterance; a pipeline looks at the flag each time it has
a chunk of speech to send. What is only logged or dumped to a file is left out. -/

namespace Fswtch.Brain.CallHandler
open Fswtch.Lib Fswtch.Lib.PythonText
open Fswtch.Brain.Esl (Headers)

def VAD : String := "fswtch::vad"

def UPLINK : String := "fswtch::uplink_pcm"

def DOWNLINK : String := "fswtch::downlink_pcm"

structure Job where
  uuid : String
  pcm : List UInt8
  rate : Int
  channels : Int
  deriving DecidableEq

/-- Where `_run_pipeline` is: at its next chunk, past the check with a chunk in hand, or over. -/
inductive Phase
  | polling
  | sending (chunk : List UInt8)
  | ended
  deriving DecidableEq

structure Pipeline where
  job : Job
  phase : Phase
  deriving DecidableEq

/-- What the handler and its pipelines do, in order. A pipeline is its number. -/
inductive Entry
  | cancelled
  | started (p : Nat) (job : Job)
  | passed (p : Nat)
  | sent (p : Nat) (event : List UInt8)
  | callEnded (aUuid : String)
  deriving DecidableEq

structure Handler where
  aUuid : String := ""
  bUuid : String := ""
  cancel : Bool := false
  live : Bool := true
  pipelines : List Pipeline := []
  trace : List Entry := []
  deriving DecidableEq

def callUuid (headers : Headers) : String := (headers.get "Call-UUID").getD ""

def vadState (headers : Headers) : String := (headers.get "Vad-State").getD ""

def optInt (text : Option String) : Option Int := text.bind fun s => if s = "" then none else int s

/-- Python's `value or default`, where `None` and `0` are both false. -/
def orElse (value : Option Int) (default : Int) : Int := (value.filter (· ≠ 0)).getD default

def startsTalking (headers : Headers) : Bool :=
  headers.get "Event-Subclass" = some VAD ∧ callUuid headers ≠ "" ∧ vadState headers = "start-talking"

def Handler.onVad (h : Handler) (headers : Headers) : Handler :=
  if callUuid headers = "" ∨ vadState headers = "" then h
  else if vadState headers = "start-talking" then { h with cancel := true, trace := h.trace ++ [.cancelled] }
  else h

/-- The utterance of an uplink event; `none` without a uuid or where the body does not decode. -/
def uplinkJob (headers : Headers) (body : List UInt8) : Option Job :=
  if callUuid headers = "" then none
  else (Base64.decode body).map fun pcm =>
    ⟨callUuid headers, pcm, orElse (optInt (headers.get "Sample-Rate")) 8000,
      orElse (optInt (headers.get "Channels")) 1⟩

def Handler.start (h : Handler) (job : Job) : Handler :=
  { h with
    cancel := false
    pipelines := h.pipelines ++ [⟨job, .polling⟩]
    trace := h.trace ++ [.started h.pipelines.length job] }

def Handler.onUplink (h : Handler) (headers : Headers) (body : List UInt8) : Handler :=
  match uplinkJob headers body with
  | none => h
  | some job => h.start job

/-- The first uplink event names the leg whose uplink events are heard. -/
def Handler.learn (h : Handler) (uuid : String) : Handler :=
  { h with bUuid := if h.bUuid = "" then uuid else h.bUuid }

def Handler.handle (h : Handler) (headers : Headers) (body : List UInt8) : Handler :=
  if headers.get "Event-Subclass" = some VAD then h.onVad headers
  else if headers.get "Event-Subclass" = some UPLINK then
    let learned := h.learn (callUuid headers)
    if learned.bUuid ≠ "" ∧ callUuid headers ≠ learned.bUuid then learned
    else learned.onUplink headers body
  else h

def vadEvent (uuid state : String) : Headers :=
  [("Event-Subclass", VAD), ("Call-UUID", uuid), ("Vad-State", state)]

def uplinkEvent (uuid : String) : Headers := [("Event-Subclass", UPLINK), ("Call-UUID", uuid)]

def Handler.setPhase (h : Handler) (p : Nat) (job : Job) (phase : Phase) : Handler :=
  { h with pipelines := h.pipelines.set p ⟨job, phase⟩ }

def Handler.poll (h : Handler) (p : Nat) (job : Job) (chunk : List UInt8) : Handler :=
  if h.cancel then h.setPhase p job .ended
  else { h.setPhase p job (.sending chunk) with trace := h.trace ++ [.passed p] }

/-- How `send_pcm` ends: it returns, it raises while it reads the reply, or it writes nothing. -/
inductive Outcome
  | replied
  | unanswered
  | refused
  deriving DecidableEq

def Handler.sendPcm (h : Handler) (p : Nat) (job : Job) (chunk : List UInt8) (outcome : Outcome) : Handler :=
  let event := (Esl.sendPcm DOWNLINK job.uuid chunk job.rate job.channels).written
  match outcome with
  | .replied => { h.setPhase p job .polling with trace := h.trace ++ [.sent p event] }
  | .unanswered => { h.setPhase p job .ended with trace := h.trace ++ [.sent p event] }
  | .refused => h.setPhase p job .ended

def Handler.finally_ (h : Handler) : Handler :=
  { h with
    cancel := true
    live := false
    trace := if h.aUuid = "" then h.trace else h.trace ++ [.callEnded h.aUuid] }

/-- `finish` is the end of a pipeline's stream, or an error in it. -/
inductive Action
  | event (headers : Headers) (body : List UInt8)
  | chunk (p : Nat) (bytes : List UInt8)
  | send (p : Nat) (outcome : Outcome)
  | finish (p : Nat)
  | hangUp
  deriving DecidableEq

def Handler.step (h : Handler) : Action → Option Handler
  | .event headers body => if h.live then some (h.handle headers body) else none
  | .chunk p bytes =>
    match h.pipelines[p]? with
    | some ⟨job, .polling⟩ => some (h.poll p job bytes)
    | _ => none
  | .send p outcome =>
    match h.pipelines[p]? with
    | some ⟨job, .sending chunk⟩ => some (h.sendPcm p job chunk outcome)
    | _ => none
  | .finish p =>
    match h.pipelines[p]? with
    | some ⟨job, .polling⟩ => some (h.setPhase p job .ended)
    | _ => none
  | .hangUp => if h.live then some h.finally_ else none

/-- An event cancels, starts a pipeline, or does neither. -/
inductive Effect
  | cancels
  | starts (job : Job)
  deriving DecidableEq

def effect (leg : String) (headers : Headers) (body : List UInt8) : Option Effect :=
  if startsTalking headers then some .cancels
  else if headers.get "Event-Subclass" = some UPLINK ∧ callUuid headers = leg then
    (uplinkJob headers body).map .starts
  else none

def Handler.apply (h : Handler) : Option Effect → Handler
  | some .cancels => { h with cancel := true, trace := h.trace ++ [.cancelled] }
  | some (.starts job) => h.start job
  | none => h

def legAfter (leg : String) (headers : Headers) : String :=
  if headers.get "Event-Subclass" = some UPLINK ∧ leg = "" then callUuid headers else leg

theorem vad_not_uplink {headers : Headers} (vad : headers.get "Event-Subclass" = some VAD) :
    headers.get "Event-Subclass" ≠ some UPLINK := by
  rw [vad]
  decide

theorem effect_other {leg : String} {headers : Headers}
    (other : ¬(headers.get "Event-Subclass" = some UPLINK ∧ callUuid headers = leg)) (body : List UInt8) :
    effect leg headers body = if startsTalking headers then some .cancels else none := by
  rw [effect, if_neg other]

theorem onVad_eq (h : Handler) {headers : Headers} (vad : headers.get "Event-Subclass" = some VAD)
    (leg : String) (body : List UInt8) : h.onVad headers = h.apply (effect leg headers body) := by
  have other : ¬(headers.get "Event-Subclass" = some UPLINK ∧ callUuid headers = leg) :=
    fun both => vad_not_uplink vad both.1
  rw [Handler.onVad, effect_other other]
  by_cases unnamed : callUuid headers = ""
  · have quiet : startsTalking headers = false := decide_eq_false fun all => all.2.1 unnamed
    rw [if_pos (.inl unnamed), quiet]
    rfl
  · by_cases talking : vadState headers = "start-talking"
    · have talks : startsTalking headers = true := decide_eq_true ⟨vad, unnamed, talking⟩
      have stated : ¬(callUuid headers = "" ∨ vadState headers = "") := by
        rw [talking]
        exact fun either => either.elim unnamed (by decide)
      rw [if_neg stated, if_pos talking, talks]
      rfl
    · have quiet : startsTalking headers = false := decide_eq_false fun all => talking all.2.2
      rw [if_neg talking, ite_self, quiet]
      rfl

theorem effect_uplink {headers : Headers} (uplink : headers.get "Event-Subclass" = some UPLINK) (leg : String)
    (body : List UInt8) :
    effect leg headers body = if callUuid headers = leg then (uplinkJob headers body).map .starts else none := by
  have quiet : startsTalking headers = false := decide_eq_false fun all => vad_not_uplink all.1 uplink
  rw [effect, quiet, if_neg Bool.false_ne_true]
  by_cases ours : callUuid headers = leg
  · rw [if_pos ⟨uplink, ours⟩, if_pos ours]
  · rw [if_neg fun both => ours both.2, if_neg ours]

theorem callUuid_of_legAfter {headers : Headers} (uplink : headers.get "Event-Subclass" = some UPLINK)
    {leg : String} (unknown : legAfter leg headers = "") : callUuid headers = legAfter leg headers := by
  by_cases first : leg = ""
  · rw [legAfter, if_pos ⟨uplink, first⟩]
  · rw [legAfter, if_neg fun both => first both.2] at unknown
    exact absurd unknown first

theorem handle_eq (h : Handler) (headers : Headers) (body : List UInt8) :
    h.handle headers body = { h with bUuid := legAfter h.bUuid headers }.apply
      (effect (legAfter h.bUuid headers) headers body) := by
  by_cases vad : headers.get "Event-Subclass" = some VAD
  · have leg : legAfter h.bUuid headers = h.bUuid := if_neg fun both => vad_not_uplink vad both.1
    rw [Handler.handle, if_pos vad, leg]
    exact onVad_eq h vad h.bUuid body
  · rw [Handler.handle, if_neg vad]
    by_cases uplink : headers.get "Event-Subclass" = some UPLINK
    · have learned : h.learn (callUuid headers) = { h with bUuid := legAfter h.bUuid headers } := by
        by_cases unknown : h.bUuid = "" <;> simp [Handler.learn, legAfter, uplink, unknown]
      rw [if_pos uplink, learned, effect_uplink uplink]
      by_cases ours : callUuid headers = legAfter h.bUuid headers
      · rw [if_pos ours]
        refine (if_neg fun both => both.2 ours).trans ?_
        rw [Handler.onUplink]
        cases uplinkJob headers body <;> rfl
      · rw [if_neg ours]
        exact if_pos ⟨fun unknown => ours (callUuid_of_legAfter uplink unknown), ours⟩
    · have leg : legAfter h.bUuid headers = h.bUuid := if_neg fun both => uplink both.1
      have quiet : startsTalking headers = false := decide_eq_false fun all => vad all.1
      rw [if_neg uplink, leg, effect_other fun both => uplink both.1, quiet]
      rfl

def Action.byPipeline : Action → Bool
  | .chunk _ _ | .send _ _ | .finish _ => true
  | .event _ _ | .hangUp => false

inductive Moves (h : Handler) : Action → Handler → Prop
  | hears (headers : Headers) (body : List UInt8) (live : h.live = true) :
      Moves h (.event headers body) ({ h with bUuid := legAfter h.bUuid headers }.apply
        (effect (legAfter h.bUuid headers) headers body))
  | stops (action : Action) (p : Nat) (job : Job) (phase : Phase) (found : h.pipelines[p]? = some ⟨job, phase⟩)
      (own : action.byPipeline = true) : Moves h action (h.setPhase p job .ended)
  | passes (p : Nat) (job : Job) (chunk : List UInt8) (found : h.pipelines[p]? = some ⟨job, .polling⟩)
      (clear : h.cancel = false) :
      Moves h (.chunk p chunk) { h.setPhase p job (.sending chunk) with trace := h.trace ++ [.passed p] }
  | sends (p : Nat) (job : Job) (chunk event : List UInt8) (outcome : Outcome) (phase : Phase)
      (found : h.pipelines[p]? = some ⟨job, .sending chunk⟩) (sent : phase = .polling ∨ phase = .ended) :
      Moves h (.send p outcome) { h.setPhase p job phase with trace := h.trace ++ [.sent p event] }
  | hangs (live : h.live = true) : Moves h .hangUp h.finally_

theorem poll_moves {h : Handler} {p : Nat} {job : Job} {chunk : List UInt8}
    (found : h.pipelines[p]? = some ⟨job, .polling⟩) : Moves h (.chunk p chunk) (h.poll p job chunk) := by
  rw [Handler.poll]
  by_cases set : h.cancel = true
  · rw [if_pos set]
    exact .stops _ p job .polling found rfl
  · rw [if_neg set]
    exact .passes p job chunk found (eq_false_of_ne_true set)

theorem sendPcm_moves {h : Handler} {p : Nat} {job : Job} {chunk : List UInt8}
    (found : h.pipelines[p]? = some ⟨job, .sending chunk⟩) (outcome : Outcome) :
    Moves h (.send p outcome) (h.sendPcm p job chunk outcome) := by
  cases outcome with
  | replied => exact .sends p job chunk _ _ .polling found (.inl rfl)
  | unanswered => exact .sends p job chunk _ _ .ended found (.inr rfl)
  | refused => exact .stops _ p job (.sending chunk) found rfl

theorem step_moves {h h' : Handler} {action : Action} (taken : h.step action = some h') : Moves h action h' := by
  cases action with
  | event headers body =>
    obtain ⟨live, same⟩ := Option.ite_none_right_eq_some.mp taken
    rw [← Option.some.inj same, handle_eq]
    exact .hears headers body live
  | chunk p bytes =>
    simp only [Handler.step] at taken
    split at taken
    next job found =>
      rw [← Option.some.inj taken]
      exact poll_moves found
    next => cases taken
  | send p outcome =>
    simp only [Handler.step] at taken
    split at taken
    next job chunk found =>
      rw [← Option.some.inj taken]
      exact sendPcm_moves found outcome
    next => cases taken
  | finish p =>
    simp only [Handler.step] at taken
    split at taken
    next job found =>
      rw [← Option.some.inj taken]
      exact .stops _ p job .polling found rfl
    next => cases taken
  | hangUp =>
    obtain ⟨live, same⟩ := Option.ite_none_right_eq_some.mp taken
    rw [← Option.some.inj same]
    exact .hangs live

end Fswtch.Brain.CallHandler
