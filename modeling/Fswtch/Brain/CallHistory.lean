import Mathlib.Logic.Function.Basic
import Fswtch.Brain.CallHandler

/-! The brain with all its calls (`brain/brain.py`, `brain/real_pipeline.py`). Each call has a
handler and pipelines of its own; the pipelines of all calls keep their conversations in one
history. -/

namespace Fswtch.Brain.CallHistory
open Fswtch.Brain.CallHandler (Handler Job)

structure Message where
  role : String
  content : String
  deriving DecidableEq

/-- An item of `history`: its key, the list it holds, and a record of the call that created it. -/
structure Conversation where
  callId : String
  list : Nat
  creator : Nat
  deriving DecidableEq

/-- Where `process_stream` is in a pipeline; `hist` is the list it works on, whether or not the
history still holds it. -/
inductive Stage where
  | transcribing
  | chatting (hist : Nat) (text : String)
  | answering (hist : Nat) (reply : String)
  | synthesizing
  deriving DecidableEq

/-- Where `handle_call` is once the channel data is read. -/
inductive Progress where
  | bridging
  | looping
  | closing
  | returned
  deriving DecidableEq

structure Call where
  progress : Progress := .bridging
  handler : Handler
  stages : Nat → Stage := fun _ => .transcribing

/-- `lists` holds the list objects in the order of their creation. -/
structure Server where
  calls : List Call := []
  history : List Conversation := []
  lists : List (List Message) := []

def Server.setCall (s : Server) (c : Nat) (call : Call) : Server := { s with calls := s.calls.set c call }

def Server.find (s : Server) (callId : String) : Option Conversation :=
  s.history.find? fun item => decide (item.callId = callId)

def Server.setdefault (s : Server) (callId : String) (creator : Nat) : Server × Nat :=
  match s.find callId with
  | some item => (s, item.list)
  | none =>
    ({ s with
        history := s.history ++ [⟨callId, s.lists.length, creator⟩]
        lists := s.lists ++ [[]] }, s.lists.length)

def Server.append (s : Server) (list : Nat) (message : Message) : Server :=
  { s with lists := s.lists.modify list (· ++ [message]) }

/-- `AsrLlmTtsPipeline.end_call`. -/
def Server.endCall (s : Server) (callId : String) : Server :=
  { s with history := s.history.filter fun item => decide (item.callId ≠ callId) }

def Call.setStage (call : Call) (p : Nat) (stage : Stage) : Call :=
  { call with stages := Function.update call.stages p stage }

def Call.generating (call : Call) (p : Nat) : Option (Job × Stage) :=
  match call.handler.pipelines[p]? with
  | some ⟨job, .polling⟩ => some (job, call.stages p)
  | _ => none

def Server.recognised (s : Server) (c : Nat) (call : Call) (p : Nat) (text : String) : Option Server :=
  match call.generating p with
  | some (job, .transcribing) =>
    if text = "" then none
    else
      let after := s.setdefault job.uuid c
      some (after.1.setCall c (call.setStage p (.chatting after.2 text)))
  | _ => none

def Server.replied (s : Server) (c : Nat) (call : Call) (p : Nat) (reply : String) : Option Server :=
  match call.generating p with
  | some (_, .chatting hist text) =>
    if reply = "" then none
    else some ((s.append hist ⟨"user", text⟩).setCall c (call.setStage p (.answering hist reply)))
  | _ => none

def Server.answered (s : Server) (c : Nat) (call : Call) (p : Nat) : Option Server :=
  match call.generating p with
  | some (_, .answering hist reply) =>
    some ((s.append hist ⟨"assistant", reply⟩).setCall c (call.setStage p .synthesizing))
  | _ => none

/-- A step of the handler or of one of its pipelines. Events are heard in the loop only, chunks
come from the synthesis only, nothing fails between the two messages of a reply, and the handler
may end wherever it is. -/
def Call.handle (call : Call) (action : CallHandler.Action) : Option Call :=
  match action with
  | .event _ _ =>
    if call.progress = .looping then (call.handler.step action).map fun handler => { call with handler }
    else none
  | .chunk p _ =>
    if call.stages p = .synthesizing then (call.handler.step action).map fun handler => { call with handler }
    else none
  | .send _ _ => (call.handler.step action).map fun handler => { call with handler }
  | .finish p =>
    match call.stages p with
    | .answering _ _ => none
    | _ => (call.handler.step action).map fun handler => { call with handler }
  | .hangUp =>
    match call.progress with
    | .bridging | .looping =>
      (call.handler.step action).map fun handler => { call with handler, progress := .closing }
    | .closing | .returned => none

def Call.bridged (call : Call) : Option Call :=
  match call.progress with
  | .bridging => some { call with progress := .looping }
  | _ => none

def Server.returns (s : Server) (c : Nat) (call : Call) : Option Server :=
  match call.progress with
  | .closing =>
    let s := s.setCall c { call with progress := .returned }
    some (if call.handler.aUuid = "" then s else s.endCall call.handler.aUuid)
  | _ => none

/-- `accept` comes with the A leg named by the channel data, empty where they cannot be read. -/
inductive Action where
  | accept (aUuid : String)
  | bridged (c : Nat)
  | handler (c : Nat) (action : CallHandler.Action)
  | recognised (c p : Nat) (text : String)
  | replied (c p : Nat) (reply : String)
  | answered (c p : Nat)
  | returns (c : Nat)

def Server.step (s : Server) : Action → Option Server
  | .accept aUuid => some { s with calls := s.calls ++ [{ handler := { aUuid } }] }
  | .bridged c => (s.calls[c]?.bind Call.bridged).map (s.setCall c)
  | .handler c action => (s.calls[c]?.bind fun call => call.handle action).map (s.setCall c)
  | .recognised c p text => s.calls[c]?.bind fun call => s.recognised c call p text
  | .replied c p reply => s.calls[c]?.bind fun call => s.replied c call p reply
  | .answered c p => s.calls[c]?.bind fun call => s.answered c call p
  | .returns c => s.calls[c]?.bind fun call => s.returns c call

structure Follows (call call' : Call) (returns : Prop) : Prop where
  aUuid : call'.handler.aUuid = call.handler.aUuid
  stays : call.progress = .returned → call'.progress = .returned
  ends : call'.progress = .returned → call.progress = .returned ∨ returns

theorem Follows.refl (call : Call) (returns : Prop) : Follows call call returns :=
  ⟨rfl, fun returned => returned, .inl⟩

theorem Follows.setStage (call : Call) (p : Nat) (stage : Stage) (returns : Prop) :
    Follows call (call.setStage p stage) returns :=
  ⟨rfl, fun returned => returned, .inl⟩

theorem Follows.handler {call : Call} {handler : Handler} (same : handler.aUuid = call.handler.aUuid)
    (returns : Prop) : Follows call { call with handler } returns :=
  ⟨same, fun returned => returned, .inl⟩

theorem handler_aUuid {h h' : Handler} {action : CallHandler.Action} (taken : h.step action = some h') :
    h'.aUuid = h.aUuid := by
  cases CallHandler.step_moves taken with
  | hears headers body live =>
    cases CallHandler.effect (CallHandler.legAfter h.bUuid headers) headers body with
    | none => rfl
    | some effect => cases effect <;> rfl
  | stops | passes | sends | hangs => rfl

theorem handle_follows {call call' : Call} {action : CallHandler.Action}
    (taken : call.handle action = some call') (returns : Prop) : Follows call call' returns := by
  have kept (stepped : (call.handler.step action).map (fun handler => { call with handler }) = some call') :
      Follows call call' returns := by
    obtain ⟨handler, moved, rfl⟩ := Option.map_eq_some_iff.mp stepped
    exact .handler (handler_aUuid moved) returns
  unfold Call.handle at taken
  split at taken
  next => exact kept (Option.ite_none_right_eq_some.mp taken).2
  next => exact kept (Option.ite_none_right_eq_some.mp taken).2
  next => exact kept taken
  next =>
    split at taken
    · cases taken
    · exact kept taken
  next =>
    split at taken
    next bridging =>
      obtain ⟨handler, moved, rfl⟩ := Option.map_eq_some_iff.mp taken
      refine ⟨handler_aUuid moved, fun returned => ?_, nofun⟩
      cases bridging.symm.trans returned
    next looping =>
      obtain ⟨handler, moved, rfl⟩ := Option.map_eq_some_iff.mp taken
      refine ⟨handler_aUuid moved, fun returned => ?_, nofun⟩
      cases looping.symm.trans returned
    · cases taken
    · cases taken

/-- An `end_call` of the handler that pops this key is still to come. -/
def Call.willPop (call : Call) (callId : String) : Bool :=
  decide (callId = call.handler.aUuid) && decide (call.handler.aUuid ≠ "") &&
    decide (call.progress ≠ .returned)

/-- The conversation that the step starts: its call and its key. -/
def Server.creation (s : Server) : Action → Option (Nat × Call × String)
  | .recognised c p _ => s.calls[c]?.bind fun call =>
      match call.generating p with
      | some (job, .transcribing) => if (s.find job.uuid).isSome then none else some (c, call, job.uuid)
      | _ => none
  | _ => none

inductive HistoryStep (s s' : Server) : Action → Prop
  | keeps {action : Action} (others : ∀ c, action ≠ .returns c) (quiet : s.creation action = none)
      (history : s'.history = s.history) : HistoryStep s s' action
  | creates {action : Action} {c : Nat} {call : Call} {callId : String} (others : ∀ c, action ≠ .returns c)
      (made : s.creation action = some (c, call, callId)) (found : s.calls[c]? = some call)
      (history : s'.history = s.history ++ [⟨callId, s.lists.length, c⟩]) : HistoryStep s s' action
  | pops {c : Nat} {call : Call} (found : s.calls[c]? = some call) (lists : s'.lists = s.lists)
      (history : s'.history = s.history.filter fun item => !call.willPop item.callId) :
      HistoryStep s s' (.returns c)

theorem recognised_step {s s' : Server} {c p : Nat} {call : Call} {text : String}
    (taken : s.recognised c call p text = some s') :
    ∃ job, call.generating p = some (job, .transcribing) ∧ s' = (s.setdefault job.uuid c).1.setCall c
      (call.setStage p (.chatting (s.setdefault job.uuid c).2 text)) := by
  unfold Server.recognised at taken
  split at taken
  next job asked =>
    split at taken
    · cases taken
    · exact ⟨job, asked, (Option.some.inj taken).symm⟩
  next => cases taken

theorem replied_step {s s' : Server} {c p : Nat} {call : Call} {reply : String}
    (taken : s.replied c call p reply = some s') :
    ∃ hist message stage, s' = (s.append hist message).setCall c (call.setStage p stage) := by
  unfold Server.replied at taken
  split at taken
  · split at taken
    · cases taken
    · exact ⟨_, _, _, (Option.some.inj taken).symm⟩
  · cases taken

theorem answered_step {s s' : Server} {c p : Nat} {call : Call} (taken : s.answered c call p = some s') :
    ∃ hist message stage, s' = (s.append hist message).setCall c (call.setStage p stage) := by
  unfold Server.answered at taken
  split at taken
  · exact ⟨_, _, _, (Option.some.inj taken).symm⟩
  · cases taken

theorem returns_history {s s' : Server} {c : Nat} {call : Call} (taken : s.returns c call = some s') :
    s'.lists = s.lists ∧ s'.history = s.history.filter fun item => !call.willPop item.callId := by
  unfold Server.returns at taken
  split at taken
  next closing =>
    cases taken
    split
    next unnamed =>
      refine ⟨rfl, (List.filter_eq_self.mpr fun item _ => ?_).symm⟩
      simp [Call.willPop, unnamed]
    next named =>
      refine ⟨rfl, List.filter_congr fun item _ => ?_⟩
      simp [Call.willPop, named, closing]
  next => cases taken

theorem step_history {s s' : Server} {action : Action} (taken : s.step action = some s') :
    HistoryStep s s' action := by
  cases action with
  | accept aUuid =>
    cases taken
    exact .keeps nofun rfl rfl
  | bridged c | handler c action =>
    obtain ⟨call, _, rfl⟩ := Option.map_eq_some_iff.mp taken
    exact .keeps nofun rfl rfl
  | recognised c p text =>
    obtain ⟨call, found, moved⟩ := Option.bind_eq_some_iff.mp taken
    obtain ⟨job, asked, rfl⟩ := recognised_step moved
    cases known : s.find job.uuid with
    | some item =>
      exact .keeps nofun (by simp [Server.creation, found, asked, known])
        (by simp [Server.setdefault, Server.setCall, known])
    | none =>
      exact .creates nofun (by simp [Server.creation, found, asked, known]; rfl) found
        (by simp [Server.setdefault, Server.setCall, known])
  | replied c p reply =>
    obtain ⟨call, _, moved⟩ := Option.bind_eq_some_iff.mp taken
    obtain ⟨hist, message, stage, rfl⟩ := replied_step moved
    exact .keeps nofun rfl rfl
  | answered c p =>
    obtain ⟨call, _, moved⟩ := Option.bind_eq_some_iff.mp taken
    obtain ⟨hist, message, stage, rfl⟩ := answered_step moved
    exact .keeps nofun rfl rfl
  | returns c =>
    obtain ⟨call, found, moved⟩ := Option.bind_eq_some_iff.mp taken
    obtain ⟨lists, history⟩ := returns_history moved
    exact .pops found lists history

theorem setdefault_calls (s : Server) (callId : String) (creator : Nat) :
    (s.setdefault callId creator).1.calls = s.calls := by
  unfold Server.setdefault
  split <;> rfl

theorem step_calls {s s' : Server} {action : Action} (taken : s.step action = some s') :
    (∃ new, s'.calls = s.calls ++ [new]) ∨
      ∃ c old new, s.calls[c]? = some old ∧ s'.calls = s.calls.set c new ∧
        Follows old new (action = .returns c) := by
  cases action with
  | accept aUuid =>
    cases taken
    exact .inl ⟨_, rfl⟩
  | bridged c =>
    obtain ⟨new, moved, rfl⟩ := Option.map_eq_some_iff.mp taken
    obtain ⟨old, found, bridged⟩ := Option.bind_eq_some_iff.mp moved
    unfold Call.bridged at bridged
    split at bridged
    next bridging =>
      cases bridged
      refine .inr ⟨c, old, _, found, rfl, rfl, fun returned => ?_, nofun⟩
      cases bridging.symm.trans returned
    next => cases bridged
  | handler c action =>
    obtain ⟨new, moved, rfl⟩ := Option.map_eq_some_iff.mp taken
    obtain ⟨old, found, handled⟩ := Option.bind_eq_some_iff.mp moved
    exact .inr ⟨c, old, new, found, rfl, handle_follows handled _⟩
  | recognised c p text =>
    obtain ⟨old, found, moved⟩ := Option.bind_eq_some_iff.mp taken
    obtain ⟨job, _, rfl⟩ := recognised_step moved
    refine .inr ⟨c, old, _, found, ?_, .setStage old p (.chatting (s.setdefault job.uuid c).2 text) _⟩
    rw [Server.setCall, setdefault_calls]
  | replied c p reply =>
    obtain ⟨old, found, moved⟩ := Option.bind_eq_some_iff.mp taken
    obtain ⟨hist, message, stage, rfl⟩ := replied_step moved
    exact .inr ⟨c, old, _, found, rfl, .setStage old p stage _⟩
  | answered c p =>
    obtain ⟨old, found, moved⟩ := Option.bind_eq_some_iff.mp taken
    obtain ⟨hist, message, stage, rfl⟩ := answered_step moved
    exact .inr ⟨c, old, _, found, rfl, .setStage old p stage _⟩
  | returns c =>
    obtain ⟨old, found, moved⟩ := Option.bind_eq_some_iff.mp taken
    unfold Server.returns at moved
    split at moved
    next closing =>
      cases moved
      refine .inr ⟨c, old, { old with progress := .returned }, found, ?_, rfl, fun _ => rfl, fun _ => .inr rfl⟩
      split <;> rfl
    next => cases moved

theorem step_follows {s s' : Server} {action : Action} {c : Nat} {call : Call}
    (taken : s.step action = some s') (found : s.calls[c]? = some call) :
    ∃ call', s'.calls[c]? = some call' ∧ Follows call call' (action = .returns c) := by
  obtain ⟨bound, _⟩ := List.getElem?_eq_some_iff.mp found
  rcases step_calls taken with ⟨new, more⟩ | ⟨i, old, new, here, moved, follows⟩
  · refine ⟨call, ?_, .refl call _⟩
    rw [more, List.getElem?_append_left bound]
    exact found
  · by_cases same : i = c
    · subst same
      cases here.symm.trans found
      refine ⟨new, ?_, follows⟩
      rw [moved, List.getElem?_set_self bound]
    · refine ⟨call, ?_, .refl call _⟩
      rw [moved, List.getElem?_set_ne same]
      exact found

end Fswtch.Brain.CallHistory
