import Fswtch.Brain.CallHistory
import Fswtch.Lib.StepRun

/-! The history is released with its call where a conversation is kept under the A leg of its
call, before the handler ends, and where no handler's `end_call` pops the conversation of
another call. The handler gives `process_stream` the uuid of the uplink event, the B leg. -/

namespace Fswtch.Brain.CallHistory
open Fswtch.Lib.StepRun
open Fswtch.Brain.CallHandler (uplinkEvent)
open Fswtch.Lib.ByteReader (utf8)

def Call.Over (call : Call) : Prop :=
  call.progress = .returned ∧ ∀ pipeline ∈ call.handler.pipelines, pipeline.phase = .ended

instance decidableOver (call : Call) : Decidable call.Over :=
  inferInstanceAs (Decidable (_ ∧ ∀ pipeline ∈ call.handler.pipelines, _))

def Released (s : Server) : Prop :=
  ∀ c call, s.calls[c]? = some call → call.Over → ∀ item ∈ s.history, item.creator ≠ c

/-- The end of a handler leaves the conversations of other calls as they are. -/
def Untouching (s : Server) : Action → Prop
  | .returns c => ∀ s', s.step (.returns c) = some s' → ∀ item ∈ s.history, item.creator ≠ c →
      item ∈ s'.history ∧ s'.lists[item.list]? = s.lists[item.list]?
  | _ => True

/-- A conversation that the step starts for call `c` is one that the call's handler will pop. -/
def CreatesOwn (c : Nat) (s : Server) (action : Action) : Prop :=
  ∀ made ∈ s.creation action, made.1 = c → made.2.1.willPop made.2.2 = true

def PopsOwn (s : Server) : Action → Prop
  | .returns c => ∀ call ∈ s.calls[c]?, ∀ item ∈ s.history,
      call.willPop item.callId = true → item.creator = c
  | _ => True

instance decidableCreatesOwn (c : Nat) (s : Server) (action : Action) : Decidable (CreatesOwn c s action) :=
  inferInstanceAs (Decidable (∀ made ∈ s.creation action, _ → _))

instance decidablePopsOwn (s : Server) : (action : Action) → Decidable (PopsOwn s action)
  | .returns c => inferInstanceAs (Decidable (∀ call ∈ s.calls[c]?, ∀ item ∈ s.history, _ → _))
  | .accept _ | .bridged _ | .handler _ _ | .recognised _ _ _ | .replied _ _ _ | .answered _ _ =>
    isTrue trivial

/-- Only the end of a handler touches a conversation. -/
theorem untouching_of_others {s : Server} {action : Action} (others : ∀ c, action ≠ .returns c) :
    Untouching s action ∧ PopsOwn s action := by
  cases action with
  | returns c => exact absurd rfl (others c)
  | _ => exact ⟨trivial, trivial⟩

theorem untouching_iff_popsOwn {s s' : Server} {action : Action} (taken : s.step action = some s') :
    Untouching s action ↔ PopsOwn s action := by
  cases step_history taken with
  | keeps others quiet history =>
    obtain ⟨untouching, own⟩ := untouching_of_others (s := s) others
    exact iff_of_true untouching own
  | creates others made found history =>
    obtain ⟨untouching, own⟩ := untouching_of_others (s := s) others
    exact iff_of_true untouching own
  | @pops c call found lists history =>
    constructor
    · intro untouched other known item member pops
      cases found.symm.trans known
      by_contra foreign
      have survives := (untouched s' taken item member foreign).1
      rw [history, List.mem_filter, pops] at survives
      cases survives.2
    · intro own after ends item member foreign
      cases taken.symm.trans ends
      refine ⟨?_, by rw [lists]⟩
      have stays : call.willPop item.callId = false :=
        eq_false_of_ne_true fun pops => foreign (own call found item member pops)
      rw [history, List.mem_filter, stays]
      exact ⟨member, rfl⟩

/-- The conversations of call `c` are all among those its handler will pop. -/
def Kept (c : Nat) (s : Server) : Prop :=
  ∀ item ∈ s.history, item.creator = c → ∃ call, s.calls[c]? = some call ∧ call.willPop item.callId = true

def Stray (c : Nat) (s : Server) : Prop :=
  ∃ item ∈ s.history, item.creator = c ∧ ∃ call, s.calls[c]? = some call ∧ call.willPop item.callId = false

theorem willPop_iff {call : Call} {callId : String} : call.willPop callId = true ↔
    callId = call.handler.aUuid ∧ call.handler.aUuid ≠ "" ∧ call.progress ≠ .returned := by
  simp [Call.willPop, and_assoc]

theorem Follows.willPop {call call' : Call} {returns : Prop} (follows : Follows call call' returns)
    (stays : ¬returns) (callId : String) : call'.willPop callId = call.willPop callId := by
  have progress : call'.progress = .returned ↔ call.progress = .returned :=
    ⟨fun returned => (follows.ends returned).resolve_right stays, follows.stays⟩
  simp [Call.willPop, follows.aUuid, progress]

theorem Follows.spares {call call' : Call} {returns : Prop} (follows : Follows call call' returns)
    {callId : String} (spared : call.willPop callId = false) : call'.willPop callId = false := by
  refine eq_false_of_ne_true fun pops => ?_
  obtain ⟨key, named, running⟩ := willPop_iff.mp pops
  have before : call.willPop callId = true :=
    willPop_iff.mpr ⟨key.trans follows.aUuid, follows.aUuid ▸ named, fun returned => running (follows.stays returned)⟩
  cases spared.symm.trans before

theorem step_kept {c : Nat} (s : Server) (action : Action) (s' : Server) (kept : Kept c s)
    (own : CreatesOwn c s action) (taken : s.step action = some s') : Kept c s' := by
  intro item member creator
  have goes_on {call : Call} (found : s.calls[c]? = some call) (stays : action ≠ .returns c)
      (pops : call.willPop item.callId = true) :
      ∃ call', s'.calls[c]? = some call' ∧ call'.willPop item.callId = true := by
    obtain ⟨call', found', follows⟩ := step_follows taken found
    exact ⟨call', found', (follows.willPop stays item.callId).trans pops⟩
  cases step_history taken with
  | keeps others quiet history =>
    rw [history] at member
    obtain ⟨call, found, pops⟩ := kept item member creator
    exact goes_on found (others c) pops
  | creates others made found history =>
    rw [history] at member
    rcases List.mem_append.mp member with old | new
    · obtain ⟨call, known, pops⟩ := kept item old creator
      exact goes_on known (others c) pops
    · obtain rfl := List.mem_singleton.mp new
      subst creator
      exact goes_on found (others _) (own _ made rfl)
  | @pops i call found lists history =>
    rw [history, List.mem_filter] at member
    obtain ⟨other, known, pops⟩ := kept item member.1 creator
    by_cases same : i = c
    · subst same
      cases found.symm.trans known
      simp [pops] at member
    · exact goes_on known (fun ends => same (by cases ends; rfl)) pops

theorem step_stray {c : Nat} (s : Server) (action : Action) (s' : Server) (stray : Stray c s)
    (own : PopsOwn s action) (taken : s.step action = some s') : Stray c s' := by
  obtain ⟨item, member, creator, call, found, spared⟩ := stray
  obtain ⟨call', found', follows⟩ := step_follows taken found
  refine ⟨item, ?_, creator, call', found', follows.spares spared⟩
  cases step_history taken with
  | keeps others quiet history => exact history ▸ member
  | creates others made known history => exact history ▸ List.mem_append_left _ member
  | @pops i other known lists history =>
    rw [history, List.mem_filter]
    refine ⟨member, ?_⟩
    cases pops : other.willPop item.callId with
    | false => rfl
    | true =>
      have same : c = i := creator.symm.trans (own other known item member pops)
      subst same
      cases known.symm.trans found
      cases spared.symm.trans pops

theorem creates_stray {c : Nat} (s : Server) (action : Action) (s' : Server)
    (taken : s.step action = some s') (foreign : ¬CreatesOwn c s action) : Stray c s' := by
  cases step_history taken with
  | keeps others quiet history => exact absurd (fun made there => by cases quiet.symm.trans there) foreign
  | @creates _ i call callId others made found history =>
    have spared : i = c ∧ call.willPop callId = false := by
      by_contra fine
      refine foreign fun other there same => ?_
      cases made.symm.trans there
      exact eq_true_of_ne_false fun spared => fine ⟨same, spared⟩
    obtain ⟨rfl, spared⟩ := spared
    obtain ⟨call', found', follows⟩ := step_follows taken found
    refine ⟨⟨callId, s.lists.length, i⟩, ?_, rfl, call', found', follows.spares spared⟩
    rw [history]
    exact List.mem_append_right _ List.mem_cons_self
  | pops => exact absurd nofun foreign

theorem Kept.released {c : Nat} {s : Server} {call : Call} (kept : Kept c s) (found : s.calls[c]? = some call)
    (isOver : call.Over) : ∀ item ∈ s.history, item.creator ≠ c := by
  intro item member creator
  obtain ⟨other, known, pops⟩ := kept item member creator
  cases known.symm.trans found
  exact (willPop_iff.mp pops).2.2 isOver.1

/-- Nothing is left of the calls that are over, and no handler that ended touched the
conversations of another, exactly when every handler that ended popped its own conversations
only and every call that is over started its own where its handler was to pop them. -/
theorem released_iff (actions : List Action) (last : Server)
    (taken : run Server.step {} actions = some last) :
    Along Server.step Untouching {} actions ∧ Released last ↔
      Along Server.step PopsOwn {} actions ∧ ∀ c call, last.calls[c]? = some call → call.Over →
        Along Server.step (CreatesOwn c) {} actions := by
  rw [along_congr fun s action s' stepped => untouching_iff_popsOwn stepped]
  refine and_congr_right fun pops => ⟨fun released c call found isOver => ?_, fun own c call found isOver => ?_⟩
  · rcases along_or_spoiled (fun s action s' _ => creates_stray s action s') step_stray pops taken with
      own | ⟨item, member, creator, _⟩
    · exact own
    · exact absurd creator (released c call found isOver item member)
  · have kept : Kept c last :=
      invariant_of_run step_kept (fun item member => by cases member) (own c call found isOver) taken
    exact kept.released found isOver

def oneUtterance (bUuid : String) : List Action :=
  [.accept "a", .bridged 0, .handler 0 (.event (uplinkEvent bUuid) (utf8 "AAAA")),
    .recognised 0 0 "hi", .replied 0 0 "yes?", .answered 0 0, .handler 0 (.chunk 0 [1, 2]),
    .handler 0 (.send 0 .replied), .handler 0 (.finish 0), .handler 0 .hangUp, .returns 0]

theorem oneUtterance_not_released : ∃ last call, run Server.step {} (oneUtterance "b") = some last ∧
    last.calls[0]? = some call ∧ call.Over ∧ last.history = [⟨"b", 0, 0⟩] ∧ ¬Released last :=
  ⟨_, _, rfl, rfl, by decide +kernel, by decide +kernel, fun released =>
    released 0 _ rfl (by decide +kernel) ⟨"b", 0, 0⟩ (by decide +kernel) rfl⟩

/-- The same call would leave nothing behind if the uplink named the A leg. -/
theorem oneUtterance_released : ∃ last, run Server.step {} (oneUtterance "a") = some last ∧
    Along Server.step Untouching {} (oneUtterance "a") ∧ Released last := by
  refine ⟨_, rfl, (released_iff (oneUtterance "a") _ rfl).mpr ⟨by decide +kernel, fun c call found _ => ?_⟩⟩
  obtain ⟨bound, _⟩ := List.getElem?_eq_some_iff.mp found
  obtain rfl : c = 0 := Nat.lt_one_iff.mp bound
  decide +kernel

end Fswtch.Brain.CallHistory
