import Fswtch.Lib.StepRun
import Fswtch.Seat.SentenceSplit

/-! The conversation history of a call. A turn runs inside the handler of its segment and
sends its entries back to the mailbox, where they come after whatever was queued while it
ran. The next turn has them if no segment was. -/

namespace Fswtch.Seat.History
open Fswtch.Lib.StepRun Fswtch.Seat.SentenceSplit

structure ChatMessage where
  role : String
  content : Text
  deriving DecidableEq

def maxHistory : Nat := 20

def recent (messages : List ChatMessage) : List ChatMessage :=
  messages.drop (messages.length - maxHistory)

def pushMessage (conversation : List ChatMessage) (message : ChatMessage) : List ChatMessage :=
  let conversation := conversation ++ [message]
  if maxHistory < conversation.length then conversation.drop (conversation.length - maxHistory)
  else conversation

def opening : Option Text → List ChatMessage
  | some prompt => if prompt = [] then [] else [⟨"system", prompt⟩]
  | none => []

inductive Message where
  | next (audio : List Int16)
  | streamSignal
  | bargeIn
  | turnDone (user assistant : Option ChatMessage)
  deriving DecidableEq

def Message.isTurnDone : Message → Bool
  | .turnDone _ _ => true
  | _ => false

/-- The mailbox does not begin with a segment that a `TurnDone` waits behind. -/
def caughtUp : List Message → Bool
  | .next audio :: rest => audio.isEmpty || rest.all fun message => !message.isTurnDone
  | _ => true

theorem recent_short {messages : List ChatMessage} (short : messages.length ≤ maxHistory) :
    recent messages = messages := by
  rw [recent, Nat.sub_eq_zero_of_le short]
  rfl

theorem opening_short (prompt : Option Text) : (opening prompt).length ≤ maxHistory := by
  unfold opening maxHistory
  split
  · split <;> simp
  · simp

theorem pushMessage_eq (conversation : List ChatMessage) (message : ChatMessage) :
    pushMessage conversation message = recent (conversation ++ [message]) := by
  by_cases long : maxHistory < (conversation ++ [message]).length
  · rw [pushMessage, if_pos long, recent]
  · rw [pushMessage, if_neg long, recent_short (Nat.le_of_not_lt long)]

theorem recent_append (before after : List ChatMessage) :
    recent (recent before ++ after) = recent (before ++ after) := by
  have cut : before.length - maxHistory ≤ before.length := Nat.sub_le ..
  have dropped : recent before ++ after = (before ++ after).drop (before.length - maxHistory) := by
    rw [recent, List.drop_append_of_le_length cut]
  rw [dropped, recent, recent, List.drop_drop, List.length_drop, List.length_append]
  congr 1
  omega

theorem foldl_pushMessage (conversation messages : List ChatMessage) :
    messages.foldl pushMessage (recent conversation) = recent (conversation ++ messages) := by
  induction messages generalizing conversation with
  | nil => simp
  | cons message rest ih =>
    rw [List.foldl_cons, pushMessage_eq, recent_append, ih]
    simp

/-- `started` and `completed` are a record: the snapshot of every turn begun, with the
entries of the turns that had run to completion before it, and all those entries. -/
structure Actor where
  conversation : List ChatMessage
  mailbox : List Message := []
  inTurn : Bool := false
  started : List (List ChatMessage × List ChatMessage) := []
  completed : List ChatMessage := []

/-- How `turn_pipeline` ends: early, or with its transcript and reply. -/
inductive Outcome where
  | returns
  | completes (asr : Option Text) (reply : Text)

inductive Action where
  | arrives (message : Message)
  | handle
  | finish (outcome : Outcome)

namespace Actor

def userForHistory : Option Text → ChatMessage
  | some asr => ⟨"user", if asr = [] then "[用户语音]".toList else asr⟩
  | none => ⟨"user", "[用户语音]".toList⟩

def assistantForHistory (reply : Text) : Option ChatMessage :=
  if reply = [] then none else some ⟨"assistant", reply⟩

/-- The entries in the order in which the handler of `TurnDone` pushes them. -/
def entries (user assistant : Option ChatMessage) : List ChatMessage :=
  user.toList ++ assistant.toList

def handle (s : Actor) : Option Actor :=
  match s.inTurn, s.mailbox with
  | false, .next audio :: rest =>
    if audio = [] then some { s with mailbox := rest }
    else
      some { s with
        mailbox := rest
        inTurn := true
        started := s.started ++ [(s.conversation, s.completed)] }
  | false, .streamSignal :: rest => some { s with mailbox := rest }
  | false, .bargeIn :: rest => some { s with mailbox := rest }
  | false, .turnDone user assistant :: rest =>
    some { s with
      mailbox := rest
      conversation := (entries user assistant).foldl pushMessage s.conversation }
  | _, _ => none

def finish (s : Actor) (outcome : Outcome) : Option Actor :=
  if s.inTurn then
    match outcome with
    | .returns => some { s with inTurn := false }
    | .completes asr reply =>
      let user := some (userForHistory asr)
      let assistant := assistantForHistory reply
      some { s with
        inTurn := false
        mailbox := s.mailbox ++ [.turnDone user assistant]
        completed := s.completed ++ entries user assistant }
  else none

def step (s : Actor) : Action → Option Actor
  | .arrives message =>
    match message with
    | .turnDone _ _ => none
    | _ => some { s with mailbox := s.mailbox ++ [message] }
  | .handle => s.handle
  | .finish outcome => s.finish outcome

/-- Every turn begins with the entries of all turns completed before it, in their order and
as far as the history reaches. -/
def Causal (prompt : Option Text) (s : Actor) : Prop :=
  ∀ start ∈ s.started, start.1 = recent (opening prompt ++ start.2)

/-- No segment is handled while a `TurnDone` waits behind it. -/
def Caught (s : Actor) : Action → Prop
  | .handle => caughtUp s.mailbox = true
  | _ => True

instance decidableCaught (s : Actor) : (action : Action) → Decidable (s.Caught action)
  | .handle => inferInstanceAs (Decidable (caughtUp s.mailbox = true))
  | .arrives _ | .finish _ => isTrue trivial

def waiting : List Message → List ChatMessage
  | [] => []
  | .turnDone user assistant :: rest => entries user assistant ++ waiting rest
  | _ :: rest => waiting rest

theorem waiting_append (first second : List Message) :
    waiting (first ++ second) = waiting first ++ waiting second := by
  induction first with
  | nil => rfl
  | cons message rest ih => cases message <;> simp [waiting, ih]

theorem waiting_eq_nil {messages : List Message}
    (none : ∀ message ∈ messages, message.isTurnDone = false) : waiting messages = [] := by
  induction messages with
  | nil => rfl
  | cons message rest ih =>
    have caught := ih fun other member => none other (List.mem_cons_of_mem _ member)
    cases message with
    | turnDone user assistant => cases none _ (List.mem_cons_self ..)
    | next | streamSignal | bargeIn => exact caught

structure Kept (prompt : Option Text) (s : Actor) : Prop where
  causal : s.Causal prompt
  history : ∃ pushed, s.conversation = recent (opening prompt ++ pushed) ∧
    s.completed = pushed ++ waiting s.mailbox

/-- A step that takes a message without entries, or adds one. -/
theorem Kept.rests {prompt : Option Text} {s s' : Actor} (kept : Kept prompt s)
    (started : s'.started = s.started) (conversation : s'.conversation = s.conversation)
    (completed : s'.completed = s.completed) (waits : waiting s'.mailbox = waiting s.mailbox) :
    Kept prompt s' := by
  obtain ⟨pushed, history, all⟩ := kept.history
  refine ⟨?_, pushed, conversation.trans history, ?_⟩
  · rw [Causal, started]
    exact kept.causal
  · rw [completed, waits]
    exact all

theorem Kept.handles {prompt : Option Text} {s s' : Actor} (kept : Kept prompt s)
    (caught : s.Caught .handle) (taken : s.handle = some s') : Kept prompt s' := by
  obtain ⟨pushed, history, all⟩ := kept.history
  unfold handle at taken
  split at taken
  next audio rest idle mailbox =>
    have waits : waiting s.mailbox = waiting rest := by rw [mailbox]; rfl
    split at taken <;> cases taken
    next => exact kept.rests rfl rfl rfl waits.symm
    next loud =>
      have quiet : ∀ message ∈ rest, message.isTurnDone = false := by
        simpa [Caught, caughtUp, mailbox, loud] using caught
      have none : waiting rest = [] := waiting_eq_nil quiet
      refine ⟨fun start member => ?_, pushed, history, all.trans (by rw [waits])⟩
      rcases List.mem_append.mp member with old | new
      · exact kept.causal start old
      · rw [List.mem_singleton.mp new]
        rw [waits, none, List.append_nil] at all
        rw [all]
        exact history
  next rest idle mailbox =>
    cases taken
    exact kept.rests rfl rfl rfl (by rw [mailbox]; rfl)
  next rest idle mailbox =>
    cases taken
    exact kept.rests rfl rfl rfl (by rw [mailbox]; rfl)
  next user assistant rest idle mailbox =>
    cases taken
    refine ⟨kept.causal, pushed ++ entries user assistant, ?_, ?_⟩
    · dsimp only
      rw [history, foldl_pushMessage, List.append_assoc]
    · dsimp only
      rw [all, mailbox, waiting, List.append_assoc]
  next => cases taken

theorem Kept.finishes {prompt : Option Text} {s s' : Actor} {outcome : Outcome} (kept : Kept prompt s)
    (taken : s.finish outcome = some s') : Kept prompt s' := by
  obtain ⟨pushed, history, all⟩ := kept.history
  unfold finish at taken
  split at taken
  · cases outcome with
    | returns =>
      cases taken
      exact kept.rests rfl rfl rfl rfl
    | completes asr reply =>
      cases taken
      refine ⟨kept.causal, pushed, history, ?_⟩
      simp [all, waiting_append, waiting]
  · cases taken

theorem step_kept (prompt : Option Text) (s : Actor) (action : Action) (s' : Actor)
    (kept : Kept prompt s) (caught : s.Caught action) (taken : s.step action = some s') :
    Kept prompt s' := by
  cases action with
  | arrives message =>
    cases message with
    | turnDone => cases taken
    | next | streamSignal | bargeIn =>
      cases taken
      exact kept.rests rfl rfl rfl (by simp [waiting_append, waiting])
  | handle => exact kept.handles caught taken
  | finish outcome => exact kept.finishes taken

end Actor

/-- In a run in which no segment is handled before a `TurnDone` behind it, every turn has
the history of the turns before it. -/
theorem history_causal (prompt : Option Text) (actions : List Action) (final : Actor)
    (caught : Along Actor.step Actor.Caught { conversation := opening prompt } actions)
    (taken : run Actor.step { conversation := opening prompt } actions = some final) :
    final.Causal prompt := by
  have initial : Actor.Kept prompt { conversation := opening prompt } :=
    ⟨nofun, [], by rw [List.append_nil, recent_short (opening_short prompt)], rfl⟩
  exact (invariant_of_run (Actor.step_kept prompt) initial caught taken).causal

def twoTurns : List Action :=
  [.arrives (.next [1]), .handle, .finish (.completes none "Hi.".toList), .handle, .arrives (.next [2]),
    .handle]

theorem twoTurns_history_causal :
    ∃ final, run Actor.step { conversation := opening none } twoTurns = some final ∧
      final.started.length = 2 ∧ final.Causal none := by
  have caught : Along Actor.step Actor.Caught { conversation := opening none } twoTurns := by
    decide +kernel
  have started : (run Actor.step { conversation := opening none } twoTurns).map
      (fun final => final.started.length) = some 2 := by decide +kernel
  obtain ⟨final, taken, started⟩ := Option.map_eq_some_iff.mp started
  exact ⟨final, taken, started, history_causal none twoTurns final caught taken⟩

def queuedSegment : List Action :=
  [.arrives (.next [1]), .handle, .arrives (.next [2]), .finish (.completes none "Hi.".toList), .handle]

theorem queuedSegment_not_causal :
    ∃ final, run Actor.step { conversation := opening none } queuedSegment = some final ∧
      final.started = [([], []), ([], [⟨"user", "[用户语音]".toList⟩, ⟨"assistant", "Hi.".toList⟩])] ∧
      ¬final.Causal none := by
  have started : (run Actor.step { conversation := opening none } queuedSegment).map Actor.started =
      some [([], []), ([], [⟨"user", "[用户语音]".toList⟩, ⟨"assistant", "Hi.".toList⟩])] := by
    decide +kernel
  obtain ⟨final, taken, started⟩ := Option.map_eq_some_iff.mp started
  refine ⟨final, taken, started, fun causal => ?_⟩
  have empty := causal ([], [⟨"user", "[用户语音]".toList⟩, ⟨"assistant", "Hi.".toList⟩]) (by simp [started])
  exact absurd (congrArg List.length empty) (by decide)

end Fswtch.Seat.History
