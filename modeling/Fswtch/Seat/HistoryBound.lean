import Fswtch.Seat.History

/-! The bound on the conversation history. The system prompt is the first entry of a new
conversation, and entries are dropped from the front by their number alone. -/

namespace Fswtch.Seat.HistoryBound
open Fswtch.Seat.SentenceSplit Fswtch.Seat.History

structure TurnDone where
  user : Option ChatMessage
  assistant : Option ChatMessage

def TurnDone.entries (msg : TurnDone) : List ChatMessage := Actor.entries msg.user msg.assistant

def handle (conversation : List ChatMessage) (msg : TurnDone) : List ChatMessage :=
  let conversation := msg.user.toList.foldl pushMessage conversation
  msg.assistant.toList.foldl pushMessage conversation

/-- At most so many entries, the first of them the prompt, and behind it the latest of all others. -/
structure KeepsPrompt (prompt : Text) (all conversation : List ChatMessage) : Prop where
  bounded : conversation.length ≤ maxHistory
  first : conversation.head? = some ⟨"system", prompt⟩
  latest : conversation.tail = all.drop (all.length - (maxHistory - 1))

theorem handle_eq (conversation : List ChatMessage) (msg : TurnDone) :
    handle conversation msg = msg.entries.foldl pushMessage conversation := by
  rw [TurnDone.entries, Actor.entries, List.foldl_append]
  rfl

theorem handle_actor (s : Actor) (msg : TurnDone) (rest : List Message) :
    { s with inTurn := false, mailbox := .turnDone msg.user msg.assistant :: rest }.handle =
      some { s with inTurn := false, mailbox := rest, conversation := handle s.conversation msg } := by
  rw [handle_eq]
  rfl

theorem foldl_handle (prompt : Option Text) (turns : List TurnDone) :
    turns.foldl handle (opening prompt) = recent (opening prompt ++ turns.flatMap TurnDone.entries) := by
  have handles : handle = fun conversation msg => msg.entries.foldl pushMessage conversation := by
    funext conversation msg
    exact handle_eq conversation msg
  rw [handles, ← List.foldl_flatMap, ← foldl_pushMessage, recent_short (opening_short prompt)]

/-- While everything fits, nothing is dropped. -/
theorem keepsPrompt_of_short {prompt : Text} {all : List ChatMessage} (short : all.length < maxHistory) :
    KeepsPrompt prompt all (recent (⟨"system", prompt⟩ :: all)) := by
  have whole : (⟨"system", prompt⟩ :: all : List ChatMessage).length ≤ maxHistory := short
  rw [recent_short whole]
  refine ⟨whole, rfl, ?_⟩
  rw [Nat.sub_eq_zero_of_le (Nat.le_sub_one_of_lt short), List.drop_zero, List.tail_cons]

theorem recent_long {message : ChatMessage} {all : List ChatMessage} (long : maxHistory ≤ all.length) :
    recent (message :: all) = recent all := by
  have shift : (message :: all).length - maxHistory = all.length - maxHistory + 1 := by
    rw [List.length_cons]
    omega
  rw [recent, shift, List.drop_succ_cons, recent]

/-- The prompt stays the first entry after each message exactly where the messages have fewer
entries together than the history keeps. -/
theorem keepsPrompt_iff {prompt : Text} (some : prompt ≠ []) {turns : List TurnDone}
    (spoken : ∀ msg ∈ turns, ∀ entry ∈ msg.entries, entry.role = "user" ∨ entry.role = "assistant") :
    (∀ front, front <+: turns → KeepsPrompt prompt (front.flatMap TurnDone.entries)
        (front.foldl handle (opening prompt))) ↔
      (turns.flatMap TurnDone.entries).length < maxHistory := by
  have begins : opening prompt = [⟨"system", prompt⟩] := if_neg some
  have kept : ∀ front : List TurnDone, front.foldl handle (opening prompt) =
      recent (⟨"system", prompt⟩ :: front.flatMap TurnDone.entries) := by
    intro front
    rw [foldl_handle, begins, List.singleton_append]
  simp only [kept]
  constructor
  · intro keeps
    by_contra long
    have first := (keeps turns List.prefix_rfl).first
    rw [recent_long (Nat.le_of_not_lt long), recent] at first
    have member := List.mem_of_mem_drop (List.mem_of_mem_head? first)
    obtain ⟨msg, inside, entry⟩ := List.mem_flatMap.mp member
    exact absurd (spoken msg inside _ entry) (by simp)
  · rintro short front ⟨later, rfl⟩
    rw [List.flatMap_append, List.length_append] at short
    exact keepsPrompt_of_short (Nat.lt_of_le_of_lt (Nat.le_add_right _ _) short)

def turn (user assistant : String) : TurnDone :=
  ⟨some ⟨"user", user.toList⟩, some ⟨"assistant", assistant.toList⟩⟩

theorem oneTurn_keepsPrompt :
    KeepsPrompt "Be kind".toList ([turn "Hi" "Hello"].flatMap TurnDone.entries)
      ([turn "Hi" "Hello"].foldl handle (opening ("Be kind".toList : Text))) :=
  (keepsPrompt_iff (by decide) (by decide)).mpr (by decide) _ List.prefix_rfl

/-- The tenth turn brings the twentieth entry, and the prompt is gone. -/
theorem tenTurns_drop :
    let turns := List.replicate 10 (turn "Hi" "Hello")
    (turns.foldl handle (opening (some "Be kind".toList))).head? = some ⟨"user", "Hi".toList⟩ ∧
      ¬KeepsPrompt "Be kind".toList (turns.flatMap TurnDone.entries)
        (turns.foldl handle (opening (some "Be kind".toList))) := by
  have first : ((List.replicate 10 (turn "Hi" "Hello")).foldl handle
      (opening (some "Be kind".toList))).head? = some ⟨"user", "Hi".toList⟩ := by decide +kernel
  exact ⟨first, fun keeps => absurd (first.symm.trans keeps.first) (by decide)⟩

end Fswtch.Seat.HistoryBound
