import Fswtch.Lib.StepRun
import Fswtch.Seat.CallSystemSound

/-! Segments and barge-ins go by the number of an onset. As long as no segment overtakes
the barge-in of its own onset, that barge-in is handled before its turn begins. -/

namespace Fswtch.Seat.CallSystem
open Fswtch.Seat.TtsSession

def Mark.plain : Mark → Bool
  | .begun _ | .handled _ _ => false
  | _ => true

namespace System

def InOrder (first second : Message) : Prop := ∀ k, first = .segment k → second ≠ .bargeIn k

structure Numbered (s : System) : Prop where
  onsets : s.inSpeech = true → 0 < s.onsets
  speech : ∀ k ∈ s.speech, k < s.onsets
  segments : ∀ k, .segment k ∈ s.mailbox → k < s.onsets ∧ k ∉ s.tells
  order : s.mailbox.Pairwise InOrder
  begun : ∀ k, .begun k ∈ s.trace → k < s.onsets ∧ k ∉ s.tells ∧ .bargeIn k ∉ s.mailbox
  actor : ∀ k stage, s.actor = .turn k stage → .begun k ∈ s.trace
  token : ∀ k, s.tokenTurn = some k → .begun k ∈ s.trace
  synths : ∀ synth ∈ s.synths, .begun synth.turn ∈ s.trace
  handled : ∀ k turn, .handled k (some turn) ∈ s.trace → turn ≠ k

/-- A step that neither hears anything nor takes a message. -/
structure SameNumbers (s s' : System) : Prop where
  inSpeech : s'.inSpeech = s.inSpeech
  onsets : s'.onsets = s.onsets
  speech : s'.speech = s.speech
  tells : s'.tells = s.tells
  mailbox : s'.mailbox = s.mailbox ∨ s'.mailbox = s.mailbox ++ [.turnDone]
  tokenTurn : s'.tokenTurn = s.tokenTurn
  actor : ∀ k stage, s'.actor = .turn k stage → ∃ stage, s.actor = .turn k stage
  synths : ∀ synth ∈ s'.synths, (∃ before ∈ s.synths, before.turn = synth.turn) ∨
    ∃ stage, s.actor = .turn synth.turn stage
  trace : ∃ marks, s'.trace = s.trace ++ marks ∧ ∀ mark ∈ marks, mark.plain = true

theorem Numbered.rests {s s' : System} (numbered : Numbered s) (same : SameNumbers s s') :
    Numbered s' := by
  obtain ⟨marks, trace, plain⟩ := same.trace
  have kept : ∀ {mark : Mark}, mark ∈ s.trace → mark ∈ s'.trace :=
    fun old => trace ▸ List.mem_append_left _ old
  have old : ∀ {mark : Mark}, mark.plain = false → mark ∈ s'.trace → mark ∈ s.trace := by
    intro mark special member
    rw [trace] at member
    refine (List.mem_append.mp member).resolve_right fun new => ?_
    cases special.symm.trans (plain mark new)
  have message : ∀ {message : Message}, message ≠ .turnDone → message ∈ s'.mailbox →
      message ∈ s.mailbox := by
    intro message other member
    rcases same.mailbox with mailbox | mailbox
    · exact mailbox ▸ member
    · rw [mailbox] at member
      exact (List.mem_append.mp member).resolve_right fun new => other (List.mem_singleton.mp new)
  refine ⟨?_, ?_, ?_, ?_, ?_, ?_, ?_, ?_, ?_⟩
  · rw [same.inSpeech, same.onsets]
    exact numbered.onsets
  · rw [same.speech, same.onsets]
    exact numbered.speech
  · rw [same.onsets, same.tells]
    exact fun k member => numbered.segments k (message nofun member)
  · rcases same.mailbox with mailbox | mailbox
    · exact mailbox ▸ numbered.order
    · rw [mailbox, List.pairwise_append]
      refine ⟨numbered.order, List.pairwise_singleton _ _, fun first _ last new k _ barge => ?_⟩
      cases (List.mem_singleton.mp new).symm.trans barge
  · rw [same.onsets, same.tells]
    intro k member
    obtain ⟨heard, told, waiting⟩ := numbered.begun k (old rfl member)
    exact ⟨heard, told, fun there => waiting (message nofun there)⟩
  · intro k stage here
    obtain ⟨stage, before⟩ := same.actor k stage here
    exact kept (numbered.actor k stage before)
  · rw [same.tokenTurn]
    exact fun k holds => kept (numbered.token k holds)
  · intro synth member
    rcases same.synths synth member with ⟨before, known, turn⟩ | ⟨stage, here⟩
    · exact kept (turn ▸ numbered.synths before known)
    · exact kept (numbered.actor synth.turn stage here)
  · exact fun k turn member => numbered.handled k turn (old rfl member)

theorem SynthStep.numbers {setup : Setup} {s s' : System} {j : Nat} {synth : Synth} {choice : Bool}
    (moved : SynthStep setup s j synth choice s') : SameNumbers s s' := by
  have turns : ∀ synth ∈ s'.synths, ∃ before ∈ s.synths, before.turn = synth.turn := by
    intro synth member
    have known : synth.turn ∈ s'.synths.map Synth.turn := List.mem_map_of_mem member
    rw [moved.turns] at known
    exact List.mem_map.mp known
  cases moved <;>
    exact ⟨rfl, rfl, rfl, rfl, .inl rfl, rfl, fun _ stage here => ⟨stage, here⟩,
      fun synth member => .inl (turns synth member), [], (List.append_nil _).symm, nofun⟩

theorem TurnStep.numbers {setup : Setup} {s s' : System} {k : Nat} {stage : Stage}
    (here : s.actor = .turn k stage) (moved : TurnStep setup s k s') : SameNumbers s s' := by
  have old : ∀ synth ∈ s.synths, (∃ before ∈ s.synths, before.turn = synth.turn) ∨
      ∃ stage, s.actor = .turn synth.turn stage := fun synth known => .inl ⟨synth, known, rfl⟩
  have goes : ∀ {next : Stage} (i : Nat) (after : Stage), ActorState.turn k next = .turn i after →
      ∃ stage, s.actor = .turn i stage := by
    rintro next i after ⟨⟩
    exact ⟨stage, here⟩
  cases moved with
  | walks next => exact ⟨rfl, rfl, rfl, rfl, .inl rfl, rfl, goes, old, [], (List.append_nil _).symm, nofun⟩
  | returns => exact ⟨rfl, rfl, rfl, rfl, .inl rfl, rfl, nofun, old, [.returned k], rfl, by simp [Mark.plain]⟩
  | @hears stream reply delta streaming =>
    refine ⟨rfl, rfl, rfl, rfl, .inl rfl, rfl, goes, fun synth member => ?_, _, rfl, fun mark new => ?_⟩
    · rcases List.mem_append.mp member with known | new
      · exact old synth known
      · obtain ⟨text, _, rfl⟩ := List.mem_map.mp new
        exact .inr ⟨stage, here⟩
    · obtain ⟨text, _, rfl⟩ := List.mem_map.mp new
      rfl
  | speaks result provided =>
    refine ⟨rfl, rfl, rfl, rfl, .inl rfl, rfl, goes, fun synth member => ?_, [.spoke k result.reply], rfl,
      by simp [Mark.plain]⟩
    rcases List.mem_append.mp member with known | new
    · exact old synth known
    · rw [List.mem_singleton.mp new]
      exact .inr ⟨stage, here⟩
  | acts effect rest =>
    exact ⟨rfl, rfl, rfl, rfl, .inl rfl, rfl, goes, old, [.acted k effect], rfl, by simp [Mark.plain]⟩
  | persists =>
    exact ⟨rfl, rfl, rfl, rfl, .inr rfl, rfl, nofun, old, [.returned k], rfl, by simp [Mark.plain]⟩

theorem afterServer_numbers (s : System) (session : Session) (event : Option Event) :
    SameNumbers s (s.afterServer session event) := by
  obtain ⟨flags, heard, frame⟩ := afterServer_frame s session event
  rw [frame]
  exact ⟨rfl, rfl, rfl, rfl, .inl rfl, rfl, fun _ stage here => ⟨stage, here⟩,
    fun synth known => .inl ⟨synth, known, rfl⟩, [], (List.append_nil _).symm, nofun⟩

theorem cancel_numbers (setup : Setup) (s : System) (canceller : Canceller) :
    SameNumbers s (s.cancel setup canceller) := by
  unfold cancel
  split <;>
    exact ⟨rfl, rfl, rfl, rfl, .inl rfl, rfl, fun _ stage here => ⟨stage, here⟩,
      fun synth known => .inl ⟨synth, known, rfl⟩, [], (List.append_nil _).symm, nofun⟩

theorem Numbered.hears {s s' : System} (numbered : Numbered s) (taken : s.onset = some s') :
    Numbered s' := by
  unfold onset at taken
  split at taken <;> cases taken
  have untold : ∀ {k : Nat}, k < s.onsets → k ∉ s.tells →
      k ∉ if s.flags.turnPending then s.tells ++ [s.onsets] else s.tells := by
    intro k heard told
    split
    · simp only [List.mem_append, List.mem_singleton, not_or]
      exact ⟨told, Nat.ne_of_lt heard⟩
    · exact told
  refine ⟨fun _ => Nat.succ_pos _, ?_, ?_, numbered.order, ?_, numbered.actor, numbered.token,
    numbered.synths, numbered.handled⟩
  · exact fun k member => Nat.lt_succ_of_lt (numbered.speech k member)
  · intro k member
    obtain ⟨heard, told⟩ := numbered.segments k member
    exact ⟨Nat.lt_succ_of_lt heard, untold heard told⟩
  · intro k member
    obtain ⟨heard, told, waiting⟩ := numbered.begun k member
    exact ⟨Nat.lt_succ_of_lt heard, untold heard told, waiting⟩

theorem Numbered.ends {s s' : System} (numbered : Numbered s) (taken : s.speechEnd = some s') :
    Numbered s' := by
  unfold speechEnd at taken
  split at taken
  next speaking =>
    cases taken
    refine ⟨nofun, ?_, numbered.segments, numbered.order, numbered.begun, numbered.actor,
      numbered.token, numbered.synths, numbered.handled⟩
    intro k member
    have positive := numbered.onsets speaking
    split at member
    · rcases List.mem_append.mp member with old | new
      · exact numbered.speech k old
      · rw [List.mem_singleton.mp new]
        exact Nat.sub_lt positive Nat.one_pos
    · exact numbered.speech k member
  next => cases taken

/-- A barge-in reaches the mailbox while its segment has not. -/
theorem Numbered.tells {s s' : System} {j : Nat} (numbered : Numbered s) (taken : s.tell j = some s') :
    Numbered s' := by
  obtain ⟨k, waiting, rfl⟩ := Option.map_eq_some_iff.mp taken
  have told : k ∈ s.tells := List.mem_of_getElem? waiting
  have fewer : ∀ {i : Nat}, i ∉ s.tells → i ∉ s.tells.eraseIdx j :=
    fun absent member => absent (List.mem_of_mem_eraseIdx member)
  have segment : ∀ {i : Nat}, .segment i ∈ s.mailbox ++ [.bargeIn k] → .segment i ∈ s.mailbox := by
    intro i member
    simpa using member
  have marked : ∀ {mark : Mark}, mark.plain = false → mark ∈ s.trace ++ [.queued k] → mark ∈ s.trace := by
    intro mark special member
    refine (List.mem_append.mp member).resolve_right fun new => ?_
    rw [List.mem_singleton.mp new] at special
    cases special
  refine ⟨numbered.onsets, numbered.speech, ?_, ?_, ?_, ?_, ?_, ?_, ?_⟩
  · intro i member
    obtain ⟨heard, absent⟩ := numbered.segments i (segment member)
    exact ⟨heard, fewer absent⟩
  · rw [List.pairwise_append]
    refine ⟨numbered.order, List.pairwise_singleton _ _, fun first old last new i same barge => ?_⟩
    cases (List.mem_singleton.mp new).symm.trans barge
    exact (numbered.segments k (same ▸ old)).2 told
  · intro i member
    obtain ⟨heard, absent, waiting⟩ := numbered.begun i (marked rfl member)
    refine ⟨heard, fewer absent, fun there => ?_⟩
    rcases List.mem_append.mp there with old | new
    · exact waiting old
    · cases List.mem_singleton.mp new
      exact absent told
  · exact fun i stage here => List.mem_append_left _ (numbered.actor i stage here)
  · exact fun i holds => List.mem_append_left _ (numbered.token i holds)
  · exact fun synth known => List.mem_append_left _ (numbered.synths synth known)
  · exact fun i turn member => numbered.handled i turn (marked rfl member)

/-- A segment reaches the mailbox with no barge-in of its own still to come. -/
theorem Numbered.forwards {s s' : System} (numbered : Numbered s) (taken : s.forward = some s')
    (clear : ∀ k ∈ s.speech.head?, k ∉ s.tells) : Numbered s' := by
  unfold forward at taken
  split at taken
  next => cases taken
  next k rest waiting =>
    cases taken
    refine ⟨numbered.onsets, ?_, ?_, ?_, ?_, numbered.actor, numbered.token, numbered.synths,
      numbered.handled⟩
    · exact fun i member => numbered.speech i (waiting ▸ List.mem_cons_of_mem k member)
    · intro i member
      rcases List.mem_append.mp member with old | new
      · exact numbered.segments i old
      · cases List.mem_singleton.mp new
        exact ⟨numbered.speech k (waiting ▸ List.mem_cons_self ..), clear k (by rw [waiting]; rfl)⟩
    · rw [List.pairwise_append]
      refine ⟨numbered.order, List.pairwise_singleton _ _, fun first _ last new i _ barge => ?_⟩
      cases (List.mem_singleton.mp new).symm.trans barge
    · intro i member
      obtain ⟨heard, absent, unqueued⟩ := numbered.begun i member
      exact ⟨heard, absent, by simpa using unqueued⟩

theorem Numbered.behind {s : System} {first : Message} {rest : List Message} (numbered : Numbered s)
    (next : s.mailbox = first :: rest) :
    (∀ i, .segment i ∈ rest → i < s.onsets ∧ i ∉ s.tells) ∧ (∀ message ∈ rest, InOrder first message) ∧
      rest.Pairwise InOrder ∧
      ∀ i, .begun i ∈ s.trace → i < s.onsets ∧ i ∉ s.tells ∧ .bargeIn i ∉ rest := by
  have waits : ∀ message ∈ rest, message ∈ s.mailbox :=
    fun message member => next ▸ List.mem_cons_of_mem _ member
  have order := numbered.order
  rw [next, List.pairwise_cons] at order
  refine ⟨fun i member => numbered.segments i (waits _ member), order.1, order.2, fun i member => ?_⟩
  obtain ⟨heard, absent, unqueued⟩ := numbered.begun i member
  exact ⟨heard, absent, fun there => unqueued (waits _ there)⟩

theorem Numbered.begins {s : System} {k : Nat} {rest : List Message} (numbered : Numbered s)
    (next : s.mailbox = .segment k :: rest) : Numbered (s.beginTurn k rest) := by
  obtain ⟨segments, first, order, begun⟩ := numbered.behind next
  have old : ∀ {mark : Mark}, mark ≠ .begun k → mark ∈ s.trace ++ [.begun k] → mark ∈ s.trace :=
    fun other member => (List.mem_append.mp member).resolve_right fun new => other (List.mem_singleton.mp new)
  refine ⟨numbered.onsets, numbered.speech, segments, order, ?_, ?_, ?_, ?_, ?_⟩
  · intro i member
    rcases List.mem_append.mp member with before | new
    · exact begun i before
    · cases List.mem_singleton.mp new
      obtain ⟨heard, absent⟩ := numbered.segments k (next ▸ List.mem_cons_self ..)
      exact ⟨heard, absent, fun there => first _ there k rfl rfl⟩
  · rintro i stage ⟨⟩
    exact List.mem_append_right _ (List.mem_singleton_self _)
  · rintro i ⟨⟩
    exact List.mem_append_right _ (List.mem_singleton_self _)
  · exact fun synth known => List.mem_append_left _ (numbered.synths synth known)
  · exact fun i turn member => numbered.handled i turn (old nofun member)

theorem Numbered.unbegun {s : System} {k : Nat} {rest : List Message} (numbered : Numbered s)
    (next : s.mailbox = .bargeIn k :: rest) : .begun k ∉ s.trace :=
  fun begun => (numbered.begun k begun).2.2 (next ▸ List.mem_cons_self ..)

theorem Numbered.interrupts {s : System} {k : Nat} {rest : List Message} (numbered : Numbered s)
    (next : s.mailbox = .bargeIn k :: rest) : Numbered (s.interrupt k rest) := by
  obtain ⟨segments, _, order, begun⟩ := numbered.behind next
  have old : ∀ {i : Nat}, .begun i ∈ s.trace ++ [.handled k s.tokenTurn] → .begun i ∈ s.trace := by
    intro i member
    simpa using member
  refine ⟨numbered.onsets, numbered.speech, segments, order, ?_, ?_, ?_, ?_, ?_⟩
  · exact fun i member => begun i (old member)
  · exact fun i stage here => List.mem_append_left _ (numbered.actor i stage here)
  · exact fun i holds => List.mem_append_left _ (numbered.token i holds)
  · exact fun synth known => List.mem_append_left _ (numbered.synths synth known)
  · intro i turn member
    rcases List.mem_append.mp member with before | new
    · exact numbered.handled i turn before
    · simp only [List.mem_singleton, Mark.handled.injEq] at new
      obtain ⟨rfl, token⟩ := new
      rintro rfl
      exact numbered.unbegun next (numbered.token turn token.symm)

theorem Numbered.receives {setup : Setup} {s s' : System} (numbered : Numbered s)
    (moved : ReceiveStep setup s s') : Numbered s' := by
  cases moved with
  | begins next => exact (numbered.begins next).rests (cancel_numbers ..)
  | interrupts next => exact (numbered.interrupts next).rests (cancel_numbers ..)
  | remembers next =>
    obtain ⟨segments, _, order, begun⟩ := numbered.behind next
    exact ⟨numbered.onsets, numbered.speech, segments, order, begun, numbered.actor, numbered.token,
      numbered.synths, numbered.handled⟩

theorem step_numbered {setup : Setup} {s s' : System} {action : Action} (numbered : Numbered s)
    (clear : action = .forward → ∀ k ∈ s.speech.head?, k ∉ s.tells)
    (taken : s.step setup action = some s') : Numbered s' := by
  cases action with
  | onset => exact numbered.hears taken
  | speechEnd => exact numbered.ends taken
  | tell j => exact numbered.tells taken
  | forward => exact numbered.forwards taken (clear rfl)
  | receive => exact numbered.receives (receive_step taken).2
  | turn move =>
    obtain ⟨k, stage, here, moved⟩ := turn_step taken
    exact numbered.rests (moved.numbers here)
  | synth j choice =>
    obtain ⟨synth, _, moved⟩ := synth_step taken
    exact numbered.rests moved.numbers
  | cancelTask j =>
    cases cancelTask_step taken <;>
      exact numbered.rests ⟨rfl, rfl, rfl, rfl, .inl rfl, rfl, fun _ stage here => ⟨stage, here⟩,
        fun synth known => .inl ⟨synth, known, rfl⟩, [], (List.append_nil _).symm, nofun⟩
  | server action =>
    obtain ⟨session, event, _, rfl⟩ := server_cases taken
    exact numbered.rests (afterServer_numbers s session event)

theorem initial_numbered : Numbered {} := by
  refine ⟨nofun, ?_, ?_, List.Pairwise.nil, ?_, nofun, nofun, ?_, ?_⟩ <;> simp

end System

end Fswtch.Seat.CallSystem
