import Fswtch.Lib.StepRun
import Fswtch.Seat.SegmentOrder

/-! What a cancel reaches. It marks whatever task is current when its own task gets the
slot, so it reaches back only if no synthesis begun after it installs before it is done;
and a barge-in spares its own segment's turn only if it gets to the mailbox first. -/

namespace Fswtch.Seat.CallSystem
open Fswtch.Lib.StepRun Fswtch.Seat.TtsSession

namespace System

/-- A cancel marks the tasks of syntheses begun before it, and a barge-in cancels, through
the token or through TTS, turns other than its own segment's. -/
structure CancelsOnlyEarlier (s : System) : Prop where
  begun : ∀ mark ∈ s.marked, mark.2.begun < mark.1.issued
  segment : ∀ mark ∈ s.marked, ∀ k, mark.1.canceller = .bargeIn k → mark.2.turn ≠ k
  token : ∀ k turn, .handled k (some turn) ∈ s.trace → turn ≠ k

/-- No cancel issued before a synthesis began is pending when it installs its task, and no
segment reaches the mailbox before the barge-in of its onset. -/
def Prompt (s : System) : Action → Prop
  | .synth j choice => s.installsTask (.synth j choice) = true →
      ∀ cancelled ∈ s.cancels, ∀ synth ∈ s.synths[j]?, synth.begun < cancelled.issued
  | .forward => ∀ k ∈ s.speech.head?, k ∉ s.tells
  | _ => True

instance decidablePrompt (s : System) : (action : Action) → Decidable (s.Prompt action)
  | .synth _ _ => inferInstanceAs (Decidable (_ → _))
  | .forward => inferInstanceAs (Decidable (∀ k ∈ s.speech.head?, k ∉ s.tells))
  | .onset | .speechEnd | .tell _ | .receive | .turn _ | .cancelTask _ | .server _ => isTrue trivial

/-- What `s'` says about the syntheses of `s`: one that was called stays so, and one that
is called now gets a number not given before. -/
structure Aged (s s' : System) : Prop where
  stamp : s.stamp ≤ s'.stamp
  keeps : ∀ (j : Nat) (synth : Synth), s.synths[j]? = some synth → synth.phase ≠ .spawned →
    ∃ after, s'.synths[j]? = some after ∧ after.phase ≠ .spawned ∧ after.begun = synth.begun ∧
      after.turn = synth.turn
  calls : ∀ (j : Nat) (after : Synth), s'.synths[j]? = some after → after.phase ≠ .spawned →
    (∃ synth, s.synths[j]? = some synth ∧ synth.phase ≠ .spawned ∧ after.begun = synth.begun ∧
      after.turn = synth.turn) ∨ s.stamp ≤ after.begun ∧ after.begun < s'.stamp

theorem Aged.same {s s' : System} (stamp : s.stamp ≤ s'.stamp) (synths : s'.synths = s.synths) :
    Aged s s' :=
  ⟨stamp, fun _ synth known called => ⟨synth, synths ▸ known, called, rfl, rfl⟩,
    fun _ synth known called => .inl ⟨synth, synths ▸ known, called, rfl, rfl⟩⟩

theorem Aged.moves {s s' : System} {j : Nat} {synth : Synth} {phase : SynthPhase}
    (found : s.synths[j]? = some synth) (called : synth.phase ≠ .spawned) (on : phase ≠ .spawned)
    (stamp : s'.stamp = s.stamp) (synths : s'.synths = (s.setPhase j phase).synths) : Aged s s' := by
  refine ⟨Nat.le_of_eq stamp.symm, fun i other known other_ => ?_, fun i after known after_ => ?_⟩
  · rw [synths, System.setPhase, getElem?_setSynth, known]
    split
    · exact ⟨_, rfl, on, rfl, rfl⟩
    · exact ⟨other, rfl, other_, rfl, rfl⟩
  · rcases setSynth_cases (synths ▸ known) with ⟨rfl, before, there, rfl⟩ | ⟨_, before⟩
    · cases found.symm.trans there
      exact .inl ⟨synth, found, called, rfl, rfl⟩
    · exact .inl ⟨after, before, after_, rfl, rfl⟩

theorem Aged.begins {s : System} {j : Nat} {synth : Synth} (found : s.synths[j]? = some synth)
    (here : synth.phase = .spawned) (phase : SynthPhase) : Aged s ((s.called j).setPhase j phase) := by
  have shape : ∀ i, ((s.called j).setPhase j phase).synths[i]? =
      if j = i then s.synths[i]?.map fun synth => { synth with begun := s.stamp, phase } else
        s.synths[i]? := by
    intro i
    rw [System.setPhase, getElem?_setSynth, System.called, getElem?_setSynth]
    split <;> simp [Function.comp_def]
  refine ⟨Nat.le_succ _, fun i other known called => ?_, fun i after known called => ?_⟩
  · rw [shape, known]
    split
    next same =>
      subst same
      cases found.symm.trans known
      exact absurd here called
    next => exact ⟨other, rfl, called, rfl, rfl⟩
  · rw [shape] at known
    split at known
    · obtain ⟨before, _, rfl⟩ := Option.map_eq_some_iff.mp known
      exact .inr ⟨Nat.le_refl _, Nat.lt_succ_self _⟩
    · exact .inl ⟨after, known, called, rfl, rfl⟩

theorem Aged.appended {s s' : System} {added : List Synth} (stamp : s'.stamp = s.stamp)
    (synths : s'.synths = s.synths ++ added) (fresh : ∀ synth ∈ added, synth.phase = .spawned) :
    Aged s s' := by
  refine ⟨Nat.le_of_eq stamp.symm, fun j synth known called => ?_, fun j after known called => ?_⟩
  · rw [synths, List.getElem?_append_left (List.getElem?_eq_some_iff.mp known).choose]
    exact ⟨synth, known, called, rfl, rfl⟩
  · rw [synths, List.getElem?_append] at known
    split at known
    · exact .inl ⟨after, known, called, rfl, rfl⟩
    · exact absurd (fresh after (List.mem_of_getElem? known)) called

/-- Every task has its synthesis, and the pending cancels are younger than the synthesis of
the current task but older than those of the turn they make room for. -/
structure Stamped (s : System) : Prop where
  issued : ∀ cancelled ∈ s.cancels, cancelled.issued < s.stamp
  called : ∀ (j : Nat) (synth : Synth), s.synths[j]? = some synth → synth.phase ≠ .spawned →
    synth.begun < s.stamp
  opening : ∀ j, s.slot = .starting j → s.owners = []
  owned : s.owners.length = s.session.nextTask
  placed : ∀ j ∈ s.owners, ∃ synth, s.synths[j]? = some synth ∧ synth.phase ≠ .spawned
  within : ∀ cancelled ∈ s.cancels, ∀ synth, s.currentSynth = some synth →
    synth.begun < cancelled.issued
  later : ∀ cancelled ∈ s.cancels, ∀ k, cancelled.canceller = .bargeIn k →
    ∀ (j : Nat) (synth : Synth), s.synths[j]? = some synth → synth.phase ≠ .spawned →
      synth.turn = k → cancelled.issued < synth.begun
  begun : ∀ mark ∈ s.marked, mark.2.begun < mark.1.issued
  segment : ∀ mark ∈ s.marked, ∀ k, mark.1.canceller = .bargeIn k → mark.2.turn ≠ k

theorem currentSynth_eq_some {s : System} {synth : Synth} (now : s.currentSynth = some synth) :
    ∃ task ∈ s.session.current, ∃ j, s.owners[task.id]? = some j ∧ s.synths[j]? = some synth := by
  obtain ⟨task, current, now⟩ := Option.bind_eq_some_iff.mp now
  obtain ⟨j, owner, known⟩ := Option.bind_eq_some_iff.mp now
  exact ⟨task, current, j, owner, known⟩

theorem Stamped.currentSynth_called {s : System} {synth : Synth} (stamped : Stamped s)
    (now : s.currentSynth = some synth) :
    ∃ j : Nat, s.synths[j]? = some synth ∧ synth.phase ≠ .spawned := by
  obtain ⟨task, _, j, owner, known⟩ := currentSynth_eq_some now
  obtain ⟨other, same, called⟩ := stamped.placed j (List.mem_of_getElem? owner)
  cases known.symm.trans same
  exact ⟨j, known, called⟩

structure SameTurns (s s' : System) : Prop where
  aged : Aged s s'
  cancels : ∀ cancelled ∈ s'.cancels, cancelled ∈ s.cancels
  slot : ∀ j, s'.slot = .starting j → s.slot = .starting j
  owners : s'.owners = s.owners
  nextTask : s'.session.nextTask = s.session.nextTask
  current : ∀ task ∈ s'.session.current, ∃ before ∈ s.session.current, before.id = task.id

theorem SameTurns.currentSynth {s s' : System} {after : Synth} (stamped : Stamped s)
    (same : SameTurns s s') (now : s'.currentSynth = some after) :
    ∃ synth, s.currentSynth = some synth ∧ after.begun = synth.begun := by
  obtain ⟨task, current, j, owner, known⟩ := currentSynth_eq_some now
  rw [same.owners] at owner
  obtain ⟨before, there, id⟩ := same.current task current
  obtain ⟨synth, found, called⟩ := stamped.placed j (List.mem_of_getElem? owner)
  obtain ⟨_, next, _, begun, _⟩ := same.aged.keeps j synth found called
  cases known.symm.trans next
  refine ⟨synth, ?_, begun⟩
  rw [System.currentSynth, Option.mem_def.mp there, Option.bind_some, id, owner, Option.bind_some, found]

section Aged

variable {s s' : System} (stamped : Stamped s) (aged : Aged s s')
include stamped aged

theorem Stamped.issued_aged (cancels : ∀ cancelled ∈ s'.cancels, cancelled ∈ s.cancels) :
    ∀ cancelled ∈ s'.cancels, cancelled.issued < s'.stamp :=
  fun cancelled member => Nat.lt_of_lt_of_le (stamped.issued cancelled (cancels cancelled member)) aged.stamp

theorem Stamped.called_aged (j : Nat) (synth : Synth) (known : s'.synths[j]? = some synth)
    (called : synth.phase ≠ .spawned) : synth.begun < s'.stamp := by
  rcases aged.calls j synth known called with ⟨before, found, old, begun, _⟩ | ⟨_, new⟩
  · rw [begun]
    exact Nat.lt_of_lt_of_le (stamped.called j before found old) aged.stamp
  · exact new

/-- A synthesis called meanwhile begins behind every cancel that was pending. -/
theorem Stamped.later_aged (cancels : ∀ cancelled ∈ s'.cancels, cancelled ∈ s.cancels) :
    ∀ cancelled ∈ s'.cancels, ∀ k, cancelled.canceller = .bargeIn k →
      ∀ (j : Nat) (synth : Synth), s'.synths[j]? = some synth → synth.phase ≠ .spawned →
        synth.turn = k → cancelled.issued < synth.begun := by
  intro cancelled member k canceller j synth known called turn
  have pending := cancels cancelled member
  rcases aged.calls j synth known called with ⟨before, found, old, begun, turns⟩ | ⟨new, _⟩
  · rw [begun]
    exact stamped.later cancelled pending k canceller j before found old (turns.symm.trans turn)
  · exact Nat.lt_of_lt_of_le (stamped.issued cancelled pending) new

end Aged

theorem Stamped.rests {s s' : System} (stamped : Stamped s) (same : SameTurns s s')
    (marked : s'.marked = s.marked) : Stamped s' := by
  refine ⟨stamped.issued_aged same.aged same.cancels, stamped.called_aged same.aged, ?_, ?_, ?_, ?_,
    stamped.later_aged same.aged same.cancels, ?_, ?_⟩
  · rw [same.owners]
    exact fun j starting => stamped.opening j (same.slot j starting)
  · rw [same.owners, same.nextTask]
    exact stamped.owned
  · intro j member
    obtain ⟨synth, found, called⟩ := stamped.placed j (same.owners ▸ member)
    obtain ⟨after, known, still, _⟩ := same.aged.keeps j synth found called
    exact ⟨after, known, still⟩
  · intro cancelled member synth now
    obtain ⟨before, then_, begun⟩ := same.currentSynth stamped now
    rw [begun]
    exact stamped.within cancelled (same.cancels cancelled member) before then_
  · rw [marked]
    exact stamped.begun
  · rw [marked]
    exact stamped.segment

theorem Stamped.restarts {s s' : System} (stamped : Stamped s) (aged : Aged s s')
    (cancels : s'.cancels = s.cancels) (owners : s'.owners = []) (nextTask : s'.session.nextTask = 0)
    (current : s'.session.current = none) (marked : s'.marked = s.marked) : Stamped s' := by
  have pending : ∀ cancelled ∈ s'.cancels, cancelled ∈ s.cancels := fun _ member => cancels ▸ member
  refine ⟨stamped.issued_aged aged pending, stamped.called_aged aged, fun _ _ => owners, ?_, ?_, ?_,
    stamped.later_aged aged pending, ?_, ?_⟩
  · rw [owners, nextTask]
    rfl
  · rw [owners]
    exact nofun
  · rw [System.currentSynth, current]
    exact nofun
  · rw [marked]
    exact stamped.begun
  · rw [marked]
    exact stamped.segment

theorem Stamped.installs {s : System} {j call : Nat} {synth : Synth} (stamped : Stamped s)
    (ready : s.slot = .ready) (found : s.synths[j]? = some synth) (called : synth.phase ≠ .spawned)
    (prompt : ∀ cancelled ∈ s.cancels, synth.begun < cancelled.issued) :
    Stamped { s with session := s.session.install.hold call .sending, owners := s.owners ++ [j] } := by
  refine ⟨stamped.issued, stamped.called, fun i starting => ?_, ?_, ?_, ?_, stamped.later,
    stamped.begun, stamped.segment⟩
  · cases ready.symm.trans starting
  · exact List.length_append.trans (congrArg (· + 1) stamped.owned)
  · intro i member
    rcases List.mem_append.mp member with old | new
    · exact stamped.placed i old
    · cases List.mem_singleton.mp new
      exact ⟨synth, found, called⟩
  · intro cancelled member other now
    obtain ⟨task, current, i, owner, known⟩ := currentSynth_eq_some now
    cases current
    have last : (s.owners ++ [j])[s.session.nextTask]? = some j := by
      rw [← stamped.owned, List.getElem?_append_right (Nat.le_refl _), Nat.sub_self]
      rfl
    cases owner.symm.trans last
    cases known.symm.trans found
    exact prompt cancelled member

theorem SameTurns.calls {s : System} {session : Session}
    (same : session.nextTask = s.session.nextTask ∧
      ∀ task ∈ session.current, ∃ before ∈ s.session.current, before.id = task.id) :
    SameTurns s { s with session } :=
  ⟨.same (Nat.le_refl _) rfl, fun _ member => member, fun _ starting => starting, rfl, same.1, same.2⟩

theorem Stamped.synths {setup : Setup} {s s' : System} {j : Nat} {synth : Synth} {choice : Bool}
    (coherent : Coherent s) (stamped : Stamped s) (prompt : s.Prompt (.synth j choice))
    (found : s.synths[j]? = some synth) (moved : SynthStep setup s j synth choice s') : Stamped s' := by
  have keeps : ∀ {after : System}, Aged s after → after.cancels = s.cancels → after.slot = s.slot →
      after.owners = s.owners → after.session.nextTask = s.session.nextTask →
      after.session.current = s.session.current → after.marked = s.marked → Stamped after := by
    intro after aged cancels slot owners nextTask current marked
    exact stamped.rests ⟨aged, fun _ member => cancels ▸ member, fun _ starting => slot ▸ starting, owners,
      nextTask, fun task held => ⟨task, current ▸ held, rfl⟩⟩ marked
  have steps : ∀ {call : Nat} {token : Bool} {session : Session} {event : Option Event},
      s.session.step (.advance call token) = some (session, event) →
      (¬Installs s.session call token ∨ ∀ other task, event ≠ some (.installed other task)) →
      session.nextTask = s.session.nextTask ∧
        ∀ task ∈ session.current, ∃ before ∈ s.session.current, before.id = task.id := by
    intro call token session event stepped quiet
    have same : ∀ {after : Session}, after.nextTask = s.session.nextTask →
        after.current = s.session.current → after.nextTask = s.session.nextTask ∧
          ∀ task ∈ after.current, ∃ before ∈ s.session.current, before.id = task.id :=
      fun nextTask current => ⟨nextTask, fun task held => ⟨task, current ▸ held, rfl⟩⟩
    cases advance_outcome coherent.steady.linked stepped with
    | installs clear => exact (quiet.elim (absurd clear) fun silent => absurd rfl (silent _ _))
    | continues other held => exact same rfl rfl
    | sends held tasks free => exact same tasks.nextTask tasks.current
    | clears held => exact ⟨rfl, nofun⟩
    | rests tasks unsent shown => exact same tasks.nextTask tasks.current
  have starting : ∀ {call : Nat}, synth.phase = .starting call → ¬Installs s.session call choice :=
    coherent.starting_uninstalled found
  cases moved with
  | begins here => exact keeps (.begins found here _) rfl rfl rfl rfl rfl rfl
  | posts here => exact keeps (.begins found here _) rfl rfl rfl rfl rfl rfl
  | skips here => exact keeps (.begins found here _) rfl rfl rfl rfl rfl rfl
  | creates here empty =>
    exact stamped.restarts (.moves found (by simp [here]) (by simp) rfl rfl) rfl rfl rfl rfl rfl
  | enters here ready =>
    exact keeps (.moves found (by simp [here]) (by simp) rfl rfl) rfl rfl rfl rfl rfl rfl
  | connects here stepped silent =>
    exact stamped.rests (.calls (steps stepped (.inl (starting here)))) rfl
  | opens here stepped =>
    obtain ⟨nextTask, current⟩ := steps stepped (.inl (starting here))
    exact stamped.rests ⟨.moves found (by simp [here]) (by simp) rfl rfl, fun _ member => member, nofun, rfl,
      nextTask, current⟩ rfl
  | @drops call _ _ _ here stepped refused =>
    have slot : s.slot = .starting j := (coherent.starting j synth call found here).1
    exact stamped.restarts (.moves found (by simp [here]) (by simp) rfl rfl) rfl (stamped.opening j slot) rfl
      rfl rfl
  | moves here stepped silent => exact stamped.rests (.calls (steps stepped (.inr silent.2))) rfl
  | @installs call other task session here stepped =>
    obtain ⟨clear, rfl⟩ := installed_step coherent.steady.linked stepped
    exact stamped.installs (coherent.inSession j synth call found here).1 found (by simp [here])
      fun cancelled member =>
        prompt (by simp [installsTask, found, here, clear]) cancelled member synth found
  | leaves here stepped =>
    obtain ⟨nextTask, current⟩ := steps stepped (.inr nofun)
    refine stamped.rests ⟨.moves found (by simp [here]) ?_ rfl rfl, fun _ member => member,
      fun _ starting => starting, rfl, nextTask, current⟩ rfl
    split <;> simp
  | plays here | refuses here | clears here | stops here | finishes here =>
    exact keeps (.moves found (by simp [here]) (by simp) rfl rfl) rfl rfl rfl rfl rfl rfl

theorem Stamped.turns {setup : Setup} {s s' : System} {k : Nat} (stamped : Stamped s)
    (moved : TurnStep setup s k s') : Stamped s' := by
  have keeps : ∀ {after : System}, Aged s after → after.cancels = s.cancels → after.slot = s.slot →
      after.owners = s.owners → after.session = s.session → after.marked = s.marked → Stamped after := by
    intro after aged cancels slot owners session marked
    exact stamped.rests ⟨aged, fun _ member => cancels ▸ member, fun _ starting => slot ▸ starting, owners,
      by rw [session], fun task held => ⟨task, session ▸ held, rfl⟩⟩ marked
  cases moved with
  | hears delta here =>
    refine keeps (.appended rfl rfl fun synth added => ?_) rfl rfl rfl rfl rfl
    obtain ⟨text, _, rfl⟩ := List.mem_map.mp added
    rfl
  | speaks result provided =>
    refine keeps (.appended rfl rfl fun synth added => ?_) rfl rfl rfl rfl rfl
    rw [List.mem_singleton.mp added]
  | walks | returns | acts | persists => exact keeps (.same (Nat.le_refl _) rfl) rfl rfl rfl rfl rfl

/-- A cancel is issued: later than the current synthesis was called and, for a barge-in,
before any of its segment's turn is. -/
theorem Stamped.cancels {s : System} {canceller : Canceller} (setup : Setup) (stamped : Stamped s)
    (early : ∀ k, canceller = .bargeIn k → ∀ synth ∈ s.synths, synth.turn ≠ k) :
    Stamped (s.cancel setup canceller) := by
  unfold cancel
  split
  · exact stamped
  · refine ⟨?_, ?_, stamped.opening, stamped.owned, stamped.placed, ?_, ?_, stamped.begun, stamped.segment⟩
    · intro cancelled member
      rcases List.mem_append.mp member with old | new
      · exact Nat.lt_succ_of_lt (stamped.issued cancelled old)
      · rw [List.mem_singleton.mp new]
        exact Nat.lt_succ_self _
    · exact fun j synth known called => Nat.lt_succ_of_lt (stamped.called j synth known called)
    · intro cancelled member synth now
      rcases List.mem_append.mp member with old | new
      · exact stamped.within cancelled old synth now
      · rw [List.mem_singleton.mp new]
        obtain ⟨j, known, called⟩ := stamped.currentSynth_called now
        exact stamped.called j synth known called
    · intro cancelled member k same j synth known called turn
      rcases List.mem_append.mp member with old | new
      · exact stamped.later cancelled old k same j synth known called turn
      · rw [List.mem_singleton.mp new] at same
        exact absurd turn (early k same synth (List.mem_of_getElem? known))
  · exact ⟨stamped.issued, stamped.called, stamped.opening, stamped.owned, stamped.placed, stamped.within,
      stamped.later, stamped.begun, stamped.segment⟩

theorem Stamped.unchanged {s s' : System} (stamped : Stamped s) (stamp : s'.stamp = s.stamp)
    (synths : s'.synths = s.synths) (cancels : s'.cancels = s.cancels) (slot : s'.slot = s.slot)
    (owners : s'.owners = s.owners) (session : s'.session = s.session) (marked : s'.marked = s.marked) :
    Stamped s' := by
  have aged : Aged s s' := .same (Nat.le_of_eq stamp.symm) synths
  refine stamped.rests ⟨aged, fun _ member => cancels ▸ member, fun _ starting => slot ▸ starting, owners, ?_,
    fun task held => ⟨task, session ▸ held, rfl⟩⟩ marked
  rw [session]

theorem Stamped.receives {setup : Setup} {s s' : System} (numbered : Numbered s) (stamped : Stamped s)
    (moved : ReceiveStep setup s s') : Stamped s' := by
  cases moved with
  | @begins k rest next =>
    have begun : Stamped (s.beginTurn k rest) := stamped.unchanged rfl rfl rfl rfl rfl rfl rfl
    exact begun.cancels setup nofun
  | @interrupts k rest next =>
    have interrupted : Stamped (s.interrupt k rest) := stamped.unchanged rfl rfl rfl rfl rfl rfl rfl
    refine interrupted.cancels setup ?_
    rintro i ⟨⟩ synth known rfl
    exact numbered.unbegun next (numbered.synths synth known)
  | remembers next => exact stamped.unchanged rfl rfl rfl rfl rfl rfl rfl

theorem Stamped.marks {s s' : System} {j : Nat} (stamped : Stamped s) (taken : s.cancelTask j = some s') :
    Stamped s' := by
  have kept : ∀ cancelled ∈ s.cancels.eraseIdx j, cancelled ∈ s.cancels :=
    fun _ member => List.mem_of_mem_eraseIdx member
  cases cancelTask_step taken with
  | skips =>
    exact stamped.rests ⟨.same (Nat.le_refl _) rfl, kept, fun _ starting => starting, rfl, rfl,
      fun task held => ⟨task, held, rfl⟩⟩ rfl
  | @marks cancelled pending ready =>
    have waiting : cancelled ∈ s.cancels := List.mem_of_getElem? pending
    have plain : Stamped { s with
        cancels := s.cancels.eraseIdx j, session := s.session.cancelCurrentTurn } := by
      refine stamped.rests ⟨.same (Nat.le_refl _) rfl, kept, fun _ starting => starting, rfl, rfl,
        fun task held => ?_⟩ rfl
      obtain ⟨before, known, rfl⟩ := Option.mem_map.mp held
      exact ⟨before, known, rfl⟩
    refine ⟨plain.issued, plain.called, plain.opening, plain.owned, plain.placed, plain.within, plain.later,
      fun mark member => ?_, fun mark member k canceller turn => ?_⟩
    · rcases List.mem_append.mp member with old | new
      · exact stamped.begun mark old
      · obtain ⟨synth, now, rfl⟩ := Option.map_eq_some_iff.mp (Option.mem_toList.mp new)
        exact stamped.within cancelled waiting synth now
    · rcases List.mem_append.mp member with old | new
      · exact stamped.segment mark old k canceller turn
      · obtain ⟨synth, now, rfl⟩ := Option.map_eq_some_iff.mp (Option.mem_toList.mp new)
        obtain ⟨i, known, called⟩ := stamped.currentSynth_called now
        exact absurd (stamped.within cancelled waiting synth now)
          (Nat.lt_asymm (stamped.later cancelled waiting k canceller i synth known called turn))

theorem Stamped.serves {s s' : System} {action : Session.Action} (stamped : Stamped s)
    (taken : s.server action = some s') : Stamped s' := by
  obtain ⟨session, event, stepped, rfl⟩ := server_cases taken
  have same : SameTurns s { s with session } := by
    refine .calls ((step_current stepped).resolve_right ?_)
    rintro ⟨i, choice, rfl, _⟩
    cases taken
  obtain ⟨flags, heard, frame⟩ := afterServer_frame s session event
  have served : Stamped { s with session } := stamped.rests same rfl
  rw [frame]
  exact served.unchanged rfl rfl rfl rfl rfl rfl rfl

theorem step_stamped (setup : Setup) (s : System) (action : Action) (s' : System)
    (kept : Coherent s ∧ Numbered s ∧ Stamped s) (prompt : s.Prompt action)
    (taken : s.step setup action = some s') : Coherent s' ∧ Numbered s' ∧ Stamped s' := by
  obtain ⟨coherent, numbered, stamped⟩ := kept
  refine ⟨step_coherent setup s action s' coherent taken, step_numbered numbered ?_ taken, ?_⟩
  · rintro rfl
    exact prompt
  cases action with
  | onset | speechEnd | tell | forward =>
    cases listen_step taken rfl <;> exact stamped.unchanged rfl rfl rfl rfl rfl rfl rfl
  | receive => exact stamped.receives numbered (receive_step taken).2
  | turn move =>
    obtain ⟨k, stage, _, moved⟩ := turn_step taken
    exact stamped.turns moved
  | synth j choice =>
    obtain ⟨synth, found, moved⟩ := synth_step taken
    exact stamped.synths coherent prompt found moved
  | cancelTask j => exact stamped.marks taken
  | server action => exact stamped.serves taken

theorem initial_stamped : Stamped {} :=
  ⟨nofun, nofun, nofun, rfl, nofun, nofun, nofun, nofun, nofun⟩

end System

/-- In a run in which no cancel is overtaken by a synthesis begun after it, and no barge-in
by the segment of its onset, a cancel reaches only what began before it. -/
theorem cancels_only_earlier (setup : Setup) (actions : List System.Action) (final : System)
    (prompt : Along (System.step setup) System.Prompt {} actions)
    (taken : run (System.step setup) {} actions = some final) : final.CancelsOnlyEarlier := by
  have initial : System.Coherent {} ∧ System.Numbered {} ∧ System.Stamped {} :=
    ⟨System.initial_coherent, System.initial_numbered, System.initial_stamped⟩
  obtain ⟨_, numbered, stamped⟩ := invariant_of_run (System.step_stamped setup) initial prompt taken
  exact ⟨stamped.begun, stamped.segment, numbered.handled⟩

def interruptedReply : List System.Action :=
  System.firstSegment ++ [.cancelTask 0] ++ System.opening 0 ++ System.installing 0 ++
    System.answering 0 ++ [.onset, .tell 0, .speechEnd, .forward, .turn .fails, .receive, .cancelTask 0,
      .receive, .cancelTask 0]

theorem interruptedReply_cancels_only_earlier :
    ∃ final, run (System.step System.volcanoSetup) {} interruptedReply = some final ∧
      final.marked.map (fun mark => (mark.1.issued, mark.2.begun)) = [(2, 1), (3, 1)] ∧
      final.CancelsOnlyEarlier := by
  have prompt : Along (System.step System.volcanoSetup) System.Prompt {} interruptedReply := by
    decide +kernel
  have marked : (run (System.step System.volcanoSetup) {} interruptedReply).map
      (fun final => final.marked.map fun mark => (mark.1.issued, mark.2.begun)) =
        some [(2, 1), (3, 1)] := by decide +kernel
  obtain ⟨final, taken, marked⟩ := Option.map_eq_some_iff.mp marked
  exact ⟨final, taken, marked,
    cancels_only_earlier System.volcanoSetup interruptedReply final prompt taken⟩

def overtakenCancel : List System.Action :=
  System.firstSegment ++ System.opening 0 ++ System.installing 0 ++ [.cancelTask 0]

def overtakenBargeIn : List System.Action :=
  System.firstSegment ++ [.turn (.delta "Hi. ".toList), .onset, .speechEnd, .forward, .turn .fails,
    .receive, .tell 0, .turn .fails, .receive]

theorem overtaken_not_cancelsOnlyEarlier :
    (∃ final, run (System.step System.volcanoSetup) {} overtakenCancel = some final ∧
        final.marked.map (fun mark => (mark.1.issued, mark.2.begun)) = [(0, 1)] ∧
        ¬final.CancelsOnlyEarlier) ∧
      ∃ final, run (System.step System.volcanoSetup) {} overtakenBargeIn = some final ∧
        .handled 1 (some 1) ∈ final.trace ∧ ¬final.CancelsOnlyEarlier := by
  constructor
  · have marked : (run (System.step System.volcanoSetup) {} overtakenCancel).map
        (fun final => final.marked.map fun mark => (mark.1.issued, mark.2.begun)) =
          some [(0, 1)] := by decide +kernel
    obtain ⟨final, taken, marked⟩ := Option.map_eq_some_iff.mp marked
    refine ⟨final, taken, marked, fun only => ?_⟩
    obtain ⟨mark, member, same⟩ := List.mem_map.mp (marked ▸ List.mem_singleton_self (0, 1))
    have earlier := only.begun mark member
    simp only [Prod.mk.injEq] at same
    omega
  · have handled : (run (System.step System.volcanoSetup) {} overtakenBargeIn).map
        (fun final => decide (.handled 1 (some 1) ∈ final.trace)) = some true := by decide +kernel
    obtain ⟨final, taken, handled⟩ := Option.map_eq_some_iff.mp handled
    have member := of_decide_eq_true handled
    exact ⟨final, taken, member, fun only => only.token 1 1 member rfl⟩

end Fswtch.Seat.CallSystem
