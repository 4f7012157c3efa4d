import Fswtch.Seat.MimoTts

/-! The order of a turn's audio over MIMO. The sentences of a reply stream side by side and
push each chunk as it comes, so the audio is in the order of the reply only as far as a
sentence gets no audio before the ones in front of it have returned. -/

namespace Fswtch.Seat.MimoTts
open Fswtch.Lib.ByteReader Fswtch.Lib.StepRun Fswtch.Seat.DoubaoStream

variable {ρ : Type}

def SentencesInOrder (h : Handle ρ) : Prop :=
  ∀ turn, (h.heard.filter fun heard => heard.turn = turn).Pairwise
    fun first second => first.call ≤ second.call

def EarlierOver (h : Handle ρ) (i turn : Nat) : Prop :=
  ∀ c ∈ h.calls.take i, c.turn = turn → c.phase.returned = true

def Waits (d : Decoder ρ) (h : Handle ρ) : Action → Prop
  | .chunk i bytes => ∀ c ∈ h.calls[i]?, (c.reading d bytes).audio ≠ [] → EarlierOver h i c.turn
  | _ => True

instance (h : Handle ρ) (i turn : Nat) : Decidable (EarlierOver h i turn) :=
  inferInstanceAs (Decidable (∀ c ∈ h.calls.take i, c.turn = turn → c.phase.returned = true))

instance (d : Decoder ρ) (h : Handle ρ) (action : Action) : Decidable (Waits d h action) :=
  match action with
  | .chunk i bytes => inferInstanceAs
      (Decidable (∀ c ∈ h.calls[i]?, (c.reading d bytes).audio ≠ [] → EarlierOver h i c.turn))
  | .spawn _ | .synthesize _ | .respond _ _ | .push _ | .finish _ | .abort _ | .cancel => isTrue trivial

theorem earlierOver_iff {h : Handle ρ} {i turn : Nat} :
    EarlierOver h i turn ↔
      ∀ j c, j < i → h.calls[j]? = some c → c.turn = turn → c.phase.returned = true := by
  constructor
  · intro earlier j c before at_
    refine earlier c (List.mem_iff_getElem?.mpr ⟨j, ?_⟩)
    rw [List.getElem?_take_of_lt before, at_]
  · intro earlier c member
    obtain ⟨j, at_⟩ := List.mem_iff_getElem?.mp member
    rw [List.getElem?_take] at at_
    split at at_
    next before => exact earlier j c before at_
    next => cases at_

structure Ordered (h : Handle ρ) : Prop where
  sorted : SentencesInOrder h
  busy : ∀ (i : Nat) (c : Synthesis ρ), h.calls[i]? = some c → c.Busy
  queued : ∀ (i : Nat) (c : Synthesis ρ), h.calls[i]? = some c → c.queue ≠ [] → EarlierOver h i c.turn
  heard : ∀ heard ∈ h.heard, heard.call < h.calls.length ∧ EarlierOver h heard.call heard.turn

/-- A call that has returned stays so, whatever step another takes. -/
theorem earlierOver_steps {d : Decoder ρ} {h next : Handle ρ} {i j turn : Nat} {c after : Synthesis ρ}
    {action : Action} (steps : Steps d h next i c after action) (ordered : Ordered h)
    (earlier : EarlierOver h j turn) : EarlierOver next j turn := by
  rw [earlierOver_iff] at earlier ⊢
  have each := steps.forall (fun k c at_ before => earlier k c before at_) fun before same => by
    have returned := earlier i c before steps.at_ (steps.moves.turn_eq.symm.trans same)
    have working := steps.moves.not_returned ((ordered.busy i c steps.at_).idle returned)
    cases returned.symm.trans working
  exact fun k other before at_ => each k other at_ before

theorem CallStep.queue {d : Decoder ρ} {h : Handle ρ} {i : Nat} {c after : Synthesis ρ} {action : Action}
    (moves : CallStep d h i c action after) (queued : after.queue ≠ []) :
    c.queue ≠ [] ∨ ∃ bytes, action = .chunk i bytes ∧ (c.reading d bytes).audio ≠ [] := by
  cases moves with
  | reads bytes _ _ => exact Or.inr ⟨bytes, rfl, queued⟩
  | pushes pcm rest same =>
    refine Or.inl fun empty => ?_
    cases empty.symm.trans same
  | skips | requests | responds | refused | ends | fails | aborts => exact Or.inl queued

theorem ordered_steps {d : Decoder ρ} {h next : Handle ρ} {i : Nat} {c after : Synthesis ρ}
    {action : Action} (ordered : Ordered h) (waits : Waits d h action)
    (steps : Steps d h next i c after action) : Ordered next := by
  have length : next.calls.length = h.calls.length := by rw [steps.calls, List.length_set]
  have old : ∀ heard ∈ h.heard,
      heard.call < next.calls.length ∧ EarlierOver next heard.call heard.turn := by
    intro heard member
    obtain ⟨bound, earlier⟩ := ordered.heard heard member
    exact ⟨length ▸ bound, earlierOver_steps steps ordered earlier⟩
  have busy := steps.forall ordered.busy (steps.moves.busy (ordered.busy i c steps.at_))
  have earlier : after.queue ≠ [] → EarlierOver h i after.turn := by
    intro nonempty
    rw [steps.moves.turn_eq]
    rcases steps.moves.queue nonempty with before | ⟨bytes, rfl, audio⟩
    · exact ordered.queued i c steps.at_ before
    · exact waits c steps.at_ audio
  have queued : ∀ (j : Nat) (other : Synthesis ρ), next.calls[j]? = some other → other.queue ≠ [] →
      EarlierOver next j other.turn := fun j other at_ nonempty =>
    earlierOver_steps steps ordered (steps.forall ordered.queued earlier j other at_ nonempty)
  rcases pushed_eq steps.moves with none | ⟨pcm, queue, one⟩
  · have same : next.heard = h.heard := by rw [steps.heard, none, List.append_nil]
    exact ⟨fun turn => same ▸ ordered.sorted turn, busy, queued, same ▸ old⟩
  · have present : c.queue ≠ [] := by
      rw [← queue]
      exact List.cons_ne_nil _ _
    have grown : next.heard = h.heard ++ [⟨i, c.turn, pcm, c.begun, c.read, h.cancels⟩] := by
      rw [steps.heard, one]
    have earlier := ordered.queued i c steps.at_ present
    refine ⟨fun turn => ?_, busy, queued, ?_⟩
    · rw [grown, List.filter_append]
      refine List.pairwise_append.mpr ⟨ordered.sorted turn, ?_, ?_⟩
      · exact (List.pairwise_singleton ..).sublist List.filter_sublist
      · intro first member second new
        obtain ⟨heard, ofTurn⟩ := List.mem_filter.mp member
        obtain ⟨newest, newTurn⟩ := List.mem_filter.mp new
        cases List.mem_singleton.mp newest
        -- an earlier call that was still to push would have returned before
        by_contra above
        have returned := earlierOver_iff.mp (ordered.heard first heard).2 i c (Nat.not_le.mp above) steps.at_
          ((of_decide_eq_true newTurn).trans (of_decide_eq_true ofTurn).symm)
        exact present ((ordered.busy i c steps.at_).idle returned)
    · intro heard member
      rw [grown] at member
      rcases List.mem_append.mp member with before | new
      · exact old heard before
      · cases List.mem_singleton.mp new
        refine ⟨length ▸ (List.getElem?_eq_some_iff.mp steps.at_).1, ?_⟩
        exact earlierOver_steps steps ordered earlier

theorem ordered_step {d : Decoder ρ} {h next : Handle ρ} {action : Action} (ordered : Ordered h)
    (waits : Waits d h action) (taken : step d h action = some next) : Ordered next := by
  rcases step_cases taken with ⟨turn, rfl⟩ | ⟨_, rfl⟩ | ⟨i, c, after, steps⟩
  · have earlier : ∀ {i turn' : Nat}, i ≤ h.calls.length → EarlierOver h i turn' →
        EarlierOver { h with calls := h.calls ++ [{ turn, resampler := d.fresh }] } i turn' := by
      intro i turn' bound returned
      unfold EarlierOver
      rwa [List.take_append_of_le_length bound]
    refine ⟨ordered.sorted, forall_spawned ordered.busy fun nonempty => absurd rfl nonempty,
      forall_spawned (fun i c at_ nonempty => ?_) fun nonempty => absurd rfl nonempty,
      fun heard member => ?_⟩
    · exact earlier (List.getElem?_eq_some_iff.mp at_).1.le (ordered.queued i c at_ nonempty)
    · obtain ⟨bound, returned⟩ := ordered.heard heard member
      refine ⟨?_, earlier bound.le returned⟩
      rw [List.length_append]
      exact Nat.lt_add_right _ bound
  · exact ⟨ordered.sorted, ordered.busy, ordered.queued, ordered.heard⟩
  · exact ordered_steps ordered waits steps

theorem ordered_init : Ordered ({} : Handle ρ) :=
  ⟨fun _ => List.Pairwise.nil, nofun, nofun, nofun⟩

/-- Where no chunk brings audio for a sentence before those in front of it have returned, the
audio of every turn is in the order of its reply. -/
theorem sentences_inOrder (d : Decoder ρ) {actions : List Action} {final : Handle ρ}
    (guarded : Along (step d) (Waits d) {} actions) (taken : run (step d) {} actions = some final) :
    SentencesInOrder final :=
  (invariant_of_run (fun _ _ _ ordered waits stepped => ordered_step ordered waits stepped)
    ordered_init guarded taken).sorted

theorem twoSentences_inOrder :
    ∃ final, run (step oneSample) {} [.spawn 0, .spawn 0, .synthesize 0, .synthesize 1, .respond 1 true,
      .respond 0 true, .chunk 0 oneEvent, .push 0, .finish 0, .chunk 1 oneEvent, .push 1] = some final ∧
      final.heard.map Heard.call = [0, 1] ∧ SentencesInOrder final := by
  have found : (run (step oneSample) {} [.spawn 0, .spawn 0, .synthesize 0, .synthesize 1,
      .respond 1 true, .respond 0 true, .chunk 0 oneEvent, .push 0, .finish 0, .chunk 1 oneEvent,
      .push 1]).map (fun final => final.heard.map Heard.call) = some [0, 1] := by decide +kernel
  obtain ⟨final, taken, same⟩ := Option.map_eq_some_iff.mp found
  exact ⟨final, taken, same, sentences_inOrder oneSample (by decide +kernel) taken⟩

/-- Two responses side by side: the second sentence is heard between two chunks of the first. -/
theorem alternating_not_inOrder :
    ∃ final, run (step oneSample) {} [.spawn 0, .spawn 0, .synthesize 0, .synthesize 1, .respond 0 true,
      .respond 1 true, .chunk 0 oneEvent, .push 0, .chunk 1 oneEvent, .push 1, .chunk 0 oneEvent,
      .push 0] = some final ∧ ¬SentencesInOrder final := by
  have found : (run (step oneSample) {} [.spawn 0, .spawn 0, .synthesize 0, .synthesize 1,
      .respond 0 true, .respond 1 true, .chunk 0 oneEvent, .push 0, .chunk 1 oneEvent, .push 1,
      .chunk 0 oneEvent, .push 0]).map (fun final =>
        (final.heard.filter fun heard => heard.turn = 0).map Heard.call) = some [0, 1, 0] := by
    decide +kernel
  obtain ⟨final, taken, same⟩ := Option.map_eq_some_iff.mp found
  refine ⟨final, taken, fun ordered => ?_⟩
  have sorted := List.pairwise_map.mpr (ordered 0)
  rw [same] at sorted
  revert sorted
  decide

end Fswtch.Seat.MimoTts
