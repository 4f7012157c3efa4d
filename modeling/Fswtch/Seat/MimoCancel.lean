import Fswtch.Seat.MimoTts

/-! The cancel contract of MIMO. The flag that `cancel` sets is never cleared and is not read
while a response streams in, so the contract holds only as far as no call begins and no audio
arrives once it is set. -/

namespace Fswtch.Seat.MimoTts
open Fswtch.Lib.ByteReader Fswtch.Lib.ChunkedText Fswtch.Lib.StepRun
open Fswtch.Seat.SentenceSplit Fswtch.Seat.DoubaoStream

variable {ρ : Type}

def whole (d : Decoder ρ) (text : Text) : Reading ρ :=
  readBlocks d d.fresh (drainBlocks (withoutReturns text)).1

def Handle.pcmOf (h : Handle ρ) (i : Nat) : List Pcm :=
  (h.heard.filter fun heard => heard.call = i).map Heard.pcm

/-- A cancel (the one that `n` others came before) between the beginning of a call and an
`on_audio` of it came while that chunk was being processed; and a call that began after the
last cancel goes ahead and has passed on all audio of its response when it returns. -/
structure CancelContract (d : Decoder ρ) (h : Handle ρ) : Prop where
  silenced : ∀ heard ∈ h.heard, ∀ n, heard.begun ≤ n → n < heard.cancels → heard.read ≤ n
  delivered : ∀ (i : Nat) (c : Synthesis ρ), h.calls[i]? = some c → c.phase ≠ .spawned →
    c.begun = h.cancels → c.phase ≠ .skipped ∧
      (c.phase.returned = true → ∀ text : String, c.received.flatten = utf8 text →
        (whole d text.toList).audio <+: h.pcmOf i)

/-- No call begins and no audio comes with the flag set, and until it is set no chunk is cut
inside a character. -/
def Clear (d : Decoder ρ) (h : Handle ρ) : Action → Prop
  | .synthesize _ => h.cancelled = false
  | .chunk i bytes => (h.cancelled = false → (fromUtf8 bytes).isSome) ∧
      ∀ c ∈ h.calls[i]?, (c.reading d bytes).audio ≠ [] → h.cancelled = false
  | _ => True

instance (d : Decoder ρ) (h : Handle ρ) (action : Action) : Decidable (Clear d h action) :=
  match action with
  | .synthesize _ => inferInstanceAs (Decidable (h.cancelled = false))
  | .chunk i bytes => inferInstanceAs (Decidable ((h.cancelled = false → (fromUtf8 bytes).isSome) ∧
      ∀ c ∈ h.calls[i]?, (c.reading d bytes).audio ≠ [] → h.cancelled = false))
  | .spawn _ | .respond _ _ | .push _ | .finish _ | .abort _ | .cancel => isTrue trivial

def Synthesis.arrived (c : Synthesis ρ) : Text := c.received.flatMap decoded

/-- How the audio that a call has got compares to what its response carries so far. -/
structure Following (d : Decoder ρ) (audio : List Pcm) (c : Synthesis ρ) : Prop where
  unread : c.phase = .spawned ∨ c.phase = .requested → c.received = [] ∧ c.buffer = [] ∧ audio = []
  decodes : ∀ chunk ∈ c.received, (fromUtf8 chunk).isSome
  carried : (whole d c.arrived).audio <+: audio
  unbroken : c.phase = .streaming → (whole d c.arrived).ending ≠ .failed
  resumes : c.phase = .streaming → (whole d c.arrived).ending = .drained →
    c.buffer = (drainBlocks (withoutReturns c.arrived)).2 ∧
      c.resampler = (whole d c.arrived).resampler ∧ audio = (whole d c.arrived).audio

theorem whole_append (d : Decoder ρ) (text more : Text) :
    whole d (text ++ more) =
      let reading := whole d text
      if reading.ending = .drained then
        let next := readBlocks d reading.resampler
          (drainBlocks (withoutReturns ((drainBlocks (withoutReturns text)).2 ++ more))).1
        { next with audio := reading.audio ++ next.audio }
      else reading := by
  rw [whole, drain_append]
  exact readBlocks_append d d.fresh _ _

theorem drainBlocks_nil : drainBlocks (withoutReturns []) = ([], []) := drainBlocks_none rfl

theorem whole_nil (d : Decoder ρ) : whole d [] = { resampler := d.fresh } := by
  rw [whole, drainBlocks_nil]
  rfl

theorem following_spawned (d : Decoder ρ) (turn : Nat) :
    Following d [] { turn, resampler := d.fresh } := by
  refine ⟨fun _ => ⟨rfl, rfl, rfl⟩, nofun, ?_, nofun, nofun⟩
  have silent : (whole d []).audio = [] := congrArg Reading.audio (whole_nil d)
  exact ⟨[], (List.append_nil _).trans silent⟩

theorem following_reads {d : Decoder ρ} {audio : List Pcm} {c : Synthesis ρ} {bytes : List UInt8}
    {cancels : Nat} (following : Following d audio c) (streaming : c.phase = .streaming)
    (valid : (fromUtf8 bytes).isSome) :
    Following d (audio ++ (c.reading d bytes).audio) { c with
      phase := if (c.reading d bytes).ending = .failed then .broken else .streaming
      buffer := if (c.reading d bytes).ending = .done then [] else (c.drain bytes).2
      resampler := (c.reading d bytes).resampler
      queue := (c.reading d bytes).audio
      received := c.received ++ [bytes]
      read := cancels } := by
  have grown : (c.received ++ [bytes]).flatMap decoded = c.arrived ++ decoded bytes := by
    simp [Synthesis.arrived]
  have decodes : ∀ chunk ∈ c.received ++ [bytes], (fromUtf8 chunk).isSome := by
    intro chunk member
    rcases List.mem_append.mp member with old | new
    · exact following.decodes chunk old
    · rwa [List.mem_singleton.mp new]
  have unread : ∀ {P : Prop}, ((if (c.reading d bytes).ending = .failed then Phase.broken
      else .streaming) = .spawned ∨ (if (c.reading d bytes).ending = .failed then Phase.broken
      else .streaming) = .requested) → P := by
    intro P phase
    split at phase <;> rcases phase with phase | phase <;> cases phase
  by_cases drained : (whole d c.arrived).ending = .drained
  · obtain ⟨buffer, resampler, same⟩ := following.resumes streaming drained
    have drains : c.drain bytes =
        drainBlocks (withoutReturns ((drainBlocks (withoutReturns c.arrived)).2 ++ decoded bytes)) := by
      rw [Synthesis.drain, buffer]
    have next : whole d (c.arrived ++ decoded bytes) =
        { c.reading d bytes with audio := audio ++ (c.reading d bytes).audio } := by
      rw [whole_append]
      simp only [drained, if_true]
      rw [Synthesis.reading, drains, resampler, same]
    refine ⟨unread, decodes, ?_, ?_, ?_⟩
    · rw [Synthesis.arrived, grown]
      exact ⟨[], (List.append_nil _).trans (congrArg Reading.audio next)⟩
    · intro phase
      rw [Synthesis.arrived, grown, next]
      intro failed
      rw [if_pos failed] at phase
      cases phase
    · intro _ ending
      rw [Synthesis.arrived, grown, next] at ending ⊢
      have more : (c.reading d bytes).ending ≠ .done := fun done => by cases ending.symm.trans done
      refine ⟨?_, rfl, rfl⟩
      rw [drain_append]
      exact (if_neg more).trans (by rw [drains])
  · have stays : whole d (c.arrived ++ decoded bytes) = whole d c.arrived := by
      rw [whole_append]
      simp only [drained, if_false]
    refine ⟨unread, decodes, ?_, ?_, ?_⟩
    · rw [Synthesis.arrived, grown, stays]
      exact following.carried.trans (List.prefix_append ..)
    · intro _
      rw [Synthesis.arrived, grown, stays]
      exact following.unbroken streaming
    · intro _ ending
      rw [Synthesis.arrived, grown, stays] at ending
      exact absurd ending drained

theorem following_step {d : Decoder ρ} {h : Handle ρ} {i : Nat} {audio : List Pcm}
    {c after : Synthesis ρ} {action : Action} (following : Following d audio c)
    (moves : CallStep d h i c action after)
    (valid : ∀ bytes, action = .chunk i bytes → (fromUtf8 bytes).isSome) :
    ∃ more, Following d (audio ++ more) after ∧
      ((pushed h i c action).map Heard.pcm ++ after.queue = c.queue ++ more) := by
  have returned : ∀ {phase : Phase}, phase.returned = true →
      Following d (audio ++ []) { c with phase := phase } := by
    intro phase ends
    rw [List.append_nil]
    refine ⟨?_, following.decodes, following.carried, ?_, ?_⟩
    · rintro (rfl | rfl) <;> cases ends
    · rintro rfl
      cases ends
    · rintro rfl
      cases ends
  cases moves with
  | skips spawned _ =>
    refine ⟨[], ?_, (List.append_nil _).symm⟩
    rw [List.append_nil]
    exact ⟨nofun, following.decodes, following.carried, nofun, nofun⟩
  | requests spawned _ =>
    refine ⟨[], ?_, (List.append_nil _).symm⟩
    rw [List.append_nil]
    exact ⟨fun _ => following.unread (Or.inl spawned), following.decodes, following.carried, nofun, nofun⟩
  | responds requested =>
    obtain ⟨none, empty, silent⟩ := following.unread (Or.inr requested)
    refine ⟨[], ?_, (List.append_nil _).symm⟩
    have start : Synthesis.arrived { c with phase := .streaming, resampler := d.fresh } = [] := by
      rw [Synthesis.arrived, none]
      rfl
    rw [List.append_nil]
    refine ⟨nofun, following.decodes, following.carried, fun _ => ?_, fun _ _ => ?_⟩
    · rw [start, whole_nil]
      exact nofun
    · rw [start, whole_nil, drainBlocks_nil]
      exact ⟨empty, rfl, silent⟩
  | refused requested =>
    refine ⟨[], ?_, (List.append_nil _).symm⟩
    rw [List.append_nil]
    exact ⟨nofun, following.decodes, following.carried, nofun, nofun⟩
  | reads bytes streaming idle =>
    refine ⟨_, following_reads following streaming (valid bytes rfl), ?_⟩
    rw [idle]
    rfl
  | pushes pcm rest queued =>
    refine ⟨[], ?_, ?_⟩
    · rw [List.append_nil]
      exact ⟨following.unread, following.decodes, following.carried, following.unbroken, following.resumes⟩
    · simp [pushed, queued]
  | ends _ _ => exact ⟨[], returned rfl, (List.append_nil _).symm⟩
  | fails _ _ => exact ⟨[], returned rfl, (List.append_nil _).symm⟩
  | aborts _ _ => exact ⟨[], returned rfl, (List.append_nil _).symm⟩

structure Clean (d : Decoder ρ) (h : Handle ρ) : Prop where
  flag : h.cancelled = false ↔ h.cancels = 0
  busy : ∀ (i : Nat) (c : Synthesis ρ), h.calls[i]? = some c → c.Busy
  begun : ∀ (i : Nat) (c : Synthesis ρ), h.calls[i]? = some c → c.begun = 0 ∧ c.phase ≠ .skipped
  queued : ∀ (i : Nat) (c : Synthesis ρ), h.calls[i]? = some c → c.queue ≠ [] → c.read = 0
  heard : ∀ heard ∈ h.heard, heard.call < h.calls.length ∧ heard.read = 0
  follows : h.cancelled = false → ∀ (i : Nat) (c : Synthesis ρ), h.calls[i]? = some c →
    Following d (h.pcmOf i ++ c.queue) c

theorem clean_init (d : Decoder ρ) : Clean d ({} : Handle ρ) :=
  ⟨iff_of_true rfl rfl, nofun, nofun, nofun, nofun, fun _ => nofun⟩

theorem Clean.contract {d : Decoder ρ} {h : Handle ρ} (clean : Clean d h) : CancelContract d h := by
  refine ⟨fun heard member n _ _ => ?_, fun i c at_ _ last => ?_⟩
  · rw [(clean.heard heard member).2]
    exact Nat.zero_le n
  · obtain ⟨begun, kept⟩ := clean.begun i c at_
    refine ⟨kept, fun returned text bytes => ?_⟩
    have clear : h.cancelled = false := clean.flag.mpr (last.symm.trans begun)
    have following := clean.follows clear i c at_
    have arrived : c.arrived = text.toList := (decoded_eq_iff bytes).mpr following.decodes
    have carried := following.carried
    rwa [arrived, (clean.busy i c at_).idle returned, List.append_nil] at carried

theorem pcmOf_steps {d : Decoder ρ} {h next : Handle ρ} {i : Nat} {c after : Synthesis ρ}
    {action : Action} (steps : Steps d h next i c after action) (j : Nat) :
    next.pcmOf j = h.pcmOf j ++ if j = i then (pushed h i c action).map Heard.pcm else [] := by
  rw [Handle.pcmOf, Handle.pcmOf, steps.heard, List.filter_append, List.map_append]
  congr 1
  rcases pushed_eq steps.moves with none | ⟨pcm, _, one⟩
  · rw [none]
    split <;> rfl
  · rw [one]
    by_cases same : j = i
    · simp [same]
    · simp [same, Ne.symm same]

section Moves

variable {d : Decoder ρ} {h : Handle ρ} {i : Nat} {c after : Synthesis ρ} {action : Action}

theorem Clean.begun_moves (clean : Clean d h) (clear : Clear d h action) (at_ : h.calls[i]? = some c)
    (moves : CallStep d h i c action after) : after.begun = 0 ∧ after.phase ≠ .skipped := by
  obtain ⟨begun, kept⟩ := clean.begun i c at_
  cases moves with
  | skips _ set => cases (show h.cancelled = false from clear).symm.trans set
  | requests => exact ⟨clean.flag.mp clear, nofun⟩
  | responds | refused | ends | fails | aborts => exact ⟨begun, nofun⟩
  | reads bytes _ _ =>
    refine ⟨begun, ?_⟩
    simp only
    split <;> exact nofun
  | pushes => exact ⟨begun, kept⟩

theorem Clean.read_moves (clean : Clean d h) (clear : Clear d h action) (at_ : h.calls[i]? = some c)
    (moves : CallStep d h i c action after) (queued : after.queue ≠ []) : after.read = 0 := by
  cases moves with
  | reads bytes _ _ => exact clean.flag.mp (clear.2 c at_ queued)
  | pushes pcm rest same => exact clean.queued i c at_ (by rw [same]; exact List.cons_ne_nil _ _)
  | skips | requests | responds | refused | ends | fails | aborts => exact clean.queued i c at_ queued

end Moves

theorem following_steps {d : Decoder ρ} {h next : Handle ρ} {i : Nat} {c after : Synthesis ρ} {action : Action}
    (steps : Steps d h next i c after action)
    (follows : ∀ (j : Nat) (other : Synthesis ρ), h.calls[j]? = some other →
      Following d (h.pcmOf j ++ other.queue) other)
    (valid : ∀ bytes, action = .chunk i bytes → (fromUtf8 bytes).isSome) (j : Nat) (other : Synthesis ρ)
    (at_ : next.calls[j]? = some other) : Following d (next.pcmOf j ++ other.queue) other := by
  obtain ⟨more, following, gained⟩ := following_step (follows i c steps.at_) steps.moves valid
  rw [steps.getElem? j] at at_
  rw [pcmOf_steps steps j]
  split at at_
  next here =>
    cases at_
    subst here
    rw [if_pos rfl, List.append_assoc, gained, ← List.append_assoc]
    exact following
  next there =>
    rw [if_neg there, List.append_nil]
    exact follows j other at_

theorem clean_steps {d : Decoder ρ} {h next : Handle ρ} {i : Nat} {c after : Synthesis ρ}
    {action : Action} (clean : Clean d h) (clear : Clear d h action)
    (steps : Steps d h next i c after action) : Clean d next := by
  have length : next.calls.length = h.calls.length := by rw [steps.calls, List.length_set]
  refine ⟨?_, steps.forall clean.busy (steps.moves.busy (clean.busy i c steps.at_)),
    steps.forall clean.begun (clean.begun_moves clear steps.at_ steps.moves),
    steps.forall clean.queued (clean.read_moves clear steps.at_ steps.moves), ?_, ?_⟩
  · rw [steps.cancelled, steps.cancels]
    exact clean.flag
  · intro heard member
    rw [steps.heard] at member
    rcases List.mem_append.mp member with old | new
    · exact ⟨length ▸ (clean.heard heard old).1, (clean.heard heard old).2⟩
    · rcases pushed_eq steps.moves with none | ⟨pcm, queue, one⟩
      · rw [none] at new
        cases new
      · rw [one] at new
        cases List.mem_singleton.mp new
        refine ⟨length ▸ (List.getElem?_eq_some_iff.mp steps.at_).1, ?_⟩
        exact clean.queued i c steps.at_ (by rw [← queue]; exact List.cons_ne_nil _ _)
  · intro unset
    rw [steps.cancelled] at unset
    refine following_steps steps (clean.follows unset) ?_
    rintro bytes rfl
    exact clear.1 unset

theorem clean_step {d : Decoder ρ} {h next : Handle ρ} {action : Action} (clean : Clean d h)
    (clear : Clear d h action) (taken : step d h action = some next) : Clean d next := by
  rcases step_cases taken with ⟨turn, rfl⟩ | ⟨_, rfl⟩ | ⟨i, c, after, steps⟩
  · refine ⟨clean.flag, forall_spawned clean.busy fun queued => absurd rfl queued,
      forall_spawned clean.begun ⟨rfl, nofun⟩, forall_spawned clean.queued fun queued => absurd rfl queued,
      ?_, ?_⟩
    · intro heard member
      obtain ⟨bound, read⟩ := clean.heard heard member
      refine ⟨?_, read⟩
      rw [List.length_append]
      exact Nat.lt_add_right _ bound
    · intro unset
      refine forall_spawned (clean.follows unset) ?_
      have silent : h.pcmOf h.calls.length = [] := by
        rw [Handle.pcmOf, List.map_eq_nil_iff, List.filter_eq_nil_iff]
        intro heard member same
        exact absurd (of_decide_eq_true same) (clean.heard heard member).1.ne
      have start : Following d (h.pcmOf h.calls.length ++ []) { turn, resampler := d.fresh } := by
        rw [silent]
        exact following_spawned d turn
      exact start
  · refine ⟨iff_of_false nofun nofun, clean.busy, clean.begun, clean.queued, clean.heard, nofun⟩
  · exact clean_steps clean clear steps

/-- Where no call begins and no audio comes with the flag set, and no chunk is cut inside a
character before, the contract holds. -/
theorem cancel_contract (d : Decoder ρ) {actions : List Action} {final : Handle ρ}
    (guarded : Along (step d) (Clear d) {} actions) (taken : run (step d) {} actions = some final) :
    CancelContract d final :=
  (invariant_of_run (fun _ _ _ clean clear stepped => clean_step clean clear stepped) (clean_init d)
    guarded taken).contract

theorem spokenThenCancelled_contract :
    ∃ final, run (step oneSample) {} [.spawn 0, .synthesize 0, .respond 0 true, .chunk 0 oneEvent, .push 0,
      .chunk 0 oneEvent, .push 0, .finish 0, .cancel] = some final ∧
      final.pcmOf 0 = [[1], [1]] ∧ CancelContract oneSample final := by
  have found : (run (step oneSample) {} [.spawn 0, .synthesize 0, .respond 0 true, .chunk 0 oneEvent,
      .push 0, .chunk 0 oneEvent, .push 0, .finish 0, .cancel]).map (fun final => final.pcmOf 0) =
      some [[1], [1]] := by decide +kernel
  obtain ⟨final, taken, same⟩ := Option.map_eq_some_iff.mp found
  exact ⟨final, taken, same, cancel_contract oneSample (by decide +kernel) taken⟩

/-- After a first cancel every call is skipped. -/
theorem cancelledBefore_not_contract :
    ∃ final, run (step oneSample) {} [.cancel, .spawn 0, .synthesize 0] = some final ∧
      ¬CancelContract oneSample final := by
  have found : (run (step oneSample) {} [.cancel, .spawn 0, .synthesize 0]).map (fun final =>
      (final.cancels, final.calls.map Synthesis.begun, final.calls.map Synthesis.phase)) =
      some (1, [1], [.skipped]) := by decide +kernel
  obtain ⟨final, taken, same⟩ := Option.map_eq_some_iff.mp found
  refine ⟨final, taken, fun contract => ?_⟩
  obtain ⟨c, calls⟩ : ∃ c, final.calls = [c] := by
    have length := congrArg (fun view => view.2.1.length) same
    simp only [List.length_map] at length
    exact List.length_eq_one_iff.mp length
  rw [calls] at same
  simp only [List.map_cons, List.map_nil, Prod.mk.injEq, List.cons.injEq, and_true] at same
  obtain ⟨cancels, begun, skipped⟩ := same
  refine (contract.delivered 0 c (by rw [calls]; rfl) ?_ (begun.trans cancels.symm)).1 skipped
  rw [skipped]
  decide

theorem cancelledMeanwhile_not_contract :
    ∃ final, run (step oneSample) {} [.spawn 0, .synthesize 0, .respond 0 true, .cancel,
      .chunk 0 oneEvent, .push 0] = some final ∧ ¬CancelContract oneSample final := by
  have found : (run (step oneSample) {} [.spawn 0, .synthesize 0, .respond 0 true, .cancel,
      .chunk 0 oneEvent, .push 0]).map Handle.heard = some [⟨0, 0, [1], 0, 1, 1⟩] := by decide +kernel
  obtain ⟨final, taken, same⟩ := Option.map_eq_some_iff.mp found
  refine ⟨final, taken, fun contract => ?_⟩
  have late := contract.silenced ⟨0, 0, [1], 0, 1, 1⟩ (by rw [same]; exact List.mem_singleton.mpr rfl) 0
    (le_refl 0) Nat.one_pos
  exact absurd late (by decide)

end Fswtch.Seat.MimoTts
