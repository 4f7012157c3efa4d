import Fswtch.Seat.CallRegistry

/-! `CALLS` and `LIVE_CALLS` agree once every call on the UUID has returned, as long as no
step of `init_call` comes between the two of a `kill_channel`, or the other way round, and
no late frame sets the call up again. -/

namespace Fswtch.Seat.CallRegistry
open Fswtch.Lib.StepRun

def Thread.busy (uuid : Uuid) : Thread → Prop
  | .init _ .returned | .kill _ .returned | .shutdown _ => False
  | .init other _ | .kill other _ => other = uuid

/-- The call has updated `CALLS` and is yet to update `LIVE_CALLS`. -/
def Thread.halfway (uuid : Uuid) : Thread → Prop
  | .init other .inserted | .kill other (.killing _) | .kill other .unregistering => other = uuid
  | _ => False

namespace Registry

/-- When the calls on a UUID have returned, both maps have it or neither has, and neither
has it after a KILL with no new `outgoing_channel`. -/
structure Agreement (s : Registry) : Prop where
  same : ∀ uuid, (∀ thread ∈ s.threads, ¬thread.busy uuid) → (uuid ∈ s.calls ↔ uuid ∈ s.live)
  gone : ∀ uuid, (∀ thread ∈ s.threads, ¬thread.busy uuid) → uuid ∈ s.killed →
    uuid ∉ s.calls ∧ uuid ∉ s.live

/-- `register_call` finds the entry in `CALLS`, `unregister_call` finds none, and an entry
goes in only if its call was not killed or a KILL is still to take it out. -/
def Settles (s : Registry) (i : Nat) : Prop :=
  match s.threads[i]? with
  | some (.init uuid (.spawned _)) => uuid ∉ s.killed ∨ .kill uuid .removing ∈ s.threads
  | some (.init uuid .inserted) => uuid ∈ s.calls
  | some (.kill uuid .unregistering) => uuid ∉ s.calls
  | _ => True

instance decidableSettles (s : Registry) (i : Nat) : Decidable (s.Settles i) := by
  unfold Settles
  split <;> infer_instance

/-- The step belongs to `init_call` or `kill_channel`, and settles. -/
def InTurn (s : Registry) : Action → Prop
  | .moduleShutdown => False
  | .advance i _ => s.Settles i
  | .outgoingChannel _ | .writeFrame _ | .killChannel _ _ => True

instance decidableInTurn (s : Registry) : (action : Action) → Decidable (s.InTurn action)
  | .moduleShutdown => isFalse id
  | .advance i _ => decidableSettles s i
  | .outgoingChannel _ | .writeFrame _ | .killChannel _ _ => isTrue trivial

/-- Where the maps differ a call is halfway; an entry of a killed call is about to go. -/
structure Settling (s : Registry) : Prop where
  noShutdown : ∀ phase, .shutdown phase ∉ s.threads
  same : ∀ uuid, (uuid ∈ s.calls ↔ uuid ∈ s.live) ∨ ∃ thread ∈ s.threads, thread.halfway uuid
  gone : ∀ uuid ∈ s.killed, uuid ∈ s.calls → .kill uuid .removing ∈ s.threads

theorem Settling.starts {s s' : Registry} (settling : Settling s) (thread : Thread)
    (calls_ : ∀ phase, thread ≠ .shutdown phase) (threads : s'.threads = s.threads ++ [thread])
    (calls : s'.calls = s.calls) (live : s'.live = s.live)
    (killed : ∀ uuid ∈ s'.killed, uuid ∈ s.killed ∨ thread = .kill uuid .removing) : Settling s' := by
  refine ⟨fun phase => ?_, fun uuid => ?_, fun uuid member entry => ?_⟩
  · rw [threads, List.mem_append, List.mem_singleton, not_or]
    exact ⟨settling.noShutdown phase, (calls_ phase).symm⟩
  · rw [calls, live, threads]
    rcases settling.same uuid with same | ⟨other, known, halfway⟩
    · exact .inl same
    · exact .inr ⟨other, List.mem_append_left _ known, halfway⟩
  · rw [threads]
    rcases killed uuid member with old | rfl
    · exact List.mem_append_left _ (settling.gone uuid old (calls ▸ entry))
    · exact List.mem_append_right _ (List.mem_singleton_self _)

/-- A thread moves; the maps change at one UUID at most, and there they agree afterwards or
the thread is halfway. -/
theorem Settling.moves {s s' : Registry} {i : Nat} {old new : Thread} (settling : Settling s)
    (found : s.threads[i]? = some old) (threads : s'.threads = s.threads.set i new)
    (calls_ : ∀ phase, new ≠ .shutdown phase) (killed : s'.killed = s.killed)
    (same : ∀ uuid, (uuid ∈ s'.calls ↔ uuid ∈ s.calls) ∧ (uuid ∈ s'.live ↔ uuid ∈ s.live) ∧
        ¬old.halfway uuid ∨ (uuid ∈ s'.calls ↔ uuid ∈ s'.live) ∨ new.halfway uuid)
    (gone : ∀ uuid ∈ s.killed, uuid ∈ s'.calls → uuid ∈ s.calls ∧ old ≠ .kill uuid .removing ∨
      .kill uuid .removing ∈ s'.threads) : Settling s' := by
  refine ⟨fun phase member => ?_, fun uuid => ?_, fun uuid member entry => ?_⟩
  · rw [threads] at member
    rcases List.mem_or_eq_of_mem_set member with before | rfl
    · exact settling.noShutdown phase before
    · exact calls_ phase rfl
  · rw [threads]
    rcases same uuid with ⟨calls, live, free⟩ | agree | halfway
    · rcases settling.same uuid with agree | ⟨other, known, halfway⟩
      · exact .inl (calls.trans (agree.trans live.symm))
      · refine .inr ⟨other, (mem_set found known).resolve_left ?_, halfway⟩
        rintro rfl
        exact free halfway
    · exact .inl agree
    · exact .inr ⟨new, mem_set_self _ found, halfway⟩
  · rcases gone uuid (killed ▸ member) entry with ⟨before, other⟩ | removing
    · rw [threads]
      exact (mem_set found (settling.gone uuid (killed ▸ member) before)).resolve_left other.symm
    · exact removing

theorem Settling.advances {s s' : Registry} {i : Nat} {fails : Bool} (settling : Settling s)
    (settles : s.Settles i) (taken : s.advance i fails = some s') : Settling s' := by
  obtain ⟨thread, found, moved⟩ := advance_step taken
  -- A thread that is not halfway and leaves the maps alone.
  have rests : ∀ {after : Registry} {new : Thread}, after.threads = s.threads.set i new →
      (∀ phase, new ≠ .shutdown phase) → after.killed = s.killed → after.calls = s.calls →
      after.live = s.live → (∀ uuid, ¬thread.halfway uuid) →
      (∀ uuid, thread ≠ .kill uuid .removing) → Settling after := by
    intro after new threads calls_ killed calls live free other
    refine settling.moves found threads calls_ killed (fun uuid => .inl ⟨?_, ?_, free uuid⟩) ?_
    · rw [calls]
    · rw [live]
    · exact fun uuid _ entry => .inl ⟨calls ▸ entry, other uuid⟩
  rw [Settles, found] at settles
  cases moved with
  | looks uuid phase next =>
    exact rests rfl nofun rfl rfl rfl (fun _ => id) nofun
  | locks uuid free => exact rests rfl nofun rfl rfl rfl (fun _ => id) nofun
  | finds uuid => exact rests rfl nofun rfl rfl rfl (fun _ => id) nofun
  | misses uuid absent => exact rests rfl nofun rfl rfl rfl (fun _ => id) nofun
  | fails uuid => exact rests rfl nofun rfl rfl rfl (fun _ => id) nofun
  | spawns uuid => exact rests rfl nofun rfl rfl rfl (fun _ => id) nofun
  | inserts uuid actor =>
    refine settling.moves found rfl nofun rfl (fun other => ?_) fun other member entry => ?_
    · by_cases same : other = uuid
      · exact .inr (.inr same.symm)
      · exact .inl ⟨by simp [setThread, AList.mem_insert, same], .rfl, id⟩
    · rcases (AList.mem_insert s.calls).mp entry with rfl | before
      · rcases settles with unkilled | removing
        · exact absurd member unkilled
        · exact .inr ((mem_set found removing).resolve_left nofun)
      · exact .inl ⟨before, nofun⟩
  | registers uuid =>
    refine settling.moves found rfl nofun rfl (fun other => ?_) fun other _ entry => .inl ⟨entry, nofun⟩
    by_cases same : other = uuid
    · subst same
      exact .inr (.inl (by simp [leaveInit, setThread, settles]))
    · exact .inl ⟨.rfl, by simp [leaveInit, setThread, same], fun halfway => same halfway.symm⟩
  | removes uuid actor present =>
    refine settling.moves found rfl nofun rfl (fun other => ?_) fun other member entry => ?_
    · by_cases same : other = uuid
      · exact .inr (.inr same.symm)
      · exact .inl ⟨by simp [setThread, AList.mem_erase, same], .rfl, id⟩
    · obtain ⟨different, before⟩ := AList.mem_erase.mp entry
      refine .inl ⟨before, ?_⟩
      rintro ⟨⟩
      exact different rfl
  | skips uuid absent =>
    refine settling.moves found rfl nofun rfl (fun other => ?_) fun other member entry => ?_
    · exact .inl ⟨.rfl, .rfl, id⟩
    · refine .inl ⟨entry, ?_⟩
      rintro ⟨⟩
      exact absent entry
  | kills uuid actor =>
    refine settling.moves found rfl nofun rfl (fun other => ?_) fun other _ entry => .inl ⟨entry, nofun⟩
    by_cases same : other = uuid
    · exact .inr (.inr same.symm)
    · exact .inl ⟨.rfl, .rfl, fun halfway => same halfway.symm⟩
  | unregisters uuid =>
    refine settling.moves found rfl nofun rfl (fun other => ?_) fun other _ entry => .inl ⟨entry, nofun⟩
    by_cases same : other = uuid
    · subst same
      exact .inr (.inl (by simp [setThread, settles]))
    · exact .inl ⟨.rfl, by simp [setThread, same], fun halfway => same halfway.symm⟩
  | clearsLive | clearsCalls | stopsRuntime =>
    exact absurd (List.mem_of_getElem? found) (settling.noShutdown _)

theorem step_settling (s : Registry) (action : Action) (s' : Registry) (settling : Settling s)
    (inTurn : s.InTurn action) (taken : s.step action = some s') : Settling s' := by
  cases action with
  | outgoingChannel uuid =>
    cases taken
    exact settling.starts (.init uuid (if uuid = "" then .returned else .wantLock)) nofun rfl
      rfl rfl fun other member => .inl (Finset.mem_of_mem_erase member)
  | writeFrame uuid =>
    cases taken
    exact settling.starts (.init uuid .looking) nofun rfl rfl rfl fun other member => .inl member
  | killChannel uuid sig =>
    simp only [step] at taken
    split at taken <;> cases taken
    · refine settling.starts (.kill uuid .removing) nofun rfl rfl rfl fun other member => ?_
      rcases Finset.mem_insert.mp member with rfl | old
      · exact .inr rfl
      · exact .inl old
    · exact settling
  | moduleShutdown => exact inTurn.elim
  | advance i fails => exact settling.advances inTurn taken

theorem Settling.agreement {s : Registry} (settling : Settling s) : s.Agreement := by
  have same : ∀ uuid, (∀ thread ∈ s.threads, ¬thread.busy uuid) → (uuid ∈ s.calls ↔ uuid ∈ s.live) := by
    intro uuid returned
    refine (settling.same uuid).resolve_right ?_
    rintro ⟨thread, known, halfway⟩
    refine returned thread known ?_
    unfold Thread.halfway at halfway
    split at halfway
    · exact halfway
    · exact halfway
    · exact halfway
    · exact halfway.elim
  refine ⟨same, fun uuid returned killed => ?_⟩
  have absent : uuid ∉ s.calls := fun entry => returned _ (settling.gone uuid killed entry) rfl
  exact ⟨absent, fun live => absent ((same uuid returned).mpr live)⟩

end Registry

/-- In a run of `init_call` and `kill_channel` in which their updates settle, the maps agree
once the calls on a UUID have returned. -/
theorem registries_agree (actions : List Action) (final : Registry)
    (inTurn : Along Registry.step Registry.InTurn {} actions)
    (taken : run Registry.step {} actions = some final) : final.Agreement := by
  have initial : Registry.Settling {} := ⟨by simp, fun uuid => .inl (by simp), by simp⟩
  exact (invariant_of_run Registry.step_settling initial inTurn taken).agreement

def orderlyCall : List Action :=
  [.outgoingChannel "a", .advance 0 false, .advance 0 false, .advance 0 false, .advance 0 false,
    .advance 0 false, .writeFrame "a", .advance 1 false, .killChannel "a" 1, .advance 2 false,
    .advance 2 false, .advance 2 false]

theorem orderlyCall_registries_agree :
    ∃ final, run Registry.step {} orderlyCall = some final ∧ "a" ∈ final.killed ∧ final.Agreement := by
  have inTurn : Along Registry.step Registry.InTurn {} orderlyCall := by decide +kernel
  have killed : (run Registry.step {} orderlyCall).map (fun final => decide ("a" ∈ final.killed)) =
      some true := by decide +kernel
  obtain ⟨final, taken, killed⟩ := Option.map_eq_some_iff.mp killed
  exact ⟨final, taken, of_decide_eq_true killed, registries_agree orderlyCall final inTurn taken⟩

/-- A frame sets the call up again between the two updates of its `kill_channel`. -/
def frameInKill : List Action :=
  [.outgoingChannel "a", .advance 0 false, .advance 0 false, .advance 0 false, .advance 0 false,
    .advance 0 false, .killChannel "a" 1, .advance 1 false, .advance 1 false, .writeFrame "a",
    .advance 2 false, .advance 2 false, .advance 2 false, .advance 2 false, .advance 2 false,
    .advance 2 false, .advance 1 false]

def frameAfterKill : List Action :=
  orderlyCall ++ [.writeFrame "a", .advance 3 false, .advance 3 false, .advance 3 false,
    .advance 3 false, .advance 3 false, .advance 3 false]

theorem late_frames_not_agreement :
    (∃ final, run Registry.step {} frameInKill = some final ∧ "a" ∈ final.calls ∧ "a" ∉ final.live ∧
        ¬final.Agreement) ∧
      ∃ final, run Registry.step {} frameAfterKill = some final ∧ "a" ∈ final.killed ∧
        "a" ∈ final.calls ∧ ¬final.Agreement := by
  have quiet : ∀ {final : Registry}, (∀ thread ∈ final.threads, thread = .init "a" .returned ∨
      thread = .kill "a" .returned) → ∀ thread ∈ final.threads, ¬thread.busy "a" := by
    intro final returned thread member
    rcases returned thread member with rfl | rfl <;> exact id
  constructor
  · have ends : (run Registry.step {} frameInKill).map (fun final =>
        decide ((∀ thread ∈ final.threads, thread = .init "a" .returned ∨ thread = .kill "a" .returned) ∧
          "a" ∈ final.calls ∧ "a" ∉ final.live)) = some true := by decide +kernel
    obtain ⟨final, taken, ends⟩ := Option.map_eq_some_iff.mp ends
    obtain ⟨returned, calls, live⟩ := of_decide_eq_true ends
    exact ⟨final, taken, calls, live, fun agreement =>
      live ((agreement.same "a" (quiet returned)).mp calls)⟩
  · have ends : (run Registry.step {} frameAfterKill).map (fun final =>
        decide ((∀ thread ∈ final.threads, thread = .init "a" .returned ∨ thread = .kill "a" .returned) ∧
          "a" ∈ final.killed ∧ "a" ∈ final.calls)) = some true := by decide +kernel
    obtain ⟨final, taken, ends⟩ := Option.map_eq_some_iff.mp ends
    obtain ⟨returned, killed, calls⟩ := of_decide_eq_true ends
    exact ⟨final, taken, killed, calls, fun agreement =>
      (agreement.gone "a" (quiet returned) killed).1 calls⟩

end Fswtch.Seat.CallRegistry
