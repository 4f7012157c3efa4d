import Fswtch.Seat.CallRegistry

/-! Every actor that is alive is referenced by the entry of its call, or a call of
`init_call` or `kill_channel` is about to enter or to kill it, unless the module shutdown
clears `CALLS` while entries are left. -/

namespace Fswtch.Seat.CallRegistry
open Fswtch.Lib.StepRun

def Thread.returned : Thread → Bool
  | .init _ .returned | .kill _ .returned | .shutdown .returned => true
  | _ => false

/-- The call of `init_call` that has found no entry, or has spawned the actor for one. -/
def Thread.enters (uuid : Uuid) : Thread → Prop
  | .init other .missing | .init other (.spawned _) => other = uuid
  | _ => False

def Thread.locks : Thread → Prop
  | .init _ .checking | .init _ .missing | .init _ (.spawned _) | .init _ .inserted => True
  | _ => False

theorem Thread.locks_of_enters {uuid : Uuid} {thread : Thread} (enters : Thread.enters uuid thread) :
    Thread.locks thread := by
  unfold Thread.enters at enters
  split at enters
  · trivial
  · trivial
  · exact enters.elim

namespace Registry

def Referenced (s : Registry) (entry : ActorId × Uuid) : Prop :=
  s.calls.lookup entry.2 = some entry.1

def InHand (s : Registry) (entry : ActorId × Uuid) : Prop :=
  .init entry.2 (.spawned entry.1) ∈ s.threads ∨ .kill entry.2 (.killing entry.1) ∈ s.threads

structure NoOrphan (s : Registry) : Prop where
  within : ∀ entry ∈ s.alive, s.Referenced entry ∨ s.InHand entry
  between : (∀ thread ∈ s.threads, thread.returned = true) → ∀ entry ∈ s.alive, s.Referenced entry

def Spares (s : Registry) : Action → Prop
  | .advance i _ => s.threads[i]? = some (.shutdown .clearingCalls) → s.calls.entries = []
  | _ => True

instance decidableSpares (s : Registry) : (action : Action) → Decidable (s.Spares action)
  | .advance _ _ => inferInstanceAs (Decidable (_ → _))
  | .outgoingChannel _ | .writeFrame _ | .killChannel _ _ | .moduleShutdown => isTrue trivial

/-- Who is past the check of `init_call` holds the lock, and has found no entry. -/
structure Exclusive (s : Registry) : Prop where
  locked : ∀ (i : Nat) (thread : Thread), s.threads[i]? = some thread → Thread.locks thread →
    s.initLock = some i
  absent : ∀ (i : Nat) (thread : Thread) (uuid : Uuid), s.threads[i]? = some thread →
    Thread.enters uuid thread → uuid ∉ s.calls

theorem Exclusive.starts {s s' : Registry} (exclusive : Exclusive s) (thread : Thread)
    (fresh : ¬Thread.locks thread) (threads : s'.threads = s.threads ++ [thread])
    (calls : s'.calls = s.calls) (initLock : s'.initLock = s.initLock) : Exclusive s' := by
  have old : ∀ {i : Nat} {other : Thread}, s'.threads[i]? = some other → Thread.locks other →
      s.threads[i]? = some other := by
    intro i other known locks
    rw [threads, List.getElem?_append] at known
    split at known
    · exact known
    · rw [List.mem_singleton.mp (List.mem_of_getElem? known)] at locks
      exact absurd locks fresh
  refine ⟨?_, ?_⟩
  · rw [initLock]
    exact fun i other known locks => exclusive.locked i other (old known locks) locks
  · rw [calls]
    exact fun i other uuid known enters =>
      exclusive.absent i other uuid (old known (Thread.locks_of_enters enters)) enters

theorem Exclusive.moves {s s' : Registry} {i : Nat} {old new : Thread} (exclusive : Exclusive s)
    (found : s.threads[i]? = some old) (threads : s'.threads = s.threads.set i new)
    (lock : s'.initLock = s.initLock ∧ (Thread.locks new → Thread.locks old) ∨
      s'.initLock = none ∧ Thread.locks old ∧ ¬Thread.locks new ∨
        s.initLock = none ∧ s'.initLock = some i)
    (fewer : ∀ uuid, uuid ∈ s'.calls → uuid ∈ s.calls ∨ Thread.enters uuid old)
    (absent : ∀ uuid, Thread.enters uuid new → uuid ∉ s'.calls) : Exclusive s' := by
  refine ⟨fun j thread known locks => ?_, fun j thread uuid known enters => ?_⟩
  · rw [threads] at known
    rcases of_mem_set known with ⟨rfl, rfl⟩ | ⟨other, before⟩
    · rcases lock with ⟨same, held⟩ | ⟨_, _, free⟩ | ⟨_, taken⟩
      · exact same.trans (exclusive.locked _ old found (held locks))
      · exact absurd locks free
      · exact taken
    · have held := exclusive.locked j thread before locks
      rcases lock with ⟨same, _⟩ | ⟨_, ours, _⟩ | ⟨free, _⟩
      · exact same.trans held
      · exact absurd (Option.some.inj ((exclusive.locked i old found ours).symm.trans held)) other
      · cases free.symm.trans held
  · rw [threads] at known
    rcases of_mem_set known with ⟨rfl, rfl⟩ | ⟨other, before⟩
    · exact absent uuid enters
    · intro member
      rcases fewer uuid member with old_ | ours
      · exact exclusive.absent j thread uuid before enters old_
      · have first := exclusive.locked i old found (Thread.locks_of_enters ours)
        have second := exclusive.locked j thread before (Thread.locks_of_enters enters)
        exact other (Option.some.inj (first.symm.trans second))

theorem Exclusive.advances {s s' : Registry} {i : Nat} {thread : Thread} (exclusive : Exclusive s)
    (found : s.threads[i]? = some thread) (moved : ThreadStep s i thread s') : Exclusive s' := by
  cases moved with
  | looks uuid phase next =>
    refine exclusive.moves found rfl (.inl ⟨rfl, ?_⟩) (fun _ => .inl) ?_
    · rcases next with rfl | rfl <;> exact False.elim
    · rcases next with rfl | rfl <;> exact fun _ => False.elim
  | locks uuid free =>
    exact exclusive.moves found rfl (.inr (.inr ⟨free, rfl⟩)) (fun _ => .inl) fun _ => False.elim
  | finds uuid =>
    exact exclusive.moves found rfl (.inr (.inl ⟨rfl, trivial, id⟩)) (fun _ => .inl) fun _ => False.elim
  | misses uuid absent =>
    refine exclusive.moves found rfl (.inl ⟨rfl, fun _ => trivial⟩) (fun _ => .inl) ?_
    rintro other rfl
    exact absent
  | fails uuid =>
    exact exclusive.moves found rfl (.inr (.inl ⟨rfl, trivial, id⟩)) (fun _ => .inl) fun _ => False.elim
  | spawns uuid =>
    refine exclusive.moves found rfl (.inl ⟨rfl, fun _ => trivial⟩) (fun _ => .inl) ?_
    rintro other rfl
    exact exclusive.absent i _ _ found rfl
  | inserts uuid actor =>
    refine exclusive.moves found rfl (.inl ⟨rfl, fun _ => trivial⟩) (fun other member => ?_)
      fun _ => False.elim
    rcases (AList.mem_insert s.calls).mp member with rfl | old
    · exact .inr rfl
    · exact .inl old
  | registers uuid =>
    exact exclusive.moves found rfl (.inr (.inl ⟨rfl, trivial, id⟩)) (fun _ => .inl) fun _ => False.elim
  | removes uuid actor present =>
    exact exclusive.moves found rfl (.inl ⟨rfl, False.elim⟩)
      (fun other member => .inl (AList.mem_erase.mp member).2) fun _ => False.elim
  | clearsCalls =>
    exact exclusive.moves found rfl (.inl ⟨rfl, False.elim⟩) (fun _ member => nomatch member)
      fun _ => False.elim
  | skips uuid _ | kills uuid _ | unregisters uuid | clearsLive | stopsRuntime =>
    exact exclusive.moves found rfl (.inl ⟨rfl, False.elim⟩) (fun _ => .inl) fun _ => False.elim

theorem step_exclusive (s : Registry) (action : Action) (s' : Registry) (exclusive : Exclusive s)
    (taken : s.step action = some s') : Exclusive s' := by
  cases action with
  | outgoingChannel uuid =>
    cases taken
    refine exclusive.starts (.init uuid (if uuid = "" then .returned else .wantLock)) ?_ rfl rfl rfl
    split <;> exact id
  | writeFrame uuid =>
    cases taken
    exact exclusive.starts (.init uuid .looking) id rfl rfl rfl
  | killChannel uuid sig =>
    simp only [step] at taken
    split at taken <;> cases taken
    · exact exclusive.starts (.kill uuid .removing) id rfl rfl rfl
    · exact exclusive
  | moduleShutdown =>
    cases taken
    exact exclusive.starts (.shutdown .clearingLive) id rfl rfl rfl
  | advance i fails =>
    obtain ⟨thread, found, moved⟩ := advance_step taken
    exact exclusive.advances found moved

structure Owned (s : Registry) : Prop where
  within : ∀ entry ∈ s.alive, s.Referenced entry ∨ s.InHand entry
  locked : ∀ (i : Nat) (thread : Thread), s.threads[i]? = some thread → Thread.locks thread →
    s.initLock = some i
  absent : ∀ (i : Nat) (thread : Thread) (uuid : Uuid), s.threads[i]? = some thread →
    Thread.enters uuid thread → uuid ∉ s.calls

theorem Owned.starts {s s' : Registry} (owned : Owned s) (thread : Thread)
    (threads : s'.threads = s.threads ++ [thread]) (calls : s'.calls = s.calls)
    (alive : s'.alive = s.alive) : ∀ entry ∈ s'.alive, s'.Referenced entry ∨ s'.InHand entry := by
  rw [alive]
  intro entry member
  rw [Referenced, InHand, calls, threads]
  rcases owned.within entry member with referenced | spawned | killing
  · exact .inl referenced
  · exact .inr (.inl (List.mem_append_left _ spawned))
  · exact .inr (.inr (List.mem_append_left _ killing))

theorem Owned.advances {s s' : Registry} {i : Nat} {fails : Bool} (owned : Owned s)
    (spares : s.Spares (.advance i fails)) (taken : s.advance i fails = some s') :
    ∀ entry ∈ s'.alive, s'.Referenced entry ∨ s'.InHand entry := by
  obtain ⟨thread, found, moved⟩ := advance_step taken
  -- An entry that is not in the hands of the thread that moves.
  have keeps : ∀ {new : Thread} {entry : ActorId × Uuid}, entry ∈ s.alive →
      (.init entry.2 (.spawned entry.1) ≠ thread) → (.kill entry.2 (.killing entry.1) ≠ thread) →
      s.Referenced entry ∨ .init entry.2 (.spawned entry.1) ∈ s.threads.set i new ∨
        .kill entry.2 (.killing entry.1) ∈ s.threads.set i new := by
    intro new entry member unspawned unkilled
    rcases owned.within entry member with referenced | spawned | killing
    · exact .inl referenced
    · exact .inr (.inl ((mem_set found spawned).resolve_left unspawned))
    · exact .inr (.inr ((mem_set found killing).resolve_left unkilled))
  intro entry member
  cases moved with
  | spawns uuid =>
    rcases List.mem_append.mp member with old | new
    · exact keeps old nofun nofun
    · rw [List.mem_singleton.mp new]
      exact .inr (.inl (mem_set_self _ found))
  | inserts uuid actor =>
    have absent : uuid ∉ s.calls := owned.absent i _ uuid found rfl
    by_cases same : entry = (actor, uuid)
    · subst same
      exact .inl (AList.lookup_insert s.calls)
    · have kept := @keeps (.init uuid .inserted) entry member
        (fun ours => same (by cases entry; cases ours; rfl)) nofun
      refine kept.imp_left fun referenced => ?_
      have other : entry.2 ≠ uuid := by
        rintro rfl
        rw [Referenced, AList.lookup_eq_none.mpr absent] at referenced
        cases referenced
      exact (AList.lookup_insert_ne other).trans referenced
  | removes uuid actor present =>
    rcases @keeps (.kill uuid (.killing actor)) entry member nofun nofun with referenced | inHand
    · by_cases same : entry.2 = uuid
      · have unique : entry.1 = actor := by
          rw [Referenced, same] at referenced
          exact Option.some.inj (referenced.symm.trans present)
        subst same unique
        exact .inr (.inr (mem_set_self _ found))
      · exact .inl ((AList.lookup_erase_ne same).trans referenced)
    · exact .inr inHand
  | kills uuid actor =>
    obtain ⟨old, spared⟩ := List.mem_filter.mp member
    refine keeps old nofun fun ours => ?_
    cases ours
    simp at spared
  | clearsCalls =>
    have empty : s.calls = ∅ := AList.ext (spares found)
    exact (keeps member nofun nofun).imp_left fun referenced => empty ▸ referenced
  | stopsRuntime => cases member
  | looks uuid _ _ | locks uuid _ | finds uuid | misses uuid _ | fails uuid | registers uuid
  | skips uuid _ | unregisters uuid | clearsLive => exact keeps member nofun nofun

theorem step_owned (s : Registry) (action : Action) (s' : Registry) (owned : Owned s)
    (spares : s.Spares action) (taken : s.step action = some s') : Owned s' := by
  obtain ⟨locked, absent⟩ := step_exclusive s action s' ⟨owned.locked, owned.absent⟩ taken
  refine ⟨?_, locked, absent⟩
  cases action with
  | outgoingChannel uuid =>
    cases taken
    exact owned.starts _ rfl rfl rfl
  | writeFrame uuid =>
    cases taken
    exact owned.starts _ rfl rfl rfl
  | killChannel uuid sig =>
    simp only [step] at taken
    split at taken <;> cases taken
    · exact owned.starts _ rfl rfl rfl
    · exact owned.within
  | moduleShutdown =>
    cases taken
    exact owned.starts _ rfl rfl rfl
  | advance i fails => exact owned.advances spares taken

theorem Owned.noOrphan {s : Registry} (owned : Owned s) : s.NoOrphan := by
  refine ⟨owned.within, fun returned entry member => ?_⟩
  rcases owned.within entry member with referenced | spawned | killing
  · exact referenced
  · cases returned _ spawned
  · cases returned _ killing

end Registry

/-- In a run in which the shutdown clears an empty `CALLS` there is no orphan. -/
theorem no_orphan (actions : List Action) (final : Registry)
    (spares : Along Registry.step Registry.Spares {} actions)
    (taken : run Registry.step {} actions = some final) : final.NoOrphan := by
  have initial : Registry.Owned {} := ⟨nofun, nofun, nofun⟩
  exact (invariant_of_run Registry.step_owned initial spares taken).noOrphan

def setUp (uuid : Uuid) : List Action :=
  [.outgoingChannel uuid, .advance 0 false, .advance 0 false, .advance 0 false, .advance 0 false,
    .advance 0 false]

def killedThenShutdown : List Action :=
  setUp "a" ++ [.killChannel "a" 1, .advance 1 false, .advance 1 false, .advance 1 false, .moduleShutdown,
    .advance 2 false, .advance 2 false]

theorem killedThenShutdown_no_orphan :
    ∃ final, run Registry.step {} killedThenShutdown = some final ∧ final.nextActor = 1 ∧
      final.NoOrphan := by
  have spares : Along Registry.step Registry.Spares {} killedThenShutdown := by decide +kernel
  have spawned : (run Registry.step {} killedThenShutdown).map Registry.nextActor = some 1 := by
    decide +kernel
  obtain ⟨final, taken, spawned⟩ := Option.map_eq_some_iff.mp spawned
  exact ⟨final, taken, spawned, no_orphan killedThenShutdown final spares taken⟩

def shutdownInCall : List Action :=
  setUp "a" ++ [.moduleShutdown, .advance 1 false, .advance 1 false]

theorem shutdownInCall_orphan :
    ∃ final, run Registry.step {} shutdownInCall = some final ∧ (0, "a") ∈ final.alive ∧
      final.calls.entries = [] ∧ ¬final.NoOrphan := by
  have cleared : (run Registry.step {} shutdownInCall).map
      (fun final => (final.alive, final.calls.entries, final.threads)) =
        some ([(0, "a")], [], [.init "a" .returned, .shutdown .stoppingRuntime]) := by decide +kernel
  obtain ⟨final, taken, cleared⟩ := Option.map_eq_some_iff.mp cleared
  simp only [Prod.mk.injEq] at cleared
  obtain ⟨alive, entries, threads⟩ := cleared
  have member : (0, "a") ∈ final.alive := by simp [alive]
  refine ⟨final, taken, member, entries, fun noOrphan => ?_⟩
  rcases noOrphan.within (0, "a") member with referenced | spawned | killing
  · have empty : final.calls = ∅ := AList.ext entries
    rw [Registry.Referenced, empty] at referenced
    cases referenced
  · simp [threads] at spawned
  · simp [threads] at killing

end Fswtch.Seat.CallRegistry
