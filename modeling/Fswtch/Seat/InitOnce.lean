import Fswtch.Seat.OrphanActors

/-! `init_call` sets a call up at most once: in a stretch of a run in which nothing removes the
entry of a call, whatever other calls come and go, at most one actor is spawned for it and at
most one entry inserted, and a call of `init_call` that returns an error has changed nothing. -/

namespace Fswtch.Seat.CallRegistry
open Fswtch.Lib.StepRun

/-- The calls actors were spawned for and entries inserted for, the calls of `init_call` that
returned an error, and the threads that changed `CALLS`, `LIVE_CALLS` or the actors. -/
structure Outcome where
  spawned : List Uuid := []
  inserted : List Uuid := []
  failed : List Nat := []
  changed : List Nat := []
  deriving DecidableEq

/-- What the step of a thread does for the calls; past the check, `init_call` spawns or fails. -/
def Outcome.noteThread (o : Outcome) (i : Nat) (spawns : Bool) : Option Thread → Outcome
  | some (.init uuid .missing) =>
    if spawns then { o with spawned := uuid :: o.spawned } else { o with failed := i :: o.failed }
  | some (.init uuid (.spawned _)) => { o with inserted := uuid :: o.inserted }
  | _ => o

def Outcome.noteChange (o : Outcome) (i : Nat) (s s' : Registry) : Outcome :=
  if s'.calls.entries = s.calls.entries ∧ s'.live = s.live ∧ s'.alive = s.alive then o
  else { o with changed := i :: o.changed }

def note (s : Registry) : Action → Registry → Outcome → Outcome
  | .advance i _, s', o =>
    (o.noteThread i (decide (s'.nextActor ≠ s.nextActor)) s.threads[i]?).noteChange i s s'
  | _, _, o => o

def Unkilled (uuid : Uuid) (watched : Registry × Outcome) : Action → Prop
  | .advance i _ => watched.1.threads[i]? ≠ some (.kill uuid .removing) ∧
      watched.1.threads[i]? ≠ some (.shutdown .clearingCalls)
  | _ => True

instance decidableUnkilled (uuid : Uuid) (watched : Registry × Outcome) :
    (action : Action) → Decidable (Unkilled uuid watched action)
  | .advance _ _ => inferInstanceAs (Decidable (_ ∧ _))
  | .outgoingChannel _ | .writeFrame _ | .killChannel _ _ | .moduleShutdown => isTrue trivial

/-- The call of `init_call` has not got past its check yet. -/
def Thread.early : Thread → Bool
  | .init _ .looking | .init _ .wantLock | .init _ .checking | .init _ .missing => true
  | _ => false

structure OnceOnly (uuid : Uuid) (s : Registry) (o : Outcome) : Prop where
  exclusive : s.Exclusive
  spawned : o.spawned.count uuid ≤ 1
  entering : uuid ∈ o.spawned → uuid ∈ s.calls ∨ ∃ actor, .init uuid (.spawned actor) ∈ s.threads
  inserted : o.inserted.count uuid ≤ 1
  entered : uuid ∈ o.inserted → uuid ∈ s.calls
  changed : ∀ i ∈ o.changed, ∃ thread, s.threads[i]? = some thread ∧ thread.early = false
  failed : ∀ i ∈ o.failed, i ∉ o.changed ∧ ∃ uuid, s.threads[i]? = some (.init uuid .returned)

theorem OnceOnly.starts {uuid : Uuid} {s s' : Registry} {o : Outcome} {action : Action}
    (once : OnceOnly uuid s o) (taken : s.step action = some s') (calls : s'.calls = s.calls)
    (threads : ∃ new, s'.threads = s.threads ++ new) : OnceOnly uuid s' o := by
  obtain ⟨new, threads⟩ := threads
  have old : ∀ {i : Nat} {thread : Thread}, s.threads[i]? = some thread → s'.threads[i]? = some thread := by
    intro i thread known
    rw [threads, List.getElem?_append_left (List.getElem?_eq_some_iff.mp known).choose]
    exact known
  refine ⟨Registry.step_exclusive s action s' once.exclusive taken, once.spawned, fun member => ?_,
    once.inserted, fun member => calls ▸ once.entered member, fun i member => ?_, fun i member => ?_⟩
  · rw [calls, threads]
    exact (once.entering member).imp_right fun ⟨actor, held⟩ => ⟨actor, List.mem_append_left _ held⟩
  · obtain ⟨thread, known, late⟩ := once.changed i member
    exact ⟨thread, old known, late⟩
  · obtain ⟨unchanged, other, known⟩ := once.failed i member
    exact ⟨unchanged, other, old known⟩

theorem OnceOnly.moves {uuid : Uuid} {s s' : Registry} {o o' : Outcome} {i : Nat} {before after : Thread}
    (once : OnceOnly uuid s o) (found : s.threads[i]? = some before) (exclusive : s'.Exclusive)
    (threads : s'.threads = s.threads.set i after) (running : before.returned = false)
    (spawned : o'.spawned.count uuid ≤ 1)
    (entering : uuid ∈ o'.spawned → uuid ∈ s'.calls ∨ ∃ actor, .init uuid (.spawned actor) ∈ s'.threads)
    (inserted : o'.inserted.count uuid ≤ 1) (entered : uuid ∈ o'.inserted → uuid ∈ s'.calls)
    (changed : o'.changed = o.changed ∧ (before.early = false → after.early = false) ∨
      o'.changed = i :: o.changed ∧ after.early = false ∧ o'.failed = o.failed)
    (failed : o'.failed = o.failed ∨
      o'.failed = i :: o.failed ∧ before.early = true ∧ ∃ uuid, after = .init uuid .returned) :
    OnceOnly uuid s' o' := by
  have self : s'.threads[i]? = some after := by
    rw [threads, List.getElem?_set_self (List.getElem?_eq_some_iff.mp found).choose]
  have others : ∀ {j : Nat} {thread : Thread}, i ≠ j → s.threads[j]? = some thread →
      s'.threads[j]? = some thread := by
    intro j thread other known
    rwa [threads, List.getElem?_set_ne other]
  refine ⟨exclusive, spawned, entering, inserted, entered, fun j member => ?_, fun j member => ?_⟩
  · have old : j ∈ o.changed → (i = j → after.early = false) →
        ∃ thread, s'.threads[j]? = some thread ∧ thread.early = false := by
      intro earlier late
      obtain ⟨thread, known, done⟩ := once.changed j earlier
      by_cases same : i = j
      · subst same
        exact ⟨after, self, late rfl⟩
      · exact ⟨thread, others same known, done⟩
    rcases changed with ⟨same, keeps⟩ | ⟨more, late, _⟩
    · rw [same] at member
      refine old member fun here => keeps ?_
      subst here
      obtain ⟨thread, known, done⟩ := once.changed i member
      cases known.symm.trans found
      exact done
    · rw [more] at member
      rcases List.mem_cons.mp member with rfl | earlier
      · exact ⟨after, self, late⟩
      · exact old earlier fun _ => late
  · have old : j ∈ o.failed → i ≠ j ∧ j ∉ o.changed ∧ ∃ other, s'.threads[j]? = some (.init other .returned) := by
      intro earlier
      obtain ⟨unchanged, other, known⟩ := once.failed j earlier
      have apart : i ≠ j := by
        rintro rfl
        cases known.symm.trans found
        cases running
      exact ⟨apart, unchanged, other, others apart known⟩
    rcases failed with same | ⟨more, early, other, rfl⟩
    · rw [same] at member
      obtain ⟨apart, unchanged, returned⟩ := old member
      refine ⟨fun here => ?_, returned⟩
      rcases changed with ⟨kept, _⟩ | ⟨more, _, _⟩
      · exact unchanged (kept ▸ here)
      · rw [more] at here
        exact (List.mem_cons.mp here).elim (fun same => apart same.symm) unchanged
    · have kept : o'.changed = o.changed := by
        rcases changed with ⟨kept, _⟩ | ⟨_, _, same⟩
        · exact kept
        · exact absurd (congrArg List.length (more.symm.trans same)) (by simp)
      rw [more] at member
      rw [kept]
      rcases List.mem_cons.mp member with rfl | earlier
      · refine ⟨fun here => ?_, other, self⟩
        obtain ⟨thread, known, done⟩ := once.changed j here
        cases known.symm.trans found
        rw [early] at done
        cases done
      · exact (old earlier).2

theorem OnceOnly.keeps {uuid : Uuid} {s s' : Registry} {o : Outcome} {i : Nat} {before after : Thread}
    (once : OnceOnly uuid s o) (found : s.threads[i]? = some before)
    (threads : s'.threads = s.threads.set i after)
    (other : ∀ actor, before ≠ .init uuid (.spawned actor)) (calls : uuid ∈ s.calls → uuid ∈ s'.calls)
    (member : uuid ∈ o.spawned) : uuid ∈ s'.calls ∨ ∃ actor, .init uuid (.spawned actor) ∈ s'.threads := by
  refine (once.entering member).imp calls fun ⟨actor, held⟩ => ⟨actor, ?_⟩
  rw [threads]
  exact (Registry.mem_set found held).resolve_left fun same => other actor same.symm

theorem noteChange_same {o : Outcome} {i : Nat} {s s' : Registry} (calls : s'.calls = s.calls)
    (live : s'.live = s.live) (alive : s'.alive = s.alive) : o.noteChange i s s' = o :=
  if_pos ⟨congrArg AList.entries calls, live, alive⟩

theorem noteChange_cases (o : Outcome) (i : Nat) (s s' : Registry) :
    o.noteChange i s s' = o ∨ o.noteChange i s s' = { o with changed := i :: o.changed } := by
  unfold Outcome.noteChange
  split
  · exact .inl rfl
  · exact .inr rfl

/-- A thread past the check of `init_call`, or of another kind, moves; what it changes is noted. -/
theorem OnceOnly.passes {uuid : Uuid} {s s' : Registry} {o : Outcome} {i : Nat} {before after : Thread}
    (once : OnceOnly uuid s o) (found : s.threads[i]? = some before) (exclusive : s'.Exclusive)
    (threads : s'.threads = s.threads.set i after) (running : before.returned = false)
    (late : after.early = false) (other : ∀ actor, before ≠ .init uuid (.spawned actor))
    (calls : uuid ∈ s.calls → uuid ∈ s'.calls) : OnceOnly uuid s' (o.noteChange i s s') := by
  have entering := once.keeps found threads other calls
  have entered : uuid ∈ o.inserted → uuid ∈ s'.calls := fun member => calls (once.entered member)
  rcases noteChange_cases o i s s' with same | more
  · rw [same]
    exact once.moves found exclusive threads running once.spawned entering once.inserted entered
      (.inl ⟨rfl, fun _ => late⟩) (.inl rfl)
  · rw [more]
    exact once.moves found exclusive threads running once.spawned entering once.inserted entered
      (.inr ⟨rfl, late, rfl⟩) (.inl rfl)

/-- A call of `init_call` moves up to its check, or returns there. -/
theorem OnceOnly.waits {uuid : Uuid} {s s' : Registry} {o : Outcome} {i : Nat} {before after : Thread}
    (once : OnceOnly uuid s o) (found : s.threads[i]? = some before) (exclusive : s'.Exclusive)
    (threads : s'.threads = s.threads.set i after) (early : before.early = true)
    (calls : s'.calls = s.calls) (live : s'.live = s.live) (alive : s'.alive = s.alive) :
    OnceOnly uuid s' (o.noteChange i s s') := by
  have running : before.returned = false := by
    cases returned : before.returned with
    | false => rfl
    | true =>
      unfold Thread.returned at returned
      split at returned <;> first | cases early | cases returned
  have other : ∀ actor, before ≠ .init uuid (.spawned actor) := by
    rintro actor rfl
    cases early
  rw [noteChange_same calls live alive]
  exact once.moves found exclusive threads running once.spawned
    (once.keeps found threads other fun member => calls ▸ member) once.inserted
    (fun member => calls ▸ once.entered member)
    (.inl ⟨rfl, fun late => by rw [early] at late; cases late⟩) (.inl rfl)

theorem OnceOnly.fails {uuid other : Uuid} {s : Registry} {o : Outcome} {i : Nat}
    (once : OnceOnly uuid s o) (found : s.threads[i]? = some (.init other .missing))
    (exclusive : (s.leaveInit i other).Exclusive) :
    OnceOnly uuid (s.leaveInit i other) { o with failed := i :: o.failed } :=
  once.moves found exclusive rfl rfl once.spawned (once.keeps found rfl nofun id) once.inserted once.entered
    (.inl ⟨rfl, nofun⟩) (.inr ⟨rfl, rfl, other, rfl⟩)

/-- The lock is held and no entry is there, so nothing was spawned for the call before. -/
theorem OnceOnly.spawns {uuid other : Uuid} {s s' : Registry} {o : Outcome} {i : Nat} {actor : ActorId}
    (once : OnceOnly uuid s o) (found : s.threads[i]? = some (.init other .missing))
    (exclusive : s'.Exclusive) (threads : s'.threads = s.threads.set i (.init other (.spawned actor)))
    (calls : s'.calls = s.calls) (changed : List Nat) (some : changed = o.changed ∨ changed = i :: o.changed) :
    OnceOnly uuid s' { o with spawned := other :: o.spawned, changed } := by
  have self : (Thread.init other (.spawned actor)) ∈ s'.threads := by
    rw [threads]
    exact Registry.mem_set_self _ found
  have unspawned : other = uuid → uuid ∉ o.spawned := by
    rintro rfl member
    rcases once.entering member with entered | ⟨_, held⟩
    · exact once.exclusive.absent i _ other found rfl entered
    · obtain ⟨j, known⟩ := List.mem_iff_getElem?.mp held
      have ours := once.exclusive.locked i _ found trivial
      have theirs := once.exclusive.locked j _ known trivial
      cases ours.symm.trans theirs
      cases known.symm.trans found
  have count : (other :: o.spawned).count uuid ≤ 1 := by
    by_cases same : other = uuid
    · rw [← same, List.count_cons_self, same, List.count_eq_zero_of_not_mem (unspawned same)]
    · rw [List.count_cons_of_ne same]
      exact once.spawned
  have entering : uuid ∈ other :: o.spawned →
      uuid ∈ s'.calls ∨ ∃ actor, .init uuid (.spawned actor) ∈ s'.threads := by
    intro member
    rcases List.mem_cons.mp member with rfl | old
    · exact .inr ⟨actor, self⟩
    · exact once.keeps found threads nofun (fun present => calls ▸ present) old
  have entered : uuid ∈ o.inserted → uuid ∈ s'.calls := fun member => calls ▸ once.entered member
  rcases some with rfl | rfl
  · exact once.moves found exclusive threads rfl count entering once.inserted entered (.inl ⟨rfl, nofun⟩) (.inl rfl)
  · exact once.moves found exclusive threads rfl count entering once.inserted entered
      (.inr ⟨rfl, rfl, rfl⟩) (.inl rfl)

theorem OnceOnly.inserts {uuid other : Uuid} {s s' : Registry} {o : Outcome} {i : Nat} {actor : ActorId}
    (once : OnceOnly uuid s o) (found : s.threads[i]? = some (.init other (.spawned actor)))
    (exclusive : s'.Exclusive) (threads : s'.threads = s.threads.set i (.init other .inserted))
    (calls : s'.calls = s.calls.insert other actor) (changed : List Nat)
    (some : changed = o.changed ∨ changed = i :: o.changed) :
    OnceOnly uuid s' { o with inserted := other :: o.inserted, changed } := by
  have kept : uuid ∈ s.calls → uuid ∈ s'.calls := fun member =>
    calls ▸ (AList.mem_insert s.calls).mpr (.inr member)
  have self : other ∈ s'.calls := calls ▸ (AList.mem_insert s.calls).mpr (.inl rfl)
  have count : (other :: o.inserted).count uuid ≤ 1 := by
    by_cases same : other = uuid
    · have fresh : uuid ∉ o.inserted := fun member =>
        once.exclusive.absent i _ other found rfl (same ▸ once.entered member)
      rw [← same, List.count_cons_self, same, List.count_eq_zero_of_not_mem fresh]
    · rw [List.count_cons_of_ne same]
      exact once.inserted
  have entering : uuid ∈ o.spawned → uuid ∈ s'.calls ∨ ∃ actor, .init uuid (.spawned actor) ∈ s'.threads := by
    intro member
    by_cases same : other = uuid
    · exact .inl (same ▸ self)
    · exact once.keeps found threads (fun _ here => same (by cases here; rfl)) kept member
  have entered : uuid ∈ other :: o.inserted → uuid ∈ s'.calls := by
    intro member
    rcases List.mem_cons.mp member with rfl | old
    · exact self
    · exact kept (once.entered old)
  rcases some with rfl | rfl
  · exact once.moves found exclusive threads rfl once.spawned entering count entered
      (.inl ⟨rfl, fun _ => rfl⟩) (.inl rfl)
  · exact once.moves found exclusive threads rfl once.spawned entering count entered
      (.inr ⟨rfl, rfl, rfl⟩) (.inl rfl)

theorem OnceOnly.advances {uuid : Uuid} {s s' : Registry} {o : Outcome} {i : Nat} {fails : Bool}
    (once : OnceOnly uuid s o) (unkilled : Unkilled uuid (s, o) (.advance i fails))
    (taken : s.advance i fails = some s') : OnceOnly uuid s' (note s (.advance i fails) s' o) := by
  obtain ⟨thread, found, moved⟩ := Registry.advance_step taken
  have exclusive := once.exclusive.advances found moved
  change OnceOnly uuid s' ((o.noteThread i (decide (s'.nextActor ≠ s.nextActor)) s.threads[i]?).noteChange i s s')
  rw [found]
  cases moved with
  | looks other phase next => exact once.waits found exclusive rfl rfl rfl rfl rfl
  | locks other free => exact once.waits found exclusive rfl rfl rfl rfl rfl
  | finds other => exact once.waits found exclusive rfl rfl rfl rfl rfl
  | misses other absent => exact once.waits found exclusive rfl rfl rfl rfl rfl
  | fails other =>
    have unspawned : decide (s.nextActor ≠ s.nextActor) = false := decide_eq_false fun apart => apart rfl
    change OnceOnly uuid _ (Outcome.noteChange (o.noteThread i (decide (s.nextActor ≠ s.nextActor)) _) i s _)
    have unchanged (o : Outcome) : o.noteChange i s (s.leaveInit i other) = o := noteChange_same rfl rfl rfl
    rw [unspawned, unchanged]
    exact once.fails found exclusive
  | spawns other =>
    have spawned : decide (s.nextActor + 1 ≠ s.nextActor) = true := decide_eq_true (Nat.succ_ne_self _)
    change OnceOnly uuid _ (Outcome.noteChange (o.noteThread i (decide (s.nextActor + 1 ≠ s.nextActor)) _) i s _)
    rw [spawned]
    rcases noteChange_cases { o with spawned := other :: o.spawned } i s _ with same | more
    · exact same ▸ once.spawns found exclusive rfl rfl o.changed (.inl rfl)
    · exact more ▸ once.spawns found exclusive rfl rfl (i :: o.changed) (.inr rfl)
  | inserts other actor =>
    rcases noteChange_cases { o with inserted := other :: o.inserted } i s _ with same | more
    · exact same ▸ once.inserts found exclusive rfl rfl o.changed (.inl rfl)
    · exact more ▸ once.inserts found exclusive rfl rfl (i :: o.changed) (.inr rfl)
  | registers other => exact once.passes found exclusive rfl rfl rfl nofun id
  | removes other actor present =>
    refine once.passes found exclusive rfl rfl rfl nofun fun member => AList.mem_erase.mpr ⟨?_, member⟩
    rintro rfl
    exact unkilled.1 found
  | skips other absent => exact once.passes found exclusive rfl rfl rfl nofun id
  | kills other actor => exact once.passes found exclusive rfl rfl rfl nofun id
  | unregisters other => exact once.passes found exclusive rfl rfl rfl nofun id
  | clearsLive => exact once.passes found exclusive rfl rfl rfl nofun id
  | clearsCalls => exact absurd found unkilled.2
  | stopsRuntime => exact once.passes found exclusive rfl rfl rfl nofun id

theorem step_onceOnly (uuid : Uuid) (watched : Registry × Outcome) (action : Action)
    (next : Registry × Outcome) (once : OnceOnly uuid watched.1 watched.2)
    (unkilled : Unkilled uuid watched action)
    (taken : recorded Registry.step note watched action = some next) : OnceOnly uuid next.1 next.2 := by
  obtain ⟨stepped, noted⟩ := recorded_eq_some taken
  obtain ⟨s', o'⟩ := next
  rw [noted]
  cases action with
  | advance i fails => exact once.advances unkilled stepped
  | outgoingChannel other | writeFrame other | moduleShutdown =>
    have same := Option.some.inj stepped
    exact once.starts stepped (by rw [← same]) ⟨_, by rw [← same]⟩
  | killChannel other sig =>
    by_cases kill : sig = sigKill
    · have same := Option.some.inj ((if_pos kill).symm.trans stepped)
      exact once.starts stepped (by rw [← same]) ⟨_, by rw [← same]⟩
    · have same := Option.some.inj ((if_neg kill).symm.trans stepped)
      rw [← same]
      exact once

structure InitOnce (uuid : Uuid) (o : Outcome) : Prop where
  spawned : o.spawned.count uuid ≤ 1
  inserted : o.inserted.count uuid ≤ 1
  failed : ∀ i ∈ o.failed, i ∉ o.changed

/-- After any run, in a stretch in which nothing removes the entry of the call. -/
theorem init_once (uuid : Uuid) (earlier actions : List Action) (middle final : Registry) (o : Outcome)
    (reached : run Registry.step {} earlier = some middle)
    (unkilled : Along (recorded Registry.step note) (Unkilled uuid) (middle, {}) actions)
    (taken : run (recorded Registry.step note) (middle, {}) actions = some (final, o)) : InitOnce uuid o := by
  have initial : Registry.Exclusive {} := ⟨nofun, nofun⟩
  have exclusive : middle.Exclusive := invariant_of_any_run Registry.step_exclusive initial reached
  have begun : OnceOnly uuid middle {} :=
    ⟨exclusive, Nat.zero_le 1, nofun, Nat.zero_le 1, nofun, nofun, nofun⟩
  have once : OnceOnly uuid final o := invariant_of_run (step_onceOnly uuid) begun unkilled taken
  exact ⟨once.spawned, once.inserted, fun i member => (once.failed i member).1⟩

/-- One call of `init_call` fails, two more race, and the first of them sets the call up. -/
def racedInit : List Action :=
  [.writeFrame "a", .advance 0 false, .advance 0 false, .advance 0 false, .advance 0 true,
    .outgoingChannel "a", .writeFrame "a", .advance 2 false, .advance 1 false, .advance 1 false,
    .advance 1 false, .advance 1 false, .advance 1 false, .advance 2 false, .advance 2 false]

theorem racedInit_init_once :
    ∃ final, run (recorded Registry.step note) ({}, {}) racedInit =
        some (final, ⟨["a"], ["a"], [0], [1, 1, 1]⟩) ∧ InitOnce "a" ⟨["a"], ["a"], [0], [1, 1, 1]⟩ := by
  have unkilled : Along (recorded Registry.step note) (Unkilled "a") ({}, {}) racedInit := by decide +kernel
  have recorded_ : (run (recorded Registry.step note) ({}, {}) racedInit).map Prod.snd =
      some ⟨["a"], ["a"], [0], [1, 1, 1]⟩ := by decide +kernel
  obtain ⟨⟨final, o⟩, taken, rfl⟩ := Option.map_eq_some_iff.mp recorded_
  exact ⟨final, taken, init_once "a" [] racedInit {} final _ rfl unkilled taken⟩

end Fswtch.Seat.CallRegistry
