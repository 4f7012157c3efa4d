import Mathlib.Data.Finset.Basic
import Mathlib.Data.List.AList
import Fswtch.Lib.StepRun

/-! The registry of calls: `CALLS`, `LIVE_CALLS` and the actors. FreeSWITCH's threads call
`outgoing_channel`, `write_frame`, `kill_channel` and the module shutdown at any time, and
every access to a map is one step of the thread that makes it. -/

namespace Fswtch.Seat.CallRegistry
open Fswtch.Lib.StepRun

abbrev Uuid := String

abbrev ActorId := Nat

/-- Where a call of `init_call` is; `looking` is the look at `CALLS` with which
`write_frame` begins. From `checking` to `inserted` it holds the init lock. -/
inductive InitPhase where
  | looking
  | wantLock
  | checking
  | missing
  | spawned (actor : ActorId)
  | inserted
  | returned
  deriving DecidableEq

inductive KillPhase where
  | removing
  | killing (actor : ActorId)
  | unregistering
  | returned
  deriving DecidableEq

inductive ShutdownPhase where
  | clearingLive
  | clearingCalls
  | stoppingRuntime
  | returned
  deriving DecidableEq

inductive Thread where
  | init (uuid : Uuid) (phase : InitPhase)
  | kill (uuid : Uuid) (phase : KillPhase)
  | shutdown (phase : ShutdownPhase)
  deriving DecidableEq

/-- `calls` holds the actor of each `CallState`. An actor lives until it is killed or the
runtime stops, for it stores a reference to itself. `killed` is a record: the calls whose
last KILL no `outgoing_channel` has followed. -/
structure Registry where
  calls : AList (fun _ : Uuid => ActorId) := ∅
  live : Finset Uuid := ∅
  alive : List (ActorId × Uuid) := []
  nextActor : ActorId := 0
  runtime : Bool := true
  initLock : Option Nat := none
  threads : List Thread := []
  killed : Finset Uuid := ∅

inductive Action where
  | outgoingChannel (uuid : Uuid)
  | writeFrame (uuid : Uuid)
  | killChannel (uuid : Uuid) (sig : Int)
  | moduleShutdown
  | advance (i : Nat) (fails : Bool)

def sigKill : Int := 1

namespace Registry

def setThread (s : Registry) (i : Nat) (thread : Thread) : Registry :=
  { s with threads := s.threads.set i thread }

def leaveInit (s : Registry) (i : Nat) (uuid : Uuid) : Registry :=
  { s with initLock := none }.setThread i (.init uuid .returned)

def initCall (s : Registry) (i : Nat) (uuid : Uuid) (fails : Bool) : InitPhase → Option Registry
  | .looking => some (s.setThread i (.init uuid (if uuid ∈ s.calls then .returned else .wantLock)))
  | .wantLock =>
    match s.initLock with
    | none => some ({ s with initLock := some i }.setThread i (.init uuid .checking))
    | some _ => none
  | .checking => some (if uuid ∈ s.calls then s.leaveInit i uuid else s.setThread i (.init uuid .missing))
  | .missing =>
    if fails || !s.runtime then some (s.leaveInit i uuid)
    else
      some ({ s with
        alive := s.alive ++ [(s.nextActor, uuid)]
        nextActor := s.nextActor + 1 }.setThread i (.init uuid (.spawned s.nextActor)))
  | .spawned actor =>
    some ({ s with calls := s.calls.insert uuid actor }.setThread i (.init uuid .inserted))
  | .inserted => some ({ s with live := insert uuid s.live }.leaveInit i uuid)
  | .returned => none

def killChannel (s : Registry) (i : Nat) (uuid : Uuid) : KillPhase → Option Registry
  | .removing =>
    match s.calls.lookup uuid with
    | some actor => some ({ s with calls := s.calls.erase uuid }.setThread i (.kill uuid (.killing actor)))
    | none => some (s.setThread i (.kill uuid .unregistering))
  | .killing actor =>
    some ({ s with alive := s.alive.filter fun entry => decide (entry.1 ≠ actor) }.setThread i
      (.kill uuid .unregistering))
  | .unregistering => some ({ s with live := s.live.erase uuid }.setThread i (.kill uuid .returned))
  | .returned => none

def moduleShutdown (s : Registry) (i : Nat) : ShutdownPhase → Option Registry
  | .clearingLive => some ({ s with live := ∅ }.setThread i (.shutdown .clearingCalls))
  | .clearingCalls => some ({ s with calls := ∅ }.setThread i (.shutdown .stoppingRuntime))
  | .stoppingRuntime =>
    some ({ s with runtime := false, alive := [] }.setThread i (.shutdown .returned))
  | .returned => none

def advance (s : Registry) (i : Nat) (fails : Bool) : Option Registry :=
  s.threads[i]?.bind fun
    | .init uuid phase => s.initCall i uuid fails phase
    | .kill uuid phase => s.killChannel i uuid phase
    | .shutdown phase => s.moduleShutdown i phase

/-- Only KILL ends a call; `outgoing_channel` skips a channel without a UUID. -/
def step (s : Registry) : Action → Option Registry
  | .outgoingChannel uuid =>
    some { s with
      threads := s.threads ++ [.init uuid (if uuid = "" then .returned else .wantLock)]
      killed := s.killed.erase uuid }
  | .writeFrame uuid => some { s with threads := s.threads ++ [.init uuid .looking] }
  | .killChannel uuid sig =>
    if sig = sigKill then
      some { s with threads := s.threads ++ [.kill uuid .removing], killed := insert uuid s.killed }
    else some s
  | .moduleShutdown => some { s with threads := s.threads ++ [.shutdown .clearingLive] }
  | .advance i fails => s.advance i fails

inductive ThreadStep (s : Registry) (i : Nat) : Thread → Registry → Prop
  | looks (uuid : Uuid) (phase : InitPhase) (next : phase = .returned ∨ phase = .wantLock) :
      ThreadStep s i (.init uuid .looking) (s.setThread i (.init uuid phase))
  | locks (uuid : Uuid) (free : s.initLock = none) :
      ThreadStep s i (.init uuid .wantLock)
        ({ s with initLock := some i }.setThread i (.init uuid .checking))
  | finds (uuid : Uuid) : ThreadStep s i (.init uuid .checking) (s.leaveInit i uuid)
  | misses (uuid : Uuid) (absent : uuid ∉ s.calls) :
      ThreadStep s i (.init uuid .checking) (s.setThread i (.init uuid .missing))
  | fails (uuid : Uuid) : ThreadStep s i (.init uuid .missing) (s.leaveInit i uuid)
  | spawns (uuid : Uuid) :
      ThreadStep s i (.init uuid .missing) ({ s with
        alive := s.alive ++ [(s.nextActor, uuid)]
        nextActor := s.nextActor + 1 }.setThread i (.init uuid (.spawned s.nextActor)))
  | inserts (uuid : Uuid) (actor : ActorId) :
      ThreadStep s i (.init uuid (.spawned actor))
        ({ s with calls := s.calls.insert uuid actor }.setThread i (.init uuid .inserted))
  | registers (uuid : Uuid) :
      ThreadStep s i (.init uuid .inserted) ({ s with live := insert uuid s.live }.leaveInit i uuid)
  | removes (uuid : Uuid) (actor : ActorId) (found : s.calls.lookup uuid = some actor) :
      ThreadStep s i (.kill uuid .removing)
        ({ s with calls := s.calls.erase uuid }.setThread i (.kill uuid (.killing actor)))
  | skips (uuid : Uuid) (absent : uuid ∉ s.calls) :
      ThreadStep s i (.kill uuid .removing) (s.setThread i (.kill uuid .unregistering))
  | kills (uuid : Uuid) (actor : ActorId) :
      ThreadStep s i (.kill uuid (.killing actor))
        ({ s with alive := s.alive.filter fun entry => decide (entry.1 ≠ actor) }.setThread i
          (.kill uuid .unregistering))
  | unregisters (uuid : Uuid) :
      ThreadStep s i (.kill uuid .unregistering)
        ({ s with live := s.live.erase uuid }.setThread i (.kill uuid .returned))
  | clearsLive :
      ThreadStep s i (.shutdown .clearingLive)
        ({ s with live := ∅ }.setThread i (.shutdown .clearingCalls))
  | clearsCalls :
      ThreadStep s i (.shutdown .clearingCalls)
        ({ s with calls := ∅ }.setThread i (.shutdown .stoppingRuntime))
  | stopsRuntime :
      ThreadStep s i (.shutdown .stoppingRuntime)
        ({ s with runtime := false, alive := [] }.setThread i (.shutdown .returned))

theorem advance_step {s s' : Registry} {i : Nat} {fails : Bool}
    (taken : s.advance i fails = some s') :
    ∃ thread, s.threads[i]? = some thread ∧ ThreadStep s i thread s' := by
  obtain ⟨thread, found, taken⟩ := Option.bind_eq_some_iff.mp taken
  refine ⟨thread, found, ?_⟩
  cases thread with
  | init uuid phase =>
    cases phase with
    | looking =>
      cases taken
      exact .looks uuid _ (by split <;> simp)
    | wantLock =>
      simp only [initCall] at taken
      split at taken
      next free =>
        cases taken
        exact .locks uuid free
      next => cases taken
    | checking =>
      simp only [initCall, Option.some.injEq] at taken
      subst taken
      split
      next => exact .finds uuid
      next absent => exact .misses uuid absent
    | missing =>
      simp only [initCall] at taken
      split at taken <;> cases taken
      · exact .fails uuid
      · exact .spawns uuid
    | spawned actor =>
      cases taken
      exact .inserts uuid actor
    | inserted =>
      cases taken
      exact .registers uuid
    | returned => cases taken
  | kill uuid phase =>
    cases phase with
    | removing =>
      simp only [killChannel] at taken
      split at taken
      next actor found =>
        cases taken
        exact .removes uuid actor found
      next absent =>
        cases taken
        exact .skips uuid (AList.lookup_eq_none.mp absent)
    | killing actor =>
      cases taken
      exact .kills uuid actor
    | unregistering =>
      cases taken
      exact .unregisters uuid
    | returned => cases taken
  | shutdown phase =>
    cases phase with
    | clearingLive =>
      cases taken
      exact .clearsLive
    | clearingCalls =>
      cases taken
      exact .clearsCalls
    | stoppingRuntime =>
      cases taken
      exact .stopsRuntime
    | returned => cases taken

theorem mem_set {threads : List Thread} {i : Nat} {old new thread : Thread}
    (found : threads[i]? = some old) (member : thread ∈ threads) :
    thread = old ∨ thread ∈ threads.set i new := by
  obtain ⟨j, known⟩ := List.mem_iff_getElem?.mp member
  by_cases same : i = j
  · subst same
    exact .inl (Option.some.inj (known.symm.trans found))
  · refine .inr (List.mem_of_getElem? (i := j) ?_)
    rw [List.getElem?_set_ne same]
    exact known

theorem mem_set_self {threads : List Thread} {i : Nat} {old : Thread} (new : Thread)
    (found : threads[i]? = some old) : new ∈ threads.set i new :=
  List.mem_set (List.getElem?_eq_some_iff.mp found).choose new

theorem of_mem_set {threads : List Thread} {i j : Nat} {new thread : Thread}
    (known : (threads.set i new)[j]? = some thread) :
    i = j ∧ thread = new ∨ i ≠ j ∧ threads[j]? = some thread := by
  by_cases same : i = j
  · subst same
    rw [List.getElem?_set_self' ] at known
    obtain ⟨_, _, rfl⟩ := Option.map_eq_some_iff.mp known
    exact .inl ⟨rfl, rfl⟩
  · rw [List.getElem?_set_ne same] at known
    exact .inr ⟨same, known⟩

end Registry

end Fswtch.Seat.CallRegistry
