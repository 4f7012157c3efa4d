import Mathlib.Data.List.AList
import Mathlib.Logic.Function.Basic
import Fswtch.Lib.StepRun

/-! The entries of `CALLS` from `outgoing_channel` to the end of the call. A call normally ends with
`kill_channel`; where FreeSWITCH destroys a session without it, the reaper finds the entry. FreeSWITCH's
threads, the reaper and the module's load and shutdown take their steps in any order. -/

namespace Fswtch.Unicast.CallLife
open Fswtch.Lib.StepRun

abbrev Uuid := String

/-- A session in FreeSWITCH, whose identifier is never given again. Its `outgoing_channel` has not
returned while it is launching, nor while it holds a `CallState` with the tasks of that number. -/
inductive Session where
  | unborn
  | launching
  | holding (task : Nat)
  | live
  | destroyed
  deriving DecidableEq

/-- The reaper sleeps between two passes. In a pass it collects the keys, of which those that stand in
`CALLS` all along are seen for sure; it then probes one after the other. -/
inductive Reaper where
  | off
  | sleeping
  | collecting (standing keys : List Uuid)
  | probing (rest : List Uuid)
  | reaping (uuid : Uuid) (gone : Bool) (rest : List Uuid)

/-- An entry's number names its two tasks. The records are: the calls that were given a `CallState` since
the load and those killed since, whether the module was shut down, and of the reaper's pass the entries
whose session was gone when it began and the probes that failed. -/
structure State where
  runtime : Bool := false
  sessions : Uuid → Session := fun _ => .unborn
  calls : AList (fun _ : Uuid => Nat) := ∅
  tasks : List Nat := []
  nextTask : Nat := 0
  reaper : Reaper := .off
  served : List Uuid := []
  killed : List Uuid := []
  cleared : Bool := false
  due : List Uuid := []
  unprobed : List Uuid := []

inductive Action where
  | load
  | requestSession (uuid : Uuid)
  /-- `CallState::new` binds a socket and spawns the tasks, or fails. -/
  | newState (uuid : Uuid) (bound : Bool)
  /-- The entry goes into `CALLS` and `outgoing_channel` returns. -/
  | insertState (uuid : Uuid)
  | killChannel (uuid : Uuid) (sig : Int)
  | destroySession (uuid : Uuid)
  | tick
  | collect (uuid : Uuid)
  | collected
  /-- The reaper looks for the session of the next key, which may fail, or ends its pass. -/
  | probe (fails : Bool)
  | reap
  | clearCalls
  | stopRuntime

def sigKill : Int := 1

def State.setSession (s : State) (uuid : Uuid) (session : Session) : State :=
  { s with sessions := Function.update s.sessions uuid session }

/-- An entry that leaves `CALLS` is dropped, and its tasks are aborted. -/
def State.remove (s : State) (uuid : Uuid) : State :=
  { s with
    calls := s.calls.erase uuid
    tasks := (s.calls.lookup uuid).elim s.tasks s.tasks.erase }

def State.unlocated (s : State) (uuid : Uuid) : Bool :=
  s.sessions uuid = .destroyed || s.sessions uuid = .unborn

def step (s : State) : Action → Option State
  | .load =>
    if s.runtime then none
    else some { s with
      runtime := true
      reaper := .sleeping
      served := []
      killed := []
      cleared := false
      due := [] }
  | .requestSession uuid =>
    if s.sessions uuid = .unborn then some (s.setSession uuid .launching) else none
  | .newState uuid bound =>
    if s.sessions uuid = .launching then
      if s.runtime && bound then
        some { s.setSession uuid (.holding s.nextTask) with
          tasks := s.tasks ++ [s.nextTask]
          nextTask := s.nextTask + 1
          served := uuid :: s.served }
      else some (s.setSession uuid .live) -- without media: silence is read, what is written is dropped
    else none
  | .insertState uuid =>
    match s.sessions uuid with
    | .holding task => some { s.setSession uuid .live with calls := s.calls.insert uuid task }
    | _ => none
  | .killChannel uuid sig =>
    match s.sessions uuid with
    | .unborn | .destroyed => none
    | .live => if sig = sigKill then some { s.remove uuid with killed := uuid :: s.killed } else some s
    | _ => if sig = sigKill then some (s.remove uuid) else some s
  | .destroySession uuid =>
    if s.sessions uuid = .live then some (s.setSession uuid .destroyed) else none
  | .tick =>
    match s.reaper with
    | .sleeping =>
      some { s with
        reaper := .collecting s.calls.keys []
        due := s.calls.keys.filter fun uuid => s.sessions uuid = .destroyed
        unprobed := [] }
    | _ => none
  | .collect uuid =>
    match s.reaper with
    | .collecting standing keys =>
      if uuid ∈ s.calls then some { s with reaper := .collecting standing (keys ++ [uuid]) } else none
    | _ => none
  | .collected =>
    match s.reaper with
    | .collecting standing keys =>
      if ∀ uuid ∈ standing, uuid ∈ s.calls → uuid ∈ keys then some { s with reaper := .probing keys } else none
    | _ => none
  | .probe fails =>
    match s.reaper with
    | .probing [] => some { s with reaper := .sleeping }
    | .probing (uuid :: rest) =>
      some { s with
        reaper := .reaping uuid (!fails && s.unlocated uuid) rest
        unprobed := if fails then uuid :: s.unprobed else s.unprobed }
    | _ => none
  | .reap =>
    match s.reaper with
    | .reaping uuid gone rest => some { (if gone then s.remove uuid else s) with reaper := .probing rest }
    | _ => none
  | .clearCalls =>
    some { s with calls := ∅, tasks := s.tasks.removeAll (s.calls.entries.map (·.2)), cleared := true }
  | .stopRuntime =>
    if s.runtime then some { s with runtime := false, tasks := [], reaper := .off, cleared := true, due := [] }
    else none

def State.returned (s : State) (uuid : Uuid) : Prop :=
  s.sessions uuid = .live ∨ s.sessions uuid = .destroyed

inductive Effect (s : State) : State → Prop where
  | keeps : Effect s s
  | loads (off : s.runtime = false) : Effect s
      { s with runtime := true, reaper := .sleeping, served := [], killed := [], cleared := false, due := [] }
  | moves (uuid : Uuid) (session : Session)
      (forward : s.sessions uuid = .unborn ∧ session = .launching ∨
        s.sessions uuid = .launching ∧ session = .live ∨ s.sessions uuid = .live ∧ session = .destroyed) :
      Effect s (s.setSession uuid session)
  | serves (uuid : Uuid) (before : s.sessions uuid = .launching) (on : s.runtime = true) : Effect s
      { s.setSession uuid (.holding s.nextTask) with
        tasks := s.tasks ++ [s.nextTask]
        nextTask := s.nextTask + 1
        served := uuid :: s.served }
  | inserts (uuid : Uuid) (task : Nat) (before : s.sessions uuid = .holding task) :
      Effect s { s.setSession uuid .live with calls := s.calls.insert uuid task }
  | kills (uuid : Uuid) (before : s.sessions uuid = .live) :
      Effect s { s.remove uuid with killed := uuid :: s.killed }
  | killsEarly (uuid : Uuid) (early : ¬s.returned uuid) : Effect s (s.remove uuid)
  | passes (reaper : Reaper) (due unprobed : List Uuid) :
      Effect s { s with reaper := reaper, due := due, unprobed := unprobed }
  | reaps (uuid : Uuid) (rest : List Uuid) (found : s.reaper = .reaping uuid true rest) :
      Effect s { s.remove uuid with reaper := .probing rest }
  | clears : Effect s
      { s with calls := ∅, tasks := s.tasks.removeAll (s.calls.entries.map (·.2)), cleared := true }
  | stops : Effect s { s with runtime := false, tasks := [], reaper := .off, cleared := true, due := [] }

theorem effect_of_step {s s' : State} {action : Action} (taken : step s action = some s') : Effect s s' := by
  cases action with
  | load =>
    simp only [step] at taken
    split at taken
    next => cases taken
    next off => cases taken; exact .loads (Bool.not_eq_true _ ▸ off)
  | requestSession uuid =>
    simp only [step] at taken
    split at taken
    next before => cases taken; exact .moves uuid .launching (.inl ⟨before, rfl⟩)
    next => cases taken
  | newState uuid bound =>
    simp only [step] at taken
    split at taken
    next before =>
      split at taken
      next allowed => cases taken; exact .serves uuid before (Bool.and_eq_true_iff.mp allowed).1
      next => cases taken; exact .moves uuid .live (.inr (.inl ⟨before, rfl⟩))
    next => cases taken
  | insertState uuid =>
    simp only [step] at taken
    split at taken
    next task before => cases taken; exact .inserts uuid task before
    next => cases taken
  | killChannel uuid sig =>
    simp only [step] at taken
    split at taken
    next => cases taken
    next => cases taken
    next before =>
      split at taken
      next => cases taken; exact .kills uuid before
      next => cases taken; exact .keeps
    next undead alive =>
      split at taken
      next =>
        cases taken
        exact .killsEarly uuid fun returned => returned.elim alive undead
      next => cases taken; exact .keeps
  | destroySession uuid =>
    simp only [step] at taken
    split at taken
    next before => cases taken; exact .moves uuid .destroyed (.inr (.inr ⟨before, rfl⟩))
    next => cases taken
  | tick | collected | probe fails =>
    simp only [step] at taken
    split at taken
    all_goals first | cases taken; exact .passes .. | split at taken <;> cases taken; exact .passes .. | cases taken
  | collect uuid =>
    simp only [step] at taken
    split at taken
    next =>
      split at taken
      next => cases taken; exact .passes ..
      next => cases taken
    next => cases taken
  | reap =>
    simp only [step] at taken
    split at taken
    next uuid gone rest found =>
      cases taken
      cases gone
      · exact .passes ..
      · exact .reaps uuid rest found
    next => cases taken
  | clearCalls => cases taken; exact .clears
  | stopRuntime =>
    simp only [step] at taken
    split at taken
    next => cases taken; exact .stops
    next => cases taken

@[simp] theorem setSession_sessions (s : State) (uuid other : Uuid) (session : Session) :
    (s.setSession uuid session).sessions other = if other = uuid then session else s.sessions other := by
  simp only [State.setSession, Function.update_apply]

@[simp] theorem setSession_calls (s : State) (uuid : Uuid) (session : Session) :
    (s.setSession uuid session).calls = s.calls := rfl

@[simp] theorem remove_sessions (s : State) (uuid : Uuid) : (s.remove uuid).sessions = s.sessions := rfl

@[simp] theorem mem_remove {s : State} {uuid other : Uuid} :
    other ∈ (s.remove uuid).calls ↔ other ≠ uuid ∧ other ∈ s.calls :=
  AList.mem_erase

theorem remove_absent {s : State} {uuid : Uuid} (absent : uuid ∉ s.calls) : s.remove uuid = s := by
  have same : s.calls.erase uuid = s.calls := AList.ext (List.kerase_of_notMem_keys absent)
  rw [State.remove, same, AList.lookup_eq_none.mpr absent]
  rfl

section
variable {s s' : State} {uuid : Uuid}

theorem ne_of_session {other : Uuid} {session : Session} (here : s.sessions uuid = session)
    (elsewhere : s.sessions other ≠ session) : other ≠ uuid := by
  rintro rfl
  exact elsewhere here

theorem destroyed_of_effect (effect : Effect s s') (gone : s.sessions uuid = .destroyed) :
    s'.sessions uuid = .destroyed := by
  cases effect with
  | moves other session forward =>
    have apart : uuid ≠ other := by
      rintro rfl
      rcases forward with ⟨before, _⟩ | ⟨before, _⟩ | ⟨before, _⟩ <;> cases before.symm.trans gone
    simpa [apart] using gone
  | serves other before _ =>
    have apart : uuid ≠ other := ne_of_session before (by simp [gone])
    simpa [apart] using gone
  | inserts other task before =>
    have apart : uuid ≠ other := ne_of_session before (by simp [gone])
    simpa [apart] using gone
  | _ => exact gone

theorem returned_of_effect (effect : Effect s s') (returned : s.returned uuid) : s'.returned uuid := by
  rcases returned with live | gone
  · cases effect with
    | moves other session forward =>
      by_cases same : uuid = other
      · subst same
        rcases forward with ⟨before, _⟩ | ⟨before, _⟩ | ⟨_, rfl⟩
        · cases before.symm.trans live
        · cases before.symm.trans live
        · exact .inr (by simp)
      · exact .inl (by simpa [same] using live)
    | serves other before _ =>
      have apart : uuid ≠ other := ne_of_session before (by simp [live])
      exact .inl (by simpa [apart] using live)
    | inserts other task before =>
      have apart : uuid ≠ other := ne_of_session before (by simp [live])
      exact .inl (by simpa [apart] using live)
    | _ => exact .inl live
  · exact .inr (destroyed_of_effect effect gone)

end

structure Entries (s : State) : Prop where
  keyed : ∀ uuid ∈ s.calls, s.returned uuid
  known : ∀ uuid ∈ s.served, s.sessions uuid ≠ .unborn ∧ s.sessions uuid ≠ .launching
  held : ∀ uuid ∈ s.served, s.cleared = false → s.sessions uuid = .live → uuid ∉ s.killed → uuid ∈ s.calls
  freed : ∀ uuid ∈ s.killed, s.returned uuid ∧ uuid ∉ s.calls
  up : ∀ uuid ∈ s.served, s.cleared = false → s.runtime = true

def Reaper.keys : Reaper → List Uuid
  | .off | .sleeping => []
  | .collecting _ keys => keys
  | .probing rest => rest
  | .reaping uuid _ rest => uuid :: rest

/-- The reaper will still remove the entry of a session that is gone, unless its probe fails. -/
def Reaper.Awaits (reaper : Reaper) (uuid : Uuid) : Prop :=
  match reaper with
  | .off | .sleeping => False
  | .collecting standing _ => uuid ∈ standing
  | .probing rest => uuid ∈ rest
  | .reaping current gone rest => current = uuid ∧ gone = true ∨ uuid ∈ rest

structure Pass (s : State) : Prop where
  seen : ∀ uuid ∈ s.reaper.keys, s.returned uuid
  gone : ∀ uuid rest, s.reaper = .reaping uuid true rest → s.sessions uuid = .destroyed
  due : ∀ uuid ∈ s.due, s.sessions uuid = .destroyed ∧
    (uuid ∈ s.calls → uuid ∉ s.unprobed → s.reaper.Awaits uuid)

def State.Owns (s : State) (uuid : Uuid) (task : Nat) : Prop :=
  s.calls.lookup uuid = some task ∨ s.sessions uuid = .holding task

structure Tasks (s : State) : Prop where
  fresh : ∀ uuid task, s.Owns uuid task → task < s.nextTask
  single : ∀ uuid other task, s.Owns uuid task → s.Owns other task → uuid = other
  owned : ∀ task ∈ s.tasks, ∃ uuid, s.Owns uuid task
  nodup : s.tasks.Nodup
  running : s.runtime = true → ∀ uuid ∈ s.served, ∀ task, s.Owns uuid task → task ∈ s.tasks
  stopped : s.runtime = false → s.tasks = []

section
variable {s s' : State}

theorem Entries.step (entries : Entries s) (pass : Pass s) (effect : Effect s s') : Entries s' := by
  have returned : ∀ uuid ∈ s.calls, s'.returned uuid := fun uuid inside =>
    returned_of_effect effect (entries.keyed uuid inside)
  have freed : ∀ uuid ∈ s.killed, s'.returned uuid := fun uuid killed =>
    returned_of_effect effect (entries.freed uuid killed).1
  cases effect with
  | keeps => exact entries
  | loads off => exact ⟨returned, nofun, nofun, nofun, nofun⟩
  | moves other session forward =>
    have known : ∀ uuid ∈ s.served, uuid = other → session = .destroyed := by
      rintro uuid served rfl
      have := entries.known uuid served
      rcases forward with ⟨before, _⟩ | ⟨before, _⟩ | ⟨_, after⟩
      · exact absurd before this.1
      · exact absurd before this.2
      · exact after
    refine ⟨returned, ?_, ?_, fun uuid killed => ⟨freed uuid killed, (entries.freed uuid killed).2⟩, entries.up⟩
    · intro uuid served
      by_cases same : uuid = other
      · simp [same, known uuid served same]
      · simpa [same] using entries.known uuid served
    · intro uuid served cleared live
      by_cases same : uuid = other
      · simp [same, known uuid served same] at live
      · exact entries.held uuid served cleared (by simpa [same] using live)
  | serves other before on =>
    refine ⟨returned, ?_, ?_, fun uuid killed => ⟨freed uuid killed, (entries.freed uuid killed).2⟩, fun _ _ _ => on⟩
    · intro uuid served
      by_cases same : uuid = other
      · simp [same]
      · simpa [same] using entries.known uuid ((List.mem_cons.mp served).resolve_left same)
    · intro uuid served cleared live
      by_cases same : uuid = other
      · simp [same] at live
      · exact entries.held uuid ((List.mem_cons.mp served).resolve_left same) cleared (by simpa [same] using live)
  | inserts other task before =>
    refine ⟨?_, ?_, ?_, ?_, entries.up⟩
    · intro uuid inside
      by_cases same : uuid = other
      · exact .inl (by simp [same])
      · exact returned uuid (((AList.mem_insert _).mp inside).resolve_left same)
    · intro uuid served
      by_cases same : uuid = other
      · simp [same]
      · simpa [same] using entries.known uuid served
    · intro uuid served cleared live unkilled
      refine (AList.mem_insert _).mpr ?_
      by_cases same : uuid = other
      · exact .inl same
      · exact .inr (entries.held uuid served cleared (by simpa [same] using live) unkilled)
    · intro uuid killed
      have out := entries.freed uuid killed
      refine ⟨freed uuid killed, fun inside => ?_⟩
      rcases (AList.mem_insert _).mp inside with rfl | inside
      · rcases out.1 with live | gone
        · cases before.symm.trans live
        · cases before.symm.trans gone
      · exact out.2 inside
  | kills other before =>
    refine ⟨fun uuid inside => returned uuid (mem_remove.mp inside).2, entries.known, ?_, ?_, entries.up⟩
    · intro uuid served cleared live unkilled
      rw [List.mem_cons, not_or] at unkilled
      exact mem_remove.mpr ⟨unkilled.1, entries.held uuid served cleared live unkilled.2⟩
    · intro uuid killed
      rcases List.mem_cons.mp killed with rfl | killed
      · exact ⟨.inl before, fun inside => (mem_remove.mp inside).1 rfl⟩
      · exact ⟨freed uuid killed, fun inside => (entries.freed uuid killed).2 (mem_remove.mp inside).2⟩
  | killsEarly other early =>
    rw [remove_absent fun inside => early (entries.keyed other inside)]
    exact entries
  | passes reaper due unprobed => exact ⟨entries.keyed, entries.known, entries.held, entries.freed, entries.up⟩
  | reaps other rest found =>
    -- what the reaper removes belongs to a session that is destroyed
    have gone := pass.gone other rest found
    refine ⟨fun uuid inside => returned uuid (mem_remove.mp inside).2, entries.known, ?_, ?_, entries.up⟩
    · intro uuid served cleared live unkilled
      have apart : uuid ≠ other := ne_of_session gone (by rw [show s.sessions uuid = .live from live]; simp)
      exact mem_remove.mpr ⟨apart, entries.held uuid served cleared live unkilled⟩
    · exact fun uuid killed =>
        ⟨freed uuid killed, fun inside => (entries.freed uuid killed).2 (mem_remove.mp inside).2⟩
  | clears =>
    exact ⟨fun uuid inside => absurd inside (AList.notMem_empty uuid), entries.known, nofun,
      fun uuid killed => ⟨freed uuid killed, AList.notMem_empty uuid⟩, nofun⟩
  | stops =>
    exact ⟨entries.keyed, entries.known, nofun, entries.freed, nofun⟩

/-- Entries only go for a session that is gone: it does not get into `outgoing_channel` again. -/
theorem absent_of_effect {uuid : Uuid} (effect : Effect s s') (gone : s.sessions uuid = .destroyed)
    (inside : uuid ∈ s'.calls) : uuid ∈ s.calls := by
  cases effect with
  | inserts other task before =>
    refine ((AList.mem_insert _).mp inside).resolve_left ?_
    rintro rfl
    cases before.symm.trans gone
  | kills other _ => exact (mem_remove.mp inside).2
  | killsEarly other _ => exact (mem_remove.mp inside).2
  | reaps other _ _ => exact (mem_remove.mp inside).2
  | clears => exact absurd inside (AList.notMem_empty uuid)
  | _ => exact inside

theorem Pass.idle (pass : Pass s) (effect : Effect s s') (reaper : s'.reaper = s.reaper) (due : s'.due = s.due)
    (unprobed : s'.unprobed = s.unprobed) : Pass s' where
  seen uuid seen := returned_of_effect effect (pass.seen uuid (reaper ▸ seen))
  gone uuid rest found := destroyed_of_effect effect (pass.gone uuid rest (reaper ▸ found))
  due uuid waiting := by
    obtain ⟨gone, later⟩ := pass.due uuid (due ▸ waiting)
    refine ⟨destroyed_of_effect effect gone, fun inside probed => ?_⟩
    rw [reaper]
    exact later (absent_of_effect effect gone inside) (unprobed ▸ probed)

theorem Pass.step {action : Action} (entries : Entries s) (pass : Pass s) (taken : step s action = some s') :
    Pass s' := by
  have effect := effect_of_step taken
  cases action with
  | load =>
    simp only [CallLife.step] at taken
    split at taken
    next => cases taken
    next => cases taken; exact ⟨nofun, nofun, nofun⟩
  | tick =>
    simp only [CallLife.step] at taken
    split at taken
    next =>
      cases taken
      refine ⟨nofun, nofun, fun uuid waiting => ?_⟩
      have chosen := List.mem_filter.mp waiting
      exact ⟨of_decide_eq_true chosen.2, fun _ _ => chosen.1⟩
    next => cases taken
  | collect uuid =>
    simp only [CallLife.step] at taken
    split at taken
    next standing keys found =>
      split at taken
      next inside =>
        cases taken
        refine ⟨fun other seen => ?_, nofun, fun other waiting => ?_⟩
        · rcases List.mem_append.mp seen with seen | seen
          · exact pass.seen other (by rw [found]; exact seen)
          · exact List.mem_singleton.mp seen ▸ entries.keyed uuid inside
        · obtain ⟨gone, later⟩ := pass.due other waiting
          rw [found] at later
          exact ⟨gone, later⟩
      next => cases taken
    next => cases taken
  | collected =>
    simp only [CallLife.step] at taken
    split at taken
    next standing keys found =>
      split at taken
      next all =>
        cases taken
        refine ⟨fun other seen => pass.seen other (by rw [found]; exact seen), nofun, fun other waiting => ?_⟩
        obtain ⟨gone, later⟩ := pass.due other waiting
        rw [found] at later
        exact ⟨gone, fun inside probed => all other (later inside probed) inside⟩
      next => cases taken
    next => cases taken
  | probe fails =>
    simp only [CallLife.step] at taken
    split at taken
    next found =>
      cases taken
      refine ⟨nofun, nofun, fun other waiting => ?_⟩
      obtain ⟨gone, later⟩ := pass.due other waiting
      rw [found] at later
      exact ⟨gone, fun inside probed => nomatch later inside probed⟩
    next uuid rest found =>
      cases taken
      have seen : ∀ other ∈ uuid :: rest, s.returned other := fun other seen =>
        pass.seen other (by rw [found]; exact seen)
      refine ⟨seen, fun other rest' same => ?_, fun other waiting => ?_⟩
      · -- a session that was given to the map is not found only once it is destroyed
        obtain ⟨rfl, located, rfl⟩ := Reaper.reaping.inj same
        have unlocated := (Bool.and_eq_true_iff.mp located).2
        rcases seen uuid List.mem_cons_self with live | gone
        · simp [State.unlocated, live] at unlocated
        · exact gone
      · obtain ⟨gone, later⟩ := pass.due other waiting
        rw [found] at later
        refine ⟨gone, fun inside probed => ?_⟩
        cases fails with
        | true =>
          rw [if_pos rfl, List.mem_cons, not_or] at probed
          exact .inr ((List.mem_cons.mp (later inside probed.2)).resolve_left probed.1)
        | false =>
          rcases List.mem_cons.mp (later inside probed) with rfl | rest
          · exact .inl ⟨rfl, by simp [State.unlocated, gone]⟩
          · exact .inr rest
    next => cases taken
  | reap =>
    simp only [CallLife.step] at taken
    split at taken
    next uuid gone rest found =>
      cases taken
      have seen : ∀ other ∈ rest, s.returned other := fun other seen =>
        pass.seen other (by rw [found]; exact List.mem_cons_of_mem uuid seen)
      have due := pass.due
      rw [found] at due
      cases gone with
      | true =>
        refine ⟨seen, nofun, fun other waiting => ⟨(due other waiting).1, fun inside probed => ?_⟩⟩
        obtain ⟨apart, inside⟩ := mem_remove.mp inside
        exact ((due other waiting).2 inside probed).resolve_left fun same => apart same.1.symm
      | false =>
        refine ⟨seen, nofun, fun other waiting => ⟨(due other waiting).1, fun inside probed => ?_⟩⟩
        exact ((due other waiting).2 inside probed).resolve_left fun same => nomatch same.2
    next => cases taken
  | stopRuntime =>
    simp only [CallLife.step] at taken
    split at taken
    next => cases taken; exact ⟨nofun, nofun, nofun⟩
    next => cases taken
  | clearCalls => cases taken; exact pass.idle effect rfl rfl rfl
  | requestSession uuid | destroySession uuid =>
    simp only [CallLife.step] at taken
    split at taken
    next => cases taken; exact pass.idle effect rfl rfl rfl
    next => cases taken
  | newState uuid bound =>
    simp only [CallLife.step] at taken
    split at taken
    next => split at taken <;> cases taken <;> exact pass.idle effect rfl rfl rfl
    next => cases taken
  | insertState uuid =>
    simp only [CallLife.step] at taken
    split at taken
    next => cases taken; exact pass.idle effect rfl rfl rfl
    next => cases taken
  | killChannel uuid sig =>
    simp only [CallLife.step] at taken
    split at taken
    next => cases taken
    next => cases taken
    next => split at taken <;> cases taken <;> exact pass.idle effect rfl rfl rfl
    next => split at taken <;> cases taken <;> exact pass.idle effect rfl rfl rfl

end

section
variable {s s' : State}

theorem Tasks.congr (tasks : Tasks s) (owns : ∀ uuid task, s'.Owns uuid task ↔ s.Owns uuid task)
    (same : s'.tasks = s.tasks) (next : s'.nextTask = s.nextTask) (runtime : s'.runtime = s.runtime)
    (served : s'.served = s.served) : Tasks s' := by
  obtain ⟨fresh, single, owned, nodup, running, stopped⟩ := tasks
  constructor <;> simp only [owns, same, next, runtime, served] <;> assumption

theorem owns_of_returned {uuid : Uuid} {task : Nat} (returned : s.returned uuid) (owns : s.Owns uuid task) :
    s.calls.lookup uuid = some task :=
  owns.resolve_right fun holding => by
    rcases returned with live | gone
    · cases live.symm.trans holding
    · cases gone.symm.trans holding

/-- The other way round a session whose `outgoing_channel` is still running has no entry. -/
theorem lookup_of_unreturned (entries : Entries s) {uuid : Uuid} (unreturned : ¬s.returned uuid) :
    s.calls.lookup uuid = none :=
  AList.lookup_eq_none.mpr fun inside => unreturned (entries.keyed uuid inside)

theorem owns_remove {uuid other : Uuid} {task : Nat} (returned : s.returned uuid) :
    (s.remove uuid).Owns other task ↔ other ≠ uuid ∧ s.Owns other task := by
  unfold State.Owns
  by_cases same : other = uuid
  · subst same
    simp only [State.remove, AList.lookup_erase, ne_eq, not_true_eq_false, false_and, iff_false]
    rintro (entry | holding)
    · cases entry
    · rcases returned with live | gone
      · cases live.symm.trans holding
      · cases gone.symm.trans holding
  · simp only [State.remove, AList.lookup_erase_ne same, ne_eq, same, not_false_eq_true, true_and]

theorem Tasks.remove (tasks : Tasks s) {uuid : Uuid} (returned : s.returned uuid) : Tasks (s.remove uuid) := by
  cases entry : s.calls.lookup uuid with
  | none => rwa [remove_absent (AList.lookup_eq_none.mp entry)]
  | some dropped =>
    have left : (s.remove uuid).tasks = s.tasks.erase dropped := by rw [State.remove, entry]; rfl
    have kept : ∀ task, task ∈ (s.remove uuid).tasks ↔ task ≠ dropped ∧ task ∈ s.tasks := by
      intro task
      rw [left]
      exact tasks.nodup.mem_erase_iff
    constructor
    · exact fun other task owns => tasks.fresh other task ((owns_remove returned).mp owns).2
    · intro first second task owns owns'
      exact tasks.single first second task ((owns_remove returned).mp owns).2 ((owns_remove returned).mp owns').2
    · intro task inside
      obtain ⟨apart, inside⟩ := (kept task).mp inside
      obtain ⟨other, owns⟩ := tasks.owned task inside
      refine ⟨other, (owns_remove returned).mpr ⟨?_, owns⟩⟩
      rintro rfl
      have same := (owns_of_returned returned owns).symm.trans entry
      exact apart (Option.some.inj same)
    · rw [left]
      exact tasks.nodup.erase dropped
    · intro on other served task owns
      obtain ⟨apart, owns⟩ := (owns_remove returned).mp owns
      refine (kept task).mpr ⟨?_, tasks.running on other served task owns⟩
      rintro rfl
      exact apart (tasks.single other uuid task owns (.inl entry))
    · intro off
      rw [left, tasks.stopped off]
      rfl

theorem mem_values {task : Nat} : task ∈ s.calls.entries.map (·.2) ↔ ∃ uuid, s.calls.lookup uuid = some task := by
  rw [List.mem_map]
  constructor
  · rintro ⟨⟨uuid, _⟩, inside, rfl⟩
    exact ⟨uuid, AList.mem_lookup_iff.mpr inside⟩
  · rintro ⟨uuid, entry⟩
    exact ⟨⟨uuid, task⟩, AList.mem_lookup_iff.mp entry, rfl⟩

theorem Tasks.step (tasks : Tasks s) (entries : Entries s) (pass : Pass s) (effect : Effect s s') : Tasks s' := by
  cases effect with
  | keeps => exact tasks
  | loads off =>
    exact ⟨tasks.fresh, tasks.single, tasks.owned, tasks.nodup, nofun, nofun⟩
  | moves other session forward =>
    refine tasks.congr (fun uuid task => ?_) rfl rfl rfl rfl
    unfold State.Owns
    rw [setSession_calls, setSession_sessions]
    split
    next same =>
      subst same
      refine or_congr_right ?_
      rcases forward with ⟨before, rfl⟩ | ⟨before, rfl⟩ | ⟨before, rfl⟩ <;> simp [before]
    next => exact Iff.rfl
  | serves other before on =>
    have unreturned : ¬s.returned other := by simp [State.returned, before]
    have absent := lookup_of_unreturned entries unreturned
    have owns : ∀ uuid task, State.Owns
        { s.setSession other (.holding s.nextTask) with
          tasks := s.tasks ++ [s.nextTask], nextTask := s.nextTask + 1, served := other :: s.served } uuid task ↔
        uuid = other ∧ task = s.nextTask ∨ uuid ≠ other ∧ s.Owns uuid task := by
      intro uuid task
      simp only [State.Owns, setSession_calls, setSession_sessions]
      by_cases same : uuid = other
      · subst same
        simp [absent, eq_comm]
      · simp [same]
    have below : ∀ task ∈ s.tasks, task < s.nextTask := by
      intro task inside
      obtain ⟨uuid, owned⟩ := tasks.owned task inside
      exact tasks.fresh uuid task owned
    constructor
    · intro uuid task owned
      rcases (owns uuid task).mp owned with ⟨_, rfl⟩ | ⟨_, owned⟩
      · exact Nat.lt_succ_self _
      · exact Nat.lt_succ_of_lt (tasks.fresh uuid task owned)
    · intro first second task owned owned'
      rcases (owns first task).mp owned with ⟨here, new⟩ | ⟨_, older⟩ <;>
        rcases (owns second task).mp owned' with ⟨here', new'⟩ | ⟨_, older'⟩
      · exact here.trans here'.symm
      · exact absurd (new ▸ tasks.fresh second task older') (Nat.lt_irrefl _)
      · exact absurd (new' ▸ tasks.fresh first task older) (Nat.lt_irrefl _)
      · exact tasks.single first second task older older'
    · intro task inside
      rcases List.mem_append.mp inside with inside | added
      · obtain ⟨uuid, owned⟩ := tasks.owned task inside
        refine ⟨uuid, (owns uuid task).mpr (.inr ⟨?_, owned⟩)⟩
        rintro rfl
        rcases owned with entry | holding
        · cases absent.symm.trans entry
        · cases before.symm.trans holding
      · exact ⟨other, (owns other task).mpr (.inl ⟨rfl, List.mem_singleton.mp added⟩)⟩
    · refine List.nodup_append'.mpr ⟨tasks.nodup, List.nodup_singleton _, ?_⟩
      rw [List.disjoint_singleton]
      exact fun inside => Nat.lt_irrefl _ (below _ inside)
    · intro _ uuid served task owned
      rcases (owns uuid task).mp owned with ⟨_, rfl⟩ | ⟨apart, owned⟩
      · exact List.mem_append_right _ (List.mem_singleton_self _)
      · exact List.mem_append_left _
          (tasks.running on uuid ((List.mem_cons.mp served).resolve_left apart) task owned)
    · exact fun off => absurd (on.symm.trans off) (by decide)
  | inserts other task before =>
    have unreturned : ¬s.returned other := by simp [State.returned, before]
    have absent := lookup_of_unreturned entries unreturned
    refine tasks.congr (fun uuid task' => ?_) rfl rfl rfl rfl
    unfold State.Owns
    by_cases same : uuid = other
    · subst same
      simp [absent, before, AList.lookup_insert]
    · simp [same, AList.lookup_insert_ne same]
  | kills other before =>
    exact (tasks.remove (.inl before)).congr (fun _ _ => Iff.rfl) rfl rfl rfl rfl
  | killsEarly other early =>
    rwa [remove_absent fun inside => early (entries.keyed other inside)]
  | passes reaper due unprobed => exact tasks.congr (fun _ _ => Iff.rfl) rfl rfl rfl rfl
  | reaps other rest found =>
    exact (tasks.remove (.inr (pass.gone other rest found))).congr (fun _ _ => Iff.rfl) rfl rfl rfl rfl
  | clears =>
    have kept : ∀ task, task ∈ s.tasks.removeAll (s.calls.entries.map (·.2)) ↔
        task ∈ s.tasks ∧ ¬∃ uuid, s.calls.lookup uuid = some task := by
      intro task
      rw [← mem_values]
      simp [List.removeAll]
    constructor
    · rintro uuid task (entry | holding)
      · cases entry
      · exact tasks.fresh uuid task (.inr holding)
    · rintro first second task (entry | holding) (entry' | holding')
      · cases entry
      · cases entry
      · cases entry'
      · exact tasks.single first second task (.inr holding) (.inr holding')
    · intro task inside
      obtain ⟨inside, free⟩ := (kept task).mp inside
      obtain ⟨uuid, entry | holding⟩ := tasks.owned task inside
      · exact absurd ⟨uuid, entry⟩ free
      · exact ⟨uuid, .inr holding⟩
    · exact tasks.nodup.filter _
    · rintro on uuid served task (entry | holding)
      · cases entry
      · refine (kept task).mpr ⟨tasks.running on uuid served task (.inr holding), ?_⟩
        rintro ⟨other, entry⟩
        have same := tasks.single uuid other task (.inr holding) (.inl entry)
        subst same
        have before : s.sessions uuid = .holding task := holding
        have unreturned : ¬s.returned uuid := by simp [State.returned, before]
        cases (lookup_of_unreturned entries unreturned).symm.trans entry
    · intro off
      have none_left := tasks.stopped off
      rw [none_left]
      rfl
  | stops =>
    exact ⟨tasks.fresh, tasks.single, nofun, List.nodup_nil, nofun, fun _ => rfl⟩

end

section
variable {actions : List Action} {s : State}

theorem invariants_of_run (taken : run step {} actions = some s) : Entries s ∧ Pass s ∧ Tasks s := by
  have preserved : ∀ (s : State) (action : Action) (s' : State), Entries s ∧ Pass s ∧ Tasks s →
      step s action = some s' → Entries s' ∧ Pass s' ∧ Tasks s' := by
    rintro before action after ⟨entries, pass, tasks⟩ stepped
    have effect := effect_of_step stepped
    exact ⟨entries.step pass effect, pass.step entries stepped, tasks.step entries pass effect⟩
  refine invariant_of_any_run preserved ⟨?_, ?_, ?_⟩ taken
  · exact ⟨fun uuid inside => absurd inside (AList.notMem_empty uuid), nofun, nofun, nofun, nofun⟩
  · exact ⟨nofun, nofun, nofun⟩
  · refine ⟨?_, ?_, nofun, List.nodup_nil, nofun, fun _ => rfl⟩
    · rintro uuid task (entry | holding)
      · cases entry
      · cases holding
    · rintro uuid other task (entry | holding)
      · cases entry
      · cases holding

/-- A call that was given its tasks keeps its entry and them until it is killed, its session is destroyed
or the module is shut down, whatever the reaper and the other calls do; no other call has these tasks. -/
theorem media_held {uuid : Uuid} (taken : run step {} actions = some s) (served : uuid ∈ s.served)
    (live : s.sessions uuid = .live) (unkilled : uuid ∉ s.killed) (loaded : s.cleared = false) :
    ∃ task ∈ s.tasks, s.calls.lookup uuid = some task ∧ ∀ other, s.Owns other task → other = uuid := by
  obtain ⟨entries, _, tasks⟩ := invariants_of_run taken
  have inside := entries.held uuid served loaded live unkilled
  obtain ⟨task, entry⟩ := Option.isSome_iff_exists.mp (AList.lookup_isSome.mpr inside)
  have on := entries.up uuid served loaded
  refine ⟨task, tasks.running on uuid served task (.inl entry), entry, fun other owns => ?_⟩
  exact tasks.single other uuid task owns (.inl entry)

/-- Nothing outlives its call. A task that runs belongs to one call, which is in `CALLS` or about to be; a call
that was killed after `outgoing_channel` returned has no entry; between its passes the reaper has removed each
entry whose session was gone when the last one began, unless its probe failed; and none of it outlives the runtime. -/
theorem media_released (taken : run step {} actions = some s) :
    (∀ task ∈ s.tasks, ∃ uuid, s.Owns uuid task ∧ ∀ other, s.Owns other task → other = uuid) ∧
      (∀ uuid ∈ s.killed, uuid ∉ s.calls) ∧
      (s.reaper = .sleeping → ∀ uuid ∈ s.due, uuid ∈ s.calls → uuid ∈ s.unprobed) ∧
      (s.runtime = false → s.tasks = []) := by
  obtain ⟨entries, pass, tasks⟩ := invariants_of_run taken
  refine ⟨fun task inside => ?_, fun uuid killed => (entries.freed uuid killed).2, ?_, tasks.stopped⟩
  · obtain ⟨uuid, owns⟩ := tasks.owned task inside
    exact ⟨uuid, owns, fun other owns' => tasks.single other uuid task owns' owns⟩
  · intro sleeping uuid due inside
    have later := (pass.due uuid due).2 inside
    rw [sleeping] at later
    exact Decidable.of_not_not later

end

def threeCalls : List Action :=
  [.load, .requestSession "a", .newState "a" true, .insertState "a", .requestSession "b", .newState "b" true,
    .requestSession "c", .insertState "b", .newState "c" true, .insertState "c", .killChannel "a" 2,
    .killChannel "b" 1, .destroySession "c", .tick, .collect "a", .collect "c", .collected, .probe false, .reap,
    .probe false, .reap, .probe false]

theorem threeCalls_held : ∃ s, run step {} threeCalls = some s ∧
    ∃ task ∈ s.tasks, s.calls.lookup "a" = some task ∧ ∀ other, s.Owns other task → other = "a" := by
  have taken : ∃ s, run step {} threeCalls = some s ∧ "a" ∈ s.served ∧ s.sessions "a" = .live ∧ "a" ∉ s.killed ∧
      s.cleared = false := ⟨_, rfl, by decide, by decide, by decide, rfl⟩
  obtain ⟨s, ran, served, live, unkilled, loaded⟩ := taken
  exact ⟨s, ran, media_held ran served live unkilled loaded⟩

theorem threeCalls_released : ∃ s, run step {} threeCalls = some s ∧
    s.killed = ["b"] ∧ s.due = ["c"] ∧ s.tasks = [0] ∧
    (s.reaper = .sleeping → ∀ uuid ∈ s.due, uuid ∈ s.calls → uuid ∈ s.unprobed) := by
  have taken : ∃ s, run step {} threeCalls = some s ∧ s.killed = ["b"] ∧ s.due = ["c"] ∧ s.tasks = [0] :=
    ⟨_, rfl, by decide, by decide, by decide⟩
  obtain ⟨s, ran, killed, due, tasks⟩ := taken
  exact ⟨s, ran, killed, due, tasks, (media_released ran).2.2.1⟩

end Fswtch.Unicast.CallLife
