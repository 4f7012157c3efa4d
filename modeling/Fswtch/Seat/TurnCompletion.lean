import Fswtch.Lib.StepRun
import Fswtch.Seat.TtsSessionSound

/-! Turn completion. Each installed task ends at most once and while it is current, and
an uncompleted task always has a driver that will not sleep past its deadline, as long
as no task comes in the two windows where the driver has fired and not yet called back,
or not yet returned. -/

namespace Fswtch.Seat.TtsSession
open Fswtch.Lib.StepRun

/-- The driver is running, and not asleep without the deadline of the current task. -/
structure DeadlineHeld (s : Session) : Prop where
  live : s.driver.phase ≠ .off
  staying : s.driver.phase ≠ .returning ∧ ∀ id, s.driver.phase ≠ .callback id true
  armed : ∀ deadline, s.driver.phase = .select deadline →
    (deadline = s.turnDeadline ∧ s.turnDeadline ≠ none) ∨ s.driver.commands ≠ []

def NoSentenceInFlight (s : Session) : Prop :=
  ∀ call ∈ s.calls, call.kind = .start ∨ ∃ result, call.phase = .returned result

structure CompletesOnce (s : Session) : Prop where
  once : (s.ended.map Prod.fst).Nodup
  current : ∀ e ∈ s.ended, e.2 = some e.1
  held : NoSentenceInFlight s → ∀ task ∈ s.current, task.completed = false → DeadlineHeld s

def DriverPhase.past : DriverPhase → Bool
  | .off | .returning => true
  | _ => false

/-- The steps that lose no completion: no task is installed between the completion of the
one before it and its callback, and none that is uncompleted is sent to a driver past its
last fire. -/
def Timely (s : Session) : Session.Action → Prop
  | .advance i choice =>
    (Installs s i choice → s.driver.phase.calling = false) ∧
      (s.sendMutex = some (i, .sending) → s.driver.phase = .returning →
        ∀ task ∈ s.current, task.completed = true)
  | _ => True

instance decidableTimely (s : Session) : (action : Session.Action) → Decidable (Timely s action)
  | .advance i choice =>
    have : Decidable (∀ task ∈ s.current, task.completed = true) :=
      decidable_of_iff (s.current.all ActiveTask.completed = true) (by simp [Option.all_eq_true])
    inferInstanceAs (Decidable ((Installs s i choice → _) ∧ (_ → _ → _)))
  | .tick _ | .enter _ | .cancelCurrentTurn | .drive _ | .emit _ _ | .answered => isTrue trivial

structure TasksSound (s : Session) : Prop where
  fresh : ∀ task ∈ s.current, task.id < s.nextTask
  past : ∀ id ∈ s.ended.map Prod.fst, id < s.nextTask
  once : (s.ended.map Prod.fst).Nodup
  own : ∀ e ∈ s.ended, e.2 = some e.1
  done : ∀ task ∈ s.current, task.id ∈ s.ended.map Prod.fst → task.completed = true
  calling : ∀ id exiting, s.driver.phase = .callback id exiting →
    id ∉ s.ended.map Prod.fst ∧ ∃ task ∈ s.current, task.id = id ∧ task.completed = true
  timed : ∀ task ∈ s.current, task.Timed

theorem TasksSound.keeps {s s' : Session} (sound : TasksSound s) (change : ActiveTask → ActiveTask)
    (same : ∀ task, (change task).id = task.id ∧ (change task).completed = task.completed ∧
      (task.Timed → (change task).Timed))
    (current : s'.current = s.current.map change) (nextTask : s'.nextTask = s.nextTask)
    (ended : s'.ended = s.ended)
    (phase : ∀ id exiting, s'.driver.phase = .callback id exiting →
      s.driver.phase = .callback id exiting) : TasksSound s' := by
  have source : ∀ task' ∈ s'.current, ∃ task ∈ s.current, change task = task' := by
    intro task' held
    rw [current] at held
    exact Option.mem_map.mp held
  refine ⟨?_, ?_, ended ▸ sound.once, ended ▸ sound.own, ?_, ?_, ?_⟩
  · intro task' held
    obtain ⟨task, before, rfl⟩ := source task' held
    rw [(same task).1, nextTask]
    exact sound.fresh task before
  · rw [ended, nextTask]
    exact sound.past
  · intro task' held finished
    obtain ⟨task, before, rfl⟩ := source task' held
    rw [(same task).1, ended] at finished
    rw [(same task).2.1]
    exact sound.done task before finished
  · intro id exiting there
    obtain ⟨absent, task, held, named, completed⟩ := sound.calling id exiting (phase id exiting there)
    refine ⟨ended ▸ absent, change task, ?_, (same task).1.trans named, (same task).2.1.trans completed⟩
    rw [current]
    exact Option.mem_map.mpr ⟨task, held, rfl⟩
  · intro task' held
    obtain ⟨task, before, rfl⟩ := source task' held
    exact (same task).2.2 (sound.timed task before)

theorem TasksSound.installs {s : Session} (sound : TasksSound s) (i : Nat)
    (clear : s.driver.phase.calling = false) : TasksSound (s.install.hold i .sending) := by
  refine ⟨?_, fun id old => Nat.lt_succ_of_lt (sound.past id old), sound.once, sound.own, ?_, ?_, ?_⟩
  · rintro task ⟨⟩
    exact Nat.lt_succ_self _
  · rintro task ⟨⟩ finished
    exact absurd (sound.past _ finished) (Nat.lt_irrefl _)
  · intro id exiting there
    have there : s.driver.phase = .callback id exiting := there
    rw [there] at clear
    cases clear
  · rintro task ⟨⟩
    exact nofun

theorem TasksSound.clears {s : Session} (sound : TasksSound s) (i : Nat) (result : CallResult)
    (off : s.driver.phase = .off) :
    TasksSound ({ s with current := none }.release i (.returned result)) := by
  refine ⟨nofun, sound.past, sound.once, sound.own, nofun, ?_, nofun⟩
  intro id exiting there
  cases off.symm.trans there

theorem TasksSound.completes {s : Session} (sound : TasksSound s) (exiting : Bool) (task : ActiveTask)
    (current : s.current = some task) (uncompleted : task.completed = false) :
    TasksSound { s.goto (.callback task.id exiting) with
      current := some { task with completed := true } } := by
  refine ⟨?_, sound.past, sound.once, sound.own, ?_, ?_, ?_⟩
  · rintro other ⟨⟩
    exact sound.fresh task current
  · rintro other ⟨⟩ finished
    rfl
  · rintro id exiting ⟨⟩
    refine ⟨fun finished => ?_, _, rfl, rfl, rfl⟩
    cases uncompleted.symm.trans (sound.done task current finished)
  · rintro other ⟨⟩
    exact sound.timed task current

theorem TasksSound.ends {s : Session} (sound : TasksSound s) {id : Nat} {exiting : Bool}
    (here : s.driver.phase = .callback id exiting) :
    TasksSound { s.goto (Session.afterFire exiting) with
      ended := s.ended ++ [(id, s.current.map ActiveTask.id)] } := by
  obtain ⟨absent, task, held, rfl, completed⟩ := sound.calling id exiting here
  have current : s.current = some task := held
  refine ⟨sound.fresh, ?_, ?_, ?_, ?_, ?_, sound.timed⟩
  · intro id member
    simp only [List.map_append, List.map_cons, List.map_nil, List.mem_append, List.mem_singleton] at member
    rcases member with old | rfl
    · exact sound.past id old
    · exact sound.fresh task held
  · simp only [List.map_append, List.map_cons, List.map_nil]
    refine List.nodup_append.mpr ⟨sound.once, by simp, ?_⟩
    rintro id old _ new rfl
    exact absent (List.mem_singleton.mp new ▸ old)
  · intro e member
    rcases List.mem_append.mp member with old | new
    · exact sound.own e old
    · rw [List.mem_singleton.mp new, current]
      rfl
  · intro other same _
    cases held.symm.trans same
    exact completed
  · intro id other there
    cases exiting <;> cases there

/-- What keeps an uncompleted current task from being forgotten. -/
structure Watched (s : Session) : Prop where
  past : s.driver.phase.past = true →
    ∃ i holding, s.sendMutex = some (i, holding) ∧ (holding = .sending ∨ holding = .sendFailed)
  uncalled : s.driver.phase.calling = false
  armed : ∀ deadline, s.driver.phase = .select deadline →
    deadline = s.turnDeadline ∨ s.driver.commands ≠ [] ∨ ∃ i, s.sendMutex = some (i, .sending)

def Covered (s : Session) : Prop :=
  ∀ task ∈ s.current, task.completed = false → Watched s

theorem turnDeadline_congr {s s' : Session} (current : s'.current = s.current) :
    s'.turnDeadline = s.turnDeadline := by
  rw [Session.turnDeadline, current, Session.turnDeadline]

theorem Watched.inside {s : Session} {phase : DriverPhase} (here : s.driver.phase = phase)
    (staying : phase.past = false) (uncalled : phase.calling = false)
    (awake : phase.selecting = false) : Watched s := by
  subst here
  refine ⟨fun past => ?_, uncalled, fun due there => ?_⟩
  · cases staying.symm.trans past
  · rw [there] at awake
    cases awake

/-- A step that leaves the task, the driver and a sending call alone. -/
theorem Watched.keeps {s s' : Session} (watched : Watched s)
    (deadline : s'.turnDeadline = s.turnDeadline) (phase : s'.driver.phase = s.driver.phase)
    (commands : s.driver.commands ≠ [] → s'.driver.commands ≠ [])
    (mutex : ∀ i holding, s.sendMutex = some (i, holding) →
      holding = .sending ∨ holding = .sendFailed → s'.sendMutex = some (i, holding)) : Watched s' := by
  refine ⟨fun past => ?_, phase ▸ watched.uncalled, fun due there => ?_⟩
  · obtain ⟨i, holding, held, sending⟩ := watched.past (phase ▸ past)
    exact ⟨i, holding, mutex i holding held sending, sending⟩
  · rcases watched.armed due (phase ▸ there) with same | queued | ⟨i, held⟩
    · exact .inl (same.trans deadline.symm)
    · exact .inr (.inl (commands queued))
    · exact .inr (.inr ⟨i, mutex i _ held (.inl rfl)⟩)

theorem Covered.holds {s s' : Session} {i : Nat} {choice : Bool} {holding : Holding}
    (covered : Covered s) (link : LinkSound s) (held : s.sendMutex = some (i, holding))
    {event : Option Event} (timely : Timely s (.advance i choice))
    (moved : HolderStep s i choice holding s' event) : Covered s' := by
  intro task current uncompleted
  cases moved with
  | rests quiet work driver _ mutex shown =>
    have watched := covered task (work.current ▸ current) uncompleted
    refine watched.keeps (turnDeadline_congr work.current) (driver ▸ rfl) (driver ▸ id) ?_
    rintro j other same (rfl | rfl) <;> cases held.symm.trans same <;> simp at quiet
  | connects work driver _ mutex =>
    exact .inside (congrArg Driver.phase driver) rfl rfl rfl
  | pushes command plain quiet work driver _ mutex =>
    have watched := covered task (work.current ▸ current) uncompleted
    refine watched.keeps (turnDeadline_congr work.current) (driver ▸ rfl) ?_ ?_
    · intro _
      simp [driver, Session.push]
    · rintro j other same (rfl | rfl) <;> cases held.symm.trans same <;> simp at quiet
  | installs now =>
    exact ⟨fun _ => ⟨i, .sending, rfl, .inl rfl⟩, timely.1 now,
      fun _ _ => .inr (.inr ⟨i, rfl⟩)⟩
  | continues other =>
    have watched := covered task current uncompleted
    exact ⟨fun _ => ⟨i, .sending, rfl, .inl rfl⟩, watched.uncalled,
      fun _ _ => .inr (.inr ⟨i, rfl⟩)⟩
  | sends isOpen =>
    have watched := covered task current uncompleted
    refine ⟨fun past => ?_, watched.uncalled, fun _ _ => .inr (.inl ?_)⟩
    · have past : s.driver.phase.past = true := past
      cases here : s.driver.phase with
      | off =>
        rw [Session.channelOpen, here] at isOpen
        cases isOpen
      | returning => cases uncompleted.symm.trans (timely.2 held here task current)
      | _ =>
        rw [here] at past
        cases past
    · simp [Session.release, Session.setPhase, Session.push]
  | fails closed =>
    have watched := covered task current uncompleted
    have off : s.driver.phase = .off := link.off closed
    refine ⟨fun _ => ⟨i, .sendFailed, rfl, .inr rfl⟩, watched.uncalled, fun due there => ?_⟩
    cases off.symm.trans there
  | clears => cases current

theorem Covered.drives {s s' : Session} {wake : Session.Wake} {event : Option Event} (covered : Covered s)
    (moved : DriveStep s wake s' event) : Covered s' := by
  intro task current uncompleted
  cases moved with
  | computes here =>
    refine ⟨fun past => ?_, rfl, fun due there => ?_⟩
    · cases past
    cases there
    exact .inl rfl
  | idles here elapsed =>
    cases due : s.stillDue <;> exact .inside rfl rfl rfl rfl
  | loses here queued phase back =>
    rcases back with rfl | rfl <;> exact .inside rfl rfl rfl rfl
  | requests here queued => exact .inside rfl rfl rfl rfl
  | hears woken here arrived =>
    rcases (routeFrame_spec (s.read _) _).2.2 with top | fire | ⟨⟨pcm, deliver⟩, _⟩
    · exact .inside top rfl rfl rfl
    · exact .inside fire rfl rfl rfl
    · exact .inside deliver rfl rfl rfl
  | dies here => exact .inside rfl rfl rfl rfl
  | fires here =>
    rw [Session.fireTurnComplete] at current
    split at current
    next active now =>
      split at current
      next completed =>
        cases now.symm.trans current
        cases completed.symm.trans uncompleted
      next =>
        cases current
        cases uncompleted
    next now => cases now.symm.trans current
  | callsBack here =>
    have watched := covered task current uncompleted
    cases watched.uncalled.symm.trans (congrArg DriverPhase.calling here)
  | delivers here => exact .inside rfl rfl rfl rfl
  | closes here => exact .inside rfl rfl rfl rfl
  | returns here =>
    have watched := covered task current uncompleted
    refine ⟨fun _ => watched.past (congrArg DriverPhase.past here), rfl, fun due there => ?_⟩
    cases there

structure Sound (s : Session) : Prop where
  tasks : TasksSound s
  linked : Linked s
  covered : Covered s

theorem initial_sound : Sound {} :=
  ⟨⟨nofun, nofun, .nil, nofun, nofun, nofun, nofun⟩, initial_linked 0, nofun⟩

theorem tasks_next {s s' : Session} {action : Session.Action} (sound : Sound s)
    (timely : Timely s action) (moved : TaskStep s action s') : TasksSound s' := by
  cases moved with
  | keeps change same current nextTask ended phase =>
    exact sound.tasks.keeps change same current nextTask ended phase
  | installs now => exact sound.tasks.installs _ (timely.1 now)
  | clears held => exact sound.tasks.clears _ _ (sound.linked.link.failing _ held)
  | completes here task current uncompleted =>
    exact sound.tasks.completes _ task current uncompleted
  | ends here => exact sound.tasks.ends here

/-- A step that leaves the tasks' deadlines, the driver and a sending call alone. -/
theorem Covered.keeps {s s' : Session} (covered : Covered s) (deadline : s'.turnDeadline = s.turnDeadline)
    (source : ∀ task ∈ s'.current, ∃ before ∈ s.current, before.completed = task.completed)
    (phase : s'.driver.phase = s.driver.phase) (commands : s'.driver.commands = s.driver.commands)
    (mutex : ∀ i holding, s.sendMutex = some (i, holding) → s'.sendMutex = some (i, holding)) :
    Covered s' := by
  intro task current uncompleted
  obtain ⟨before, held, same⟩ := source task current
  exact (covered before held (same.trans uncompleted)).keeps deadline phase
    (commands ▸ id) fun i holding held _ => mutex i holding held

theorem covered_next {s s' : Session} {action : Session.Action} {event : Option Event} (sound : Sound s)
    (timely : Timely s action) (taken : s.step action = some (s', event)) : Covered s' := by
  have kept : ∀ {after : Session}, after.turnDeadline = s.turnDeadline → after.current = s.current →
      after.driver.phase = s.driver.phase → after.driver.commands = s.driver.commands →
      (∀ i holding, s.sendMutex = some (i, holding) → after.sendMutex = some (i, holding)) →
      Covered after := fun deadline current phase commands mutex =>
    sound.covered.keeps deadline (fun task held => ⟨task, current ▸ held, rfl⟩) phase commands mutex
  cases action with
  | tick elapsed =>
    cases taken
    exact kept rfl rfl rfl rfl fun _ _ held => held
  | enter kind =>
    cases taken
    exact kept rfl rfl rfl rfl fun _ _ held => held
  | advance i choice =>
    obtain ⟨call, found, ⟨_, phase, rfl, _⟩ | ⟨free, _, holding, rfl, _⟩ | ⟨_, holding, held, moved⟩⟩ :=
      advance_cases taken
    · exact kept rfl rfl rfl rfl fun _ _ held => held
    · refine kept rfl rfl rfl rfl fun _ _ held => ?_
      cases free.symm.trans held
    · have moved := advanceHolder_step (by simp [found]) held moved
      exact sound.covered.holds sound.linked.link held timely moved
  | cancelCurrentTurn =>
    cases taken
    refine sound.covered.keeps ?_ ?_ rfl rfl fun _ _ held => held
    · cases current : s.current <;> simp [Session.turnDeadline, Session.cancelCurrentTurn, current]
    · intro task held
      obtain ⟨before, current, rfl⟩ := Option.mem_map.mp held
      exact ⟨before, current, rfl⟩
  | drive wake => exact sound.covered.drives (drive_step taken)
  | emit answering bytes =>
    obtain ⟨_, _, task, _, rfl⟩ := emit_cases taken
    exact kept rfl rfl rfl rfl fun _ _ held => held
  | answered =>
    cases taken
    exact kept rfl rfl rfl rfl fun _ _ held => held

theorem next_sound (s : Session) (action : Session.Action) (s' : Session) (sound : Sound s)
    (timely : Timely s action) (taken : s.next action = some s') : Sound s' := by
  obtain ⟨event, stepped⟩ := next_eq_some taken
  exact ⟨tasks_next sound timely (step_tasks stepped), step_linked sound.linked stepped,
    covered_next sound timely stepped⟩

theorem turnDeadline_ne_none {s : Session} {task : ActiveTask} (current : s.current = some task)
    (uncompleted : task.completed = false) (timed : task.Timed) : s.turnDeadline ≠ none := by
  simp only [Session.turnDeadline, current, Option.bind_some, uncompleted, Bool.false_eq_true,
    if_false]
  split
  next heard => simpa using timed heard
  next => simp

theorem Sound.completesOnce {s : Session} (sound : Sound s) : CompletesOnce s := by
  refine ⟨sound.tasks.once, sound.tasks.own, ?_⟩
  intro quiet task current uncompleted
  have unsent : ∀ i holding, s.sendMutex = some (i, holding) → holding.sends = false := by
    intro i holding held
    obtain ⟨call, found, holds, sentence⟩ := sound.linked.calls.holder i holding held
    rcases quiet call (List.mem_of_getElem? found) with start | ⟨result, returned⟩
    · cases sends : holding.sends with
      | false => rfl
      | true => exact absurd start (sentence sends)
    · cases holds.symm.trans returned
  have watched := sound.covered task current uncompleted
  have staying : s.driver.phase.past = false := by
    cases past : s.driver.phase.past with
    | false => rfl
    | true => obtain ⟨i, holding, held, rfl | rfl⟩ := watched.past past <;> cases unsent i _ held
  refine ⟨fun here => ?_, ⟨fun here => ?_, fun id here => ?_⟩, fun due there => ?_⟩
  · cases staying.symm.trans (congrArg DriverPhase.past here)
  · cases staying.symm.trans (congrArg DriverPhase.past here)
  · cases watched.uncalled.symm.trans (congrArg DriverPhase.calling here)
  · rcases watched.armed due there with same | queued | ⟨i, held⟩
    · exact .inl ⟨same, turnDeadline_ne_none current uncompleted (sound.tasks.timed task current)⟩
    · exact .inr queued
    · cases unsent i _ held

def Finished (id : Nat) (s : Session) : Prop :=
  id < s.nextTask ∧ ∀ task ∈ s.current, task.id = id → task.completed = true

theorem finished_next (id : Nat) (s : Session) (action : Session.Action) (s' : Session)
    (finished : Finished id s) (taken : s.next action = some s') : Finished id s' := by
  obtain ⟨past, completed⟩ := finished
  obtain ⟨event, stepped⟩ := next_eq_some taken
  cases step_tasks stepped with
  | keeps change same current nextTask ended phase =>
    refine ⟨nextTask ▸ past, fun task held named => ?_⟩
    rw [current] at held
    obtain ⟨before, known, rfl⟩ := Option.mem_map.mp held
    rw [(same before).2.1]
    exact completed before known ((same before).1.symm.trans named)
  | installs clear =>
    refine ⟨Nat.lt_succ_of_lt past, ?_⟩
    rintro task ⟨⟩ named
    exact absurd (named ▸ past) (Nat.lt_irrefl _)
  | clears held => exact ⟨past, nofun⟩
  | completes here task current uncompleted =>
    refine ⟨past, ?_⟩
    rintro other ⟨⟩ named
    rfl
  | ends here => exact ⟨past, completed⟩

/-- In a run of timely installations and sends, completion is at most once, never undone
and never forgotten. -/
theorem completes_once {first second : List Session.Action} {middle final : Session}
    (timely : Along Session.next Timely {} (first ++ second))
    (reached : run Session.next {} first = some middle)
    (taken : run Session.next middle second = some final) :
    CompletesOnce final ∧ ∀ before ∈ middle.current, before.completed = true →
      ∀ after ∈ final.current, after.id = before.id → after.completed = true := by
  obtain ⟨early, late⟩ := along_append timely reached
  have sound : Sound middle := invariant_of_run next_sound initial_sound early reached
  refine ⟨(invariant_of_run next_sound sound late taken).completesOnce, ?_⟩
  intro before held completed
  have finished : Finished before.id middle := by
    refine ⟨sound.tasks.fresh before held, fun task known _ => ?_⟩
    cases held.symm.trans known
    exact completed
  exact (invariant_of_any_run (finished_next before.id) finished taken).2

def firstReply : List Session.Action :=
  firstRequest ++ [.emit true audioFrame, .drive .idle, .drive .frame, .drive .idle, .drive .idle,
    .tick 400, .drive .idle, .drive .idle, .drive .idle]

theorem firstReply_completes_once :
    ∃ middle final, run Session.next {} firstSentence = some middle ∧
      run Session.next middle firstReply = some final ∧ CompletesOnce final := by
  have timely : Along Session.next Timely {} (firstSentence ++ firstReply) := by decide +kernel
  exact ⟨_, _, rfl, rfl, (completes_once timely rfl rfl).1⟩

/-- The second sentence installs its task after the first has completed and before
`on_turn_end` is called. -/
def overtaken : List Session.Action :=
  firstSentence ++ firstRequest ++ [.drive .idle, .tick 15000, .drive .idle, .drive .idle] ++
    secondSentence ++ [.drive .idle]

/-- The socket dies and the exiting driver fires; the second sentence, whose session
was open when it looked, still finds the channel open and sends into it. -/
def abandoned : List Session.Action :=
  firstSentence ++ firstRequest ++
    [.enter (.sentence false), .advance 1 false, .drive .idle, .drive .dead, .drive .idle,
      .drive .idle, .drive .idle, .advance 1 false, .advance 1 false, .advance 1 false,
      .drive .idle]

theorem overtaken_abandoned_not_completesOnce :
    (∃ final, run Session.next {} overtaken = some final ∧ final.ended = [(0, some 1)] ∧
      ¬CompletesOnce final) ∧
    ∃ final, run Session.next {} abandoned = some final ∧ final.driver.phase = .off ∧
      final.calls.map Call.phase = [.returned .ok, .returned .ok] ∧
      final.current.map (fun task => (task.id, task.completed)) = some (1, false) ∧
      ¬CompletesOnce final := by
  refine ⟨⟨_, rfl, by decide +kernel, fun once => ?_⟩,
    ⟨_, rfl, by decide +kernel, by decide +kernel, by decide +kernel, fun once => ?_⟩⟩
  · exact absurd (once.current (0, some 1) (by decide +kernel)) (by decide)
  · refine (once.held ?_ { id := 1, start := 0 } (by decide +kernel) rfl).live (by decide +kernel)
    intro call member
    exact .inr ⟨.ok, by revert call; decide +kernel⟩

end Fswtch.Seat.TtsSession
