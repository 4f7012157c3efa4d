import Mathlib.Data.List.Basic
import Fswtch.Seat.TtsSessionSound

/-! The requests of a session that are still under way. Where every call is `start` or a
first sentence, a request gets under way by the installation of its task and by nothing
else, and a task once cancelled stays cancelled. -/

namespace Fswtch.Seat.TtsSession

def Session.sendingTask (s : Session) : Option Nat :=
  match s.sendMutex with
  | some (_, .sending) => s.current.map ActiveTask.id
  | _ => none

def DriverPhase.delivering : DriverPhase → Option Nat
  | .deliver task _ _ => task
  | _ => none

/-- The tasks with a request about to be sent, on the channel or with the server, or with
audio on its way. -/
def Session.outstanding (s : Session) : List Nat :=
  s.sendingTask.toList ++ s.driver.commands.filterMap DriverCmd.task ++
    s.driver.requests.filterMap id ++ s.driver.socket.filterMap Frame.task ++
    s.driver.phase.delivering.toList

theorem mem_outstanding {s : Session} {r : Nat} :
    r ∈ s.outstanding ↔ s.sendingTask = some r ∨ (∃ command ∈ s.driver.commands, command.task = some r) ∨
      some r ∈ s.driver.requests ∨ (∃ frame ∈ s.driver.socket, frame.task = some r) ∨
      s.driver.phase.delivering = some r := by
  simp only [Session.outstanding, List.mem_append, Option.mem_toList, List.mem_filterMap, id, exists_eq_right,
    or_assoc]

/-- Every part of the work under way was under way before. -/
structure LessWork (s s' : Session) : Prop where
  sending : ∀ r, s'.sendingTask = some r → r ∈ s.outstanding
  commands : ∀ command ∈ s'.driver.commands, ∀ r, command.task = some r → r ∈ s.outstanding
  requests : ∀ r, some r ∈ s'.driver.requests → r ∈ s.outstanding
  socket : ∀ frame ∈ s'.driver.socket, ∀ r, frame.task = some r → r ∈ s.outstanding
  delivering : ∀ r, s'.driver.phase.delivering = some r → r ∈ s.outstanding

theorem LessWork.outstanding {s s' : Session} (less : LessWork s s') {r : Nat}
    (member : r ∈ s'.outstanding) : r ∈ s.outstanding := by
  rcases mem_outstanding.mp member with sending | ⟨command, queued, task⟩ | requested |
    ⟨frame, arriving, task⟩ | delivering
  · exact less.sending r sending
  · exact less.commands command queued r task
  · exact less.requests r requested
  · exact less.socket frame arriving r task
  · exact less.delivering r delivering

theorem LessWork.same {s s' : Session} (driver : s'.driver = s.driver)
    (sending : ∀ r, s'.sendingTask = some r → r ∈ s.outstanding) : LessWork s s' := by
  refine ⟨sending, ?_, ?_, ?_, ?_⟩
  · rw [driver]
    exact fun command queued r task => mem_outstanding.mpr (.inr (.inl ⟨command, queued, task⟩))
  · rw [driver]
    exact fun r requested => mem_outstanding.mpr (.inr (.inr (.inl requested)))
  · rw [driver]
    exact fun frame arriving r task => mem_outstanding.mpr (.inr (.inr (.inr (.inl ⟨frame, arriving, task⟩))))
  · rw [driver]
    exact fun r delivering => mem_outstanding.mpr (.inr (.inr (.inr (.inr delivering))))

theorem sendingTask_unsent {s : Session} (unsent : ∀ i, s.sendMutex ≠ some (i, .sending)) :
    s.sendingTask = none := by
  unfold Session.sendingTask
  split
  next i held => exact absurd held (unsent i)
  next => rfl

theorem LessWork.unsent {s s' : Session} (driver : s'.driver = s.driver)
    (unsent : ∀ i, s'.sendMutex ≠ some (i, .sending)) : LessWork s s' := by
  refine .same driver fun r sending => ?_
  rw [sendingTask_unsent unsent] at sending
  cases sending

theorem sending_outstanding {s s' : Session} (sendMutex : s'.sendMutex = s.sendMutex)
    (current : s'.current.map ActiveTask.id = s.current.map ActiveTask.id) (r : Nat)
    (sending : s'.sendingTask = some r) : r ∈ s.outstanding := by
  rw [Session.sendingTask, sendMutex, current] at sending
  exact mem_outstanding.mpr (.inl sending)

theorem LessWork.refl (s : Session) : LessWork s s :=
  .same rfl fun _ sending => mem_outstanding.mpr (.inl sending)

theorem LessWork.stays {s s' : Session} (sendMutex : s'.sendMutex = s.sendMutex)
    (current : s'.current.map ActiveTask.id = s.current.map ActiveTask.id)
    (commands : s'.driver.commands = s.driver.commands) (requests : s'.driver.requests = s.driver.requests)
    (socket : s'.driver.socket = s.driver.socket) (quiet : s'.driver.phase.delivering = none) :
    LessWork s s' := by
  have same := LessWork.refl s
  refine ⟨sending_outstanding sendMutex current, ?_, ?_, ?_, fun r delivering => ?_⟩
  · rw [commands]
    exact same.commands
  · rw [requests]
    exact same.requests
  · rw [socket]
    exact same.socket
  · cases quiet.symm.trans delivering

def OneShot (s : Session) : Prop :=
  ∀ call ∈ s.calls, call.kind = .start ∨ call.kind = .sentence false

theorem OneShot.only_first {s : Session} {i : Nat} (oneShot : OneShot s) (calls : CallsSound s)
    (held : s.sendMutex = some (i, .checking)) : s.calls[i]?.map Call.kind = some (.sentence false) := by
  obtain ⟨call, found, _, sentence⟩ := calls.holder i _ held
  rcases oneShot call (List.mem_of_getElem? found) with start | first
  · exact absurd start (sentence rfl)
  · rw [found, Option.map_some, first]

theorem routeFrame_task (s : Session) (frame : Frame) :
    (s.routeFrame frame).current.map ActiveTask.id = s.current.map ActiveTask.id := by
  rcases (routeFrame_spec s frame).2.1 with same | heard
  · rw [same]
  · rw [heard]
    cases found : s.current <;> simp [Session.hearAudio, found]

theorem LessWork.holds {s s' : Session} {i : Nat} {choice : Bool} {holding : Holding}
    {event : Option Event} (calls : CallsSound s) (oneShot : OneShot s)
    (held : s.sendMutex = some (i, holding)) (moved : HolderStep s i choice holding s' event) :
    LessWork s s' ∨ Installs s i choice ∧ s' = s.install.hold i .sending := by
  cases moved with
  | rests quiet work driver link mutex shown =>
    refine .inl (.unsent driver fun holder next => ?_)
    cases (mutex holder _ next).1
  | connects work driver link mutex =>
    refine .inl ⟨?_, ?_, ?_, ?_, ?_⟩
    · intro r sending
      rw [Session.sendingTask, mutex] at sending
      cases sending
    all_goals simp [driver, DriverPhase.delivering]
  | pushes command plain quiet work driver link mutex =>
    have unsent : s'.sendingTask = none := by
      refine sendingTask_unsent fun holder next => ?_
      cases (mutex holder _ next).1
    have same := LessWork.refl s
    refine .inl ⟨by simp [unsent], ?_, ?_, ?_, ?_⟩
    · rw [driver]
      intro other queued r task
      rcases List.mem_append.mp queued with old | new
      · exact same.commands other old r task
      · rw [List.mem_singleton.mp new, plain] at task
        cases task
    all_goals rw [driver]
    · exact same.requests
    · exact same.socket
    · exact same.delivering
  | installs clear => exact .inr ⟨clear, rfl⟩
  | continues other => exact absurd (oneShot.only_first calls held) other
  | sends isOpen =>
    have same := LessWork.refl s
    refine .inl ⟨nofun, ?_, same.requests, same.socket, same.delivering⟩
    intro command queued r task
    rcases List.mem_append.mp queued with old | new
    · exact same.commands command old r task
    · rw [List.mem_singleton.mp new] at task
      refine mem_outstanding.mpr (.inl ?_)
      rw [Session.sendingTask, held]
      exact task
  | fails closed => exact .inl (.unsent rfl nofun)
  | clears => exact .inl (.unsent rfl nofun)

theorem LessWork.drives {s s' : Session} {wake : Session.Wake} {event : Option Event}
    (moved : DriveStep s wake s' event) : LessWork s s' := by
  have same := LessWork.refl s
  cases moved with
  | computes here => exact .stays rfl rfl rfl rfl rfl rfl
  | idles here elapsed =>
    cases due : s.stillDue <;> exact .stays rfl rfl rfl rfl rfl rfl
  | loses here queued phase back =>
    refine ⟨same.sending, ?_, same.requests, same.socket, fun r delivering => ?_⟩
    · exact fun command old => same.commands command (queued ▸ List.mem_cons_of_mem _ old)
    · rcases back with rfl | rfl <;> cases delivering
  | requests here queued =>
    refine ⟨same.sending, ?_, ?_, same.socket, fun r delivering => by cases delivering⟩
    · exact fun command old => same.commands command (queued ▸ List.mem_cons_of_mem _ old)
    · intro r requested
      rcases List.mem_append.mp requested with old | new
      · exact same.requests r old
      · have head : DriverCmd.taskRequest _ ∈ s.driver.commands := queued ▸ List.mem_cons_self ..
        exact same.commands _ head r (List.mem_singleton.mp new).symm
  | @hears deadline frame rest woken here arrived =>
    obtain ⟨route, _, phase⟩ := routeFrame_spec (s.read rest) frame
    refine ⟨?_, ?_, ?_, ?_, ?_⟩
    · exact sending_outstanding route.sendMutex (routeFrame_task (s.read rest) frame)
    · rw [route.commands]
      exact same.commands
    · rw [route.requests]
      exact same.requests
    · rw [route.socket]
      exact fun other old => same.socket other (arrived ▸ List.mem_cons_of_mem _ old)
    · intro r delivering
      rcases phase with top | fire | ⟨⟨pcm, deliver⟩, _⟩
      · rw [top] at delivering
        cases delivering
      · rw [fire] at delivering
        cases delivering
      · rw [deliver] at delivering
        exact same.socket frame (arrived ▸ List.mem_cons_self ..) r delivering
  | dies here => exact .stays rfl rfl rfl rfl rfl rfl
  | @fires exiting here =>
    rw [Session.fireTurnComplete]
    split
    next task current =>
      split
      · cases exiting <;> exact .stays rfl rfl rfl rfl rfl rfl
      · exact .stays rfl (by simp [current]) rfl rfl rfl rfl
    next => cases exiting <;> exact .stays rfl rfl rfl rfl rfl rfl
  | @callsBack id exiting here => cases exiting <;> exact .stays rfl rfl rfl rfl rfl rfl
  | delivers here => exact .stays rfl rfl rfl rfl rfl rfl
  | closes here => exact .stays rfl rfl rfl rfl rfl rfl
  | returns here =>
    refine ⟨same.sending, ?_, ?_, ?_, fun r delivering => by cases delivering⟩
    all_goals
      intro _ member
      cases member

theorem step_lessWork {s s' : Session} {action : Session.Action} {event : Option Event}
    (linked : Linked s) (oneShot : OneShot s) (taken : s.step action = some (s', event)) :
    LessWork s s' ∨ ∃ i choice, action = .advance i choice ∧ Installs s i choice ∧
      s' = s.install.hold i .sending := by
  have same := LessWork.refl s
  cases action with
  | tick elapsed =>
    cases taken
    exact .inl ⟨same.sending, same.commands, same.requests, same.socket, same.delivering⟩
  | enter kind =>
    cases taken
    exact .inl ⟨same.sending, same.commands, same.requests, same.socket, same.delivering⟩
  | advance i choice =>
    obtain ⟨call, found, ⟨_, phase, rfl, _⟩ | ⟨_, _, holding, rfl, start⟩ | ⟨_, holding, held, moved⟩⟩ :=
      advance_cases taken
    · exact .inl ⟨same.sending, same.commands, same.requests, same.socket, same.delivering⟩
    · refine .inl (.unsent rfl ?_)
      rintro j ⟨⟩
      simp at start
    · have moves := LessWork.holds linked.calls oneShot held (advanceHolder_step (by simp [found]) held moved)
      exact moves.imp_right fun ⟨clear, done⟩ => ⟨i, choice, rfl, clear, done⟩
  | cancelCurrentTurn =>
    cases taken
    refine .inl ⟨sending_outstanding rfl ?_, same.commands, same.requests, same.socket, same.delivering⟩
    cases found : s.current <;> simp [Session.cancelCurrentTurn, found]
  | drive wake => exact .inl (.drives (drive_step taken))
  | emit answering bytes =>
    obtain ⟨_, _, task, source, rfl⟩ := emit_cases taken
    refine .inl ⟨same.sending, same.commands, same.requests, ?_, same.delivering⟩
    intro frame member r answers
    rcases List.mem_append.mp member with old | new
    · exact same.socket frame old r answers
    · rw [List.mem_singleton.mp new] at answers
      rcases source with rfl | requested
      · cases answers
      · exact same.requests r (answers ▸ requested)
  | answered =>
    cases taken
    exact .inl ⟨same.sending, same.commands, fun r member => same.requests r (List.mem_of_mem_tail member),
      same.socket, same.delivering⟩

theorem step_kinds {s s' : Session} {action : Session.Action} {event : Option Event}
    (taken : s.step action = some (s', event)) :
    (s'.calls.map Call.kind = s.calls.map Call.kind ∧ ∀ kind, action ≠ .enter kind) ∨
      ∃ kind, action = .enter kind ∧ s'.calls.map Call.kind = s.calls.map Call.kind ++ [kind] := by
  have phased : ∀ {i : Nat} {phase : CallPhase},
      (s.setPhase i phase).calls.map Call.kind = s.calls.map Call.kind := by
    intro i phase
    refine List.ext_getElem? fun j => ?_
    rw [List.getElem?_map, List.getElem?_map, getElem?_setPhase]
    split <;> cases s.calls[j]? <;> rfl
  cases action with
  | enter kind =>
    cases taken
    exact .inr ⟨kind, rfl, by simp [Session.enter]⟩
  | advance i choice =>
    refine .inl ⟨?_, by simp⟩
    obtain ⟨call, found, ⟨_, phase, rfl, _⟩ | ⟨_, _, holding, rfl, _⟩ | ⟨_, holding, held, moved⟩⟩ :=
      advance_cases taken
    · exact phased
    · exact phased
    · rcases advanceHolder_calls moved with ⟨_, _, calls, _⟩ | ⟨_, phase, calls, _⟩
      · rw [calls]
      · rw [calls]
        exact phased
  | drive wake =>
    obtain ⟨_, _, _, calls⟩ := (drive_step taken).frame
    exact .inl ⟨by rw [calls], by simp⟩
  | emit answering bytes =>
    obtain ⟨_, _, task, _, rfl⟩ := emit_cases taken
    exact .inl ⟨rfl, by simp⟩
  | tick | cancelCurrentTurn | answered =>
    cases taken
    exact .inl ⟨rfl, by simp⟩

theorem step_kind {s s' : Session} {action : Session.Action} {event : Option Event} {i : Nat}
    {kind : CallKind} (taken : s.step action = some (s', event))
    (known : s.calls[i]?.map Call.kind = some kind) : s'.calls[i]?.map Call.kind = some kind := by
  rw [← List.getElem?_map] at known ⊢
  rcases step_kinds taken with ⟨same, _⟩ | ⟨other, _, more⟩
  · rw [same]
    exact known
  · have bound : i < (s.calls.map Call.kind).length := (List.getElem?_eq_some_iff.mp known).choose
    rw [more, List.getElem?_append_left bound]
    exact known

theorem step_oneShot {s s' : Session} {action : Session.Action} {event : Option Event} (oneShot : OneShot s)
    (first : ∀ kind, action = .enter kind → kind = .start ∨ kind = .sentence false)
    (taken : s.step action = some (s', event)) : OneShot s' := by
  intro call member
  have kind : call.kind ∈ s'.calls.map Call.kind := List.mem_map_of_mem member
  have old : call.kind ∈ s.calls.map Call.kind → call.kind = .start ∨ call.kind = .sentence false := by
    intro known
    obtain ⟨before, found, same⟩ := List.mem_map.mp known
    rw [← same]
    exact oneShot before found
  rcases step_kinds taken with ⟨same, _⟩ | ⟨new, entered, more⟩
  · exact old (same ▸ kind)
  · rw [more] at kind
    rcases List.mem_append.mp kind with known | added
    · exact old known
    · rw [List.mem_singleton.mp added]
      exact first new entered

theorem step_cancelledTasks {s s' : Session} {action : Session.Action} {event : Option Event}
    (taken : s.step action = some (s', event)) : ∀ r ∈ s.cancelledTasks, r ∈ s'.cancelledTasks := by
  cases action with
  | advance i choice =>
    obtain ⟨call, found, ⟨_, phase, rfl, _⟩ | ⟨_, _, holding, rfl, _⟩ | ⟨_, holding, held, moved⟩⟩ :=
      advance_cases taken
    · exact fun r member => member
    · exact fun r member => member
    · cases advanceHolder_step (by simp [found]) held moved with
      | rests quiet work driver link mutex shown => exact work.cancelledTasks ▸ fun r member => member
      | connects work driver link mutex => exact work.cancelledTasks ▸ fun r member => member
      | pushes command plain quiet work driver link mutex =>
        exact work.cancelledTasks ▸ fun r member => member
      | installs clear => exact fun r member => List.mem_append_left _ member
      | continues | sends | fails | clears => exact fun r member => member
  | cancelCurrentTurn =>
    cases taken
    exact fun r member => List.mem_append_left _ member
  | drive wake =>
    cases drive_step taken with
    | hears woken here arrived =>
      rw [(routeFrame_spec (s.read _) _).1.cancelledTasks]
      exact fun r member => member
    | fires here =>
      rw [Session.fireTurnComplete]
      split
      · split <;> exact fun r member => member
      · exact fun r member => member
    | _ => exact fun r member => member
  | emit answering bytes =>
    obtain ⟨_, _, task, _, rfl⟩ := emit_cases taken
    exact fun r member => member
  | tick | enter | answered =>
    cases taken
    exact fun r member => member

/-- The invariant of a session whose sentences each open a turn. -/
structure Steady (s : Session) : Prop where
  linked : Linked s
  oneShot : OneShot s
  fresh : ∀ task ∈ s.current, task.id < s.nextTask
  numbered : ∀ r ∈ s.outstanding, r < s.nextTask

theorem initial_steady (now : Instant) : Steady { now } :=
  ⟨initial_linked now, nofun, nofun, nofun⟩

theorem step_outstanding {s s' : Session} {action : Session.Action} {event : Option Event}
    (steady : Steady s) (taken : s.step action = some (s', event)) {r : Nat} (member : r ∈ s'.outstanding) :
    r ∈ s.outstanding ∨
      ∃ i choice, action = .advance i choice ∧ Installs s i choice ∧ r = s.nextTask := by
  rcases step_lessWork steady.linked steady.oneShot taken with less | ⟨i, choice, same, clear, rfl⟩
  · exact .inl (less.outstanding member)
  · rcases mem_outstanding.mp member with sending | rest
    · cases sending
      exact .inr ⟨i, choice, same, clear, rfl⟩
    · exact .inl (mem_outstanding.mpr (.inr rest))

theorem step_nextTask {s s' : Session} {action : Session.Action} {event : Option Event}
    (taken : s.step action = some (s', event)) (fresh : ∀ task ∈ s.current, task.id < s.nextTask) :
    s.nextTask ≤ s'.nextTask ∧ ∀ task ∈ s'.current, task.id < s'.nextTask := by
  cases step_tasks taken with
  | keeps change same current nextTask ended phase =>
    refine ⟨Nat.le_of_eq nextTask.symm, fun task held => ?_⟩
    rw [current] at held
    obtain ⟨before, known, rfl⟩ := Option.mem_map.mp held
    rw [(same before).1, nextTask]
    exact fresh before known
  | installs clear =>
    refine ⟨Nat.le_succ _, ?_⟩
    rintro task ⟨⟩
    exact Nat.lt_succ_self _
  | clears held => exact ⟨Nat.le_refl _, nofun⟩
  | completes here task current uncompleted =>
    refine ⟨Nat.le_refl _, ?_⟩
    rintro other ⟨⟩
    exact fresh task current
  | ends here => exact ⟨Nat.le_refl _, fresh⟩

theorem step_current {s s' : Session} {action : Session.Action} {event : Option Event}
    (taken : s.step action = some (s', event)) :
    (s'.nextTask = s.nextTask ∧ ∀ task ∈ s'.current, ∃ before ∈ s.current, before.id = task.id) ∨
      ∃ i choice, action = .advance i choice ∧ Installs s i choice ∧ s' = s.install.hold i .sending := by
  cases step_tasks taken with
  | keeps change same current nextTask ended phase =>
    refine .inl ⟨nextTask, fun task held => ?_⟩
    rw [current] at held
    obtain ⟨before, known, rfl⟩ := Option.mem_map.mp held
    exact ⟨before, known, (same before).1.symm⟩
  | installs clear => exact .inr ⟨_, _, rfl, clear, rfl⟩
  | clears held => exact .inl ⟨rfl, nofun⟩
  | completes here task current uncompleted =>
    refine .inl ⟨rfl, ?_⟩
    rintro other ⟨⟩
    exact ⟨task, current, rfl⟩
  | ends here => exact .inl ⟨rfl, fun task held => ⟨task, held, rfl⟩⟩

theorem step_steady {s s' : Session} {action : Session.Action} {event : Option Event} (steady : Steady s)
    (first : ∀ kind, action = .enter kind → kind = .start ∨ kind = .sentence false)
    (taken : s.step action = some (s', event)) : Steady s' := by
  obtain ⟨more, fresh⟩ := step_nextTask taken steady.fresh
  refine ⟨step_linked steady.linked taken, step_oneShot steady.oneShot first taken, fresh, ?_⟩
  intro r member
  rcases step_lessWork steady.linked steady.oneShot taken with less | ⟨i, choice, _, _, rfl⟩
  · exact Nat.lt_of_lt_of_le (steady.numbered r (less.outstanding member)) more
  · rcases mem_outstanding.mp member with sending | rest
    · cases sending
      exact Nat.lt_succ_self _
    · exact Nat.lt_of_lt_of_le (steady.numbered r (mem_outstanding.mpr (.inr rest))) more

end Fswtch.Seat.TtsSession
