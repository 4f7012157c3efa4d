import Fswtch.Seat.TtsSessionSteps

/-! What every run of the session keeps: where a call takes the driver to be gone it is
gone, and the holder of `send_mutex` is a call that is where the mutex says. -/

namespace Fswtch.Seat.TtsSession

/-- The driver is gone wherever a call takes it to be. -/
structure LinkSound (s : Session) : Prop where
  closed : s.cmdTx = false → s.driver.phase = .off
  connecting : ∀ i, s.sendMutex = some (i, .connecting) → s.driver.phase = .off
  failing : ∀ i, s.sendMutex = some (i, .sendFailed) → s.driver.phase = .off

theorem LinkSound.off {s : Session} (sound : LinkSound s) (closed : s.channelOpen = false) :
    s.driver.phase = .off := by
  unfold Session.channelOpen at closed
  split at closed
  next off => exact off
  next => exact sound.closed closed

theorem LinkSound.same {s s' : Session} (sound : LinkSound s) (cmdTx : s'.cmdTx = s.cmdTx)
    (sendMutex : s'.sendMutex = s.sendMutex) (phase : s'.driver.phase = s.driver.phase) :
    LinkSound s' := by
  refine ⟨?_, ?_, ?_⟩
  · rw [cmdTx, phase]
    exact sound.closed
  · rw [sendMutex, phase]
    exact sound.connecting
  · rw [sendMutex, phase]
    exact sound.failing

theorem LinkSound.holds {s s' : Session} {i : Nat} {choice : Bool} {holding : Holding}
    {event : Option Event} (sound : LinkSound s) (moved : HolderStep s i choice holding s' event) :
    LinkSound s' := by
  cases moved with
  | rests quiet work driver link mutex shown =>
    have closed : s'.cmdTx = false → s'.driver.phase = .off := by
      intro dropped
      rw [driver]
      rcases link with ⟨same, _⟩ | ⟨gone, _⟩
      · exact sound.closed (same ▸ dropped)
      · exact sound.off gone
    exact ⟨closed, fun j held => closed ((mutex j _ held).2 rfl),
      fun j held => by cases (mutex j _ held).1⟩
  | connects work driver link mutex =>
    refine ⟨fun dropped => ?_, fun j held => ?_, fun j held => ?_⟩
    · cases link.1.symm.trans dropped
    · cases mutex.symm.trans held
    · cases mutex.symm.trans held
  | pushes command plain quiet work driver link mutex =>
    refine ⟨fun dropped => ?_, fun j held => absurd rfl (mutex j _ held).2,
      fun j held => by cases (mutex j _ held).1⟩
    rw [driver]
    exact sound.closed (link.1 ▸ dropped)
  | installs clear => exact ⟨sound.closed, nofun, nofun⟩
  | continues other => exact ⟨sound.closed, nofun, nofun⟩
  | sends isOpen => exact ⟨sound.closed, nofun, nofun⟩
  | fails closed => exact ⟨sound.closed, nofun, fun _ _ => sound.off closed⟩
  | clears => exact ⟨sound.closed, nofun, nofun⟩

/-- Only a running driver moves, and it leaves the calls and the channel alone. -/
theorem DriveStep.frame {s s' : Session} {wake : Session.Wake} {event : Option Event}
    (moved : DriveStep s wake s' event) :
    s.driver.phase ≠ .off ∧ s'.cmdTx = s.cmdTx ∧ s'.sendMutex = s.sendMutex ∧ s'.calls = s.calls := by
  cases moved with
  | hears woken here arrived =>
    obtain ⟨route, _⟩ := routeFrame_spec (s.read _) _
    exact ⟨by simp [here], route.cmdTx, route.sendMutex, route.calls⟩
  | fires here =>
    refine ⟨by simp [here], ?_⟩
    rw [Session.fireTurnComplete]
    split
    · split <;> exact ⟨rfl, rfl, rfl⟩
    · exact ⟨rfl, rfl, rfl⟩
  | _ => exact ⟨by simp_all, rfl, rfl, rfl⟩

theorem LinkSound.drives {s s' : Session} {wake : Session.Wake} {event : Option Event}
    (sound : LinkSound s) (moved : DriveStep s wake s' event) : LinkSound s' := by
  obtain ⟨live, cmdTx, sendMutex, _⟩ := moved.frame
  refine ⟨fun dropped => ?_, fun i held => ?_, fun i held => ?_⟩
  · exact absurd (sound.closed (cmdTx ▸ dropped)) live
  · exact absurd (sound.connecting i (sendMutex ▸ held)) live
  · exact absurd (sound.failing i (sendMutex ▸ held)) live

structure CallsSound (s : Session) : Prop where
  proper : ∀ (i : Nat) (call : Call), s.calls[i]? = some call → call.kind.allows call.phase = true
  holder : ∀ i holding, s.sendMutex = some (i, holding) → ∃ call, s.calls[i]? = some call ∧
    call.phase = .holds ∧ (holding.sends = true → call.kind ≠ .start)

theorem getElem?_setPhase (s : Session) (i j : Nat) (phase : CallPhase) :
    (s.setPhase i phase).calls[j]? =
      if i = j then s.calls[j]?.map (fun call => { call with phase }) else s.calls[j]? := by
  simp only [Session.setPhase, List.getElem?_modify]
  split <;> simp

theorem CallsSound.moves {s s' : Session} (sound : CallsSound s) {i : Nat} {phase : CallPhase}
    {call : Call} (found : s.calls[i]? = some call) (calls : s'.calls = (s.setPhase i phase).calls)
    (allowed : call.kind.allows phase = true)
    (mutex : ∀ j holding, s'.sendMutex = some (j, holding) →
      (i ≠ j ∧ s.sendMutex = some (j, holding)) ∨
        (i = j ∧ phase = .holds ∧ (holding.sends = true → call.kind ≠ .start))) : CallsSound s' := by
  refine ⟨?_, ?_⟩
  · intro j other known
    rw [calls, getElem?_setPhase] at known
    split at known
    next same =>
      subst same
      rw [found] at known
      cases known
      exact allowed
    next => exact sound.proper j other known
  · intro j holding held
    rw [calls, getElem?_setPhase]
    rcases mutex j holding held with ⟨other, before⟩ | ⟨rfl, rfl, sentence⟩
    · rw [if_neg other]
      exact sound.holder j holding before
    · rw [if_pos rfl, found]
      exact ⟨_, rfl, rfl, sentence⟩

theorem CallsSound.advances {s s' : Session} {i : Nat} {choice : Bool} {event : Option Event}
    (sound : CallsSound s) (taken : s.advance i choice = some (s', event)) : CallsSound s' := by
  obtain ⟨call, found, cases_⟩ := advance_cases taken
  rcases cases_ with ⟨elsewhere, phase, rfl, allowed⟩ | ⟨free, -, holding, rfl, start⟩ |
    ⟨phase, holding, held, moved⟩
  · refine sound.moves found rfl (allowed (sound.proper i call found)).1 fun j holding held => .inl ⟨?_, held⟩
    rintro rfl
    obtain ⟨holder, same, holds, _⟩ := sound.holder i holding held
    cases found.symm.trans same
    exact elsewhere holds
  · refine sound.moves found rfl (by cases call.kind <;> rfl) fun j other held => .inr ?_
    cases held
    refine ⟨rfl, rfl, fun sends begun => ?_⟩
    rcases start with rfl | ⟨rfl, ready⟩
    · cases sends
    · have allowed := sound.proper i call found
      rw [begun, ready] at allowed
      cases allowed
  · obtain ⟨holder, same, holds, sentence⟩ := sound.holder i holding held
    cases found.symm.trans same
    rcases advanceHolder_calls moved with ⟨next, mutex, calls, carries⟩ | ⟨free, after, calls, allowed⟩
    · refine ⟨calls ▸ sound.proper, fun j other keeps => ?_⟩
      cases mutex.symm.trans keeps
      exact ⟨call, calls ▸ found, holds, fun sends => sentence (carries sends)⟩
    · refine sound.moves found calls allowed fun j other keeps => ?_
      cases free.symm.trans keeps

theorem CallsSound.enters {s : Session} (sound : CallsSound s) (kind : CallKind) :
    CallsSound (s.enter kind) := by
  refine ⟨?_, ?_⟩
  · intro j call known
    simp only [Session.enter, List.getElem?_append] at known
    split at known
    · exact sound.proper j call known
    · cases List.mem_singleton.mp (List.mem_of_getElem? known)
      rcases kind with _ | turnOpen
      · rfl
      · cases turnOpen <;> rfl
  · intro i holding held
    obtain ⟨call, found, holds⟩ := sound.holder i holding held
    refine ⟨call, ?_, holds⟩
    have bound : i < s.calls.length := (List.getElem?_eq_some_iff.mp found).choose
    simpa [Session.enter, List.getElem?_append, bound] using found

theorem CallsSound.same {s s' : Session} (sound : CallsSound s) (calls : s'.calls = s.calls)
    (sendMutex : s'.sendMutex = s.sendMutex) : CallsSound s' :=
  ⟨calls ▸ sound.proper, calls ▸ sendMutex ▸ sound.holder⟩

structure Linked (s : Session) : Prop where
  link : LinkSound s
  calls : CallsSound s

theorem initial_linked (now : Instant) : Linked { now } :=
  ⟨⟨fun _ => rfl, nofun, nofun⟩, ⟨nofun, nofun⟩⟩

theorem step_linked {s s' : Session} {action : Session.Action} {event : Option Event}
    (linked : Linked s) (taken : s.step action = some (s', event)) : Linked s' := by
  obtain ⟨link, calls⟩ := linked
  cases action with
  | tick elapsed =>
    cases taken
    exact ⟨link.same rfl rfl rfl, calls.same rfl rfl⟩
  | enter kind =>
    cases taken
    exact ⟨link.same rfl rfl rfl, calls.enters kind⟩
  | advance i choice =>
    refine ⟨?_, calls.advances taken⟩
    obtain ⟨call, found, ⟨_, phase, rfl, _⟩ | ⟨_, _, holding, rfl, start⟩ | ⟨_, holding, held, moved⟩⟩ :=
      advance_cases taken
    · exact link.same rfl rfl rfl
    · refine ⟨link.closed, ?_, ?_⟩
      · rintro j ⟨⟩
        simp at start
      · rintro j ⟨⟩
        simp at start
    · exact link.holds (advanceHolder_step (by simp [found]) held moved)
  | cancelCurrentTurn =>
    cases taken
    exact ⟨link.same rfl rfl rfl, calls.same rfl rfl⟩
  | drive wake =>
    have moved := drive_step taken
    obtain ⟨_, _, sendMutex, same⟩ := moved.frame
    exact ⟨link.drives moved, calls.same same sendMutex⟩
  | emit answering bytes =>
    obtain ⟨_, _, task, _, rfl⟩ := emit_cases taken
    exact ⟨link.same rfl rfl rfl, calls.same rfl rfl⟩
  | answered =>
    cases taken
    exact ⟨link.same rfl rfl rfl, calls.same rfl rfl⟩

theorem Linked.holder_lt {s : Session} {i : Nat} {holding : Holding} (linked : Linked s)
    (held : s.sendMutex = some (i, holding)) : i < s.calls.length := by
  obtain ⟨call, found, _⟩ := linked.calls.holder i holding held
  exact (List.getElem?_eq_some_iff.mp found).choose

/-- The tasks stay as they are, and so does a callback under way. -/
structure SameTasks (s s' : Session) : Prop where
  current : s'.current = s.current
  nextTask : s'.nextTask = s.nextTask
  calling : s'.driver.phase.calling = s.driver.phase.calling

/-- What a step of call `i` means for the tasks, and what it shows. -/
inductive AdvanceOutcome (s : Session) (i : Nat) (choice : Bool) : Session → Option Event → Prop
  | installs (clear : Installs s i choice) :
      AdvanceOutcome s i choice (s.install.hold i .sending) (some (.installed i s.nextTask))
  | continues (other : s.calls[i]?.map Call.kind ≠ some (.sentence false))
      (held : s.sendMutex = some (i, .checking)) : AdvanceOutcome s i choice (s.hold i .sending) none
  | sends {s' : Session} (held : s.sendMutex = some (i, .sending)) (same : SameTasks s s')
      (free : s'.sendMutex = none) : AdvanceOutcome s i choice s' (some (.returned i .ok))
  | clears (held : s.sendMutex = some (i, .sendFailed)) :
      AdvanceOutcome s i choice ({ s with current := none }.release i (.returned .failed))
        (some (.returned i .failed))
  | rests {s' : Session} {event : Option Event} (same : SameTasks s s')
      (unsent : ∀ holder, s'.sendMutex = some (holder, .sending) → s.sendMutex = some (holder, .sending))
      (shown : event = none ∨ ∃ result, event = some (.returned i result) ∧
        (result = .ok → s.calls[i]?.map Call.kind = some .start) ∧
        (result = .cancelled → s.calls[i]?.map Call.kind = some .start ∨
          s.sendMutex = some (i, .checking) ∧ choice = true)) : AdvanceOutcome s i choice s' event

theorem advance_outcome {s s' : Session} {i : Nat} {choice : Bool} {event : Option Event}
    (linked : Linked s) (taken : s.step (.advance i choice) = some (s', event)) :
    AdvanceOutcome s i choice s' event := by
  obtain ⟨call, found, ⟨_, phase, rfl, shown⟩ | ⟨_, rfl, holding, rfl, start⟩ | ⟨_, holding, held, moved⟩⟩ :=
    advance_cases taken
  · refine .rests ⟨rfl, rfl, rfl⟩ (fun _ held => held) ?_
    rcases (shown (linked.calls.proper i call found)).2 with quiet | ⟨begun, result, returned⟩
    · exact .inl quiet
    · have kind : s.calls[i]?.map Call.kind = some .start := by simp [found, begun]
      exact .inr ⟨result, returned, fun _ => kind, fun _ => .inl kind⟩
  · refine .rests ⟨rfl, rfl, rfl⟩ ?_ (.inl rfl)
    rintro holder ⟨⟩
    simp at start
  · cases advanceHolder_step (by simp [found]) held moved with
    | rests quiet work driver link mutex shown =>
      refine .rests ⟨work.current, work.nextTask, by rw [driver]⟩ (fun holder next => ?_) ?_
      · cases (mutex holder _ next).1
      · rcases shown with quiet | ⟨result, returned, ok, cancelled⟩
        · exact .inl quiet
        · refine .inr ⟨result, returned, ok, fun same => .inr ?_⟩
          obtain ⟨rfl, chosen⟩ := cancelled same
          exact ⟨held, chosen⟩
    | connects work driver link mutex =>
      refine .rests ⟨work.current, work.nextTask, ?_⟩ (fun holder next => ?_) (.inl rfl)
      · rw [driver, linked.link.connecting i held]
        rfl
      · cases mutex.symm.trans next
    | pushes command plain quiet work driver link mutex =>
      refine .rests ⟨work.current, work.nextTask, by rw [driver]; rfl⟩ (fun holder next => ?_) (.inl rfl)
      cases (mutex holder _ next).1
    | installs clear => exact .installs clear
    | continues other => exact .continues other held
    | sends isOpen => exact .sends held ⟨rfl, rfl, rfl⟩ rfl
    | fails closed => exact .rests ⟨rfl, rfl, rfl⟩ nofun (.inl rfl)
    | clears => exact .clears held

theorem installed_step {s s' : Session} {i call task : Nat} {choice : Bool} (linked : Linked s)
    (taken : s.step (.advance i choice) = some (s', some (.installed call task))) :
    Installs s i choice ∧ s' = s.install.hold i .sending := by
  cases advance_outcome linked taken with
  | installs clear => exact ⟨clear, rfl⟩
  | rests same unsent shown =>
    rcases shown with quiet | ⟨_, returned, _⟩
    · cases quiet
    · cases returned

end Fswtch.Seat.TtsSession
