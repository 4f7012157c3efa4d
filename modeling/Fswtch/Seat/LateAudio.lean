import Fswtch.Lib.StepRun
import Fswtch.Seat.TtsSessionSteps

/-! Late audio. A frame carries no name of its task, so the driver judges it by the task
that is current when it comes in: late audio is silenced exactly while that task, if
any, is cancelled too. -/

namespace Fswtch.Seat.TtsSession
open Fswtch.Lib.StepRun

/-- No audio of a task cancelled before its frame came in was played. -/
def NoLateAudio (s : Session) : Prop := ∀ p ∈ s.played, p.2 = false

def Muted (s : Session) : Session.Action → Prop
  | .drive .frame => s.driver.phase.selecting = true → ∀ frame ∈ s.driver.socket.head?,
      carriesAudio frame.bytes = true → ∀ id ∈ frame.task, id ∈ s.cancelledTasks →
        ∀ task ∈ s.current, task.cancelled = true
  | _ => True

instance decidableMuted (s : Session) : (action : Session.Action) → Decidable (Muted s action)
  | .drive .frame => inferInstanceAs (Decidable (_ → ∀ frame ∈ s.driver.socket.head?, _ → _))
  | .drive .idle | .drive (.command _) | .drive .dead | .tick _ | .enter _ | .advance _ _
  | .cancelCurrentTurn | .emit _ _ | .answered => isTrue trivial

theorem step_undelivered {s s' : Session} {action : Session.Action} {event : Option Event}
    (outside : ∀ wake, action ≠ .drive wake) (taken : s.step action = some (s', event)) :
    s'.played = s.played ∧ (s'.driver.phase = s.driver.phase ∨ s'.driver.phase = .top) := by
  cases action with
  | tick elapsed =>
    cases taken
    exact ⟨rfl, .inl rfl⟩
  | enter kind =>
    cases taken
    exact ⟨rfl, .inl rfl⟩
  | advance i choice =>
    obtain ⟨call, found, ⟨_, phase, rfl, _⟩ | ⟨_, _, holding, rfl, _⟩ | ⟨_, holding, held, moved⟩⟩ :=
      advance_cases taken
    · exact ⟨rfl, .inl rfl⟩
    · exact ⟨rfl, .inl rfl⟩
    · cases advanceHolder_step (by simp [found]) held moved with
      | rests quiet work driver link mutex shown => exact ⟨work.played, .inl (congrArg Driver.phase driver)⟩
      | connects work driver link mutex => exact ⟨work.played, .inr (congrArg Driver.phase driver)⟩
      | pushes command plain quiet work driver link mutex =>
        exact ⟨work.played, .inl ((congrArg Driver.phase driver).trans rfl)⟩
      | installs clear => exact ⟨rfl, .inl rfl⟩
      | continues other => exact ⟨rfl, .inl rfl⟩
      | sends isOpen => exact ⟨rfl, .inl rfl⟩
      | fails closed => exact ⟨rfl, .inl rfl⟩
      | clears => exact ⟨rfl, .inl rfl⟩
  | cancelCurrentTurn =>
    cases taken
    exact ⟨rfl, .inl rfl⟩
  | drive wake => exact absurd rfl (outside wake)
  | emit answering bytes =>
    obtain ⟨_, _, task, _, rfl⟩ := emit_cases taken
    exact ⟨rfl, .inl rfl⟩
  | answered =>
    cases taken
    exact ⟨rfl, .inl rfl⟩

def DriverPhase.playing : DriverPhase → Bool
  | .deliver .. => true
  | _ => false

structure Unplayed (s : Session) : Prop where
  played : NoLateAudio s
  delivering : ∀ task late pcm, s.driver.phase = .deliver task late pcm → late = false

theorem initial_unplayed : Unplayed {} := by
  refine ⟨by simp [NoLateAudio], fun task late pcm there => ?_⟩
  cases there

theorem Unplayed.elsewhere {s s' : Session} {phase : DriverPhase} (unplayed : Unplayed s)
    (played : s'.played = s.played) (here : s'.driver.phase = phase)
    (away : phase.playing = false) : Unplayed s' := by
  refine ⟨?_, fun task late pcm there => ?_⟩
  · rw [NoLateAudio, played]
    exact unplayed.played
  · rw [← here, there] at away
    cases away

/-- Reading a frame: only audio is delivered, and `Muted` keeps late audio out. -/
theorem Unplayed.hears {s : Session} {deadline : Option Instant} {frame : Frame} {rest : List Frame}
    (unplayed : Unplayed s) (muted : Muted s (.drive .frame))
    (here : s.driver.phase = .select deadline) (arrived : s.driver.socket = frame :: rest) :
    Unplayed ((s.read rest).routeFrame frame) := by
  obtain ⟨route, _, top | fire | ⟨⟨pcm, deliver⟩, audio, task, current, loud⟩⟩ :=
    routeFrame_spec (s.read rest) frame
  · exact unplayed.elsewhere route.played top rfl
  · exact unplayed.elsewhere route.played fire rfl
  · refine ⟨?_, fun other late sound there => ?_⟩
    · rw [NoLateAudio, route.played]
      exact unplayed.played
    · cases deliver.symm.trans there
      cases answers : frame.task with
      | none => rfl
      | some id =>
        refine decide_eq_false fun cancelled => ?_
        have head : frame ∈ s.driver.socket.head? := by simp [arrived]
        have silenced := muted (by rw [here]; rfl) frame head audio id answers cancelled task current
        cases loud.symm.trans silenced

theorem Unplayed.drives {s s' : Session} {wake : Session.Wake} {event : Option Event}
    (unplayed : Unplayed s) (muted : Muted s (.drive wake)) (moved : DriveStep s wake s' event) :
    Unplayed s' := by
  cases moved with
  | idles here elapsed =>
    cases due : s.stillDue <;> exact unplayed.elsewhere rfl rfl rfl
  | loses here queued phase back =>
    rcases back with rfl | rfl <;> exact unplayed.elsewhere rfl rfl rfl
  | hears woken here arrived =>
    subst woken
    exact unplayed.hears muted here arrived
  | @fires exiting here =>
    rw [Session.fireTurnComplete]
    split
    · split
      · cases exiting <;> exact unplayed.elsewhere rfl rfl rfl
      · exact unplayed.elsewhere rfl rfl rfl
    · cases exiting <;> exact unplayed.elsewhere rfl rfl rfl
  | @callsBack id exiting here => cases exiting <;> exact unplayed.elsewhere rfl rfl rfl
  | @delivers task late pcm here =>
    refine ⟨fun p member => ?_, fun task late pcm there => by cases there⟩
    rcases List.mem_append.mp member with old | new
    · exact unplayed.played p old
    · rw [List.mem_singleton.mp new]
      exact unplayed.delivering task late pcm here
  | computes | requests | dies | closes | returns => exact unplayed.elsewhere rfl rfl rfl

theorem next_unplayed (s : Session) (action : Session.Action) (s' : Session) (unplayed : Unplayed s)
    (muted : Muted s action) (taken : s.next action = some s') : Unplayed s' := by
  obtain ⟨event, stepped⟩ := next_eq_some taken
  by_cases driven : ∃ wake, action = .drive wake
  · obtain ⟨wake, rfl⟩ := driven
    exact unplayed.drives muted (drive_step stepped)
  · obtain ⟨played, phase⟩ := step_undelivered (fun wake same => driven ⟨wake, same⟩) stepped
    rcases phase with same | top
    · refine ⟨?_, fun task late pcm there => unplayed.delivering task late pcm (same ▸ there)⟩
      rw [NoLateAudio, played]
      exact unplayed.played
    · exact unplayed.elsewhere played top rfl

/-- In a run that takes late audio only while no uncancelled task is current, none of it
is played. -/
theorem no_late_audio (actions : List Session.Action) (final : Session)
    (muted : Along Session.next Muted {} actions) (taken : run Session.next {} actions = some final) :
    NoLateAudio final :=
  (invariant_of_run next_unplayed initial_unplayed muted taken).played

def lateThenNext : List Session.Action :=
  firstSentence ++ firstRequest ++ [.cancelCurrentTurn, .emit true audioFrame, .answered, .drive .idle,
    .drive .frame] ++ secondSentence ++ [.advance 1 false, .drive .idle, .drive (.command .sent),
    .emit true audioFrame, .drive .idle, .drive .frame, .drive .idle]

theorem lateThenNext_no_late_audio :
    ∃ final, run Session.next {} lateThenNext = some final ∧ final.played = [(some 1, false)] ∧
      NoLateAudio final :=
  ⟨_, rfl, by decide +kernel, no_late_audio lateThenNext _ (by decide +kernel) rfl⟩

def lateIntoNext : List Session.Action :=
  firstSentence ++ firstRequest ++ secondSentence ++ [.emit true audioFrame, .drive .idle, .drive .frame,
    .drive .idle]

theorem lateIntoNext_late_audio :
    ∃ final, run Session.next {} lateIntoNext = some final ∧ final.played = [(some 0, true)] ∧
      ¬NoLateAudio final :=
  ⟨_, rfl, by decide +kernel, fun quiet => nomatch quiet (some 0, true) (by decide +kernel)⟩

end Fswtch.Seat.TtsSession
