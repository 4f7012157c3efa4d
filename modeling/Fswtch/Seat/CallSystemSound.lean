import Fswtch.Seat.CallSystemSteps
import Fswtch.Seat.TtsRequests

/-! What every run of the call keeps: the syntheses, the slot and the calls of the
session fit together. -/

namespace Fswtch.Seat.CallSystem
open Fswtch.Seat.TtsSession

namespace System

theorem getElem?_setSynth (s : System) (j i : Nat) (change : Synth → Synth) :
    (s.setSynth j change).synths[i]? = if j = i then s.synths[i]?.map change else s.synths[i]? := by
  simp only [setSynth, List.getElem?_modify]
  split <;> simp

theorem setSynth_cases {s : System} {j i : Nat} {change : Synth → Synth} {synth : Synth}
    (known : (s.setSynth j change).synths[i]? = some synth) :
    (j = i ∧ ∃ before, s.synths[i]? = some before ∧ change before = synth) ∨
      j ≠ i ∧ s.synths[i]? = some synth := by
  rw [getElem?_setSynth] at known
  split at known
  next same => exact .inl ⟨same, Option.map_eq_some_iff.mp known⟩
  next other => exact .inr ⟨other, known⟩

theorem setPhase_cases {s : System} {j i : Nat} {phase : SynthPhase} {synth : Synth}
    (known : (s.setPhase j phase).synths[i]? = some synth) :
    (j = i ∧ synth.phase = phase) ∨ j ≠ i ∧ s.synths[i]? = some synth := by
  rcases setSynth_cases known with ⟨same, before, _, rfl⟩ | other
  · exact .inl ⟨same, rfl⟩
  · exact .inr other

theorem setSynth_turns (s : System) (j : Nat) {change : Synth → Synth}
    (keeps : ∀ synth, (change synth).turn = synth.turn) :
    (s.setSynth j change).synths.map Synth.turn = s.synths.map Synth.turn := by
  apply List.ext_getElem?
  intro i
  rw [List.getElem?_map, List.getElem?_map, getElem?_setSynth]
  split
  · rw [Option.map_map]
    congr 1
    funext synth
    exact keeps synth
  · rfl

theorem SynthStep.turns {setup : Setup} {s s' : System} {j : Nat} {synth : Synth} {choice : Bool}
    (moved : SynthStep setup s j synth choice s') :
    s'.synths.map Synth.turn = s.synths.map Synth.turn := by
  have phased (u : System) (phase : SynthPhase) :
      (u.setPhase j phase).synths.map Synth.turn = u.synths.map Synth.turn :=
    setSynth_turns u j fun _ => rfl
  have called : (s.called j).synths.map Synth.turn = s.synths.map Synth.turn := setSynth_turns _ j fun _ => rfl
  cases moved with
  | begins | posts | skips => exact (phased _ _).trans called
  | creates | enters | opens | drops | leaves | plays | refuses | clears | stops | finishes =>
    exact phased _ _
  | connects | moves | installs => rfl

structure Coherent (s : System) : Prop where
  steady : Steady s.session
  starting : ∀ (j : Nat) (synth : Synth) (call : Nat), s.synths[j]? = some synth →
    synth.phase = .starting call →
    s.slot = .starting j ∧ s.session.calls[call]?.map Call.kind = some .start
  inSession : ∀ (j : Nat) (synth : Synth) (call : Nat), s.synths[j]? = some synth →
    synth.phase = .inSession call →
    s.slot = .ready ∧ s.session.calls[call]?.map Call.kind = some (.sentence false)

def Fewer (s s' : System) : Prop :=
  ∀ (j : Nat) (synth : Synth), s'.synths[j]? = some synth →
    (∃ before, s.synths[j]? = some before ∧ before.phase = synth.phase) ∨
      ∀ call, synth.phase ≠ .starting call ∧ synth.phase ≠ .inSession call

theorem Fewer.same {s s' : System} (synths : s'.synths = s.synths) : Fewer s s' :=
  fun _ synth known => .inl ⟨synth, synths ▸ known, rfl⟩

theorem Fewer.setPhase {s s₁ s' : System} {j : Nat} {phase : SynthPhase} (fewer : Fewer s s₁)
    (synths : s'.synths = (s₁.setPhase j phase).synths)
    (out : ∀ call, phase ≠ .starting call ∧ phase ≠ .inSession call) : Fewer s s' := by
  intro i synth known
  rcases setPhase_cases (synths ▸ known) with ⟨_, here⟩ | ⟨_, found⟩
  · exact .inr (here ▸ out)
  · exact fewer i synth found

theorem Fewer.called (s : System) (j : Nat) : Fewer s (s.called j) := by
  intro i synth known
  rcases setSynth_cases known with ⟨_, before, found, rfl⟩ | ⟨_, found⟩
  · exact .inl ⟨before, found, rfl⟩
  · exact .inl ⟨synth, found, rfl⟩

theorem Fewer.appended {s s' : System} {added : List Synth} (synths : s'.synths = s.synths ++ added)
    (fresh : ∀ synth ∈ added, synth.phase = .spawned) : Fewer s s' := by
  intro j synth known
  rw [synths, List.getElem?_append] at known
  split at known
  · exact .inl ⟨synth, known, rfl⟩
  · refine .inr fun call => ?_
    rw [fresh synth (List.mem_of_getElem? known)]
    exact ⟨nofun, nofun⟩

theorem Coherent.fewer {s s' : System} (coherent : Coherent s) (fewer : Fewer s s')
    (slot : s'.slot = s.slot) (steady : Steady s'.session)
    (kinds : ∀ (i : Nat) kind, s.session.calls[i]?.map Call.kind = some kind →
      s'.session.calls[i]?.map Call.kind = some kind) : Coherent s' := by
  refine ⟨steady, ?_, ?_⟩
  · intro j synth call known phase
    rcases fewer j synth known with ⟨before, found, same⟩ | out
    · obtain ⟨holds, kind⟩ := coherent.starting j before call found (same.trans phase)
      exact ⟨slot.trans holds, kinds call _ kind⟩
    · exact absurd phase (out call).1
  · intro j synth call known phase
    rcases fewer j synth known with ⟨before, found, same⟩ | out
    · obtain ⟨holds, kind⟩ := coherent.inSession j before call found (same.trans phase)
      exact ⟨slot.trans holds, kinds call _ kind⟩
    · exact absurd phase (out call).2

theorem Coherent.rests {s s' : System} (coherent : Coherent s) (fewer : Fewer s s')
    (slot : s'.slot = s.slot) (session : s'.session = s.session) : Coherent s' :=
  coherent.fewer fewer slot (session ▸ coherent.steady) fun _ _ known => session ▸ known

theorem Coherent.steps {s s' : System} {action : Session.Action} {event : Option Event}
    (coherent : Coherent s) (fewer : Fewer s s') (slot : s'.slot = s.slot)
    (stepped : s.session.step action = some (s'.session, event))
    (outside : ∀ kind, action ≠ .enter kind) : Coherent s' :=
  coherent.fewer fewer slot
    (step_steady coherent.steady (fun kind same => absurd same (outside kind)) stepped)
    fun _ _ known => step_kind stepped known

/-- What `Coherent` says about the syntheses other than `j`. -/
def Others (s : System) (j : Nat) : Prop :=
  ∀ (i : Nat) (synth : Synth) (call : Nat), j ≠ i → s.synths[i]? = some synth →
    (synth.phase = .starting call →
      s.slot = .starting i ∧ s.session.calls[call]?.map Call.kind = some .start) ∧
    (synth.phase = .inSession call →
      s.slot = .ready ∧ s.session.calls[call]?.map Call.kind = some (.sentence false))

theorem Coherent.starting_uninstalled {s : System} {j call : Nat} {synth : Synth} {choice : Bool}
    (coherent : Coherent s) (found : s.synths[j]? = some synth) (here : synth.phase = .starting call) :
    ¬Installs s.session call choice := by
  intro clear
  have kind := (coherent.starting j synth call found here).2
  cases kind.symm.trans clear.2.1

theorem Coherent.others {s : System} (coherent : Coherent s) (j : Nat) : Others s j :=
  fun i synth call _ known => ⟨coherent.starting i synth call known, coherent.inSession i synth call known⟩

theorem Coherent.enters {s : System} {j : Nat} (steady : Steady s.session) (others : Others s j)
    (ready : s.slot = .ready) : Coherent (s.enterSentence j) := by
  have stepped : s.session.step (.enter (.sentence false)) =
      some (s.session.enter (.sentence false), none) := rfl
  have kept : ∀ {i : Nat} {kind : CallKind}, s.session.calls[i]?.map Call.kind = some kind →
      (s.session.enter (.sentence false)).calls[i]?.map Call.kind = some kind :=
    fun known => step_kind stepped known
  refine ⟨step_steady steady (fun kind same => .inr (by cases same; rfl)) stepped, ?_, ?_⟩
  · intro i synth call known phase
    rcases setPhase_cases known with ⟨_, entered⟩ | ⟨other, found⟩
    · cases entered.symm.trans phase
    · obtain ⟨holds, kind⟩ := (others i synth call other found).1 phase
      exact ⟨holds, kept kind⟩
  · intro i synth call known phase
    rcases setPhase_cases known with ⟨_, entered⟩ | ⟨other, found⟩
    · cases entered.symm.trans phase
      exact ⟨ready, by simp [enterSentence, Session.enter, System.setPhase, setSynth]⟩
    · obtain ⟨holds, kind⟩ := (others i synth call other found).2 phase
      exact ⟨holds, kept kind⟩

theorem Coherent.alone {s : System} (coherent : Coherent s) {j : Nat}
    (slot : s.slot = .empty ∨ s.slot = .starting j) {i : Nat} {synth : Synth} (other : j ≠ i)
    (known : s.synths[i]? = some synth) (call : Nat) :
    synth.phase ≠ .starting call ∧ synth.phase ≠ .inSession call := by
  refine ⟨fun phase => ?_, fun phase => ?_⟩
  · have holds := (coherent.starting i synth call known phase).1
    rcases slot with empty | started
    · cases empty.symm.trans holds
    · cases started.symm.trans holds
      exact other rfl
  · have holds := (coherent.inSession i synth call known phase).1
    rcases slot with empty | started
    · cases empty.symm.trans holds
    · cases started.symm.trans holds

theorem Coherent.synths {setup : Setup} {s s' : System} {j : Nat} {synth : Synth} {choice : Bool}
    (coherent : Coherent s) (found : s.synths[j]? = some synth)
    (moved : SynthStep setup s j synth choice s') : Coherent s' := by
  cases moved with
  | begins | posts | skips =>
    exact coherent.rests ((Fewer.called s j).setPhase rfl (by simp)) rfl rfl
  | creates here empty =>
    have stepped : s.freshSession.step (.enter .start) = some (s.freshSession.enter .start, none) := rfl
    refine ⟨step_steady (initial_steady _) (fun kind same => .inl (by cases same; rfl)) stepped, ?_, ?_⟩
    · intro i other call known phase
      rcases setPhase_cases known with ⟨same, entered⟩ | ⟨apart, before⟩
      · cases entered.symm.trans phase
        exact ⟨congrArg Slot.starting same, rfl⟩
      · exact absurd phase (coherent.alone (.inl empty) apart before call).1
    · intro i other call known phase
      rcases setPhase_cases known with ⟨_, entered⟩ | ⟨apart, before⟩
      · cases entered.symm.trans phase
      · exact absurd phase (coherent.alone (.inl empty) apart before call).2
  | enters here ready => exact .enters coherent.steady (coherent.others j) ready
  | connects here stepped silent => exact coherent.steps (.same rfl) rfl stepped nofun
  | @opens call other session here stepped =>
    have slot : s.slot = .starting j := (coherent.starting j synth call found here).1
    have steady : Steady session :=
      step_steady coherent.steady (fun kind same => by cases same) stepped
    refine .enters steady (fun i synth call other known => ?_) rfl
    obtain ⟨unstarted, outside⟩ := coherent.alone (.inr slot) other known call
    exact ⟨fun phase => absurd phase unstarted, fun phase => absurd phase outside⟩
  | @drops call other session result here stepped refused =>
    have slot : s.slot = .starting j := (coherent.starting j synth call found here).1
    have out : ∀ (i : Nat) (synth : Synth) (call : Nat),
        ({ s with session := s.freshSession, slot := .empty }.setPhase j .failed).synths[i]? = some synth →
          synth.phase ≠ .starting call ∧ synth.phase ≠ .inSession call := by
      intro i synth call known
      rcases setPhase_cases known with ⟨_, failed⟩ | ⟨other, before⟩
      · rw [failed]
        exact ⟨nofun, nofun⟩
      · exact coherent.alone (.inr slot) other before call
    exact ⟨initial_steady _, fun i synth call known phase => absurd phase (out i synth call known).1,
      fun i synth call known phase => absurd phase (out i synth call known).2⟩
  | moves here stepped silent => exact coherent.steps (.same rfl) rfl stepped nofun
  | installs here stepped => exact coherent.steps (.same rfl) rfl stepped nofun
  | leaves here stepped =>
    refine coherent.steps (Fewer.setPhase (.same rfl) rfl ?_) rfl stepped nofun
    intro call
    split <;> simp
  | plays | refuses | clears | stops | finishes =>
    exact coherent.rests (Fewer.setPhase (.same rfl) rfl (by simp)) rfl rfl

theorem Coherent.turns {setup : Setup} {s s' : System} {k : Nat} (coherent : Coherent s)
    (moved : TurnStep setup s k s') : Coherent s' := by
  cases moved with
  | hears delta here =>
    refine coherent.rests (.appended rfl fun synth added => ?_) rfl rfl
    obtain ⟨text, _, rfl⟩ := List.mem_map.mp added
    rfl
  | speaks result provided =>
    refine coherent.rests (.appended rfl fun synth added => ?_) rfl rfl
    rw [List.mem_singleton.mp added]
  | walks | returns | acts | persists => exact coherent.rests (.same rfl) rfl rfl

theorem Coherent.receives {setup : Setup} {s s' : System} (coherent : Coherent s)
    (moved : ReceiveStep setup s s') : Coherent s' := by
  cases moved with
  | @begins k rest next =>
    have same := cancel_same setup (s.beginTurn k rest) (.segment k)
    exact coherent.rests (.same same.synths) same.slot same.session
  | @interrupts k rest next =>
    have same := cancel_same setup (s.interrupt k rest) (.bargeIn k)
    exact coherent.rests (.same same.synths) same.slot same.session
  | remembers next => exact coherent.rests (.same rfl) rfl rfl

theorem Coherent.serves {s s' : System} {action : Session.Action} (coherent : Coherent s)
    (taken : s.server action = some s') : Coherent s' := by
  have outside : ∀ kind, action ≠ .enter kind := by
    rintro kind rfl
    cases taken
  obtain ⟨session, event, stepped, rfl⟩ := server_cases taken
  obtain ⟨flags, heard, frame⟩ := afterServer_frame s session event
  rw [frame]
  exact coherent.steps (.same rfl) rfl stepped outside

theorem step_coherent (setup : Setup) (s : System) (action : Action) (s' : System)
    (coherent : Coherent s) (taken : s.step setup action = some s') : Coherent s' := by
  cases action with
  | onset | speechEnd | tell | forward =>
    cases listen_step taken rfl <;> exact coherent.rests (.same rfl) rfl rfl
  | receive => exact coherent.receives (receive_step taken).2
  | turn move =>
    obtain ⟨k, stage, _, moved⟩ := turn_step taken
    exact coherent.turns moved
  | synth j choice =>
    obtain ⟨synth, found, moved⟩ := synth_step taken
    exact coherent.synths found moved
  | cancelTask j =>
    cases cancelTask_step taken with
    | skips => exact coherent.rests (.same rfl) rfl rfl
    | marks =>
      have stepped : s.session.step .cancelCurrentTurn = some (s.session.cancelCurrentTurn, none) := rfl
      exact coherent.steps (.same rfl) rfl stepped nofun
  | server action => exact coherent.serves taken

theorem initial_coherent : Coherent {} := ⟨initial_steady 0, nofun, nofun⟩

end System

end Fswtch.Seat.CallSystem
