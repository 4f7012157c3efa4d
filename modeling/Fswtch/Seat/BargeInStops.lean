import Fswtch.Seat.CallSystemSound
import Fswtch.Seat.TurnMarks

/-! Barge-in and what the turn in progress still does. A turn is charged with the texts and the side effects
that it has yet to see to; they only ever get fewer once the model has answered, and a barge-in that reaches
the mailbox takes none of them away. -/

namespace Fswtch.Seat.CallSystem
open Fswtch.Lib.StepRun Fswtch.Seat.SentenceSplit Fswtch.Seat.ReplyText Fswtch.Seat.TtsSession

/-- The texts and the side effects that a turn has yet to see to, where the model adds no more to them. -/
def Stage.due (setup : Setup) : Stage → Option (Nat × Nat)
  | .hearing => if setup.llm then none else some (0, 0)
  | .streaming _ _ => none
  | .replied ttsAlreadyFired result =>
    some (if result.reply ≠ [] ∧ ttsAlreadyFired = false ∧ setup.provider ≠ .none then 1 else 0,
      (System.effects result).length)
  | .speaking _ result | .waiting result => some (0, (System.effects result).length)
  | .acting rest => some (0, rest.length)

def Mark.isActed (k : Nat) : Mark → Bool
  | .acted j _ => decide (j = k)
  | _ => false

def Mark.isHangup (k : Nat) : Mark → Bool
  | .acted j .hangup => decide (j = k)
  | _ => false

namespace System

def handed (s : System) (k : Nat) : Nat := s.synths.countP fun synth => decide (synth.turn = k)

def pending (s : System) (k : Nat) : Nat :=
  s.synths.countP fun synth => decide (synth.turn = k) && decide (synth.phase = .spawned)

def acted (s : System) (k : Nat) : Nat := s.trace.countP (Mark.isActed k)

def hangups (s : System) (k : Nat) : Nat := s.trace.countP (Mark.isHangup k)

/-- What turn `k` has done: its calls of `synthesize` and its side effects. -/
def issued (s : System) (k : Nat) : Nat :=
  (s.synths.countP fun synth => decide (synth.turn = k) && !decide (synth.phase = .spawned)) + s.acted k

/-- What turn `k` has still to do with all checks of its token behind it: the calls of spawned tasks, and
the side effects once they are next. -/
def inHand (s : System) (k : Nat) : Nat :=
  s.pending k +
    match s.actor with
    | .turn _ (.acting rest) => rest.length
    | _ => 0

/-- A turn that is in progress has at most one thing still to do, and no check of its token before it. -/
def Spent (setup : Setup) (s : System) : Prop :=
  match s.actor with
  | .idle => True
  | .turn k (.acting rest) => s.pending k + rest.length ≤ 1
  | .turn k stage => stage.due setup = some (0, 0) ∧ s.pending k ≤ 1

instance (setup : Setup) (s : System) : Decidable (s.Spent setup) := by
  unfold Spent
  split <;> infer_instance

/-- Whenever a barge-in reaches the mailbox, the turn in progress is spent. -/
def TellsSpent (setup : Setup) (s : System) : Action → Prop
  | .tell _ => s.Spent setup
  | _ => True

instance (setup : Setup) (s : System) (action : Action) : Decidable (s.TellsSpent setup action) := by
  cases action <;> unfold TellsSpent <;> infer_instance

end System

theorem due_afterSpeech (setup : Setup) (result : ToolExecutionResult) :
    (System.afterSpeech result).due setup = some (0, (System.effects result).length) := by
  unfold System.afterSpeech
  split <;> rfl

namespace System

def due (setup : Setup) (s : System) (k : Nat) : Option (Nat × Nat) :=
  match s.actor with
  | .idle => some (0, 0)
  | .turn j stage => if j = k then stage.due setup else some (0, 0)

/-- After the marks `past` turn `k` comes to at most so many texts and side effects. -/
structure Charged (setup : Setup) (k : Nat) (past : List Mark) (texts acts : Nat) (s : System) : Prop where
  grown : past <+: s.trace
  ordered : s.Fifo
  within : ∃ due, s.due setup k = some due ∧ s.handed k + due.1 ≤ texts ∧ s.acted k + due.2 ≤ acts

section
variable {setup : Setup} {k texts acts : Nat} {past : List Mark} {s s' : System}

theorem handed_eq (s : System) (k : Nat) :
    s.handed k = (s.synths.countP fun synth => decide (synth.turn = k) && !decide (synth.phase = .spawned)) +
      s.pending k := by
  rw [handed, pending, Nat.add_comm]
  induction s.synths with
  | nil => rfl
  | cons synth rest ih =>
    simp only [List.countP_cons, ih]
    by_cases own : synth.turn = k <;> by_cases spawned : synth.phase = .spawned <;> simp [own, spawned] <;> omega

theorem handed_of_turns (same : s'.synths.map Synth.turn = s.synths.map Synth.turn) (k : Nat) :
    s'.handed k = s.handed k := by
  have counted (u : System) : u.handed k = (u.synths.map Synth.turn).countP fun turn => decide (turn = k) := by
    rw [List.countP_map]
    rfl
  rw [counted, counted, same]

theorem handed_append {j : Nat} (apart : j ≠ k) {added : List Synth} (synths : s'.synths = s.synths ++ added)
    (own : ∀ synth ∈ added, synth.turn = j) : s'.handed k = s.handed k := by
  have none : added.countP (fun synth => decide (synth.turn = k)) = 0 := by
    rw [List.countP_eq_zero]
    intro synth member
    rw [own synth member]
    simpa using apart
  rw [handed, synths, List.countP_append, none]
  rfl

theorem Charged.moves (charged : Charged setup k past texts acts s) (ordered : s'.Fifo) (more : List Mark)
    (trace : s'.trace = s.trace ++ more) {one other : Nat × Nat} (before : s.due setup k = some one)
    (after : s'.due setup k = some other) (handed : s'.handed k + other.1 ≤ s.handed k + one.1)
    (acted : more.countP (Mark.isActed k) + other.2 ≤ one.2) : Charged setup k past texts acts s' := by
  obtain ⟨due, known, least, most⟩ := charged.within
  cases before.symm.trans known
  have sum : s'.acted k = s.acted k + more.countP (Mark.isActed k) := by
    rw [System.acted, trace, List.countP_append]
    rfl
  exact ⟨trace ▸ charged.grown.trans (List.prefix_append _ _), ordered, other, after, by omega, by omega⟩

/-- A step that neither moves the turn nor hands over anything. -/
theorem Charged.same (charged : Charged setup k past texts acts s) (ordered : s'.Fifo)
    (actor : s'.actor = s.actor) (more : List Mark) (trace : s'.trace = s.trace ++ more)
    (none : more.countP (Mark.isActed k) = 0) (synths : s'.synths.map Synth.turn = s.synths.map Synth.turn) :
    Charged setup k past texts acts s' := by
  obtain ⟨due, known, -, -⟩ := charged.within
  refine charged.moves ordered more trace known ?_ (by rw [handed_of_turns synths]) (by rw [none, Nat.zero_add])
  rw [System.due, actor]
  exact known

theorem Charged.others (charged : Charged setup k past texts acts s) (ordered : s'.Fifo) {j : Nat} {stage : Stage}
    (here : s.actor = .turn j stage) (apart : j ≠ k) (moved : TurnStep setup s j s') :
    Charged setup k past texts acts s' := by
  have before : s.due setup k = some (0, 0) := by
    rw [due, here]
    exact if_neg apart
  have alone (u : System) (next : Stage) (there : u.actor = .turn j next) : u.due setup k = some (0, 0) := by
    rw [due, there]
    exact if_neg apart
  cases moved with
  | walks next =>
    exact charged.moves ordered [] (List.append_nil _).symm before (alone _ next rfl) (Nat.le_refl _) (Nat.le_refl _)
  | returns | persists =>
    exact charged.moves ordered [.returned j] rfl before rfl (Nat.le_refl _) (Nat.le_refl _)
  | hears delta here =>
    refine charged.moves ordered _ rfl before (alone _ _ rfl) (Nat.le_of_eq (handed_append apart rfl ?_))
      (Nat.le_of_eq ?_)
    · intro synth member
      obtain ⟨text, _, rfl⟩ := List.mem_map.mp member
      rfl
    · rw [List.countP_map, Nat.add_zero, List.countP_eq_zero]
      exact fun _ _ => Bool.false_ne_true
  | speaks result provided =>
    refine charged.moves ordered [.spoke j result.reply] rfl before (alone _ _ rfl)
      (Nat.le_of_eq (handed_append apart rfl ?_)) (Nat.le_refl _)
    intro synth member
    rw [List.mem_singleton.mp member]
  | acts effect rest =>
    refine charged.moves ordered [.acted j effect] rfl before (alone _ _ rfl) (Nat.le_refl _)
      (Nat.le_of_eq ?_)
    simp [Mark.isActed, apart]

theorem Charged.turns (charged : Charged setup k past texts acts s) (ordered : s'.Fifo) {stage : Stage}
    (here : s.actor = .turn k stage) {move : TurnMove} (taken : s.turnPipeline setup k move stage = some s') :
    Charged setup k past texts acts s' := by
  obtain ⟨due, known, -, -⟩ := charged.within
  have before : stage.due setup = some due := by
    rw [System.due, here] at known
    simpa using known
  have there (u : System) (next : Stage) (actor : u.actor = .turn k next) : u.due setup k = next.due setup := by
    rw [System.due, actor]
    exact if_pos rfl
  have start : s.due setup k = stage.due setup := there s stage here
  have returns (ordered : (s.returns k).Fifo) : Charged setup k past texts acts (s.returns k) :=
    charged.moves ordered [.returned k] rfl (start.trans before) rfl (Nat.le_add_right _ _) (Nat.zero_le _)
  have goes {next : Stage} (ordered : (s.goto k next).Fifo) {other : Nat × Nat} (after : next.due setup = some other)
      (fewer : other.1 ≤ due.1) (less : other.2 ≤ due.2) : Charged setup k past texts acts (s.goto k next) :=
    charged.moves ordered [] (List.append_nil _).symm (start.trans before) ((there _ next rfl).trans after)
      (Nat.add_le_add_left fewer _) (by simpa using less)
  cases turnPipeline_step taken with
  | unheard | silenced | breaks | muted => exact returns ordered
  | asks live model =>
    rw [Stage.due, if_pos model] at before
    cases before
  | answers live alone =>
    rw [Stage.due, if_neg (by rw [alone]; exact Bool.false_ne_true)] at before
    cases before
    exact goes ordered rfl (Nat.le_refl _) (Nat.le_refl _)
  | hears | concludes => cases before
  | speaks result live said provided =>
    cases before
    refine charged.moves ordered [.spoke k result.reply] rfl
      start (there _ (.speaking s.synths.length result) rfl) ?_ ?_
    · simp [handed, synthesizeAndPlay, said, provided]
    · simp [Mark.isActed]
  | quiet ttsAlreadyFired result live silent =>
    cases before
    exact goes ordered (due_afterSpeech setup result) (Nat.zero_le _) (Nat.le_refl _)
  | spoken synth result =>
    cases before
    exact goes ordered (due_afterSpeech setup result) (Nat.le_refl _) (Nat.le_refl _)
  | waited result =>
    cases before
    exact goes ordered rfl (Nat.le_refl _) (Nat.le_refl _)
  | persists =>
    cases before
    exact charged.moves ordered [.returned k] rfl start rfl (Nat.le_refl _) (Nat.le_refl _)
  | acts effect rest =>
    cases before
    refine charged.moves ordered [.acted k effect] rfl start
      (there _ (.acting rest) rfl) (Nat.le_refl _) ?_
    simp [Mark.isActed, Nat.add_comm]

theorem Charged.receives (charged : Charged setup k past texts acts s) (begun : .begun k ∈ past)
    (ordered : s'.Fifo) (idle : s.actor = .idle) (moved : ReceiveStep setup s s') :
    Charged setup k past texts acts s' := by
  have before : s.due setup k = some (0, 0) := by rw [due, idle]
  cases moved with
  | @begins j rest next =>
    have same := cancel_same setup (s.beginTurn j rest) (.segment j)
    have earlier : k < j := by
      refine (List.pairwise_append.mp charged.ordered.rising).2.2 k ?_ j ?_
      · exact List.mem_filterMap.mpr ⟨_, charged.grown.subset begun, rfl⟩
      · simp [segments, next, Message.segmentOf]
    have after : ((s.beginTurn j rest).cancel setup (.segment j)).due setup k = some (0, 0) := by
      rw [due, same.actor]
      exact if_neg (Nat.ne_of_gt earlier)
    refine charged.moves ordered [.begun j] same.trace before after ?_ (Nat.le_refl _)
    rw [handed, same.synths]
    exact Nat.le_refl _
  | @interrupts j rest next =>
    have same := cancel_same setup (s.interrupt j rest) (.bargeIn j)
    refine charged.same ordered same.actor [.handled j s.tokenTurn] same.trace rfl ?_
    rw [same.synths]
    rfl
  | remembers next => exact charged.same ordered rfl [] (List.append_nil _).symm rfl rfl

/-- However the call goes on, a turn comes to no more than was due. -/
theorem step_charged (begun : .begun k ∈ past) {action : Action} (charged : Charged setup k past texts acts s)
    (taken : s.step setup action = some s') : Charged setup k past texts acts s' := by
  have ordered : s'.Fifo := step_fifo charged.ordered taken
  cases action with
  | onset | speechEnd | tell | forward =>
    cases listen_step taken rfl with
    | tells waiting => exact charged.same ordered rfl _ rfl rfl rfl
    | hears | ends | forwards => exact charged.same ordered rfl [] (List.append_nil _).symm rfl rfl
  | receive =>
    obtain ⟨idle, moved⟩ := receive_step taken
    exact charged.receives begun ordered idle moved
  | turn move =>
    obtain ⟨j, stage, here, moved⟩ := turn_step taken
    by_cases own : j = k
    · subst own
      simp only [step, turn, here] at taken
      exact charged.turns ordered here taken
    · exact charged.others ordered here own moved
  | synth j choice =>
    obtain ⟨synth, _, moved⟩ := synth_step taken
    refine charged.same ordered moved.actor.1 [] ?_ rfl moved.turns
    rw [moved.actor.2.2, List.append_nil]
  | cancelTask j =>
    cases cancelTask_step taken <;> exact charged.same ordered rfl [] (List.append_nil _).symm rfl rfl
  | server action =>
    obtain ⟨session, event, _, rfl⟩ := server_cases taken
    obtain ⟨flags, heard, frame⟩ := afterServer_frame s session event
    rw [frame] at ordered ⊢
    exact charged.same ordered rfl [] (List.append_nil _).symm rfl rfl

theorem Spent.due_eq {stage : Stage} (spent : s.Spent setup) (here : s.actor = .turn k stage) :
    ∃ rest, stage.due setup = some (0, rest) ∧ s.inHand k = s.pending k + rest ∧ s.inHand k ≤ 1 ∧
      ∀ result, stage = .waiting result → rest = 0 := by
  unfold Spent at spent
  unfold inHand
  rw [here] at spent ⊢
  cases stage with
  | acting rest => exact ⟨rest.length, rfl, rfl, spent, nofun⟩
  | hearing | streaming | replied | speaking | waiting => exact ⟨0, spent.1, rfl, spent.2, fun _ _ => rfl⟩

end

end System

section
variable {setup : Setup}

theorem issued_le {s final : System} {k : Nat} {stage : Stage} {texts acts : Nat} {actions : List System.Action}
    (sequential : s.Sequential) (ordered : s.Fifo) (here : s.actor = .turn k stage)
    (due : stage.due setup = some (texts, acts)) (taken : run (System.step setup) s actions = some final) :
    final.issued k ≤ s.issued k + s.pending k + texts + acts ∧
      (acts = 0 → final.hangups k = s.hangups k) := by
  have begun : .begun k ∈ s.trace := by
    obtain ⟨before, after, same, _⟩ := sequential.orderly.current k (by rw [System.turnNumber, here])
    rw [same]
    simp
  have start : System.Charged setup k s.trace (s.handed k + texts) (s.acted k + acts) s := by
    refine ⟨List.prefix_refl _, ordered, (texts, acts), ?_, Nat.le_refl _, Nat.le_refl _⟩
    rw [System.due, here]
    simpa using due
  obtain ⟨⟨later, grown⟩, -, rest, -, least, most⟩ :=
    invariant_of_any_run (fun _ _ _ charged stepped => System.step_charged begun charged stepped) start taken
  have made := System.handed_eq final k
  have known := System.handed_eq s k
  constructor
  · unfold System.issued
    omega
  · rintro rfl
    have counted : final.acted k = s.acted k + later.countP (Mark.isActed k) := by
      rw [System.acted, ← grown, List.countP_append]
      rfl
    have fewer : later.countP (Mark.isHangup k) ≤ later.countP (Mark.isActed k) := by
      refine List.countP_mono_left fun mark _ hangs => ?_
      cases mark with
      | acted j effect => cases effect <;> first | exact hangs | cases hangs
      | queued | begun | spoke | returned | handled => cases hangs
    rw [System.hangups, ← grown, List.countP_append, System.hangups]
    omega

/-- A turn in progress when a barge-in reaches the mailbox does at most one more thing, and that only if the
check of its token is behind it; and a hangup whose delay it waits out is not carried out. -/
def StopsWhenQueued (setup : Setup) (actions : List System.Action) : Prop :=
  ∀ before j after s k stage final, actions = before ++ .tell j :: after →
    run (System.step setup) {} before = some s → s.actor = .turn k stage →
    run (System.step setup) {} actions = some final →
    final.issued k ≤ s.issued k + min 1 (s.inHand k) ∧
      ∀ result, stage = .waiting result → final.hangups k = s.hangups k

/-- In every run in which the turn in progress is spent whenever a barge-in reaches the mailbox, the turn in
progress stops as the barge-in asks. -/
theorem stops_when_queued (actions : List System.Action)
    (guarded : Along (System.step setup) (System.TellsSpent setup) {} actions) : StopsWhenQueued setup actions := by
  rintro before j after s k stage final rfl reached here taken
  have both : s.Sequential ∧ s.Fifo := by
    have preserved : ∀ (s : System) (action : System.Action) (s' : System), s.Sequential ∧ s.Fifo →
        s.step setup action = some s' → s'.Sequential ∧ s'.Fifo := fun s action s' both stepped =>
      ⟨System.step_sequential setup s action s' both.1 stepped, System.step_fifo both.2 stepped⟩
    have fresh : System.Fifo {} := ⟨List.Pairwise.nil, fun k inside => absurd inside List.not_mem_nil, nofun⟩
    exact invariant_of_any_run preserved ⟨System.initial_sequential, fresh⟩ reached
  rw [run_append, reached, Option.bind_some] at taken
  obtain ⟨next, told, _⟩ := run_cons taken
  have spent : s.Spent setup := ((along_append guarded reached).2 next told).1
  obtain ⟨rest, due, hand, few, waits⟩ := spent.due_eq here
  obtain ⟨least, hangups⟩ := issued_le both.1 both.2 here due taken
  refine ⟨?_, fun result waiting => hangups (waits result waiting)⟩
  rw [Nat.min_eq_right few, hand]
  omega

end

/-- A sentence is spoken; the caller speaks up when all that is left of the turn is to dial a five. -/
def lastAction : List System.Action :=
  [.onset, .speechEnd, .forward, .receive, .turn .proceed, .turn (.delta "Hi. ".toList), .synth 0 true,
    .turn (.concludes [⟨"send_dtmf", ""⟩]), .turn .proceed, .onset, .tell 0, .turn .proceed, .turn .proceed, .receive]

theorem lastAction_stopsWhenQueued :
    (run (System.step dtmfSetup) {} lastAction).map System.trace =
        some [.begun 0, .spoke 0 "Hi. ".toList, .queued 1, .acted 0 (.sendDtmf ['5']), .returned 0,
          .handled 1 (some 0)] ∧
      StopsWhenQueued dtmfSetup lastAction :=
  ⟨by decide +kernel, stops_when_queued lastAction (by decide +kernel)⟩

/-- A call with a model and Volcano TTS, whose `speak` calls all ask for a hangup. -/
def hangupSetup : Setup :=
  ⟨.volcano, true, ⟨fun _ _ => none, fun _ field => if field = "hangup" then some true else none, fun _ _ => none⟩⟩

def waitedOut : List System.Action :=
  [.onset, .speechEnd, .forward, .receive, .turn .proceed, .turn (.delta "Hi. ".toList),
    .turn (.concludes [⟨"speak", ""⟩]), .turn .proceed, .onset, .tell 0, .turn .proceed, .turn .proceed,
    .turn .proceed, .receive]

theorem turn_of_turnNumber {s : System} {k : Nat} (here : s.turnNumber = some k) :
    ∃ stage, s.actor = .turn k stage := by
  unfold System.turnNumber at here
  split at here <;> cases here
  next stage actor => exact ⟨stage, actor⟩

/-- A turn that streams goes on with its tool calls. -/
theorem bargedIn_goesOn : ¬StopsWhenQueued dtmfSetup bargedIn := by
  intro stops
  have before : (run (System.step dtmfSetup) {} (bargedIn.take 7)).map
      (fun s => (s.turnNumber, s.issued 0, s.inHand 0)) = some (some 0, 0, 1) := by decide +kernel
  have after : (run (System.step dtmfSetup) {} bargedIn).map (fun s => s.issued 0) = some 2 := by decide +kernel
  obtain ⟨s, reached, known⟩ := Option.map_eq_some_iff.mp before
  obtain ⟨final, taken, done⟩ := Option.map_eq_some_iff.mp after
  simp only [Prod.mk.injEq] at known
  obtain ⟨here, issued, hand⟩ := known
  obtain ⟨stage, actor⟩ := turn_of_turnNumber here
  have few := (stops (bargedIn.take 7) 0 (bargedIn.drop 8) s 0 stage final rfl reached actor taken).1
  rw [done, issued, hand] at few
  exact absurd few (by decide)

theorem waitedOut_hangsUp : ¬StopsWhenQueued hangupSetup waitedOut := by
  intro stops
  let waits (s : System) : Bool :=
    match s.actor with
    | .turn 0 (.waiting _) => true
    | _ => false
  have before : (run (System.step hangupSetup) {} (waitedOut.take 9)).map (fun s => (waits s, s.hangups 0)) =
      some (true, 0) := by decide +kernel
  have after : (run (System.step hangupSetup) {} waitedOut).map (fun s => s.hangups 0) = some 1 := by decide +kernel
  obtain ⟨s, reached, known⟩ := Option.map_eq_some_iff.mp before
  obtain ⟨final, taken, done⟩ := Option.map_eq_some_iff.mp after
  simp only [Prod.mk.injEq] at known
  obtain ⟨here, none⟩ := known
  simp only [waits] at here
  split at here
  next result actor =>
    have same := (stops (waitedOut.take 9) 0 (waitedOut.drop 10) s 0 _ final rfl reached actor taken).2 result rfl
    rw [done, none] at same
    cases same
  next => cases here

theorem bargedIn_not_stopsWhenQueued :
    (run (System.step dtmfSetup) {} bargedIn).map System.trace = some bargedInTrace ∧
      ¬StopsWhenQueued dtmfSetup bargedIn ∧
    (run (System.step hangupSetup) {} waitedOut).map System.trace =
        some [.begun 0, .spoke 0 "Hi. ".toList, .queued 1, .acted 0 .hangup, .returned 0, .handled 1 (some 0)] ∧
      ¬StopsWhenQueued hangupSetup waitedOut :=
  ⟨by decide +kernel, bargedIn_goesOn, by decide +kernel, waitedOut_hangsUp⟩

end Fswtch.Seat.CallSystem
