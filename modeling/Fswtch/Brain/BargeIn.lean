import Fswtch.Brain.CallHandler
import Fswtch.Lib.StepRun

/-! Barge-in of the brain. All pipelines of a call look at one flag, which the next utterance
clears; a cancelled pipeline is silent as long as no utterance clears the flag before it looked. -/

namespace Fswtch.Brain.CallHandler
open Fswtch.Lib Fswtch.Lib.StepRun
open Fswtch.Brain.Esl (Headers)
open Fswtch.Lib.ByteReader (utf8)

def Phase.isSending : Phase → Bool
  | .sending _ => true
  | .polling | .ended => false

def Handler.phase (h : Handler) (p : Nat) : Phase := (h.pipelines[p]?).elim .ended Pipeline.phase

def Entry.sends (p : Nat) : Entry → Bool
  | .sent q _ => q = p
  | .cancelled | .started _ _ | .passed _ | .callEnded _ => false

def StartedIn (entries : List Entry) (p : Nat) : Prop := ∃ job, .started p job ∈ entries

/-- After a start-talking event the pipelines started before it pass no further check and each
sends one chunk at most; no two of them do, and none once the next pipeline is started. -/
structure Interrupted (before after : List Entry) : Prop where
  unpassed : ∀ p, StartedIn before p → .passed p ∉ after
  once : ∀ p, StartedIn before p → after.countP (Entry.sends p) ≤ 1
  alone : ∀ p q, p ≠ q → StartedIn before p → StartedIn before q →
    after.countP (Entry.sends p) = 0 ∨ after.countP (Entry.sends q) = 0
  replaced : ∀ p, StartedIn before p → ∀ middle q job rest, after = middle ++ .started q job :: rest →
    rest.countP (Entry.sends p) = 0

def BargeInStops (trace : List Entry) : Prop :=
  ∀ before after, trace = before ++ .cancelled :: after → Interrupted before after

/-- A start-talking event finds one chunk at most between its check and its sending, and an
utterance that clears a set flag finds every pipeline ended. -/
def SettledFor (h : Handler) : Option Effect → Prop
  | some .cancels => ∀ p < h.pipelines.length, ∀ q < h.pipelines.length,
      (h.phase p).isSending = true → (h.phase q).isSending = true → p = q
  | some (.starts _) => h.cancel = true → ∀ pipeline ∈ h.pipelines, pipeline.phase = .ended
  | none => True

def Settled (h : Handler) : Action → Prop
  | .event headers body => SettledFor h (effect (legAfter h.bUuid headers) headers body)
  | .chunk _ _ | .send _ _ | .finish _ | .hangUp => True

instance decidableSettledFor (h : Handler) : (e : Option Effect) → Decidable (SettledFor h e)
  | some .cancels => inferInstanceAs (Decidable (∀ p < h.pipelines.length, ∀ q < h.pipelines.length,
      (h.phase p).isSending = true → (h.phase q).isSending = true → p = q))
  | some (.starts _) => inferInstanceAs (Decidable (_ → _))
  | none => isTrue trivial

instance decidableSettled (h : Handler) : (action : Action) → Decidable (Settled h action)
  | .event headers body => decidableSettledFor h (effect (legAfter h.bUuid headers) headers body)
  | .chunk _ _ | .send _ _ | .finish _ | .hangUp => isTrue trivial

def Handler.inHand (h : Handler) (p : Nat) : Nat := if (h.phase p).isSending then 1 else 0

/-- Pipeline `p` will see the flag when it next looks, or does not look again. -/
def Handler.stopped (h : Handler) (p : Nat) : Prop := h.cancel = true ∨ h.phase p = .ended

/-- The pipelines started before a start-talking event, counting the chunks in their hands. -/
structure Stopping (h : Handler) (before after : List Entry) : Prop where
  stopped : ∀ p, StartedIn before p → h.stopped p
  unpassed : ∀ p, StartedIn before p → .passed p ∉ after
  once : ∀ p, StartedIn before p → after.countP (Entry.sends p) + h.inHand p ≤ 1
  alone : ∀ p q, p ≠ q → StartedIn before p → StartedIn before q →
    after.countP (Entry.sends p) + h.inHand p = 0 ∨ after.countP (Entry.sends q) + h.inHand q = 0
  replaced : ∀ p, StartedIn before p → ∀ middle q job rest, after = middle ++ .started q job :: rest →
    h.phase p = .ended ∧ rest.countP (Entry.sends p) = 0

theorem Stopping.interrupted {h : Handler} {before after : List Entry} (stopping : Stopping h before after) :
    Interrupted before after where
  unpassed := stopping.unpassed
  once p started := by
    have bound := stopping.once p started
    omega
  alone p q apart first second := by
    have either := stopping.alone p q apart first second
    omega
  replaced p started middle q job rest split := (stopping.replaced p started middle q job rest split).2

/-- A step that adds `entries` to the trace leaves a stopped pipeline stopped. -/
structure StaysStopped (h h' : Handler) (entries : List Entry) (p : Nat) : Prop where
  stopped : h'.stopped p
  unpassed : .passed p ∉ entries
  hand : entries.countP (Entry.sends p) + h'.inHand p ≤ h.inHand p
  ended : h.phase p = .ended → h'.phase p = .ended
  replaced : ∀ q, StartedIn entries q → h.phase p = .ended

theorem inHand_ended {h : Handler} {p : Nat} (ended : h.phase p = .ended) : h.inHand p = 0 := by
  rw [Handler.inHand, ended]
  rfl

theorem StaysStopped.silent {h h' : Handler} {entries : List Entry} {p : Nat} (stays : StaysStopped h h' entries p)
    (ended : h.phase p = .ended) : entries.countP (Entry.sends p) = 0 := by
  have hand := stays.hand
  rw [inHand_ended ended] at hand
  omega

theorem Stopping.extend {h h' : Handler} {before after : List Entry} (entries : List Entry)
    (stopping : Stopping h before after)
    (stays : ∀ p, StartedIn before p → h.stopped p → StaysStopped h h' entries p) :
    Stopping h' before (after ++ entries) := by
  have stay : ∀ p, StartedIn before p → StaysStopped h h' entries p := fun p started =>
    stays p started (stopping.stopped p started)
  refine ⟨fun p started => (stay p started).stopped, fun p started member => ?_, fun p started => ?_,
    fun p q apart first second => ?_, fun p started middle q job rest split => ?_⟩
  · rcases List.mem_append.mp member with earlier | now
    · exact stopping.unpassed p started earlier
    · exact (stay p started).unpassed now
  · have bound := stopping.once p started
    have hand := (stay p started).hand
    rw [List.countP_append]
    omega
  · have either := stopping.alone p q apart first second
    have hand := (stay p first).hand
    have hand' := (stay q second).hand
    rw [List.countP_append, List.countP_append]
    omega
  · rcases split_append_cases split with ⟨old, rfl, inside⟩ | ⟨front, now⟩
    · obtain ⟨ended, silent⟩ := stopping.replaced p started middle q job old inside
      refine ⟨(stay p started).ended ended, ?_⟩
      rw [List.countP_append, silent, (stay p started).silent ended]
    · have ended := (stay p started).replaced q ⟨job, now ▸ List.mem_append_right _ List.mem_cons_self⟩
      have silent := (stay p started).silent ended
      rw [now, List.countP_append, List.countP_cons] at silent
      exact ⟨(stay p started).ended ended, by omega⟩

structure Barged (h : Handler) : Prop where
  known : ∀ p, StartedIn h.trace p → p < h.pipelines.length
  stopping : ∀ before after, h.trace = before ++ .cancelled :: after → Stopping h before after

theorem Barged.extend {h h' : Handler} (entries : List Entry) (barged : Barged h)
    (trace : h'.trace = h.trace ++ entries) (quiet : .cancelled ∉ entries)
    (known : ∀ p, StartedIn h'.trace p → p < h'.pipelines.length)
    (stays : ∀ p < h.pipelines.length, h.stopped p → StaysStopped h h' entries p) : Barged h' := by
  refine ⟨known, fun before after split => ?_⟩
  obtain ⟨rest, rfl, inside⟩ := split_append (trace ▸ split) quiet
  refine (barged.stopping before rest inside).extend entries fun p started => stays p ?_
  obtain ⟨job, member⟩ := started
  exact barged.known p ⟨job, inside ▸ List.mem_append_left _ member⟩

theorem StaysStopped.same {h h' : Handler} {entries : List Entry} {p : Nat} (stopped : h.stopped p)
    (cancel : h.cancel = true → h'.cancel = true ∨ h'.phase p = .ended) (phase : h'.phase p = h.phase p)
    (unpassed : .passed p ∉ entries) (unsent : entries.countP (Entry.sends p) = 0)
    (replaced : ∀ q, StartedIn entries q → h.phase p = .ended) : StaysStopped h h' entries p := by
  have hand : h'.inHand p = h.inHand p := by rw [Handler.inHand, phase, ← Handler.inHand]
  refine ⟨stopped.elim cancel fun ended => .inr (phase.trans ended), unpassed, ?_, phase.trans, replaced⟩
  omega

theorem startedIn_append {entries new : List Entry} {p : Nat} (none : ¬StartedIn new p)
    (started : StartedIn (entries ++ new) p) : StartedIn entries p := by
  obtain ⟨job, member⟩ := started
  exact ⟨job, (List.mem_append.mp member).resolve_right fun now => none ⟨job, now⟩⟩

theorem Barged.quiet {h h' : Handler} (barged : Barged h) (trace : h'.trace = h.trace)
    (pipelines : h'.pipelines = h.pipelines) (cancel : h.cancel = true → h'.cancel = true) : Barged h' := by
  have same : ∀ p, h'.phase p = h.phase p := fun p => by rw [Handler.phase, pipelines, ← Handler.phase]
  refine barged.extend [] (by rw [trace, List.append_nil]) List.not_mem_nil
    (fun p started => pipelines ▸ barged.known p (trace ▸ started)) fun p _ stopped => ?_
  exact .same stopped (fun set => .inl (cancel set)) (same p) List.not_mem_nil rfl
    fun q ⟨_, member⟩ => absurd member List.not_mem_nil

theorem Barged.moves {h h' : Handler} {p : Nat} {job : Job} {before phase : Phase} (barged : Barged h)
    (found : h.pipelines[p]? = some ⟨job, before⟩) (entries : List Entry)
    (trace : h'.trace = h.trace ++ entries) (pipelines : h'.pipelines = h.pipelines.set p ⟨job, phase⟩)
    (cancel : h'.cancel = h.cancel) (own : ∀ entry ∈ entries, entry = .passed p ∨ ∃ e, entry = .sent p e)
    (stays : h.stopped p → StaysStopped h h' entries p) : Barged h' := by
  have fresh : .cancelled ∉ entries := by
    intro member
    obtain same | ⟨e, same⟩ := own _ member <;> cases same
  have unstarted : ∀ q, ¬StartedIn entries q := by
    intro q started
    obtain ⟨job, member⟩ := started
    obtain same | ⟨e, same⟩ := own _ member <;> cases same
  refine barged.extend entries trace fresh (fun q started => ?_) fun q _ stopped => ?_
  · rw [pipelines, List.length_set]
    exact barged.known q (startedIn_append (unstarted q) (trace ▸ started))
  · by_cases here : q = p
    · subst here
      exact stays stopped
    · have phase_same : h'.phase q = h.phase q := by
        rw [Handler.phase, pipelines, List.getElem?_set_ne (Ne.symm here), ← Handler.phase]
      refine .same stopped (fun set => .inl (cancel.trans set)) phase_same (fun member => ?_) ?_
        fun r now => absurd now (unstarted r)
      · obtain same | ⟨e, same⟩ := own _ member
        · exact here (by cases same; rfl)
        · cases same
      · refine List.countP_eq_zero.mpr fun entry member => ?_
        obtain rfl | ⟨e, rfl⟩ := own entry member
        · exact Bool.false_ne_true
        · exact fun same => here (of_decide_eq_true same).symm

theorem phase_found {h : Handler} {p : Nat} {job : Job} {phase : Phase}
    (found : h.pipelines[p]? = some ⟨job, phase⟩) : h.phase p = phase := by
  rw [Handler.phase, found]
  rfl

theorem phase_set {h h' : Handler} {p : Nat} {job job' : Job} {before phase : Phase}
    (found : h.pipelines[p]? = some ⟨job, before⟩) (pipelines : h'.pipelines = h.pipelines.set p ⟨job', phase⟩) :
    h'.phase p = phase := by
  rw [Handler.phase, pipelines, List.getElem?_set_self (List.getElem?_eq_some_iff.mp found).choose]
  rfl

theorem phase_start {h : Handler} {p : Nat} (job : Job) (old : p < h.pipelines.length) :
    (h.start job).phase p = h.phase p := by
  rw [Handler.phase, Handler.start, List.getElem?_append_left old, ← Handler.phase]

theorem ended_of_settled {h : Handler} {job : Job} (settled : SettledFor h (some (.starts job))) {p : Nat}
    (old : p < h.pipelines.length) (stopped : h.stopped p) : h.phase p = .ended := by
  refine stopped.elim (fun set => ?_) id
  rw [Handler.phase, List.getElem?_eq_getElem old]
  exact settled set _ (List.getElem_mem old)

theorem Barged.starts {h : Handler} (barged : Barged h) (job : Job)
    (settled : SettledFor h (some (.starts job))) : Barged (h.start job) := by
  refine barged.extend [.started h.pipelines.length job] rfl (by simp) (fun p started => ?_) fun p old stopped => ?_
  · change p < (h.pipelines ++ [_]).length
    rw [List.length_append, List.length_singleton]
    by_cases here : p = h.pipelines.length
    · exact here ▸ Nat.lt_succ_self _
    · have none : ¬StartedIn [.started h.pipelines.length job] p := by
        rintro ⟨job', member⟩
        cases List.mem_singleton.mp member
        exact here rfl
      exact Nat.lt_succ_of_lt (barged.known p (startedIn_append none started))
  · have ended := ended_of_settled settled old stopped
    have same := phase_start job old
    exact .same stopped (fun _ => .inr (same.trans ended)) same (by simp) rfl fun _ _ => ended

theorem inHand_le_one (h : Handler) (p : Nat) : h.inHand p ≤ 1 := by
  unfold Handler.inHand
  split <;> decide

theorem Barged.cancels {h : Handler} (barged : Barged h) (settled : SettledFor h (some .cancels)) :
    Barged { h with cancel := true, trace := h.trace ++ [.cancelled] } := by
  have unstarted : ∀ p, ¬StartedIn [.cancelled] p := by simp [StartedIn]
  refine ⟨fun p started => barged.known p (startedIn_append (unstarted p) started), fun before after split => ?_⟩
  rcases split_concat split with ⟨rfl, _, rfl⟩ | ⟨rest, rfl, inside⟩
  · refine ⟨fun _ _ => .inl rfl, fun _ _ => List.not_mem_nil, fun p _ => ?_, fun p q apart first second => ?_,
      fun p _ middle q job rest later => absurd later (by simp)⟩
    · rw [List.countP_nil, Nat.zero_add]
      exact inHand_le_one _ p
    · rw [List.countP_nil, List.countP_nil, Nat.zero_add, Nat.zero_add]
      by_cases one : (h.phase p).isSending = true
      · refine .inr (if_neg fun other => apart ?_)
        exact settled p (barged.known p first) q (barged.known q second) one other
      · exact .inl (if_neg one)
  · exact (barged.stopping before rest inside).extend [.cancelled] fun p _ stopped =>
      .same stopped (fun _ => .inl rfl) rfl (by simp) rfl fun q now => absurd now (unstarted q)

theorem Barged.applies {h : Handler} (barged : Barged h) {e : Option Effect} (settled : SettledFor h e) :
    Barged (h.apply e) := by
  match e with
  | some .cancels => exact barged.cancels settled
  | some (.starts job) => exact barged.starts job settled
  | none => exact barged

theorem Barged.passes {h : Handler} {p : Nat} {job : Job} (barged : Barged h)
    (found : h.pipelines[p]? = some ⟨job, .polling⟩) (clear : h.cancel = false) (chunk : List UInt8) :
    Barged { h.setPhase p job (.sending chunk) with trace := h.trace ++ [.passed p] } := by
  refine barged.moves found [.passed p] rfl rfl rfl (fun entry member => .inl (List.mem_singleton.mp member)) ?_
  intro stopped
  rcases stopped with set | ended
  · cases clear.symm.trans set
  · cases (phase_found found).symm.trans ended

theorem Barged.sends {h : Handler} {p : Nat} {job : Job} {chunk : List UInt8} {phase : Phase} (barged : Barged h)
    (found : h.pipelines[p]? = some ⟨job, .sending chunk⟩) (sent : phase = .polling ∨ phase = .ended)
    (event : List UInt8) :
    Barged { h.setPhase p job phase with trace := h.trace ++ [.sent p event] } := by
  refine barged.moves found [.sent p event] rfl rfl rfl
    (fun entry member => .inr ⟨event, List.mem_singleton.mp member⟩) fun stopped => ?_
  have before := phase_found found
  have after : ({ h.setPhase p job phase with trace := h.trace ++ [.sent p event] } : Handler).phase p = phase :=
    phase_set found rfl
  refine ⟨?_, by simp, ?_, fun ended => ?_, fun q ⟨_, member⟩ => ?_⟩
  · rcases stopped with set | ended
    · exact .inl set
    · cases before.symm.trans ended
  · have one : [Entry.sent p event].countP (Entry.sends p) = 1 := by simp [Entry.sends]
    have idle : phase.isSending = false := by
      rcases sent with rfl | rfl <;> rfl
    rw [one, Handler.inHand, Handler.inHand, after, before, idle, if_neg Bool.false_ne_true]
    exact Nat.le_refl 1
  · cases before.symm.trans ended
  · cases List.mem_singleton.mp member

theorem Barged.stops {h : Handler} {p : Nat} {job : Job} {phase : Phase} (barged : Barged h)
    (found : h.pipelines[p]? = some ⟨job, phase⟩) : Barged (h.setPhase p job .ended) := by
  refine barged.moves found [] (List.append_nil _).symm rfl rfl (fun _ member => absurd member List.not_mem_nil)
    fun _ => ?_
  have ended : (h.setPhase p job .ended).phase p = .ended := phase_set found rfl
  refine ⟨.inr ended, List.not_mem_nil, ?_, fun _ => ended, fun q ⟨_, member⟩ => absurd member List.not_mem_nil⟩
  rw [inHand_ended ended]
  exact Nat.zero_le _

theorem Barged.hangs {h : Handler} (barged : Barged h) : Barged h.finally_ := by
  by_cases unnamed : h.aUuid = ""
  · exact barged.quiet (if_pos unnamed) rfl fun _ => rfl
  · have trace : h.finally_.trace = h.trace ++ [.callEnded h.aUuid] := if_neg unnamed
    have unstarted : ∀ p, ¬StartedIn [.callEnded h.aUuid] p := by simp [StartedIn]
    refine barged.extend _ trace (by simp) (fun p started => ?_) fun p _ stopped =>
      .same stopped (fun _ => .inl rfl) rfl (by simp) rfl fun q now => absurd now (unstarted q)
    exact barged.known p (startedIn_append (unstarted p) (trace ▸ started))

theorem step_barged (h : Handler) (action : Action) (h' : Handler) (barged : Barged h)
    (settled : Settled h action) (taken : h.step action = some h') : Barged h' := by
  cases step_moves taken with
  | hears headers body live =>
    have learned : Barged { h with bUuid := legAfter h.bUuid headers } := barged.quiet rfl rfl id
    exact learned.applies settled
  | stops action p job phase found own => exact barged.stops found
  | passes p job chunk found clear => exact barged.passes found clear chunk
  | sends p job chunk event outcome phase found sent => exact barged.sends found sent event
  | hangs live => exact barged.hangs

/-- In every run in which no utterance clears a flag that a running pipeline has not seen, and
no start-talking event finds two chunks past their check, barge-in stops the pipelines. -/
theorem bargeIn_stops (aUuid : String) (actions : List Action) (final : Handler)
    (settled : Along Handler.step Settled { aUuid } actions)
    (taken : run Handler.step { aUuid } actions = some final) : BargeInStops final.trace := by
  have start : Barged { aUuid } := by
    refine ⟨by simp [StartedIn], fun before after split => ?_⟩
    cases (List.append_eq_nil_iff.mp split.symm).2
  have barged := invariant_of_run step_barged start settled taken
  exact fun before after split => (barged.stopping before after split).interrupted

/-- A reply is interrupted with a chunk in hand, and the next utterance comes once it has ended. -/
def interrupted : List Action :=
  [.event (uplinkEvent "b") (utf8 "AAAA"), .chunk 0 [1, 2], .send 0 .replied, .chunk 0 [3, 4],
    .event (vadEvent "b" "start-talking") [], .send 0 .replied, .chunk 0 [5, 6],
    .event (uplinkEvent "b") (utf8 "AAAA"), .chunk 1 [7, 8], .send 1 .replied, .finish 1]

theorem interrupted_bargeIn_stops :
    ∃ final, run Handler.step { aUuid := "a" } interrupted = some final ∧
      final.pipelines.map Pipeline.phase = [.ended, .ended] ∧ BargeInStops final.trace :=
  ⟨_, rfl, by decide +kernel, bargeIn_stops "a" interrupted _ (by decide +kernel) rfl⟩

/-- The next utterance is handled before the interrupted pipeline looks at the flag. -/
def revived : List Action :=
  [.event (uplinkEvent "b") (utf8 "AAAA"), .event (vadEvent "b" "start-talking") [],
    .event (uplinkEvent "b") (utf8 "AAAA"), .chunk 0 [1, 2], .send 0 .replied]

theorem revived_not_bargeInStops :
    ∃ final, run Handler.step { aUuid := "a" } revived = some final ∧ ¬BargeInStops final.trace := by
  refine ⟨_, rfl, fun stops => ?_⟩
  have interrupts := stops [_] _ rfl
  exact interrupts.unpassed 0 ⟨_, List.mem_singleton.mpr rfl⟩ (by decide +kernel)

end Fswtch.Brain.CallHandler
