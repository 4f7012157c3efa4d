import Fswtch.Brain.CallHandler

/-! The socket of a call carries the events of every call. What the handler does depends on the
events of its own call alone as long as no other call starts talking and the leg it learns is
its own. -/

namespace Fswtch.Brain.CallHandler
open Fswtch.Brain.Esl (Headers)
open Fswtch.Lib.ByteReader (utf8)

def Handler.advance (h : Handler) (action : Action) : Handler := (h.step action).getD h

def Handler.play (h : Handler) (actions : List Action) : Handler := actions.foldl Handler.advance h

variable (own : String → Bool)

/-- An event of the call's own legs, or a step of the handler or of a pipeline. -/
def Action.ours : Action → Bool
  | .event headers _ => own (callUuid headers)
  | .chunk _ _ | .send _ _ | .finish _ | .hangUp => true

def ownPart (actions : List Action) : List Action := actions.filter (Action.ours own)

abbrev Event := Headers × List UInt8

def Event.ours (e : Event) : Bool := own (callUuid e.1)

def heard : List Action → List Event
  | [] => []
  | .event headers body :: rest => (headers, body) :: heard rest
  | .hangUp :: _ => []
  | .chunk _ _ :: rest | .send _ _ :: rest | .finish _ :: rest => heard rest

def legFrom (leg : String) (events : List Event) : String := events.foldl (fun leg e => legAfter leg e.1) leg

def legOf (events : List Event) : String := legFrom "" events

def Silent (leg : String) (events : List Event) : Prop :=
  ∀ e ∈ events, e.1.get "Event-Subclass" = some UPLINK → callUuid e.1 = leg → uplinkJob e.1 e.2 = none

/-- No other call starts talking, and the leg that is heard is the call's own; or nothing is
heard on it, and nothing would be on the call's own. -/
structure Unmixed (events : List Event) : Prop where
  talking : ∀ e ∈ events, startsTalking e.1 = true → Event.ours own e = true
  leg : own (legOf events) = true ∨
    Silent (legOf events) events ∧ Silent (legOf (events.filter (Event.ours own))) (events.filter (Event.ours own))

instance (leg : String) (events : List Event) : Decidable (Silent leg events) :=
  inferInstanceAs (Decidable (∀ e ∈ events, _ → _ → _))

instance (events : List Event) : Decidable (Unmixed own events) :=
  decidable_of_iff ((∀ e ∈ events, startsTalking e.1 = true → Event.ours own e = true) ∧
      (own (legOf events) = true ∨ Silent (legOf events) events ∧
        Silent (legOf (events.filter (Event.ours own))) (events.filter (Event.ours own))))
    ⟨fun both => ⟨both.1, both.2⟩, fun unmixed => ⟨unmixed.talking, unmixed.leg⟩⟩

theorem legAfter_of_ne {leg : String} (known : leg ≠ "") (headers : Headers) : legAfter leg headers = leg :=
  if_neg fun both => known both.2

theorem legFrom_of_ne {leg : String} (known : leg ≠ "") (events : List Event) : legFrom leg events = leg := by
  induction events with
  | nil => rfl
  | cons e rest ih =>
    rw [legFrom, List.foldl_cons, legAfter_of_ne known]
    exact ih

theorem effect_legFrom (leg : String) (headers : Headers) (body : List UInt8) (later : List Event) :
    effect (legAfter leg headers) headers body = effect (legFrom (legAfter leg headers) later) headers body := by
  by_cases known : legAfter leg headers = ""
  · by_cases uplink : headers.get "Event-Subclass" = some UPLINK
    · have unnamed := (callUuid_of_legAfter uplink known).trans known
      have jobless : uplinkJob headers body = none := if_pos unnamed
      rw [effect_uplink uplink, effect_uplink uplink, jobless]
      simp
    · rw [effect_other fun both => uplink both.1, effect_other fun both => uplink both.1]
  · rw [legFrom_of_ne known]

def Handler.advanceOn (leg : String) (h : Handler) : Action → Handler
  | .event headers body => if h.live then h.apply (effect leg headers body) else h
  | .chunk p bytes => h.advance (.chunk p bytes)
  | .send p outcome => h.advance (.send p outcome)
  | .finish p => h.advance (.finish p)
  | .hangUp => h.advance .hangUp

def Handler.playOn (leg : String) (h : Handler) (actions : List Action) : Handler :=
  actions.foldl (Handler.advanceOn leg) h

theorem advanceOn_event {h : Handler} (live : h.live = true) (leg : String) (headers : Headers) (body : List UInt8) :
    h.advanceOn leg (.event headers body) = h.apply (effect leg headers body) := if_pos live

theorem advanceOn_dead {h : Handler} (dead : ¬h.live = true) (leg : String) (headers : Headers) (body : List UInt8) :
    h.advanceOn leg (.event headers body) = h := if_neg dead

def Handler.forget (h : Handler) : Handler := { h with bUuid := "" }

theorem forget_apply (h : Handler) (e : Option Effect) : (h.apply e).forget = h.forget.apply e := by
  match e with
  | some .cancels | some (.starts _) | none => rfl

theorem bUuid_apply (h : Handler) (e : Option Effect) : (h.apply e).bUuid = h.bUuid := by
  match e with
  | some .cancels | some (.starts _) | none => rfl

theorem advance_event {h : Handler} (live : h.live = true) (headers : Headers) (body : List UInt8) :
    h.advance (.event headers body) = { h with bUuid := legAfter h.bUuid headers }.apply
      (effect (legAfter h.bUuid headers) headers body) := by
  have step : h.step (.event headers body) = some (h.handle headers body) := if_pos live
  rw [Handler.advance, step, Option.getD_some, handle_eq]

theorem advance_event_dead {h : Handler} (dead : ¬h.live = true) (headers : Headers) (body : List UInt8) :
    h.advance (.event headers body) = h := by
  have step : h.step (.event headers body) = none := if_neg dead
  rw [Handler.advance, step, Option.getD_none]

def Action.isEvent : Action → Bool
  | .event _ _ => true
  | .chunk _ _ | .send _ _ | .finish _ | .hangUp => false

theorem Action.event_or_silent (action : Action) :
    action.isEvent = false ∨ ∃ headers body, action = .event headers body := by
  cases action with
  | event headers body => exact .inr ⟨headers, body, rfl⟩
  | chunk p bytes | send p outcome | finish p | hangUp => exact .inl rfl

/-- Pipelines and the hangup do not look at the leg. -/
theorem forget_advance {action : Action} (silent : action.isEvent = false) (h : Handler) :
    (h.advance action).forget = h.forget.advance action := by
  have step : (h.step action).map Handler.forget = h.forget.step action := by
    have pipelines : h.forget.pipelines = h.pipelines := rfl
    cases action with
    | event headers body => cases silent
    | chunk p bytes =>
      simp only [Handler.step, pipelines]
      split
      · have polls (job : Job) : (h.poll p job bytes).forget = h.forget.poll p job bytes := by
          unfold Handler.poll
          by_cases set : h.cancel = true
          · rw [if_pos set]
            exact (if_pos set).symm
          · rw [if_neg set]
            exact (if_neg set).symm
        rw [Option.map_some, polls]
      · rfl
    | send p outcome =>
      simp only [Handler.step, pipelines]
      split
      · cases outcome <;> rfl
      · rfl
    | finish p =>
      simp only [Handler.step, pipelines]
      split <;> rfl
    | hangUp =>
      by_cases live : h.live = true
      · exact (congrArg (Option.map Handler.forget) (if_pos live)).trans (if_pos live).symm
      · exact (congrArg (Option.map Handler.forget) (if_neg live)).trans (if_neg live).symm
  rw [Handler.advance, Handler.advance, ← step]
  cases h.step action <;> rfl

theorem advanceOn_silent {action : Action} (silent : action.isEvent = false) (leg : String) (h : Handler) :
    h.advanceOn leg action = h.advance action := by
  cases action with
  | event headers body => cases silent
  | chunk p bytes | send p outcome | finish p | hangUp => rfl

def Entry.reaction : Entry → Option Effect
  | .cancelled => some .cancels
  | .started _ job => some (.starts job)
  | .passed _ | .sent _ _ | .callEnded _ => none

def reactions (trace : List Entry) : List Effect := trace.filterMap Entry.reaction

theorem reactions_append (first second : List Entry) :
    reactions (first ++ second) = reactions first ++ reactions second := List.filterMap_append

theorem live_apply (h : Handler) (e : Option Effect) : (h.apply e).live = h.live := by
  match e with
  | some .cancels | some (.starts _) | none => rfl

theorem reactions_apply (h : Handler) (e : Option Effect) :
    reactions (h.apply e).trace = reactions h.trace ++ e.toList := by
  match e with
  | some .cancels => exact reactions_append h.trace [.cancelled]
  | some (.starts job) => exact reactions_append h.trace [.started h.pipelines.length job]
  | none => exact (List.append_nil _).symm

theorem moves_silent {h h' : Handler} {action : Action} (silent : action.isEvent = false)
    (moves : Moves h action h') :
    h'.live = (h.live && decide (action ≠ .hangUp)) ∧ h'.bUuid = h.bUuid ∧
      reactions h'.trace = reactions h.trace := by
  cases moves with
  | hears headers body live => cases silent
  | stops action p job phase found own =>
    have apart : action ≠ .hangUp := by
      rintro rfl
      cases own
    exact ⟨by rw [decide_eq_true apart, Bool.and_true]; rfl, rfl, rfl⟩
  | passes p job chunk found clear =>
    exact ⟨(Bool.and_true _).symm, rfl, (reactions_append h.trace [.passed p]).trans (List.append_nil _)⟩
  | sends p job chunk event outcome phase found sent =>
    exact ⟨(Bool.and_true _).symm, rfl, (reactions_append h.trace [.sent p event]).trans (List.append_nil _)⟩
  | hangs live =>
    refine ⟨(Bool.and_false _).symm, rfl, ?_⟩
    by_cases unnamed : h.aUuid = ""
    · exact congrArg reactions (if_pos unnamed)
    · refine (congrArg reactions (if_neg unnamed)).trans ?_
      exact (reactions_append h.trace [.callEnded h.aUuid]).trans (List.append_nil _)

theorem advance_silent {action : Action} (silent : action.isEvent = false) (h : Handler) :
    (h.advance action).live = (h.live && decide (action ≠ .hangUp)) ∧ (h.advance action).bUuid = h.bUuid ∧
      reactions (h.advance action).trace = reactions h.trace := by
  cases taken : h.step action with
  | some h' =>
    rw [Handler.advance, taken]
    exact moves_silent silent (step_moves taken)
  | none =>
    rw [Handler.advance, taken]
    refine ⟨?_, rfl, rfl⟩
    by_cases hangs : action = .hangUp
    · subst hangs
      have dead : h.live = false := by
        cases live : h.live with
        | false => rfl
        | true => cases (if_pos live).symm.trans taken
      simp [dead]
    · simp [hangs]

theorem heard_silent {action : Action} (silent : action.isEvent = false) (rest : List Action) :
    heard (action :: rest) = if action = .hangUp then [] else heard rest := by
  cases action with
  | event headers body => cases silent
  | chunk p bytes | send p outcome | finish p => rw [if_neg nofun, heard]
  | hangUp => rw [if_pos rfl, heard]

theorem heard_of_live {action : Action} (silent : action.isEvent = false) {h : Handler} (rest : List Action)
    (live : (h.advance action).live = true) : h.live = true ∧ heard (action :: rest) = heard rest := by
  rw [(advance_silent silent h).1, Bool.and_eq_true] at live
  exact ⟨live.1, (heard_silent silent rest).trans (if_neg (of_decide_eq_true live.2))⟩

theorem forget_play {leg : String} {h : Handler} {actions : List Action}
    (known : h.live = true → leg = legFrom h.bUuid (heard actions)) :
    (h.play actions).forget = h.forget.playOn leg actions := by
  induction actions generalizing h with
  | nil => rfl
  | cons action rest ih =>
    change ((h.advance action).play rest).forget = (h.forget.advanceOn leg action).playOn leg rest
    rcases action.event_or_silent with silent | ⟨headers, body, rfl⟩
    · rw [advanceOn_silent silent, ← forget_advance silent]
      refine ih fun live => ?_
      obtain ⟨before, hears⟩ := heard_of_live silent rest live
      rw [(advance_silent silent h).2.1, ← hears]
      exact known before
    · by_cases live : h.live = true
      · have later : leg = legFrom (legAfter h.bUuid headers) (heard rest) := known live
        have same : h.forget.advanceOn leg (.event headers body) = (h.advance (.event headers body)).forget := by
          rw [advance_event live, forget_apply, effect_legFrom h.bUuid headers body (heard rest), ← later]
          exact advanceOn_event (h := h.forget) live leg headers body
        rw [same]
        refine ih fun _ => ?_
        rw [advance_event live, bUuid_apply]
        exact later
      · have dead : ¬h.forget.live = true := live
        rw [advance_event_dead live, advanceOn_dead dead]
        exact ih fun now => absurd now live

def effects (leg : String) (events : List Event) : List Effect := events.filterMap fun e => effect leg e.1 e.2

theorem effects_cons (leg : String) (e : Event) (rest : List Event) :
    effects leg (e :: rest) = (effect leg e.1 e.2).toList ++ effects leg rest := by
  rw [effects, List.filterMap_cons]
  cases effect leg e.1 e.2 <;> rfl

theorem reactions_playOn (leg : String) (h : Handler) (actions : List Action) :
    reactions (h.playOn leg actions).trace =
      reactions h.trace ++ if h.live then effects leg (heard actions) else [] := by
  induction actions generalizing h with
  | nil => exact ((congrArg _ (ite_self _)).trans (List.append_nil _)).symm
  | cons action rest ih =>
    change reactions ((h.advanceOn leg action).playOn leg rest).trace = _
    rw [ih]
    rcases action.event_or_silent with silent | ⟨headers, body, rfl⟩
    · obtain ⟨live, _, same⟩ := advance_silent silent h
      rw [advanceOn_silent silent, same, live, heard_silent silent]
      by_cases hangs : action = .hangUp <;> simp [hangs, effects]
    · by_cases live : h.live = true
      · rw [advanceOn_event live, reactions_apply, live_apply, if_pos live, if_pos live, heard, effects_cons,
          List.append_assoc]
      · rw [advanceOn_dead live, if_neg live, if_neg live]

theorem ownPart_ours {headers : Headers} {body : List UInt8} (ours : Event.ours own (headers, body) = true)
    (rest : List Action) :
    ownPart own (.event headers body :: rest) = .event headers body :: ownPart own rest :=
  List.filter_cons_of_pos ours

theorem ownPart_foreign {headers : Headers} {body : List UInt8} (foreign : ¬Event.ours own (headers, body) = true)
    (rest : List Action) : ownPart own (.event headers body :: rest) = ownPart own rest :=
  List.filter_cons_of_neg foreign

/-- Handlers that hear the same of the call's own events and nothing of the others run alike. -/
theorem playOn_ownPart {leg ownLeg : String} {h : Handler} {actions : List Action}
    (agree : h.live = true → ∀ e ∈ heard actions,
      effect leg e.1 e.2 = if Event.ours own e then effect ownLeg e.1 e.2 else none) :
    h.playOn leg actions = h.playOn ownLeg (ownPart own actions) := by
  induction actions generalizing h with
  | nil => rfl
  | cons action rest ih =>
    change (h.advanceOn leg action).playOn leg rest = _
    rcases action.event_or_silent with silent | ⟨headers, body, rfl⟩
    · have kept : ownPart own (action :: rest) = action :: ownPart own rest := by
        refine List.filter_cons_of_pos ?_
        cases action with
        | event headers body => cases silent
        | chunk p bytes | send p outcome | finish p | hangUp => rfl
      rw [kept, advanceOn_silent silent]
      change _ = (h.advanceOn ownLeg action).playOn ownLeg (ownPart own rest)
      rw [advanceOn_silent silent]
      refine ih fun live => ?_
      obtain ⟨before, hears⟩ := heard_of_live silent rest live
      exact hears ▸ agree before
    · by_cases live : h.live = true
      · obtain ⟨here, later⟩ := List.forall_mem_cons.mp (agree live)
        rw [advanceOn_event live]
        by_cases ours : Event.ours own (headers, body) = true
        · rw [ownPart_ours own ours, here, if_pos ours]
          change _ = (h.advanceOn ownLeg (.event headers body)).playOn ownLeg (ownPart own rest)
          rw [advanceOn_event live]
          exact ih fun _ => later
        · rw [ownPart_foreign own ours, here, if_neg ours]
          exact ih fun _ => later
      · rw [advanceOn_dead live]
        refine (ih fun now => absurd now live).trans ?_
        by_cases ours : Event.ours own (headers, body) = true
        · rw [ownPart_ours own ours]
          change _ = (h.advanceOn ownLeg (.event headers body)).playOn ownLeg (ownPart own rest)
          rw [advanceOn_dead live]
        · rw [ownPart_foreign own ours]

theorem heard_ownPart (actions : List Action) :
    heard (ownPart own actions) = (heard actions).filter (Event.ours own) := by
  induction actions with
  | nil => rfl
  | cons action rest ih =>
    cases action with
    | event headers body =>
      by_cases ours : Event.ours own (headers, body) = true
      · rw [ownPart_ours own ours, heard, heard, ih, List.filter_cons_of_pos ours]
      · rw [ownPart_foreign own ours, heard, ih, List.filter_cons_of_neg ours]
    | chunk p bytes | send p outcome | finish p => exact ih
    | hangUp => rfl

theorem trace_play (aUuid : String) (actions : List Action) :
    (Handler.play { aUuid } actions).trace = (Handler.playOn (legOf (heard actions)) { aUuid } actions).trace := by
  have forgot : (Handler.play { aUuid } actions).forget =
      (Handler.forget { aUuid }).playOn (legOf (heard actions)) actions := forget_play fun _ => rfl
  have traces := congrArg Handler.trace forgot
  exact traces

theorem reactions_play (aUuid : String) (actions : List Action) :
    reactions (Handler.play { aUuid } actions).trace = effects (legOf (heard actions)) (heard actions) := by
  rw [trace_play, reactions_playOn]
  rfl

theorem effect_eq_cancels {leg : String} {headers : Headers} {body : List UInt8} :
    effect leg headers body = some .cancels ↔ startsTalking headers = true := by
  by_cases talks : startsTalking headers = true
  · exact iff_of_true (if_pos talks) talks
  · refine iff_of_false (fun cancels => ?_) talks
    rw [effect, if_neg talks] at cancels
    split at cancels
    · obtain ⟨_, _, same⟩ := Option.map_eq_some_iff.mp cancels
      cases same
    · cases cancels

theorem effect_eq_starts {leg : String} {headers : Headers} {body : List UInt8} {job : Job} :
    effect leg headers body = some (.starts job) ↔ headers.get "Event-Subclass" = some UPLINK ∧
      callUuid headers = leg ∧ uplinkJob headers body = some job := by
  by_cases uplink : headers.get "Event-Subclass" = some UPLINK
  · rw [effect_uplink uplink]
    by_cases ours : callUuid headers = leg <;> simp [uplink, ours]
  · rw [effect_other fun both => uplink both.1]
    by_cases talks : startsTalking headers = true <;> simp [uplink, talks]

theorem uplinkJob_uuid {headers : Headers} {body : List UInt8} {job : Job}
    (decoded : uplinkJob headers body = some job) : job.uuid = callUuid headers := by
  unfold uplinkJob at decoded
  split at decoded
  · cases decoded
  · obtain ⟨pcm, _, rfl⟩ := Option.map_eq_some_iff.mp decoded
    rfl

theorem mem_effects {leg : String} {events : List Event} {job : Job} :
    .starts job ∈ effects leg events ↔ ∃ e ∈ events, e.1.get "Event-Subclass" = some UPLINK ∧
      callUuid e.1 = leg ∧ uplinkJob e.1 e.2 = some job := by
  rw [effects, List.mem_filterMap]
  exact exists_congr fun e => and_congr_right fun _ => effect_eq_starts

theorem count_cancels (leg : String) (events : List Event) :
    (effects leg events).count .cancels = (events.filter fun e => startsTalking e.1).length := by
  induction events with
  | nil => rfl
  | cons e rest ih =>
    rw [effects_cons, List.count_append, ih, List.filter_cons]
    by_cases talks : startsTalking e.1 = true
    · rw [effect_eq_cancels.mpr talks, if_pos talks, List.length_cons, Nat.add_comm]
      rfl
    · have none : (effect leg e.1 e.2).toList.count .cancels = 0 := by
        refine List.count_eq_zero.mpr fun member => talks ?_
        exact effect_eq_cancels.mp (Option.mem_toList.mp member)
      rw [none, if_neg talks, Nat.zero_add]

/-- An uplink that decodes starts the same job in the other stream, from an uplink of the same
uuid: nothing decodes where that cannot be. -/
theorem silent_of_effects {leg leg' : String} {events others : List Event}
    (same : effects leg events = effects leg' others)
    (apart : ∀ e ∈ events, ∀ other ∈ others, callUuid e.1 = leg → callUuid other.1 = leg → leg ≠ leg') :
    Silent leg events := by
  intro e member uplink hears
  cases decoded : uplinkJob e.1 e.2 with
  | none => rfl
  | some job =>
    have starts := mem_effects.mpr ⟨e, member, uplink, hears, decoded⟩
    rw [same] at starts
    obtain ⟨other, inside, _, there, theirs⟩ := mem_effects.mp starts
    have named : callUuid other.1 = leg := (uplinkJob_uuid theirs).symm.trans ((uplinkJob_uuid decoded).trans hears)
    exact absurd (named.symm.trans there) (apart e member other inside hears named)

theorem effects_unmixed {events : List Event}
    (same : effects (legOf events) events =
      effects (legOf (events.filter (Event.ours own))) (events.filter (Event.ours own))) :
    Unmixed own events := by
  refine ⟨fun e member talks => ?_, ?_⟩
  · have counts := congrArg (List.count .cancels) same
    rw [count_cancels, count_cancels, List.filter_comm] at counts
    have all := List.length_filter_eq_length_iff.mp counts.symm
    exact all e (List.mem_filter.mpr ⟨member, talks⟩)
  · by_cases ours : own (legOf events) = true
    · exact .inl ours
    · refine .inr ⟨silent_of_effects same fun e _ other inside _ uuid _ => ?_,
        silent_of_effects same.symm fun e member other _ uuid _ one => ?_⟩
      · have owned := (List.mem_filter.mp inside).2
        rw [Event.ours, uuid] at owned
        exact ours owned
      · have owned := (List.mem_filter.mp member).2
        rw [Event.ours, uuid, one] at owned
        exact ours owned

theorem effect_silent {leg : String} {e : Event}
    (silent : e.1.get "Event-Subclass" = some UPLINK → callUuid e.1 = leg → uplinkJob e.1 e.2 = none) :
    effect leg e.1 e.2 = if startsTalking e.1 then some .cancels else none := by
  by_cases heard : e.1.get "Event-Subclass" = some UPLINK ∧ callUuid e.1 = leg
  · have quiet : startsTalking e.1 = false := decide_eq_false fun all => vad_not_uplink all.1 heard.1
    rw [effect_uplink heard.1, if_pos heard.2, silent heard.1 heard.2, quiet]
    rfl
  · exact effect_other heard e.2

theorem legFrom_filter {leg : String} {events : List Event} (ours : own (legFrom leg events) = true) :
    legFrom leg (events.filter (Event.ours own)) = legFrom leg events := by
  induction events generalizing leg with
  | nil => rfl
  | cons e rest ih =>
    change own (legFrom (legAfter leg e.1) rest) = true at ours
    change _ = legFrom (legAfter leg e.1) rest
    by_cases here : Event.ours own e = true
    · rw [List.filter_cons_of_pos here]
      exact ih ours
    · rw [List.filter_cons_of_neg here]
      have unchanged : legAfter leg e.1 = leg := by
        by_cases learns : e.1.get "Event-Subclass" = some UPLINK ∧ leg = ""
        · have learned : legAfter leg e.1 = callUuid e.1 := if_pos learns
          by_cases unnamed : callUuid e.1 = ""
          · rw [learned, unnamed, learns.2]
          · rw [learned, legFrom_of_ne unnamed] at ours
            exact absurd ours here
        · exact if_neg learns
      rw [unchanged] at ours ⊢
      exact ih ours

theorem Unmixed.agree {events : List Event} (unmixed : Unmixed own events) : ∀ e ∈ events,
    effect (legOf events) e.1 e.2 =
      if Event.ours own e then effect (legOf (events.filter (Event.ours own))) e.1 e.2 else none := by
  intro e member
  by_cases ours : Event.ours own e = true
  · rw [if_pos ours]
    rcases unmixed.leg with known | ⟨silent, silent'⟩
    · rw [show legOf (events.filter (Event.ours own)) = legOf events from legFrom_filter own known]
    · rw [effect_silent (silent e member), effect_silent (silent' e (List.mem_filter.mpr ⟨member, ours⟩))]
  · have quiet : startsTalking e.1 = false := eq_false_of_ne_true (mt (unmixed.talking e member) ours)
    have silent : e.1.get "Event-Subclass" = some UPLINK → callUuid e.1 = legOf events →
        uplinkJob e.1 e.2 = none := by
      intro uplink leg
      rcases unmixed.leg with known | ⟨silent, _⟩
      · rw [← leg] at known
        exact absurd known ours
      · exact silent e member uplink leg
    rw [if_neg ours, effect_silent silent, quiet]
    rfl

/-- The handler does what it would do without the events of other calls exactly when they are unmixed. -/
theorem trace_ownPart_iff (aUuid : String) (actions : List Action) :
    (Handler.play { aUuid } actions).trace = (Handler.play { aUuid } (ownPart own actions)).trace ↔
      Unmixed own (heard actions) := by
  constructor
  · intro same
    have effects := congrArg reactions same
    rw [reactions_play, reactions_play, heard_ownPart] at effects
    exact effects_unmixed own effects
  · intro unmixed
    rw [trace_play, trace_play, heard_ownPart, playOn_ownPart own fun _ => unmixed.agree own]

/-- Where one stream is unmixed, another with the same events of the call makes the handler do
the same exactly when it is unmixed too. -/
theorem calls_apart (aUuid : String) (first second : List Action) (same : ownPart own first = ownPart own second)
    (unmixed : Unmixed own (heard first)) :
    (Handler.play { aUuid } first).trace = (Handler.play { aUuid } second).trace ↔ Unmixed own (heard second) := by
  rw [(trace_ownPart_iff own aUuid first).mpr unmixed, same, ← trace_ownPart_iff own aUuid second, eq_comm]

/-- The call's own leg is "b"; its utterance is answered with one chunk. -/
def ownOnly : List Action := [.event (uplinkEvent "b") (utf8 "AAAA"), .chunk 0 [1, 2], .send 0 .replied]

/-- Another call's utterance and silence do no harm once the own leg is known. -/
def withSilence : List Action :=
  [.event (uplinkEvent "b") (utf8 "AAAA"), .event (uplinkEvent "x") (utf8 "AAAA"), .chunk 0 [1, 2],
    .event (vadEvent "x" "stop-talking") [], .send 0 .replied]

theorem withSilence_apart :
    (Handler.play { aUuid := "a" } ownOnly).trace = (Handler.play { aUuid := "a" } withSilence).trace :=
  (calls_apart (fun uuid => uuid = "b") "a" ownOnly withSilence (by decide +kernel) (by decide +kernel)).mpr
    (by decide +kernel)

def withTalking : List Action :=
  [.event (uplinkEvent "b") (utf8 "AAAA"), .event (vadEvent "x" "start-talking") [], .chunk 0 [1, 2],
    .send 0 .replied]

theorem withTalking_not_apart :
    ownPart (fun uuid => uuid = "b") ownOnly = ownPart (fun uuid => uuid = "b") withTalking ∧
      (Handler.play { aUuid := "a" } ownOnly).trace ≠ (Handler.play { aUuid := "a" } withTalking).trace := by
  decide +kernel

end Fswtch.Brain.CallHandler
