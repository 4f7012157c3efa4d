import Fswtch.Audio.Earshot
import Mathlib.Algebra.GroupWithZero.Nat

/-! Segments of speech read off the states of a run of frames. A reader that is told only the last
state of each frame misses the transitions before it; it finds the segments exactly where no
transition is hidden so. -/

namespace Fswtch.Audio.Transitions
open Fswtch.Audio.Earshot

structure SpeechSegment where
  startSample : Nat
  endSample : Nat
  deriving DecidableEq

def collect (frame len : Nat) : Option Nat → Nat → List VadState → List SpeechSegment
  | opened, _, [] => opened.toList.map (⟨·, len⟩)
  | opened, off, state :: rest =>
    match state, opened with
    | .startTalking, none => collect frame len (some off) (off + frame) rest
    | .stopTalking, some start => ⟨start, min (off + frame) len⟩ :: collect frame len none (off + frame) rest
    | _, _ => collect frame len opened (off + frame) rest

def observed : VadState → List (List VadState) → List VadState
  | _, [] => []
  | state, states :: rest => states.getLastD state :: observed (states.getLastD state) rest

def within (start stop : Nat) : Option Nat → List VadState → List SpeechSegment × Option Nat
  | opened, [] => ([], opened)
  | _, .startTalking :: rest => within start stop (some start) rest
  | opened, .stopTalking :: rest =>
    let later := within start stop none rest
    (opened.toList.map (⟨·, stop⟩) ++ later.1, later.2)
  | opened, _ :: rest => within start stop opened rest

/-- The intervals from a start to the next stop, each from the frame of its start to the end of
that of its stop; one that stays open ends with the buffer. -/
def intervals (frame len : Nat) : Option Nat → Nat → List (List VadState) → List SpeechSegment
  | opened, _, [] => opened.toList.map (⟨·, len⟩)
  | opened, off, states :: rest =>
    let here := within off (min (off + frame) len) opened states
    here.1 ++ intervals frame len here.2 (off + frame) rest

structure Shown (frames : List (List VadState)) : Prop where
  starts : ∀ states ∈ frames, .startTalking ∉ states.dropLast
  stops : ∀ f states, frames[f]? = some states → .stopTalking ∈ states.dropLast →
    f + 1 = frames.length ∧ .startTalking ∉ states

/-- Speech is open after the states that advance where as many stops as starts came. -/
theorem advance_count {states : List VadState} {first last : Bool}
    (advances : states.foldlM advance first = some last) :
    states.count .stopTalking + last.toNat = states.count .startTalking + first.toNat := by
  induction states generalizing first with
  | nil =>
    cases advances
    rfl
  | cons state rest ih =>
    obtain ⟨next, moved, later⟩ := Option.bind_eq_some_iff.mp advances
    have counts := ih later
    cases first <;> cases state <;> cases moved <;> simp at counts ⊢ <;> omega

theorem advance_cases {opened : Option Nat} {state : VadState} {next : Bool}
    (moved : advance opened.isSome state = some next) :
    (opened = none ∧ state = .none ∧ next = false) ∨ (opened = none ∧ state = .startTalking ∧ next = true) ∨
      (∃ start, opened = some start ∧ state = .talking ∧ next = true) ∨
      ∃ start, opened = some start ∧ state = .stopTalking ∧ next = false := by
  cases opened <;> cases state <;> cases moved <;> simp

theorem within_open {start stop : Nat} {opened : Option Nat} {states : List VadState} {last : Bool}
    (advances : states.foldlM advance opened.isSome = some last) :
    (within start stop opened states).2.isSome = last ∧
      (within start stop opened states).1.length = states.count .stopTalking := by
  induction states generalizing opened with
  | nil =>
    cases advances
    exact ⟨rfl, rfl⟩
  | cons state rest ih =>
    obtain ⟨next, moved, later⟩ := Option.bind_eq_some_iff.mp advances
    rcases advance_cases moved with ⟨rfl, rfl, rfl⟩ | ⟨rfl, rfl, rfl⟩ | ⟨begun, rfl, rfl, rfl⟩ | ⟨begun, rfl, rfl, rfl⟩
    · simpa [within] using @ih none later
    · simpa [within] using @ih (some start) later
    · simpa [within] using @ih (some begun) later
    · obtain ⟨ends, count⟩ := @ih none later
      exact ⟨ends, by simp [within, count]⟩

theorem within_head {start stop begun : Nat} {states : List VadState} {last : Bool}
    (advances : states.foldlM advance true = some last) (stops : .stopTalking ∈ states) :
    (within start stop (some begun) states).1.head? = some ⟨begun, stop⟩ := by
  induction states with
  | nil => cases stops
  | cons state rest ih =>
    obtain ⟨next, moved, later⟩ := Option.bind_eq_some_iff.mp advances
    cases state with
    | talking =>
      cases moved
      exact ih later (by simpa using stops)
    | stopTalking => simp [within]
    | none | startTalking | error => cases moved

theorem within_shown {start stop : Nat} {opened : Option Nat} {states : List VadState}
    (noStart : .startTalking ∉ states.dropLast) (noStop : .stopTalking ∉ states.dropLast) :
    within start stop opened states = within start stop opened states.getLast?.toList := by
  induction states with
  | nil => rfl
  | cons state rest ih =>
    cases rest with
    | nil => rfl
    | cons second rest =>
      rw [List.dropLast_cons_cons, List.mem_cons, not_or] at noStart noStop
      have skip : within start stop opened (state :: second :: rest) =
          within start stop opened (second :: rest) := by
        cases state with
        | startTalking => exact absurd rfl noStart.1
        | stopTalking => exact absurd rfl noStop.1
        | none | talking | error => rfl
      rw [skip, ih noStart.2 noStop.2]
      rfl

theorem intervals_length {frame len off : Nat} {opened : Option Nat} {frames : List (List VadState)}
    {last : Bool} (advances : frames.flatten.foldlM advance opened.isSome = some last) :
    (intervals frame len opened off frames).length =
      frames.flatten.count .startTalking + opened.isSome.toNat := by
  induction frames generalizing opened off with
  | nil => cases opened <;> rfl
  | cons states rest ih =>
    rw [List.flatten_cons, List.foldlM_append] at advances
    obtain ⟨middle, here, later⟩ := Option.bind_eq_some_iff.mp advances
    obtain ⟨ends, count⟩ := @within_open off (min (off + frame) len) opened states middle here
    have counts := advance_count here
    rw [← ends] at later counts
    rw [intervals, List.length_append, count, ih later, List.flatten_cons, List.count_append]
    omega

def startsShown (frames : List (List VadState)) : Nat :=
  frames.countP fun states => states.getLast? = some .startTalking

theorem startsShown_cons (states : List VadState) (rest : List (List VadState)) :
    startsShown (states :: rest) =
      startsShown rest + if states.getLast? = some .startTalking then 1 else 0 := by
  simp [startsShown, List.countP_cons]

theorem count_starts (frames : List (List VadState)) :
    frames.flatten.count .startTalking =
      startsShown frames + (frames.map fun states => states.dropLast.count .startTalking).sum := by
  induction frames with
  | nil => rfl
  | cons states rest ih =>
    have split : states.count .startTalking = states.dropLast.count .startTalking +
        if states.getLast? = some .startTalking then 1 else 0 := by
      rcases List.eq_nil_or_concat states with rfl | ⟨front, last, rfl⟩
      · rfl
      · simp [List.count_singleton]
    rw [List.flatten_cons, List.count_append, ih, split, startsShown_cons, List.map_cons, List.sum_cons]
    omega

structure Repeats (opened : Option Nat) (state : VadState) : Prop where
  start : state = .startTalking → opened.isSome
  stop : state = .stopTalking → opened = none

theorem repeats_cases (opened : Option Nat) (state : VadState) :
    (state = .startTalking ∧ opened = none) ∨ (∃ begun, state = .stopTalking ∧ opened = some begun) ∨
      Repeats opened state := by
  cases opened with
  | none =>
    by_cases starts : state = .startTalking
    · exact .inl ⟨starts, rfl⟩
    · exact .inr (.inr ⟨fun same => absurd same starts, fun _ => rfl⟩)
  | some begun =>
    by_cases stops : state = .stopTalking
    · exact .inr (.inl ⟨begun, stops, rfl⟩)
    · exact .inr (.inr ⟨fun _ => rfl, fun same => absurd same stops⟩)

theorem collect_other {frame len off : Nat} {opened : Option Nat} {state : VadState} {rest : List VadState}
    (repeated : Repeats opened state) :
    collect frame len opened off (state :: rest) = collect frame len opened (off + frame) rest := by
  cases state with
  | startTalking =>
    obtain ⟨begun, rfl⟩ := Option.isSome_iff_exists.mp (repeated.start rfl)
    rfl
  | stopTalking =>
    cases repeated.stop rfl
    rfl
  | none | talking | error => cases opened <;> rfl

theorem getLastD_cases (states : List VadState) (state : VadState) :
    states.getLast? = some (states.getLastD state) ∨ (states = [] ∧ states.getLastD state = state) := by
  rcases List.eq_nil_or_concat states with rfl | ⟨front, last, rfl⟩
  · exact .inr ⟨rfl, rfl⟩
  · exact .inl (by simp)

theorem collect_length {frame len off : Nat} {opened : Option Nat} {state : VadState}
    {frames : List (List VadState)} (repeated : state = .startTalking → opened.isSome) :
    (collect frame len opened off (observed state frames)).length ≤
      startsShown frames + opened.isSome.toNat := by
  induction frames generalizing opened off state with
  | nil => cases opened <;> simp [observed, collect]
  | cons states rest ih =>
    rw [observed, startsShown_cons]
    have shows := getLastD_cases states state
    generalize states.getLastD state = last at shows
    rcases repeats_cases opened last with ⟨rfl, rfl⟩ | ⟨begun, rfl, rfl⟩ | repeats
    · have here : states.getLast? = some .startTalking := by
        refine shows.resolve_right fun same => ?_
        cases repeated same.2.symm
      have later := @ih (off + frame) (some off) .startTalking fun _ => rfl
      rw [if_pos here, collect]
      simpa using later
    · have later := @ih (off + frame) none .stopTalking nofun
      rw [collect, List.length_cons]
      simp only [Option.isSome_none, Bool.toNat_false, Nat.add_zero, Option.isSome_some,
        Bool.toNat_true] at later ⊢
      omega
    · rw [collect_other repeats]
      have later := @ih (off + frame) opened last repeats.start
      omega

/-- An open segment is the first that is found, and ends at the end of the next frame or later. -/
theorem collect_head {frame len off begun : Nat} (observed : List VadState) :
    ∃ stop, (collect frame len (some begun) off observed).head? = some ⟨begun, stop⟩ ∧
      min (off + frame) len ≤ stop := by
  induction observed generalizing off with
  | nil => exact ⟨len, rfl, Nat.min_le_right _ _⟩
  | cons state rest ih =>
    by_cases stops : state = .stopTalking
    · subst stops
      exact ⟨_, rfl, le_rfl⟩
    · obtain ⟨stop, head, bound⟩ := @ih (off + frame)
      refine ⟨stop, ?_, ?_⟩
      · rw [collect_other ⟨fun _ => rfl, fun same => absurd same stops⟩]
        exact head
      · omega

/-- The frames from an offset on cover the rest of the buffer, and each begins inside it. -/
def Covers (frame len off count : Nat) : Prop :=
  len ≤ off + count * frame ∧ (0 < count → off + (count - 1) * frame < len)

theorem Covers.next {frame len off count : Nat} (covers : Covers frame len off (count + 1)) :
    Covers frame len (off + frame) count := by
  obtain ⟨reach, inside⟩ := covers
  rw [Nat.succ_mul] at reach
  refine ⟨by omega, fun some => ?_⟩
  have bound := inside (Nat.succ_pos _)
  obtain ⟨k, rfl⟩ := Nat.exists_eq_succ_of_ne_zero some.ne'
  rw [Nat.add_sub_cancel, Nat.succ_mul] at bound
  rw [Nat.succ_sub_one]
  omega

theorem last_of_hidden {states : List VadState} {opened last : Bool}
    (advances : states.foldlM advance opened = some last) (noStart : .startTalking ∉ states)
    (stops : .stopTalking ∈ states.dropLast) : states.getLast? ≠ some .stopTalking := by
  intro again
  have counts := advance_count advances
  rw [List.count_eq_zero_of_not_mem noStart] at counts
  have front := List.count_pos_iff.mpr stops
  obtain ⟨init, rfl⟩ := List.getLast?_eq_some_iff.mp again
  have bound := Bool.toNat_le opened
  rw [List.dropLast_concat] at front
  rw [List.count_append, List.count_singleton_self] at counts
  omega

theorem shown_cons {states : List VadState} {rest : List (List VadState)} :
    (∀ f other, (states :: rest)[f]? = some other → .stopTalking ∈ other.dropLast →
      f + 1 = (states :: rest).length ∧ .startTalking ∉ other) ↔
    (.stopTalking ∈ states.dropLast → rest = [] ∧ .startTalking ∉ states) ∧
      ∀ f other, rest[f]? = some other → .stopTalking ∈ other.dropLast →
        f + 1 = rest.length ∧ .startTalking ∉ other := by
  constructor
  · intro all
    refine ⟨fun stops => ?_, fun f other at_ stops => ?_⟩
    · obtain ⟨last, none⟩ := all 0 states rfl stops
      exact ⟨by simpa using last.symm, none⟩
    · obtain ⟨last, none⟩ := all (f + 1) other at_ stops
      exact ⟨by simpa using last, none⟩
  · rintro ⟨first, later⟩ f other at_ stops
    cases f with
    | zero =>
      cases at_
      obtain ⟨rfl, none⟩ := first stops
      exact ⟨rfl, none⟩
    | succ f =>
      obtain ⟨last, none⟩ := later f other at_ stops
      exact ⟨by simpa using last, none⟩

/-- What no transition hides in a frame leaves it to its last state. -/
theorem advance_shown {states : List VadState} {first last : Bool}
    (advances : states.foldlM advance first = some last) (noStart : .startTalking ∉ states.dropLast)
    (noStop : .stopTalking ∉ states.dropLast) :
    states.getLast?.toList.foldlM advance first = some last := by
  induction states with
  | nil => exact advances
  | cons state rest ih =>
    cases rest with
    | nil => exact advances
    | cons second rest =>
      rw [List.dropLast_cons_cons, List.mem_cons, not_or] at noStart noStop
      obtain ⟨next, moved, later⟩ := Option.bind_eq_some_iff.mp advances
      have stays : next = first := by
        cases first <;> cases state <;> cases moved
        · rfl
        · exact absurd rfl noStart.1
        · rfl
        · exact absurd rfl noStop.1
      subst stays
      exact ih later noStart.2 noStop.2

/-- Over a frame that hides nothing the two readings do the same. -/
theorem collect_shown {frame len off : Nat} {opened : Option Nat} {state : VadState}
    {states : List VadState} {middle : Bool} (advances : states.foldlM advance opened.isSome = some middle)
    (repeated : Repeats opened state) (noStart : .startTalking ∉ states.dropLast)
    (noStop : .stopTalking ∉ states.dropLast) :
    let found := within off (min (off + frame) len) opened states
    (∀ rest, collect frame len opened off (states.getLastD state :: rest) =
        found.1 ++ collect frame len found.2 (off + frame) rest) ∧
      Repeats found.2 (states.getLastD state) := by
  have shown := advance_shown advances noStart noStop
  rw [List.getLastD_eq_getLast?, within_shown noStart noStop]
  cases last : states.getLast? with
  | none => exact ⟨fun rest => collect_other repeated, repeated⟩
  | some last =>
    rw [last] at shown
    obtain ⟨next, moved, same⟩ := Option.bind_eq_some_iff.mp shown
    rcases advance_cases moved with ⟨rfl, rfl, rfl⟩ | ⟨rfl, rfl, rfl⟩ | ⟨begun, rfl, rfl, rfl⟩ | ⟨begun, rfl, rfl, rfl⟩
    · exact ⟨fun rest => rfl, ⟨nofun, nofun⟩⟩
    · exact ⟨fun rest => rfl, ⟨fun _ => rfl, nofun⟩⟩
    · exact ⟨fun rest => rfl, ⟨nofun, nofun⟩⟩
    · exact ⟨fun rest => rfl, ⟨nofun, fun _ => rfl⟩⟩

theorem hidden_stop_open {states : List VadState} {opened : Option Nat} {last : Bool}
    (advances : states.foldlM advance opened.isSome = some last)
    (noStart : .startTalking ∉ states.dropLast) (hidden : .stopTalking ∈ states.dropLast) :
    ∃ begun, opened = some begun := by
  rcases List.eq_nil_or_concat states with rfl | ⟨front, state, rfl⟩
  · cases hidden
  · rw [List.concat_eq_append] at advances noStart hidden
    rw [List.dropLast_concat] at noStart hidden
    obtain ⟨before, moved, _⟩ := foldlM_concat.mp advances
    have counts := advance_count moved
    have stops := List.count_pos_iff.mpr hidden
    rw [List.count_eq_zero_of_not_mem noStart] at counts
    cases opened with
    | none =>
      simp only [Option.isSome_none, Bool.toNat_false] at counts
      omega
    | some begun => exact ⟨begun, rfl⟩

/-- Where a stop and then a start are hidden in a frame, a segment is missing. -/
theorem collect_restarted {frame len off begun : Nat} {state : VadState} {states : List VadState}
    {rest : List (List VadState)} {last : Bool}
    (advances : (states :: rest).flatten.foldlM advance true = some last)
    (noStart : .startTalking ∉ states.dropLast) (starts : .startTalking ∈ states) :
    collect frame len (some begun) off (observed state (states :: rest)) ≠
      intervals frame len (some begun) off (states :: rest) := by
  have final : states.getLastD state = .startTalking := by
    rcases List.eq_nil_or_concat states with rfl | ⟨front, last, rfl⟩
    · cases starts
    · rw [List.concat_eq_append, List.dropLast_concat] at noStart
      rw [List.concat_eq_append] at starts ⊢
      rw [List.getLastD_concat]
      exact (List.mem_singleton.mp ((List.mem_append.mp starts).resolve_left noStart)).symm
  intro same
  have wanted := @intervals_length frame len off (some begun) (states :: rest) last advances
  have found := @collect_length frame len (off + frame) (some begun) .startTalking rest fun _ => rfl
  have here := List.count_pos_iff.mpr starts
  have later := count_starts rest
  have skip : ∀ later, collect frame len (some begun) off (.startTalking :: later) =
      collect frame len (some begun) (off + frame) later := fun _ => rfl
  rw [← same, observed, final, skip, List.flatten_cons, List.count_append] at wanted
  omega

theorem within_stopped {start stop begun : Nat} {states : List VadState} {last : Bool}
    (advances : states.foldlM advance true = some last) (noStart : .startTalking ∉ states)
    (hidden : .stopTalking ∈ states.dropLast) :
    within start stop (some begun) states = ([⟨begun, stop⟩], none) := by
  have stops := List.mem_of_mem_dropLast hidden
  have head := @within_head start stop begun states last advances stops
  obtain ⟨ends, count⟩ := @within_open start stop (some begun) states last advances
  have counts := advance_count advances
  have one := List.count_pos_iff.mpr stops
  rw [List.count_eq_zero_of_not_mem noStart] at counts
  generalize within start stop (some begun) states = found at head ends count ⊢
  obtain ⟨segments, opened⟩ := found
  cases last with
  | true =>
    simp only [Bool.toNat_true] at counts
    omega
  | false =>
    simp only [Bool.toNat_false, Bool.toNat_true] at counts
    obtain ⟨first, rfl⟩ := List.length_eq_one_iff.mp (count.trans (by omega))
    cases head
    cases opened with
    | none => rfl
    | some _ => cases ends

theorem collect_overrun {frame len off begun : Nat} {state : VadState} {states : List VadState}
    {rest : List (List VadState)} {last : Bool} (positive : 0 < frame)
    (covers : Covers frame len off (rest.length + 1)) (advances : states.foldlM advance true = some last)
    (noStart : .startTalking ∉ states) (hidden : .stopTalking ∈ states.dropLast) :
    collect frame len (some begun) off (observed state (states :: rest)) =
      intervals frame len (some begun) off (states :: rest) ↔ rest = [] := by
  have final : states.getLastD state ≠ .stopTalking := by
    intro same
    rcases getLastD_cases states state with own | ⟨rfl, _⟩
    · exact last_of_hidden advances noStart hidden (own.trans (congrArg some same))
    · cases hidden
  have repeats : Repeats (some begun) (states.getLastD state) := ⟨fun _ => rfl, fun same => absurd same final⟩
  rw [observed, collect_other repeats, intervals, within_stopped advances noStart hidden]
  cases rest with
  | nil =>
    obtain ⟨reach, _⟩ := covers
    have stop : min (off + frame) len = len := by
      rw [List.length_nil, Nat.zero_add, Nat.one_mul] at reach
      exact Nat.min_eq_right reach
    simp [observed, collect, intervals, stop]
  | cons second rest =>
    obtain ⟨_, inside⟩ := covers
    have bound := inside (Nat.succ_pos _)
    rw [List.length_cons, Nat.add_sub_cancel, Nat.succ_mul] at bound
    obtain ⟨stop, head, late⟩ := @collect_head frame len (off + frame) begun
      (observed (states.getLastD state) (second :: rest))
    refine iff_of_false (fun same => ?_) (List.cons_ne_nil _ _)
    rw [same] at head
    cases head
    omega

/-- With no start hidden, the readings agree where every stop is shown but one in the last
frame. -/
theorem collect_iff_stops {frame len off : Nat} {opened : Option Nat} {state : VadState}
    {frames : List (List VadState)} {last : Bool} (positive : 0 < frame)
    (covers : Covers frame len off frames.length)
    (advances : frames.flatten.foldlM advance opened.isSome = some last) (repeated : Repeats opened state)
    (starts : ∀ states ∈ frames, .startTalking ∉ states.dropLast) :
    collect frame len opened off (observed state frames) = intervals frame len opened off frames ↔
      ∀ f states, frames[f]? = some states → .stopTalking ∈ states.dropLast →
        f + 1 = frames.length ∧ .startTalking ∉ states := by
  induction frames generalizing off opened state with
  | nil => simp [observed, collect, intervals]
  | cons states rest ih =>
    rw [List.forall_mem_cons] at starts
    have whole := advances
    rw [List.flatten_cons, List.foldlM_append] at advances
    obtain ⟨middle, here, later⟩ := Option.bind_eq_some_iff.mp advances
    rw [shown_cons]
    by_cases hidden : .stopTalking ∈ states.dropLast
    · obtain ⟨begun, rfl⟩ := hidden_stop_open here starts.1 hidden
      by_cases restarted : .startTalking ∈ states
      · refine iff_of_false (collect_restarted whole starts.1 restarted) fun shown => ?_
        exact (shown.1 hidden).2 restarted
      · rw [collect_overrun positive covers here restarted hidden]
        refine ⟨fun last => ?_, fun shown => (shown.1 hidden).1⟩
        subst last
        exact ⟨fun _ => ⟨rfl, restarted⟩, nofun⟩
    · obtain ⟨step, repeats⟩ := @collect_shown frame len off opened state states middle here repeated
        starts.1 hidden
      rw [← (within_open here).1] at later
      rw [observed, step, intervals, List.append_right_inj, ih covers.next later repeats starts.2]
      simp [hidden]

/-- The segments found from the last state of each frame are the intervals of all states exactly
where no transition is hidden. -/
theorem collect_iff_shown {frame len : Nat} {frames : List (List VadState)} {last : Bool}
    (positive : 0 < frame) (covers : Covers frame len 0 frames.length)
    (advances : frames.flatten.foldlM advance false = some last) :
    collect frame len none 0 (observed .none frames) = intervals frame len none 0 frames ↔
      Shown frames := by
  have stops := @collect_iff_stops frame len 0 none .none frames last positive covers advances ⟨nofun, nofun⟩
  constructor
  · intro same
    have wanted := @intervals_length frame len 0 none frames last advances
    have found := @collect_length frame len 0 none .none frames nofun
    have split := count_starts frames
    rw [← same] at wanted
    have none : (frames.map fun states => states.dropLast.count .startTalking).sum = 0 := by omega
    have starts : ∀ states ∈ frames, .startTalking ∉ states.dropLast := by
      intro states member
      exact List.count_eq_zero.mp (List.sum_eq_zero_iff_forall_eq_nat.mp none _ (List.mem_map_of_mem member))
    exact ⟨starts, (stops starts).mp same⟩
  · rintro ⟨starts, shown⟩
    exact (stops starts).mpr shown

end Fswtch.Audio.Transitions
