import Mathlib.Data.List.Basic

/-! Runs of a guarded transition function. A state refuses an action by
answering `none`; a run is a list of actions none of which was refused. The
rules below turn a fact about one step into a fact about every run, and a
condition on the steps of a run into a property of the states it reaches. -/

namespace Fswtch.Lib.StepRun

variable {σ α : Type} (step : σ → α → Option σ)

def run : σ → List α → Option σ
  | state, [] => some state
  | state, action :: rest => (step state action).bind (fun next => run next rest)

/-- Every step the run takes satisfies `ok` in the state it is taken from. -/
def Along (ok : σ → α → Prop) : σ → List α → Prop
  | _, [] => True
  | state, action :: rest =>
      ∀ next, step state action = some next → ok state action ∧ Along ok next rest

instance decidableAlong (ok : σ → α → Prop) [∀ state action, Decidable (ok state action)] :
    (state : σ) → (actions : List α) → Decidable (Along step ok state actions)
  | _, [] => isTrue trivial
  | state, action :: rest =>
    match taken : step state action with
    | none => isTrue fun next same => by rw [taken] at same; cases same
    | some next =>
      have : Decidable (Along step ok next rest) := decidableAlong ok next rest
      decidable_of_iff (ok state action ∧ Along step ok next rest) <| by
        constructor
        · intro holds other same
          cases taken.symm.trans same
          exact holds
        · exact fun all => all next taken

variable {step}

theorem run_cons {state last : σ} {action : α} {rest : List α}
    (taken : run step state (action :: rest) = some last) :
    ∃ next, step state action = some next ∧ run step next rest = some last := by
  simp only [run] at taken
  exact Option.bind_eq_some_iff.mp taken

theorem run_append (state : σ) (first second : List α) :
    run step state (first ++ second) =
      (run step state first).bind (fun middle => run step middle second) := by
  induction first generalizing state with
  | nil => rfl
  | cons action rest ih =>
    simp only [List.cons_append, run, Option.bind_assoc]
    congr 1
    funext next
    exact ih next

theorem along_append {ok : σ → α → Prop} {state middle : σ} {first second : List α}
    (guarded : Along step ok state (first ++ second))
    (taken : run step state first = some middle) :
    Along step ok state first ∧ Along step ok middle second := by
  induction first generalizing state with
  | nil =>
    simp only [run, Option.some.injEq] at taken
    subst taken
    exact ⟨trivial, guarded⟩
  | cons action rest ih =>
    obtain ⟨next, stepped, remaining⟩ := run_cons taken
    obtain ⟨holds, later⟩ := guarded next stepped
    obtain ⟨front, back⟩ := ih later remaining
    refine ⟨?_, back⟩
    intro other same
    have unique : other = next := Option.some.inj (same.symm.trans stepped)
    subst unique
    exact ⟨holds, front⟩

theorem invariant_of_run {ok : σ → α → Prop} {invariant : σ → Prop}
    (preserved : ∀ state action next, invariant state → ok state action →
      step state action = some next → invariant next)
    {state last : σ} {actions : List α} (initial : invariant state)
    (guarded : Along step ok state actions) (taken : run step state actions = some last) :
    invariant last := by
  induction actions generalizing state with
  | nil =>
    simp only [run, Option.some.injEq] at taken
    exact taken ▸ initial
  | cons action rest ih =>
    obtain ⟨next, stepped, remaining⟩ := run_cons taken
    obtain ⟨holds, later⟩ := guarded next stepped
    exact ih (preserved state action next initial holds stepped) later remaining

theorem along_true (state : σ) (actions : List α) :
    Along step (fun _ _ => True) state actions := by
  induction actions generalizing state with
  | nil => trivial
  | cons action rest ih => exact fun next _ => ⟨trivial, ih next⟩

theorem along_and {ok : σ → α → Prop} {p : α → Prop} {state : σ}
    {actions : List α} (all : ∀ action ∈ actions, p action) (along : Along step ok state actions) :
    Along step (fun state action => p action ∧ ok state action) state actions := by
  induction actions generalizing state with
  | nil => trivial
  | cons action rest ih =>
    rw [List.forall_mem_cons] at all
    intro next taken
    obtain ⟨here, later⟩ := along next taken
    exact ⟨⟨all.1, here⟩, ih all.2 later⟩

theorem invariant_of_any_run {invariant : σ → Prop}
    (preserved : ∀ state action next, invariant state →
      step state action = some next → invariant next)
    {state last : σ} {actions : List α} (initial : invariant state)
    (taken : run step state actions = some last) : invariant last :=
  have guarded : Along step (fun _ _ => True) state actions := along_true state actions
  invariant_of_run (fun state action next holds _ => preserved state action next holds) initial guarded taken

theorem along_invariant {invariant : σ → Prop}
    (preserved : ∀ state action next, invariant state →
      step state action = some next → invariant next)
    {state : σ} (initial : invariant state) (actions : List α) :
    Along step (fun state _ => invariant state) state actions := by
  induction actions generalizing state with
  | nil => trivial
  | cons action rest ih => exact fun next taken => ⟨initial, ih (preserved state action next initial taken)⟩

theorem along_congr {ok ok' : σ → α → Prop}
    (same : ∀ state action next, step state action = some next → (ok state action ↔ ok' state action))
    (state : σ) (actions : List α) : Along step ok state actions ↔ Along step ok' state actions := by
  induction actions generalizing state with
  | nil => exact Iff.rfl
  | cons action rest ih =>
    refine forall_congr' fun next => ⟨fun along taken => ?_, fun along taken => ?_⟩
    · exact ⟨(same state action next taken).mp (along taken).1, (ih next).mp (along taken).2⟩
    · exact ⟨(same state action next taken).mpr (along taken).1, (ih next).mpr (along taken).2⟩

/-- Where a step that breaks a condition spoils the state for good, a run meets the condition
or ends in a spoiled state. -/
theorem along_or_spoiled {guard ok : σ → α → Prop} {spoiled : σ → Prop}
    (spoils : ∀ state action next, guard state action → step state action = some next →
      ¬ok state action → spoiled next)
    (stays : ∀ state action next, spoiled state → guard state action →
      step state action = some next → spoiled next)
    {state last : σ} {actions : List α} (guarded : Along step guard state actions)
    (taken : run step state actions = some last) : Along step ok state actions ∨ spoiled last := by
  induction actions generalizing state with
  | nil => exact .inl trivial
  | cons action rest ih =>
    obtain ⟨next, stepped, remaining⟩ := run_cons taken
    obtain ⟨allowed, later⟩ := guarded next stepped
    by_cases holds : ok state action
    · refine (ih later remaining).imp_left fun along other same => ?_
      cases stepped.symm.trans same
      exact ⟨holds, along⟩
    · exact .inr (invariant_of_run stays (spoils state action next allowed stepped holds) later remaining)

variable {γ : Type}

def recorded (step : σ → α → Option σ) (note : σ → α → σ → γ → γ) (watched : σ × γ) (action : α) :
    Option (σ × γ) :=
  (step watched.1 action).map fun next => (next, note watched.1 action next watched.2)

theorem recorded_eq_some {note : σ → α → σ → γ → γ} {watched next : σ × γ} {action : α}
    (taken : recorded step note watched action = some next) :
    step watched.1 action = some next.1 ∧ next.2 = note watched.1 action next.1 watched.2 := by
  obtain ⟨state, stepped, rfl⟩ := Option.map_eq_some_iff.mp taken
  exact ⟨stepped, rfl⟩

theorem split_concat {xs before after : List γ} {x y : γ} (split : xs ++ [x] = before ++ y :: after) :
    (after = [] ∧ y = x ∧ xs = before) ∨ ∃ rest, after = rest ++ [x] ∧ xs = before ++ y :: rest := by
  rcases List.eq_nil_or_concat after with rfl | ⟨rest, z, rfl⟩
  · have ends := List.append_inj' split rfl
    exact .inl ⟨rfl, (List.singleton_inj.mp ends.2).symm, ends.1⟩
  · have grouped : xs ++ [x] = (before ++ y :: rest) ++ [z] := by simpa using split
    have ends := List.append_inj' grouped rfl
    exact .inr ⟨rest, by rw [List.concat_eq_append, List.singleton_inj.mp ends.2], ends.1⟩

theorem split_append_cases {xs ys before after : List γ} {y : γ} (split : xs ++ ys = before ++ y :: after) :
    (∃ rest, after = rest ++ ys ∧ xs = before ++ y :: rest) ∨ ∃ front, ys = front ++ y :: after := by
  rcases List.append_eq_append_iff.mp split with ⟨front, _, added⟩ | ⟨front, whole, rest⟩
  · exact .inr ⟨front, added⟩
  · cases front with
    | nil => exact .inr ⟨[], rest.symm⟩
    | cons z more =>
      obtain ⟨rfl, rfl⟩ := List.cons.inj rest
      exact .inl ⟨more, rfl, whole⟩

theorem split_append {xs ys before after : List γ} {y : γ} (split : xs ++ ys = before ++ y :: after)
    (absent : y ∉ ys) : ∃ rest, after = rest ++ ys ∧ xs = before ++ y :: rest := by
  refine (split_append_cases split).resolve_right ?_
  rintro ⟨front, rfl⟩
  exact absent (List.mem_append_right front List.mem_cons_self)

end Fswtch.Lib.StepRun
