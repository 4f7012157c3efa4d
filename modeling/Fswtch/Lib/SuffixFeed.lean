import Mathlib.Data.List.Basic

/-! A text that is read afresh from all of the input each time more of it comes. After each
delta the text before is stripped off as a prefix, and what is left is passed on. -/

namespace Fswtch.Lib.SuffixFeed

variable {α β : Type} [BEq β]

/-- What is passed on after each delta; `none` when a text does not start with the one before. -/
def newSuffixes (read : List α → List β) (accumulated : List α) : List (List α) → Option (List (List β))
  | [] => some []
  | delta :: rest =>
    ((read (accumulated ++ delta)).dropPrefix? (read accumulated)).bind fun suffix =>
      (newSuffixes read (accumulated ++ delta) rest).map (suffix :: ·)

variable [LawfulBEq β]

theorem dropPrefix_isSome_iff {before after : List β} : (after.dropPrefix? before).isSome ↔ before <+: after := by
  rw [Option.isSome_iff_exists]
  constructor
  · rintro ⟨suffix, stripped⟩
    obtain ⟨front, rfl, same⟩ := List.dropPrefix?_eq_some_iff.mp stripped
    rw [eq_of_beq same]
    exact List.prefix_append before suffix
  · rintro ⟨suffix, rfl⟩
    exact ⟨suffix, List.dropPrefix?_append_of_beq suffix (beq_self_eq_true before)⟩

variable {read : List α → List β}

theorem newSuffixes_cons_isSome (accumulated delta : List α) (rest : List (List α)) :
    (newSuffixes read accumulated (delta :: rest)).isSome ↔
      read accumulated <+: read (accumulated ++ delta) ∧ (newSuffixes read (accumulated ++ delta) rest).isSome := by
  rw [newSuffixes, ← dropPrefix_isSome_iff]
  cases (read (accumulated ++ delta)).dropPrefix? (read accumulated) with
  | none => exact iff_of_false nofun fun both => nomatch both.1
  | some suffix =>
    rw [Option.bind_some, Option.isSome_map]
    exact (and_iff_right rfl).symm

/-- Each text can be stripped off the next exactly when the text only grows. -/
theorem newSuffixes_isSome_iff (accumulated : List α) (deltas : List (List α)) :
    (newSuffixes read accumulated deltas).isSome ↔
      ∀ front delta, front ++ [delta] <+: deltas →
        read (accumulated ++ front.flatten) <+: read (accumulated ++ front.flatten ++ delta) := by
  induction deltas generalizing accumulated with
  | nil =>
    refine iff_of_true rfl fun front delta before => ?_
    exact absurd (List.prefix_nil.mp before) (List.append_ne_nil_of_right_ne_nil front (List.cons_ne_nil delta []))
  | cons delta rest ih =>
    rw [newSuffixes_cons_isSome, ih]
    constructor
    · rintro ⟨here, later⟩ front other before
      cases front with
      | nil =>
        obtain ⟨rfl, _⟩ := List.cons_prefix_cons.mp before
        rwa [List.flatten_nil, List.append_nil]
      | cons first front =>
        obtain ⟨rfl, inside⟩ := List.cons_prefix_cons.mp before
        rw [List.flatten_cons, ← List.append_assoc]
        exact later front other inside
    · intro grows
      refine ⟨?_, fun front other inside => ?_⟩
      · have here := grows [] delta (List.prefix_append [delta] rest)
        rwa [List.flatten_nil, List.append_nil] at here
      · have later := grows (delta :: front) other (List.cons_prefix_cons.mpr ⟨rfl, inside⟩)
        rwa [List.flatten_cons, ← List.append_assoc] at later

/-- What is passed on makes up the text: nothing is dropped, repeated or altered. -/
theorem newSuffixes_flatten {accumulated : List α} {deltas : List (List α)} {suffixes : List (List β)}
    (stripped : newSuffixes read accumulated deltas = some suffixes) :
    read accumulated ++ suffixes.flatten = read (accumulated ++ deltas.flatten) := by
  induction deltas generalizing accumulated suffixes with
  | nil =>
    cases stripped
    rw [List.flatten_nil, List.flatten_nil, List.append_nil, List.append_nil]
  | cons delta rest ih =>
    obtain ⟨suffix, here, later⟩ := Option.bind_eq_some_iff.mp stripped
    obtain ⟨others, behind, rfl⟩ := Option.map_eq_some_iff.mp later
    obtain ⟨front, text, same⟩ := List.dropPrefix?_eq_some_iff.mp here
    rw [eq_of_beq same] at text
    rw [List.flatten_cons, List.flatten_cons, ← List.append_assoc, ← text, ← List.append_assoc]
    exact ih behind

end Fswtch.Lib.SuffixFeed
