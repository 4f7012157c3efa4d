import Mathlib.Data.List.Basic
import Mathlib.Order.Lattice

/-! The first place of the largest element of a list, found in one pass. A pass may also keep the largest elements
at even and at odd places apart. -/

namespace Fswtch.Lib.MaxElement

variable {α : Type} [LinearOrder α]

def maxElementFrom (best : Nat) (largest : α) (position : Nat) : List α → Nat
  | [] => best
  | value :: rest =>
    if largest < value then maxElementFrom position value (position + 1) rest
    else maxElementFrom best largest (position + 1) rest

def maxElement : List α → Nat
  | [] => 0
  | value :: rest => maxElementFrom 0 value 1 rest

structure FirstMax (values : List α) (place : Nat) (largest : α) : Prop where
  there : values[place]? = some largest
  above : ∀ value ∈ values, value ≤ largest
  first : ∀ (earlier : Nat) (value : α), earlier < place → values[earlier]? = some value → value < largest

theorem FirstMax.inside {values : List α} {place : Nat} {largest : α} (top : FirstMax values place largest) :
    place < values.length := (List.getElem?_eq_some_iff.mp top.there).1

theorem firstMax_singleton (value : α) : FirstMax [value] 0 value where
  there := rfl
  above other present := by rw [List.mem_singleton.mp present]
  first earlier other before := absurd before (Nat.not_lt_zero earlier)

theorem FirstMax.snoc_lower {values : List α} {place : Nat} {largest value : α} (top : FirstMax values place largest)
    (lower : value ≤ largest) : FirstMax (values ++ [value]) place largest where
  there := by rw [List.getElem?_append_left top.inside, top.there]
  above other present := by
    rcases List.mem_append.mp present with old | new
    · exact top.above other old
    · exact List.mem_singleton.mp new ▸ lower
  first earlier other before same := by
    rw [List.getElem?_append_left (Nat.lt_trans before top.inside)] at same
    exact top.first earlier other before same

theorem FirstMax.snoc_higher {values : List α} {place : Nat} {largest value : α} (top : FirstMax values place largest)
    (higher : largest < value) : FirstMax (values ++ [value]) values.length value where
  there := by rw [List.getElem?_append_right (Nat.le_refl _), Nat.sub_self, List.getElem?_cons_zero]
  above other present := by
    rcases List.mem_append.mp present with old | new
    · exact (top.above other old).trans higher.le
    · exact (List.mem_singleton.mp new).le
  first earlier other before same := by
    rw [List.getElem?_append_left before] at same
    exact (top.above other (List.mem_of_getElem? same)).trans_lt higher

theorem maxElementFrom_spec {seen : List α} {best : Nat} {largest : α} (top : FirstMax seen best largest) (rest : List α) :
    ∃ last, FirstMax (seen ++ rest) (maxElementFrom best largest seen.length rest) last := by
  induction rest generalizing seen best largest with
  | nil => exact ⟨largest, by rw [List.append_nil]; exact top⟩
  | cons value rest ih =>
    rw [maxElementFrom, List.append_cons]
    have longer : (seen ++ [value]).length = seen.length + 1 := List.length_append
    split
    next higher => exact longer ▸ ih (top.snoc_higher higher)
    next lower => exact longer ▸ ih (top.snoc_lower (not_lt.mp lower))

theorem maxElement_spec {values : List α} (nonempty : values ≠ []) :
    ∃ largest, FirstMax values (maxElement values) largest := by
  cases values with
  | nil => exact absurd rfl nonempty
  | cons value rest => exact maxElementFrom_spec (firstMax_singleton value) rest

theorem FirstMax.unique {values : List α} {place other : Nat} {largest most : α} (top : FirstMax values place largest)
    (same : FirstMax values other most) : place = other ∧ largest = most := by
  have equal : largest = most :=
    le_antisymm (same.above _ (List.mem_of_getElem? top.there)) (top.above _ (List.mem_of_getElem? same.there))
  refine ⟨?_, equal⟩
  rcases Nat.lt_trichotomy place other with before | level | after
  · exact absurd (same.first place largest before top.there) (equal ▸ lt_irrefl _)
  · exact level
  · exact absurd (top.first other most after same.there) (equal ▸ lt_irrefl _)

structure Leads (values : List α) (parity : Nat) (best : Nat × α) : Prop where
  there : values[best.1]? = some best.2
  side : best.1 % 2 = parity
  above : ∀ place value, place % 2 = parity → values[place]? = some value → value ≤ best.2
  first : ∀ place value, place < best.1 → place % 2 = parity → values[place]? = some value → value < best.2

structure Peak (values : List α) (place : Nat) (largest : α) : Prop where
  there : values[place]? = some largest
  above : ∀ value ∈ values, value ≤ largest
  first : ∀ (earlier : Nat) (value : α), earlier < place → earlier % 2 = place % 2 → values[earlier]? = some value →
    value < largest

theorem getElem?_snoc {α : Type} {values : List α} {value found : α} {place : Nat}
    (there : (values ++ [value])[place]? = some found) :
    values[place]? = some found ∨ place = values.length ∧ found = value := by
  rcases Nat.lt_or_ge place values.length with inside | outside
  · exact .inl (by rwa [List.getElem?_append_left inside] at there)
  · rw [List.getElem?_append_right outside, List.getElem?_singleton] at there
    split at there
    next level => exact .inr ⟨by omega, (Option.some.inj there).symm⟩
    next => cases there

theorem getElem?_snoc_old {α : Type} {values : List α} {found : α} {place : Nat} (value : α)
    (there : values[place]? = some found) : (values ++ [value])[place]? = some found := by
  rw [List.getElem?_append_left (List.getElem?_eq_some_iff.mp there).1, there]

theorem Leads.inside {values : List α} {parity : Nat} {best : Nat × α} (leads : Leads values parity best) :
    best.1 < values.length := (List.getElem?_eq_some_iff.mp leads.there).1

theorem Leads.snoc_other {values : List α} {parity : Nat} {best : Nat × α} (leads : Leads values parity best) (value : α)
    (other : values.length % 2 ≠ parity) : Leads (values ++ [value]) parity best where
  there := getElem?_snoc_old value leads.there
  side := leads.side
  above place found same there := by
    rcases getElem?_snoc there with old | ⟨rfl, -⟩
    · exact leads.above place found same old
    · exact absurd same other
  first place found before same there := by
    rcases getElem?_snoc there with old | ⟨rfl, -⟩
    · exact leads.first place found before same old
    · exact absurd same other

theorem Leads.snoc_same {values : List α} {parity : Nat} {best : Nat × α} (leads : Leads values parity best) (value : α)
    (same : values.length % 2 = parity) :
    Leads (values ++ [value]) parity (if best.2 < value then (values.length, value) else best) := by
  split
  next higher =>
    constructor
    case there => rw [List.getElem?_append_right (Nat.le_refl _), Nat.sub_self, List.getElem?_cons_zero]
    case side => exact same
    case above =>
      intro place found level there
      rcases getElem?_snoc there with old | ⟨-, rfl⟩
      · exact (leads.above place found level old).trans higher.le
      · exact le_refl _
    case first =>
      intro place found before level there
      rcases getElem?_snoc there with old | ⟨rfl, -⟩
      · exact (leads.above place found level old).trans_lt higher
      · exact absurd before (Nat.lt_irrefl _)
  next lower =>
    constructor
    case there => exact getElem?_snoc_old value leads.there
    case side => exact leads.side
    case above =>
      intro place found level there
      rcases getElem?_snoc there with old | ⟨-, rfl⟩
      · exact leads.above place found level old
      · exact not_lt.mp lower
    case first =>
      intro place found before level there
      rcases getElem?_snoc there with old | ⟨rfl, -⟩
      · exact leads.first place found before level old
      · exact absurd leads.inside (Nat.lt_asymm before)

theorem leads_pair (first second : α) : Leads [first, second] 0 (0, first) ∧ Leads [first, second] 1 (1, second) := by
  refine ⟨⟨rfl, rfl, ?_, fun place value before => absurd before (Nat.not_lt_zero _)⟩, ⟨rfl, rfl, ?_, ?_⟩⟩
  · rintro (_ | _ | place) value level there
    · exact (Option.some.inj there).ge
    · cases level
    · cases there
  · rintro (_ | _ | place) value level there
    · cases level
    · exact (Option.some.inj there).ge
    · cases there
  · rintro (_ | place) value before level
    · cases level
    · exact absurd before (by omega)

/-- The larger of the two sides. An even place wins when they are level. -/
theorem Leads.peak {values : List α} {even odd : Nat × α} (leadsEven : Leads values 0 even) (leadsOdd : Leads values 1 odd) :
    Peak values (if even.2 < odd.2 then odd else even).1 (if even.2 < odd.2 then odd else even).2 := by
  have bounded : ∀ value ∈ values, value ≤ even.2 ∨ value ≤ odd.2 := fun value present => by
    obtain ⟨place, there⟩ := List.mem_iff_getElem?.mp present
    rcases Nat.mod_two_eq_zero_or_one place with level | level
    · exact .inl (leadsEven.above place value level there)
    · exact .inr (leadsOdd.above place value level there)
  split
  next higher =>
    exact {
      there := leadsOdd.there
      above value present := (bounded value present).elim (fun low => low.trans higher.le) id
      first earlier value before same := leadsOdd.first earlier value before (same.trans leadsOdd.side) }
  next lower =>
    exact {
      there := leadsEven.there
      above value present := (bounded value present).elim id fun low => low.trans (not_lt.mp lower)
      first earlier value before same := leadsEven.first earlier value before (same.trans leadsEven.side) }

theorem Peak.inside {values : List α} {place : Nat} {largest : α} (peak : Peak values place largest) :
    place < values.length := (List.getElem?_eq_some_iff.mp peak.there).1

theorem Peak.snoc {values : List α} {place : Nat} {largest : α} (peak : Peak values place largest) (value : α) :
    Peak (values ++ [value]) (if largest < value then values.length else place) (max largest value) := by
  split
  next higher =>
    rw [max_eq_right higher.le]
    constructor
    case there => rw [List.getElem?_append_right (Nat.le_refl _), Nat.sub_self, List.getElem?_cons_zero]
    case above =>
      intro found present
      rcases List.mem_append.mp present with old | new
      · exact (peak.above found old).trans higher.le
      · exact (List.mem_singleton.mp new).le
    case first =>
      intro earlier found before _ there
      rcases getElem?_snoc there with old | ⟨rfl, -⟩
      · exact (peak.above found (List.mem_of_getElem? old)).trans_lt higher
      · exact absurd before (Nat.lt_irrefl _)
  next lower =>
    rw [max_eq_left (not_lt.mp lower)]
    constructor
    case there => exact getElem?_snoc_old value peak.there
    case above =>
      intro found present
      rcases List.mem_append.mp present with old | new
      · exact peak.above found old
      · exact List.mem_singleton.mp new ▸ not_lt.mp lower
    case first =>
      intro earlier found before same there
      rcases getElem?_snoc there with old | ⟨rfl, -⟩
      · exact peak.first earlier found before same old
      · exact absurd peak.inside (Nat.lt_asymm before)

end Fswtch.Lib.MaxElement
