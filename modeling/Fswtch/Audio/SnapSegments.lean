import Fswtch.Audio.CoarseSegments
import Mathlib

/-! Segments snapped to the energy of the audio. Two walks over a table of the energy of each
frame move the bounds: the start goes back over the onset, the end over a tail that is silent. -/

namespace Fswtch.Audio.SnapSegments
open Fswtch.Audio.Earshot Fswtch.Audio.Transitions Fswtch.Audio.CoarseSegments

section Walking

variable {α : Type}

/-- Back from an index while it is above a limit and the entry before it passes a test; `none`
where there is no such entry. -/
def backWhile (test : α → Prop) [DecidablePred test] (table : List α) (limit : Nat) : Nat → Option Nat
  | 0 => some 0
  | n + 1 =>
    if limit < n + 1 then
      match table[n]? with
      | none => none
      | some entry => if test entry then backWhile test table limit n else some (n + 1)
    else some (n + 1)

def Passes (test : α → Prop) (table : List α) (i : Nat) : Prop := ∃ entry, table[i]? = some entry ∧ test entry

variable {test : α → Prop} [DecidablePred test] {table : List α} {limit : Nat}

/-- A walk that begins in the table ends, after entries that pass and at the limit or an entry
that does not. -/
theorem backWhile_eq {begun : Nat} (inside : begun ≤ table.length) (above : limit ≤ begun) :
    ∃ stop, backWhile test table limit begun = some stop ∧ limit ≤ stop ∧ stop ≤ begun ∧
      (∀ i, stop ≤ i → i < begun → Passes test table i) ∧
      (stop = limit ∨ ¬Passes test table (stop - 1)) := by
  induction begun with
  | zero => exact ⟨0, rfl, above, le_rfl, nofun, .inl (Nat.le_zero.mp above).symm⟩
  | succ n ih =>
    have nothing : ∀ i, n + 1 ≤ i → i < n + 1 → Passes test table i := by
      intro i low high
      omega
    by_cases further : limit < n + 1
    · have found : table[n]? = some table[n] := List.getElem?_eq_getElem inside
      by_cases passes : test table[n]
      · obtain ⟨stop, walked, low, high, passed, ended⟩ := ih (Nat.le_of_succ_le inside) (Nat.le_of_lt_succ further)
        refine ⟨stop, ?_, low, Nat.le_succ_of_le high, fun i after before => ?_, ended⟩
        · rw [backWhile, if_pos further, found]
          simpa [passes] using walked
        · rcases Nat.lt_succ_iff_lt_or_eq.mp before with earlier | rfl
          · exact passed i after earlier
          · exact ⟨_, found, passes⟩
      · refine ⟨n + 1, ?_, above, le_rfl, nothing, .inr ?_⟩
        · rw [backWhile, if_pos further, found]
          simp [passes]
        · rintro ⟨entry, again, passed⟩
          cases found.symm.trans again
          exact passes passed
    · have reached : n + 1 = limit := Nat.le_antisymm (Nat.le_of_not_lt further) above
      refine ⟨n + 1, ?_, above, le_rfl, nothing, .inl reached⟩
      rw [backWhile, if_neg further]

end Walking

def nfr (pcm : Pcm) (frame : Nat) : Nat :=
  pcm.length / frame + if pcm.length % frame = 0 then 0 else 1

def firstFrame (pcm : Pcm) (frame : Nat) (seg : SpeechSegment) : Nat :=
  min (seg.startSample / frame) (nfr pcm frame)

def endFrame (pcm : Pcm) (frame : Nat) (seg : SpeechSegment) : Nat :=
  min (seg.endSample / frame) (nfr pcm frame)

/-- The segment has a whole frame, as far as its bounds rounded down to frames say. -/
def Whole (pcm : Pcm) (frame : Nat) (seg : SpeechSegment) : Prop :=
  firstFrame pcm frame seg < endFrame pcm frame seg

section Energy

variable {F : Type} [Div F] [NatCast F] [OfScientific F] (sqrt : F → F)

/-- The root mean square of a frame, the last of which may be a partial one. -/
def frameRms (pcm : Pcm) (frame i : Nat) : F :=
  let off := i * frame
  let stop := min (off + frame) pcm.length
  let n := stop - off
  if n = 0 then 0.0
  else
    let sq : Nat := (((pcm.take stop).drop off).map fun s => (s.toInt * s.toInt).toNat).sum
    sqrt ((sq : F) / (n : F))

def rmsTable (pcm : Pcm) (frame : Nat) : List F := (List.range (nfr pcm frame)).map (frameRms sqrt pcm frame)

theorem rmsTable_length (pcm : Pcm) (frame : Nat) : (rmsTable sqrt pcm frame).length = nfr pcm frame := by
  rw [rmsTable, List.length_map, List.length_range]

end Energy

section Snapping

variable {F : Type} [LinearOrder F] [Div F] [OfScientific F]

def peak (part : List F) : F := part.foldl max 0.0

/-- 30 dB below the peak, but no lower than about −90 dBFS. -/
def floorOf (part : List F) : F := max (peak part / 31.62) 1.0

/-- `none` where the range is not in the table. -/
def slice (rms : List F) (s e : Nat) : Option (List F) :=
  if s ≤ e ∧ e ≤ rms.length then some ((rms.take e).drop s) else none

def snap (pcm : Pcm) (frame : Nat) (rms : List F) (seg : SpeechSegment) : Option SpeechSegment :=
  let s := firstFrame pcm frame seg
  let e := endFrame pcm frame seg
  if e ≤ s then some seg
  else do
    let part ← slice rms s e
    let floor := floorOf part
    let ns ← backWhile (floor ≤ ·) rms 0 s
    let ne ← backWhile (· < floor) rms (ns + 1) e
    let ne := if ne ≤ ns then ns + 1 else ne
    some ⟨ns * frame, min (ne * frame) pcm.length⟩

theorem snap_part {pcm : Pcm} {frame : Nat} {seg : SpeechSegment} (part : ¬Whole pcm frame seg) (rms : List F) :
    snap pcm frame rms seg = some seg := by
  rw [snap, if_pos (Nat.not_lt.mp part)]

variable [NatCast F] (sqrt : F → F)

def snapSegments (pcm : Pcm) (frame : Nat) (segs : List SpeechSegment) : Option (List SpeechSegment) :=
  if frame = 0 ∨ pcm = [] then some segs
  else segs.mapM (snap pcm frame (rmsTable sqrt pcm frame))

def segFloor (pcm : Pcm) (frame : Nat) (seg : SpeechSegment) : F :=
  floorOf (((rmsTable sqrt pcm frame).take (endFrame pcm frame seg)).drop (firstFrame pcm frame seg))

def Loud (pcm : Pcm) (frame : Nat) (seg : SpeechSegment) (i : Nat) : Prop :=
  Passes (segFloor sqrt pcm frame seg ≤ ·) (rmsTable sqrt pcm frame) i

structure Snapped (pcm : Pcm) (frame : Nat) (seg : SpeechSegment) (ns ne : Nat) : Prop where
  early : ns ≤ firstFrame pcm frame seg
  some : ns < ne
  late : ne ≤ endFrame pcm frame seg
  onset : ∀ i, ns ≤ i → i < firstFrame pcm frame seg → Loud sqrt pcm frame seg i
  before : ns = 0 ∨ ¬Loud sqrt pcm frame seg (ns - 1)
  tail : ∀ i, ne ≤ i → i < endFrame pcm frame seg → ¬Loud sqrt pcm frame seg i
  last : ne = ns + 1 ∨ Loud sqrt pcm frame seg (ne - 1)

variable {sqrt} {pcm : Pcm} {frame : Nat} {seg : SpeechSegment}

theorem not_loud {i : Nat} (inside : i < nfr pcm frame) :
    ¬Loud sqrt pcm frame seg i ↔ Passes (· < segFloor sqrt pcm frame seg) (rmsTable sqrt pcm frame) i := by
  have found : (rmsTable sqrt pcm frame)[i]? = some (frameRms sqrt pcm frame i) := by
    simp [rmsTable, inside]
  simp [Loud, Passes, found]

theorem snap_whole (whole : Whole pcm frame seg) :
    ∃ ns ne, Snapped sqrt pcm frame seg ns ne ∧
      snap pcm frame (rmsTable sqrt pcm frame) seg = some ⟨ns * frame, min (ne * frame) pcm.length⟩ := by
  have table : endFrame pcm frame seg ≤ (rmsTable sqrt pcm frame).length := by
    rw [rmsTable_length]
    exact min_le_right _ _
  obtain ⟨ns, onset, _, early, loud, before⟩ := @backWhile_eq F (segFloor sqrt pcm frame seg ≤ ·) _
    (rmsTable sqrt pcm frame) 0 (firstFrame pcm frame seg) (Nat.le_trans whole.le table) (Nat.zero_le _)
  obtain ⟨ne, trim, some, late, tail, last⟩ := @backWhile_eq F (· < segFloor sqrt pcm frame seg) _
    (rmsTable sqrt pcm frame) (ns + 1) (endFrame pcm frame seg) table (Nat.lt_of_le_of_lt early whole)
  have inside : endFrame pcm frame seg ≤ nfr pcm frame := min_le_right _ _
  refine ⟨ns, ne, ⟨early, some, late, loud, before, fun i after below => ?_, ?_⟩, ?_⟩
  · exact (not_loud (Nat.lt_of_lt_of_le below inside)).mpr (tail i after below)
  · refine last.imp_right fun quiet => ?_
    rw [← not_loud (by omega), not_not] at quiet
    exact quiet
  · rw [snap, if_neg (Nat.not_le.mpr whole), slice, if_pos ⟨whole.le, table⟩]
    unfold segFloor at onset trim
    simp only [Option.bind_eq_bind, Option.bind_some]
    rw [onset, Option.bind_some, trim, Option.bind_some, if_neg (Nat.not_le.mpr some)]

variable (sqrt pcm frame)

def snapTo (seg : SpeechSegment) : SpeechSegment := (snap pcm frame (rmsTable sqrt pcm frame) seg).getD seg

variable {sqrt pcm frame}

theorem snapTo_part (part : ¬Whole pcm frame seg) : snapTo sqrt pcm frame seg = seg := by
  rw [snapTo, snap_part part, Option.getD_some]

theorem snapTo_whole (whole : Whole pcm frame seg) : ∃ ns ne, Snapped sqrt pcm frame seg ns ne ∧
    snapTo sqrt pcm frame seg = ⟨ns * frame, min (ne * frame) pcm.length⟩ := by
  obtain ⟨ns, ne, snapped, found⟩ := @snap_whole F _ _ _ _ sqrt pcm frame seg whole
  exact ⟨ns, ne, snapped, by rw [snapTo, found, Option.getD_some]⟩

theorem whole_positive (whole : Whole pcm frame seg) : 0 < frame ∧ 0 < pcm.length := by
  unfold Whole firstFrame endFrame nfr at whole
  refine ⟨Nat.pos_of_ne_zero fun zero => ?_, Nat.pos_of_ne_zero fun zero => ?_⟩
  · simp [zero] at whole
  · simp [zero] at whole

/-- Every segment is moved on its own, and no walk leaves the table. -/
theorem snapSegments_eq (segs : List SpeechSegment) :
    snapSegments sqrt pcm frame segs = some (segs.map (snapTo sqrt pcm frame)) := by
  by_cases nothing : frame = 0 ∨ pcm = []
  · have same : snapTo sqrt pcm frame = id := by
      funext seg
      refine snapTo_part fun whole => ?_
      obtain ⟨positive, some⟩ := whole_positive whole
      rcases nothing with rfl | rfl
      · exact Nat.lt_irrefl 0 positive
      · exact Nat.lt_irrefl 0 some
    rw [snapSegments, if_pos nothing, same, List.map_id]
  · have each : snap pcm frame (rmsTable sqrt pcm frame) = fun seg => pure (snapTo sqrt pcm frame seg) := by
      funext seg
      by_cases whole : Whole pcm frame seg
      · obtain ⟨ns, ne, _, found⟩ := @snap_whole F _ _ _ _ sqrt pcm frame seg whole
        rw [snapTo, found]
        rfl
      · rw [snapTo, snap_part whole]
        rfl
    rw [snapSegments, if_neg nothing, each, List.mapM_pure]
    rfl

theorem lt_nfr (positive : 0 < frame) {i : Nat} : i < nfr pcm frame ↔ i * frame < pcm.length := by
  have split := Nat.div_add_mod' pcm.length frame
  have small := Nat.mod_lt pcm.length positive
  unfold nfr
  rcases Nat.lt_or_ge i (pcm.length / frame) with below | above
  · have next := Nat.mul_le_mul_right frame below
    rw [Nat.succ_mul] at next
    exact iff_of_true (by omega) (by omega)
  · have reach := Nat.mul_le_mul_right frame above
    rcases Nat.eq_or_lt_of_le above with rfl | beyond
    · split_ifs with whole <;> omega
    · have next := Nat.mul_le_mul_right frame beyond
      rw [Nat.succ_mul] at next
      split_ifs <;> exact iff_of_false (by omega) (by omega)

theorem Snapped.samples {ns ne : Nat} (whole : Whole pcm frame seg) (snapped : Snapped sqrt pcm frame seg ns ne) :
    ns * frame ≤ seg.startSample ∧ ns * frame < min (ne * frame) pcm.length ∧ ne * frame ≤ seg.endSample := by
  obtain ⟨positive, _⟩ := whole_positive whole
  have early : ns ≤ seg.startSample / frame := snapped.early.trans (min_le_left _ _)
  have late : ne ≤ seg.endSample / frame := snapped.late.trans (min_le_left _ _)
  have inside : ns < nfr pcm frame := snapped.some.trans_le (snapped.late.trans (min_le_right _ _))
  refine ⟨(Nat.mul_le_mul_right frame early).trans (Nat.div_mul_le_self _ _), lt_min ?_ ?_,
    (Nat.mul_le_mul_right frame late).trans (Nat.div_mul_le_self _ _)⟩
  · exact Nat.mul_lt_mul_of_pos_right snapped.some positive
  · exact (lt_nfr positive).mp inside

/-- A segment with samples keeps some, and its end moves to no later sample, its start to no
later one. -/
theorem snapTo_bounds (some : seg.startSample < seg.endSample) :
    (snapTo sqrt pcm frame seg).startSample ≤ seg.startSample ∧
      (snapTo sqrt pcm frame seg).startSample < (snapTo sqrt pcm frame seg).endSample ∧
      (snapTo sqrt pcm frame seg).endSample ≤ seg.endSample := by
  by_cases whole : Whole pcm frame seg
  · obtain ⟨ns, ne, snapped, found⟩ := @snapTo_whole F _ _ _ _ sqrt pcm frame seg whole
    obtain ⟨early, some, late⟩ := snapped.samples whole
    rw [found]
    exact ⟨early, some, (min_le_left _ _).trans late⟩
  · rw [snapTo_part whole]
    exact ⟨le_rfl, some, le_rfl⟩

/-- The snapped segments: no access outside of the table and no walk without an end keeps them
from being returned, and each has samples and begins no later and ends no later. -/
theorem snapSegments_bounds (sqrt : F → F) (pcm : Pcm) (frame : Nat) {segs : List SpeechSegment}
    (some : ∀ seg ∈ segs, seg.startSample < seg.endSample) :
    ∃ outs, snapSegments sqrt pcm frame segs = .some outs ∧ List.Forall₂ (fun seg out =>
      out.startSample ≤ seg.startSample ∧ out.startSample < out.endSample ∧
        out.endSample ≤ seg.endSample) segs outs := by
  refine ⟨_, snapSegments_eq segs, ?_⟩
  rw [List.forall₂_map_right_iff, List.forall₂_same]
  exact fun seg member => snapTo_bounds (some seg member)

theorem silence_bounds :
    ∃ outs, snapSegments Real.sqrt (List.replicate 8000 0) 160 [⟨1600, 3200⟩] = some outs ∧
      List.Forall₂ (fun seg out : SpeechSegment =>
        out.startSample ≤ seg.startSample ∧ out.startSample < out.endSample ∧
          out.endSample ≤ seg.endSample) [⟨1600, 3200⟩] outs :=
  snapSegments_bounds Real.sqrt (List.replicate 8000 0) 160 (by decide)

/-- The loud audio of a segment is in what it was moved to, and what is removed is a tail that is
not loud. -/
structure Keeps (sqrt : F → F) (pcm : Pcm) (frame : Nat) (seg out : SpeechSegment) : Prop where
  loud : ∀ p, seg.startSample ≤ p → p < seg.endSample → p < pcm.length →
    Loud sqrt pcm frame seg (p / frame) → out.startSample ≤ p ∧ p < out.endSample
  tail : ∀ p, seg.startSample ≤ p → p < seg.endSample → p < pcm.length →
    ¬(out.startSample ≤ p ∧ p < out.endSample) →
      out.endSample ≤ p ∧ ¬Loud sqrt pcm frame seg (p / frame)

def EndsLoud (sqrt : F → F) (pcm : Pcm) (frame : Nat) (seg : SpeechSegment) : Prop :=
  Whole pcm frame seg ∧ seg.endSample % frame ≠ 0 ∧ Loud sqrt pcm frame seg (seg.endSample / frame)

theorem loud_inside {i : Nat} (loud : Loud sqrt pcm frame seg i) : i < nfr pcm frame := by
  obtain ⟨_, found, _⟩ := loud
  obtain ⟨inside, _⟩ := List.getElem?_eq_some_iff.mp found
  rwa [rmsTable_length] at inside

theorem keeps_of_loud {out : SpeechSegment} (early : out.startSample ≤ seg.startSample)
    (loud : ∀ p, seg.startSample ≤ p → p < seg.endSample → p < pcm.length →
      Loud sqrt pcm frame seg (p / frame) → p < out.endSample) : Keeps sqrt pcm frame seg out := by
  refine ⟨fun p after before inside here => ⟨early.trans after, loud p after before inside here⟩, ?_⟩
  intro p after before inside removed
  have beyond : ¬p < out.endSample := fun kept => removed ⟨early.trans after, kept⟩
  exact ⟨Nat.le_of_not_lt beyond, fun here => beyond (loud p after before inside here)⟩

theorem snapTo_keeps (seg : SpeechSegment) :
    Keeps sqrt pcm frame seg (snapTo sqrt pcm frame seg) ↔ ¬EndsLoud sqrt pcm frame seg := by
  by_cases whole : Whole pcm frame seg
  · obtain ⟨ns, ne, snapped, found⟩ := @snapTo_whole F _ _ _ _ sqrt pcm frame seg whole
    obtain ⟨positive, _⟩ := whole_positive whole
    obtain ⟨early, some, late⟩ := snapped.samples whole
    rw [found]
    constructor
    · rintro ⟨keeps, _⟩ ⟨_, off, loud⟩
      -- the first sample of the partial frame
      have first : seg.endSample / frame * frame / frame = seg.endSample / frame :=
        Nat.mul_div_cancel _ positive
      have split := Nat.div_add_mod' seg.endSample frame
      have inside := loud_inside loud
      have begins : seg.startSample < seg.endSample / frame * frame := by
        rw [← Nat.div_lt_iff_lt_mul positive]
        unfold Whole firstFrame endFrame at whole
        omega
      obtain ⟨_, kept⟩ := keeps _ begins.le (by omega) ((lt_nfr positive).mp inside) (by rwa [first])
      have below : ne * frame ≤ seg.endSample / frame * frame :=
        Nat.mul_le_mul_right frame (snapped.late.trans (min_le_left _ _))
      have kept : seg.endSample / frame * frame < min (ne * frame) pcm.length := kept
      omega
    · intro quiet
      refine keeps_of_loud early fun p after before inside loud => lt_min ?_ inside
      rw [← Nat.div_lt_iff_lt_mul positive]
      by_contra behind
      refine snapped.tail _ (Nat.le_of_not_lt behind) ?_ loud
      refine lt_min (Nat.lt_of_le_of_ne (Nat.div_le_div_right before.le) fun same => ?_) (loud_inside loud)
      refine quiet ⟨whole, fun grid => ?_, same ▸ loud⟩
      have split := Nat.div_add_mod' seg.endSample frame
      have low := Nat.div_mul_le_self p frame
      rw [same] at low
      omega
  · rw [snapTo_part whole]
    refine iff_of_true (keeps_of_loud le_rfl fun p _ before _ _ => before) fun loud => whole loud.1

/-- What each snapped segment keeps. -/
theorem snapSegments_keeps (sqrt : F → F) (pcm : Pcm) (frame : Nat) (segs : List SpeechSegment) :
    ∃ outs, snapSegments sqrt pcm frame segs = some outs ∧ List.Forall₂ (fun seg out =>
      Keeps sqrt pcm frame seg out ↔ ¬EndsLoud sqrt pcm frame seg) segs outs := by
  refine ⟨_, snapSegments_eq segs, ?_⟩
  rw [List.forall₂_map_right_iff, List.forall₂_same]
  exact fun seg _ => snapTo_keeps seg

def three : Pcm := [100, 100, 100]

theorem three_pairs : rmsTable Real.sqrt three 2 = [100, 100] := by
  have square : (Int16.toInt 100 * Int16.toInt 100).toNat = 10000 := rfl
  norm_num [rmsTable, nfr, frameRms, three, List.range_succ, square]

/-- The last frame of a segment that ends with the buffer is a partial one, and is dropped. -/
theorem three_dropped : snapSegments Real.sqrt three 2 [⟨0, 3⟩] = some [⟨0, 2⟩] ∧
    Loud Real.sqrt three 2 ⟨0, 3⟩ 1 ∧ ¬Keeps Real.sqrt three 2 ⟨0, 3⟩ ⟨0, 2⟩ := by
  have loud : Loud Real.sqrt three 2 ⟨0, 3⟩ 1 := by
    rw [Loud, segFloor, three_pairs]
    norm_num [Passes, firstFrame, endFrame, nfr, three, floorOf, peak]
  refine ⟨?_, loud, fun keeps => ?_⟩
  · rw [snapSegments, three_pairs, if_neg (by simp [three])]
    norm_num [snap, firstFrame, endFrame, nfr, three, slice, floorOf, peak, backWhile]
  · exact absurd (keeps.loud 2 (by decide) (by decide) (by decide) loud).2 (by decide)

def Before (a b : SpeechSegment) : Prop :=
  a.startSample ≤ b.startSample ∧
    Disjoint (Set.Ico a.startSample a.endSample) (Set.Ico b.startSample b.endSample)

/-- Nothing that is kept of a segment lies behind the begin of a frame: not its last loud frame
nor its first one, the frame in front of it counted with it, and not its end where it stays. -/
structure EndsBy (sqrt : F → F) (pcm : Pcm) (frame : Nat) (seg : SpeechSegment) (m : Nat) : Prop where
  kept : Whole pcm frame seg → ∀ i, firstFrame pcm frame seg ≤ i + 1 → i < endFrame pcm frame seg →
    Loud sqrt pcm frame seg i → i < m
  first : Whole pcm frame seg → firstFrame pcm frame seg < m ∨
    ∃ i, firstFrame pcm frame seg ≤ i + 1 ∧ i < endFrame pcm frame seg ∧ Loud sqrt pcm frame seg i
  stays : ¬Whole pcm frame seg → seg.endSample ≤ m * frame

def Clear (sqrt : F → F) (pcm : Pcm) (frame : Nat) (a b : SpeechSegment) : Prop :=
  Whole pcm frame b → ∃ m ≤ firstFrame pcm frame b,
    (m = 0 ∨ ¬Loud sqrt pcm frame b (m - 1)) ∧ EndsBy sqrt pcm frame a m

theorem before_iff {a b : SpeechSegment} : Before a b ↔ a.startSample ≤ b.startSample ∧
    min a.endSample b.endSample ≤ max a.startSample b.startSample := by
  rw [Before, Set.Ico_disjoint_Ico]

theorem EndsBy.mono {m n : Nat} (bound : m ≤ n) (ends : EndsBy sqrt pcm frame seg m) :
    EndsBy sqrt pcm frame seg n :=
  ⟨fun whole i reach below loud => (ends.kept whole i reach below loud).trans_le bound,
    fun whole => (ends.first whole).imp_left (Nat.lt_of_lt_of_le · bound),
    fun part => (ends.stays part).trans (Nat.mul_le_mul_right frame bound)⟩

theorem Snapped.endsBy {ns ne : Nat} (whole : Whole pcm frame seg) (snapped : Snapped sqrt pcm frame seg ns ne)
    (m : Nat) : ne ≤ m ↔ EndsBy sqrt pcm frame seg m := by
  obtain ⟨early, some, late, onset, before, tail, last⟩ := snapped
  have first : firstFrame pcm frame seg < endFrame pcm frame seg := whole
  constructor
  · intro ends
    refine ⟨fun _ i _ below loud => ?_, fun _ => ?_, fun part => absurd whole part⟩
    · by_contra behind
      exact tail i (ends.trans (Nat.le_of_not_lt behind)) below loud
    · refine or_iff_not_imp_left.mpr fun beyond => ?_
      have loud := onset (firstFrame pcm frame seg - 1) (by omega) (by omega)
      exact ⟨_, by omega, by omega, loud⟩
  · rintro ⟨kept, begins, _⟩
    rcases last with rfl | loud
    · rcases begins whole with above | ⟨i, reach, below, loud⟩
      · exact Nat.lt_of_le_of_lt early above
      · have bound := kept whole i reach below loud
        by_contra short
        -- the frame before the first one is loud, and the walk went on over it
        have same : ns - 1 = i := by omega
        rcases before with zero | quiet
        · omega
        · exact quiet (same ▸ loud)
    · have reach : firstFrame pcm frame seg ≤ ne := by
        by_contra short
        exact tail (firstFrame pcm frame seg - 1) (by omega) (by omega) (onset _ (by omega) (by omega))
      have bound := kept whole (ne - 1) (by omega) (by omega) loud
      omega

/-- The walk over the onset comes no further back than to a frame that is not loud. -/
theorem Snapped.halts {ns ne m : Nat} (snapped : Snapped sqrt pcm frame seg ns ne)
    (bound : m ≤ firstFrame pcm frame seg) (quiet : m = 0 ∨ ¬Loud sqrt pcm frame seg (m - 1)) : m ≤ ns := by
  by_contra short
  rcases quiet with zero | quiet
  · omega
  · exact quiet (snapped.onset (m - 1) (by omega) (by omega))

theorem Snapped.clear {a b : SpeechSegment} {ns ne : Nat} (whole : Whole pcm frame b)
    (snapped : Snapped sqrt pcm frame b ns ne) : EndsBy sqrt pcm frame a ns ↔ Clear sqrt pcm frame a b := by
  constructor
  · exact fun ends _ => ⟨ns, snapped.early, snapped.before, ends⟩
  · intro clear
    obtain ⟨m, bound, quiet, ends⟩ := clear whole
    exact ends.mono (snapped.halts bound quiet)

/-- Two segments stay apart exactly where the walk back from the second stops in time. -/
theorem snapTo_before {a b : SpeechSegment} (ordered : a.startSample ≤ a.endSample)
    (inside : a.endSample ≤ pcm.length) (apart : Before a b) :
    Before (snapTo sqrt pcm frame a) (snapTo sqrt pcm frame b) ↔ Clear sqrt pcm frame a b := by
  rw [before_iff] at apart ⊢
  by_cases wholeB : Whole pcm frame b
  · obtain ⟨nsB, neB, snappedB, foundB⟩ := @snapTo_whole F _ _ _ _ sqrt pcm frame b wholeB
    obtain ⟨earlyB, someB, lateB⟩ := snappedB.samples wholeB
    rw [← snappedB.clear wholeB, foundB]
    by_cases wholeA : Whole pcm frame a
    · obtain ⟨nsA, neA, snappedA, foundA⟩ := @snapTo_whole F _ _ _ _ sqrt pcm frame a wholeA
      obtain ⟨earlyA, someA, lateA⟩ := snappedA.samples wholeA
      have scale : neA ≤ nsB ↔ neA * frame ≤ nsB * frame :=
        (Nat.mul_le_mul_right_iff (whole_positive wholeA).1).symm
      rw [← snappedA.endsBy wholeA, scale, foundA]
      simp only
      omega
    · have stays : EndsBy sqrt pcm frame a nsB ↔ a.endSample ≤ nsB * frame :=
        ⟨fun ends => ends.stays wholeA, fun ends => ⟨fun whole => absurd whole wholeA,
          fun whole => absurd whole wholeA, fun _ => ends⟩⟩
      rw [snapTo_part wholeA, stays]
      simp only
      omega
  · rw [snapTo_part wholeB]
    refine iff_of_true ?_ fun whole => absurd whole wholeB
    by_cases wholeA : Whole pcm frame a
    · obtain ⟨nsA, neA, snappedA, foundA⟩ := @snapTo_whole F _ _ _ _ sqrt pcm frame a wholeA
      obtain ⟨earlyA, someA, lateA⟩ := snappedA.samples wholeA
      rw [foundA]
      simp only
      omega
    · rwa [snapTo_part wholeA]

theorem map_snapTo_before {segs : List SpeechSegment}
    (each : ∀ seg ∈ segs, seg.startSample ≤ seg.endSample ∧ seg.endSample ≤ pcm.length)
    (apart : segs.Pairwise Before) :
    (segs.map (snapTo sqrt pcm frame)).Pairwise Before ↔ segs.Pairwise (Clear sqrt pcm frame) := by
  rw [List.pairwise_map]
  have pairs : segs.Pairwise fun a b =>
      (Before (snapTo sqrt pcm frame a) (snapTo sqrt pcm frame b) ↔ Clear sqrt pcm frame a b) :=
    apart.imp_of_mem fun first _ before => snapTo_before (each _ first).1 (each _ first).2 before
  exact ⟨fun before => pairs.imp₂ (fun _ _ same => same.mp) before,
    fun clear => pairs.imp₂ (fun _ _ same => same.mpr) clear⟩

/-- The segments stay ordered and disjoint exactly where any two do. -/
theorem snapSegments_before (sqrt : F → F) {pcm : Pcm} (frame : Nat) {segs : List SpeechSegment}
    (each : ∀ seg ∈ segs, seg.startSample ≤ seg.endSample ∧ seg.endSample ≤ pcm.length)
    (apart : segs.Pairwise Before) :
    ∃ outs, snapSegments sqrt pcm frame segs = some outs ∧
      (outs.Pairwise Before ↔ segs.Pairwise (Clear sqrt pcm frame)) :=
  ⟨_, snapSegments_eq segs, map_snapTo_before each apart⟩

theorem three_before : ∃ outs, snapSegments Real.sqrt three 1 [⟨0, 1⟩, ⟨2, 3⟩] = some outs ∧
    (outs.Pairwise Before ↔ [⟨0, 1⟩, ⟨2, 3⟩].Pairwise (Clear Real.sqrt three 1)) :=
  snapSegments_before Real.sqrt 1 (by decide) (by simp [before_iff])

theorem three_single : rmsTable Real.sqrt three 1 = [100, 100, 100] := by
  have square : (Int16.toInt 100 * Int16.toInt 100).toNat = 10000 := rfl
  norm_num [rmsTable, nfr, frameRms, three, List.range_succ, square]

/-- The second of two segments that are apart walks over the whole of the first. -/
theorem three_overlap : [⟨0, 1⟩, ⟨2, 3⟩].Pairwise Before ∧
    snapSegments Real.sqrt three 1 [⟨0, 1⟩, ⟨2, 3⟩] = some [⟨0, 1⟩, ⟨0, 3⟩] ∧
      ¬[⟨0, 1⟩, ⟨0, 3⟩].Pairwise Before := by
  refine ⟨?_, ?_, ?_⟩
  · simp [before_iff]
  · rw [snapSegments, three_single, if_neg (by simp [three])]
    norm_num [snap, firstFrame, endFrame, nfr, three, slice, floorOf, peak, backWhile]
  · simp [before_iff]

variable {E ν ρ κ : Type} [LE E] [DecidableLE E]

def frameSamples (vad : Vad E ν ρ κ) (frameMs : UInt32) : Nat := vad.sampleRate.toNat * frameMs.toNat / 1000

def speechSegments (engines : Engines E ν ρ κ) (sqrt : F → F) (vad : Vad E ν ρ κ) (pcm : Pcm)
    (frameMs : UInt32) : Option (Vad E ν ρ κ × List SpeechSegment) := do
  let frame := frameSamples vad frameMs
  let coarse ← vad.coarseSegments engines pcm frame
  let segs ← snapSegments sqrt pcm frame coarse.2
  some (coarse.1, segs)

/-- Whatever the detector says, each segment has samples and comes from a coarse one that begins
no earlier and ends no earlier, and they are disjoint where the walks back stop in time. -/
theorem speechSegments_bounds {engines : Engines E ν ρ κ} {sqrt : F → F} {vad last : Vad E ν ρ κ} {pcm : Pcm}
    {frameMs : UInt32} {outs : List SpeechSegment}
    (found : speechSegments engines sqrt vad pcm frameMs = some (last, outs)) :
    ∃ segs, vad.coarseSegments engines pcm (frameSamples vad frameMs) = some (last, segs) ∧
      List.Forall₂ (fun seg out => out.startSample ≤ seg.startSample ∧ out.startSample < out.endSample ∧
        out.endSample ≤ seg.endSample) segs outs ∧
      (outs.Pairwise Before ↔ segs.Pairwise (Clear sqrt pcm (frameSamples vad frameMs))) := by
  unfold speechSegments at found
  cases coarse : vad.coarseSegments engines pcm (frameSamples vad frameMs) with
  | none => simp [coarse] at found
  | some result =>
    obtain ⟨_, segs⟩ := result
    obtain ⟨each, apart⟩ := coarseSegments_ordered coarse
    have before : segs.Pairwise Before := by
      refine apart.imp_of_mem fun first second behind => before_iff.mpr ?_
      have one := each _ first
      have two := each _ second
      omega
    simp only [coarse, snapSegments_eq, Option.bind_eq_bind, Option.bind_some] at found
    cases found
    refine ⟨segs, rfl, ?_, map_snapTo_before (fun seg member => ?_) before⟩
    · rw [List.forall₂_map_right_iff, List.forall₂_same]
      exact fun seg member => snapTo_bounds (each seg member).2.1
    · obtain ⟨_, some, inside⟩ := each seg member
      exact ⟨some.le, inside⟩

end Snapping

end Fswtch.Audio.SnapSegments
