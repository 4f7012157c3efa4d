import Fswtch.Audio.Transitions
import Mathlib.Data.Rat.Floor

/-! The owned voice activity detector and its coarse segments. A buffer is fed in frames, and
each call answers with one state, which is that of the last block the frame completed. -/

namespace Fswtch.Audio.CoarseSegments
open Fswtch.Lib.Chunks Fswtch.Audio.Earshot Fswtch.Audio.Transitions

structure Engines (F ν ρ κ : Type) where
  detector : Detector F ν
  resample : ρ → Pcm → Pcm × ρ
  switchVadProcess : κ → Pcm → VadState × κ
  switchVadReset : κ → κ

inductive VadBackend (F ν ρ κ : Type) where
  | freeSwitch (raw : κ)
  | earshot (inner : EarshotInner F ν) (resampler : Option ρ)

structure Vad (F ν ρ κ : Type) where
  backend : VadBackend F ν ρ κ
  sampleRate : UInt32
  channels : Int32

variable {F ν ρ κ : Type}

/-- The average of the channels, sample by sample; a partial one at the end is dropped. -/
def downmix (channels : Nat) (pcm : Pcm) : Pcm :=
  (List.range (pcm.length / channels)).map fun f =>
    let sum := (((pcm.drop (f * channels)).take channels).map Int16.toInt).sum
    Int16.ofInt (sum.tdiv channels)

def Vad.reset (engines : Engines F ν ρ κ) (vad : Vad F ν ρ κ) : Vad F ν ρ κ :=
  match vad.backend with
  | .freeSwitch raw => { vad with backend := .freeSwitch (engines.switchVadReset raw) }
  | .earshot inner resampler => { vad with backend := .earshot (inner.reset engines.detector) resampler }

section Scoring

variable [LE F] [DecidableLE F]

/-- `none` where the resampler that another rate than 16 kHz needs is missing. -/
def Vad.process (engines : Engines F ν ρ κ) (vad : Vad F ν ρ κ) (pcm : Pcm) :
    Option (Vad F ν ρ κ × VadState) :=
  match vad.backend with
  | .freeSwitch raw =>
    let processed := engines.switchVadProcess raw pcm
    some ({ vad with backend := .freeSwitch processed.2 }, processed.1)
  | .earshot inner resampler =>
    let mono := if vad.channels ≤ 1 then pcm else downmix vad.channels.toInt.toNat pcm
    if vad.sampleRate = earshotRate then
      let processed := inner.process16k engines.detector mono
      some ({ vad with backend := .earshot processed.1 resampler }, processed.2)
    else
      resampler.map fun res =>
        let out16 := engines.resample res mono
        let processed := inner.process16k engines.detector out16.1
        ({ vad with backend := .earshot processed.1 (some out16.2) }, processed.2)

/-- The frame that begins at an offset, filled up with silence. -/
def scratch (pcm : Pcm) (frame off : Nat) : Pcm :=
  let n := min frame (pcm.length - off)
  (pcm.drop off).take n ++ List.replicate (frame - n) 0

def Vad.coarseLoop (engines : Engines F ν ρ κ) (pcm : Pcm) (frame off : Nat) (vad : Vad F ν ρ κ)
    (inSpeech : Bool) (segStart : Nat) : Option (Vad F ν ρ κ × List SpeechSegment) :=
  if off < pcm.length ∧ 0 < frame then
    match vad.process engines (scratch pcm frame off) with
    | none => none
    | some (vad, st) =>
      let stop := min (off + frame) pcm.length
      if st = .startTalking ∧ inSpeech = false then vad.coarseLoop engines pcm frame (off + frame) true off
      else if st = .stopTalking ∧ inSpeech = true then
        (vad.coarseLoop engines pcm frame (off + frame) false segStart).map fun later =>
          (later.1, ⟨segStart, stop⟩ :: later.2)
      else vad.coarseLoop engines pcm frame (off + frame) inSpeech segStart
  else some (vad, if inSpeech then [⟨segStart, pcm.length⟩] else [])
termination_by pcm.length - off

def Vad.coarseSegments (engines : Engines F ν ρ κ) (vad : Vad F ν ρ κ) (pcm : Pcm) (frame : Nat) :
    Option (Vad F ν ρ κ × List SpeechSegment) :=
  if frame = 0 ∨ pcm = [] then some (vad, [])
  else vad.coarseLoop engines pcm frame 0 false 0

theorem earshotFrame_pos : 0 < earshotFrame := Nat.succ_pos 255

def consumeBlock (d : Detector F ν) (e : EarshotInner F ν) (pcm : Pcm) : EarshotInner F ν × List VadState :=
  let stepped := e.block d pcm
  (stepped.1, [stepped.2])

theorem block_staged (d : Detector F ν) (e : EarshotInner F ν) (stage : Pcm) (state : VadState) (pcm : Pcm) :
    { e with stage, state }.block d pcm =
      ({ (e.block d pcm).1 with stage, state }, (e.block d pcm).2) := by
  unfold EarshotInner.block EarshotInner.step EarshotInner.voice
  simp only
  split_ifs <;> rfl

theorem processStaged_eq (d : Detector F ν) (e : EarshotInner F ν) (stage : Pcm) (state last : VadState) :
    { e with stage, state }.processStaged d last =
      let drained := cut earshotFrame stage
      let consumed := consumeAll (consumeBlock d) e drained.1
      ({ consumed.1 with stage := drained.2, state := consumed.2.getLastD last }, consumed.2.getLastD last) := by
  fun_induction cut earshotFrame stage generalizing e last with
  | case1 stage whole later ih =>
    rw [EarshotInner.processStaged, if_pos whole.2, block_staged]
    simp only
    rw [ih]
    simp only [consumeAll, consumeBlock, List.singleton_append, List.getLastD_cons]
    rfl
  | case2 stage short =>
    rw [EarshotInner.processStaged, if_neg fun long => short ⟨earshotFrame_pos, long⟩]
    rfl

/-- A call of the core is a slice of the stream of blocks. -/
theorem process16k_eq (d : Detector F ν) (e : EarshotInner F ν) (stage : Pcm) (state : VadState) (mono : Pcm) :
    { e with stage, state }.process16k d mono =
      let fed := feed (consumeBlock d) earshotFrame (e, stage) mono
      ({ fed.1.1 with stage := fed.1.2, state := fed.2.getLastD state }, fed.2.getLastD state) := by
  rw [EarshotInner.process16k]
  exact processStaged_eq d e (stage ++ mono) state state

def processCalls (d : Detector F ν) (e : EarshotInner F ν) : List Pcm → EarshotInner F ν
  | [] => e
  | mono :: rest => processCalls d (e.process16k d mono).1 rest

theorem processCalls_eq (d : Detector F ν) (e : EarshotInner F ν) (stage : Pcm) (state : VadState)
    (calls : List Pcm) :
    processCalls d { e with stage, state } calls =
      let fed := feedAll (consumeBlock d) earshotFrame (e, stage) calls
      { fed.1.1 with stage := fed.1.2, state := fed.2.getLastD state } := by
  induction calls generalizing e stage state with
  | nil => rfl
  | cons mono rest ih =>
    rw [processCalls, process16k_eq, feedAll]
    simp only [ih]
    simp [List.getLastD_eq_getLast?, List.getLast?_append]

/-- The core after the calls depends on the stream alone, whatever the calls it comes in. Less
than a block stays staged, and what a call reports is the state that it leaves. -/
theorem process16k_splits (d : Detector F ν) (e : EarshotInner F ν) (staged : e.stage.length < earshotFrame)
    (first second : List Pcm) (same : first.flatten = second.flatten) :
    processCalls d e first = processCalls d e second ∧
      (processCalls d e first).stage.length < earshotFrame ∧
      ∀ mono, ((processCalls d e first).process16k d mono).2 =
        ((processCalls d e first).process16k d mono).1.state := by
  have fed : ∀ calls, processCalls d e calls =
      let fed := feed (consumeBlock d) earshotFrame (e, e.stage) calls.flatten
      { fed.1.1 with stage := fed.1.2, state := fed.2.getLastD e.state } := by
    intro calls
    rw [← feedAll_eq earshotFrame_pos staged]
    exact processCalls_eq d e e.stage e.state calls
  refine ⟨?_, ?_, fun mono => ?_⟩
  · rw [fed, fed, same]
  · rw [fed]
    exact cut_rest earshotFrame_pos _
  · generalize processCalls d e first = after
    have call := process16k_eq d after after.stage after.state mono
    change after.process16k d mono = _ at call
    rw [call]

end Scoring

def speechOnly : Detector Rat Unit := ⟨fun detector _ => (1, detector), id⟩

def crossedFrame : List Pcm := [List.replicate 200 1, List.replicate 100 2]

theorem crossedFrame_splits :
    processCalls speechOnly (.new ()) crossedFrame = processCalls speechOnly (.new ()) [crossedFrame.flatten] ∧
      (processCalls speechOnly (.new ()) crossedFrame).stage = List.replicate 44 2 := by
  have staged : (.new () : EarshotInner Rat Unit).stage.length < earshotFrame := earshotFrame_pos
  have same : crossedFrame.flatten = [crossedFrame.flatten].flatten := List.flatten_singleton.symm
  exact ⟨(process16k_splits speechOnly _ staged _ _ same).1, by decide +kernel⟩

def frameCount (frame : Nat) (pcm : Pcm) : Nat := (pcm.length + frame - 1) / frame

def padded (frame : Nat) (pcm : Pcm) : Pcm :=
  pcm ++ List.replicate (frameCount frame pcm * frame - pcm.length) 0

theorem frameCount_covers {frame : Nat} (positive : 0 < frame) (pcm : Pcm) :
    Covers frame pcm.length 0 (frameCount frame pcm) := by
  have split := Nat.div_add_mod' (pcm.length + frame - 1) frame
  have small := Nat.mod_lt (pcm.length + frame - 1) positive
  change frameCount frame pcm * frame + _ = _ at split
  refine ⟨by omega, fun some => ?_⟩
  rw [Nat.sub_one_mul]
  have least : 1 * frame ≤ frameCount frame pcm * frame := Nat.mul_le_mul_right frame some
  omega

theorem frameCount_nothing {frame : Nat} {pcm : Pcm} (nothing : frame = 0 ∨ pcm = []) :
    frameCount frame pcm = 0 := by
  rcases nothing with rfl | rfl
  · exact Nat.div_zero _
  · rcases Nat.eq_zero_or_pos frame with rfl | positive
    · rfl
    · apply Nat.div_eq_of_lt
      rw [List.length_nil]
      omega

theorem padded_length {frame : Nat} (positive : 0 < frame) (pcm : Pcm) :
    (padded frame pcm).length = frameCount frame pcm * frame := by
  have reach := (frameCount_covers positive pcm).1
  rw [padded, List.length_append, List.length_replicate]
  omega

theorem frame_begins {frame f : Nat} (positive : 0 < frame) {pcm : Pcm} (inside : f < frameCount frame pcm) :
    f * frame < pcm.length := by
  have last := (frameCount_covers positive pcm).2 (Nat.zero_lt_of_lt inside)
  have before : f * frame ≤ (frameCount frame pcm - 1) * frame := Nat.mul_le_mul_right frame (by omega)
  omega

theorem frame_ends {frame f : Nat} {pcm : Pcm} (inside : f < frameCount frame pcm) :
    f * frame + frame ≤ frameCount frame pcm * frame := by
  rw [← Nat.succ_mul]
  exact Nat.mul_le_mul_right frame inside

theorem scratch_eq {frame f : Nat} (positive : 0 < frame) {pcm : Pcm} (inside : f < frameCount frame pcm) :
    scratch pcm frame (f * frame) = ((padded frame pcm).drop (f * frame)).take frame := by
  have begins := frame_begins positive inside
  have ends := frame_ends inside
  unfold scratch padded
  simp only
  rw [List.drop_append_of_le_length (by omega), List.take_append, List.length_drop, List.take_replicate]
  by_cases short : frame ≤ pcm.length - f * frame
  · rw [Nat.min_eq_left short, Nat.sub_self, Nat.sub_eq_zero_of_le short, Nat.zero_min]
  · rw [Nat.min_eq_right (Nat.le_of_not_le short), List.take_of_length_le (by rw [List.length_drop]),
      List.take_of_length_le (by rw [List.length_drop]; omega)]
    congr 2
    omega

section Scoring

variable [LE F] [DecidableLE F]

def monoVad (e : EarshotInner F ν) (stage : Pcm) (state : VadState) (resampler : Option ρ) : Vad F ν ρ κ :=
  { backend := .earshot { e with stage, state } resampler, sampleRate := earshotRate, channels := 1 }

theorem process_mono (engines : Engines F ν ρ κ) (e : EarshotInner F ν) (stage : Pcm) (state : VadState)
    (resampler : Option ρ) (pcm : Pcm) :
    (monoVad e stage state resampler : Vad F ν ρ κ).process engines pcm =
      let fed := feed (consumeBlock engines.detector) earshotFrame (e, stage) pcm
      let last := fed.2.getLastD state
      some (monoVad fed.1.1 fed.1.2 last resampler, last) := by
  unfold monoVad Vad.process
  simp only [process16k_eq]
  rfl

theorem coarseLoop_eq (engines : Engines F ν ρ κ) {frame : Nat} (positive : 0 < frame) (pcm : Pcm)
    (resampler : Option ρ) (k : Nat) :
    ∀ (f : Nat) (e : EarshotInner F ν) (stage : Pcm) (state : VadState) (inSpeech : Bool) (segStart : Nat),
      f + k = frameCount frame pcm →
      ((monoVad e stage state resampler : Vad F ν ρ κ).coarseLoop engines pcm frame (f * frame) inSpeech
          segStart).map Prod.snd =
        some (collect frame pcm.length (if inSpeech then some segStart else none) (f * frame)
          (observed state (outputs (consumeBlock engines.detector) earshotFrame (e, stage)
            (cut frame ((padded frame pcm).drop (f * frame))).1))) := by
  have full := padded_length positive pcm
  induction k with
  | zero =>
    intro f e stage state inSpeech segStart whole
    have reach := (frameCount_covers positive pcm).1
    rw [Nat.zero_add, ← whole, Nat.add_zero] at reach
    have beyond : ¬(f * frame < pcm.length ∧ 0 < frame) := fun inside => Nat.not_lt.mpr reach inside.1
    have nothing : (padded frame pcm).drop (f * frame) = [] :=
      List.drop_of_length_le (by rw [full, ← whole, Nat.add_zero])
    rw [Vad.coarseLoop, if_neg beyond, nothing, cut_short positive]
    cases inSpeech <;> rfl
  | succ k ih =>
    intro f e stage state inSpeech segStart whole
    have inside : f < frameCount frame pcm := by omega
    have ends := frame_ends inside
    have long : frame ≤ ((padded frame pcm).drop (f * frame)).length := by
      rw [List.length_drop, full]
      omega
    have offset : f * frame + frame = (f + 1) * frame := (Nat.succ_mul f frame).symm
    rw [Vad.coarseLoop, if_pos ⟨frame_begins positive inside, positive⟩, scratch_eq positive inside,
      process_mono, cut_long positive long, List.drop_drop, offset, outputs, observed]
    generalize feed (consumeBlock engines.detector) earshotFrame (e, stage) _ = fed
    simp only
    have later := fun spoken begun =>
      ih (f + 1) fed.1.1 fed.1.2 (fed.2.getLastD state) spoken begun (by omega)
    generalize fed.2.getLastD state = last at later ⊢
    cases inSpeech with
    | false =>
      cases last with
      | startTalking => simpa [collect, offset] using later true (f * frame)
      | none | talking | stopTalking | error => simpa [collect, offset] using later false segStart
    | true =>
      cases last with
      | stopTalking => simpa [collect, offset] using later false segStart
      | none | startTalking | talking | error => simpa [collect, offset] using later true segStart

def blockStates (d : Detector F ν) (e : EarshotInner F ν) (pcm : Pcm) : List VadState :=
  (consumeAll (consumeBlock d) e (cut earshotFrame pcm).1).2

def byFrame (frame count : Nat) (states : List VadState) : List (List VadState) :=
  (List.range count).map fun f =>
    (states.take ((f + 1) * frame / earshotFrame)).drop (f * frame / earshotFrame)

theorem consumeAll_advance (d : Detector F ν) (e : EarshotInner F ν) (chunks : List Pcm) :
    (consumeAll (consumeBlock d) e chunks).2.foldlM advance e.inSpeech =
      some (consumeAll (consumeBlock d) e chunks).1.inSpeech := by
  induction chunks generalizing e with
  | nil => rfl
  | cons chunk rest ih =>
    have moved : advance e.inSpeech (e.block d chunk).2 = some (e.block d chunk).1.inSpeech :=
      EarshotInner.step_advance { e with detector := (d.predictI16 e.detector chunk).2 } _
    rw [consumeAll, consumeBlock, List.singleton_append, List.foldlM_cons, moved]
    exact ih _

theorem padded_flatten {frame : Nat} (positive : 0 < frame) (pcm : Pcm) :
    (cut frame (padded frame pcm)).1.flatten = padded frame pcm := by
  have none : (cut frame (padded frame pcm)).2 = [] := by
    rw [List.eq_nil_iff_length_eq_zero, cut_rest_length positive, padded_length positive, Nat.mul_mod_left]
  have whole := cut_flatten frame (padded frame pcm)
  rwa [none, List.append_nil] at whole

theorem outputs_byFrame (d : Detector F ν) (e : EarshotInner F ν) {frame : Nat} (positive : 0 < frame)
    (pcm : Pcm) :
    outputs (consumeBlock d) earshotFrame (e, []) (cut frame (padded frame pcm)).1 =
      byFrame frame (frameCount frame pcm) (blockStates d e (padded frame pcm)) := by
  have count : (cut frame (padded frame pcm)).1.length = frameCount frame pcm := by
    rw [cut_count positive, padded_length positive, Nat.mul_div_cancel _ positive]
  rw [outputs_even (fun _ _ => rfl) earshotFrame_pos e fun _ => cut_chunk, padded_flatten positive, count]
  rfl

theorem byFrame_flatten (d : Detector F ν) (e : EarshotInner F ν) {frame : Nat} (positive : 0 < frame)
    (pcm : Pcm) :
    (byFrame frame (frameCount frame pcm) (blockStates d e (padded frame pcm))).flatten =
      blockStates d e (padded frame pcm) := by
  have fresh : (e, ([] : Pcm)).2.length < earshotFrame := earshotFrame_pos
  rw [← outputs_byFrame d e positive, outputs_flatten, feedAll_eq earshotFrame_pos fresh,
    padded_flatten positive]
  rfl

theorem byFrame_shown {frame : Nat} (short : frame ≤ earshotFrame) (count : Nat) (states : List VadState) :
    Shown (byFrame frame count states) := by
  have single : ∀ f, (((states.take ((f + 1) * frame / earshotFrame)).drop
      (f * frame / earshotFrame)).dropLast : List VadState) = [] := by
    intro f
    have next : (f + 1) * frame / earshotFrame ≤ f * frame / earshotFrame + 1 := by
      rw [← Nat.add_div_right _ earshotFrame_pos, Nat.succ_mul]
      exact Nat.div_le_div_right (Nat.add_le_add_left short _)
    apply List.eq_nil_of_length_eq_zero
    rw [List.length_dropLast, List.length_drop, List.length_take]
    omega
  refine ⟨fun here member => ?_, fun f here found => ?_⟩
  · obtain ⟨f, _, rfl⟩ := List.mem_map.mp member
    rw [single]
    exact List.not_mem_nil
  · obtain ⟨f, _, rfl⟩ := List.mem_map.mp (List.mem_of_getElem? found)
    rw [single]
    exact nofun

/-- A detector that was reset finds the intervals of the blocks exactly where no transition is
hidden behind another state in its frame. -/
theorem coarseSegments_iff_shown (engines : Engines F ν ρ κ) (inner : EarshotInner F ν)
    (resampler : Option ρ) (pcm : Pcm) (frame : Nat) :
    let vad : Vad F ν ρ κ :=
      Vad.reset engines { backend := .earshot inner resampler, sampleRate := earshotRate, channels := 1 }
    let frames := byFrame frame (frameCount frame pcm)
      (blockStates engines.detector (inner.reset engines.detector) (padded frame pcm))
    (vad.coarseSegments engines pcm frame).map Prod.snd =
        some (intervals frame pcm.length none 0 frames) ↔
      Shown frames := by
  intro vad frames
  by_cases nothing : frame = 0 ∨ pcm = []
  · have empty : frames = [] := by simp [frames, byFrame, frameCount_nothing nothing]
    rw [Vad.coarseSegments, if_pos nothing, empty]
    simp only [Option.map_some, intervals, Option.toList_none, List.map_nil, true_iff]
    exact ⟨by simp, by simp⟩
  · have positive : 0 < frame := Nat.pos_of_ne_zero fun zero => nothing (.inl zero)
    have found := @coarseLoop_eq F ν ρ κ _ _ engines frame positive pcm resampler (frameCount frame pcm) 0
      (inner.reset engines.detector) [] .none false 0 (Nat.zero_add _)
    rw [Nat.zero_mul, List.drop_zero, outputs_byFrame _ _ positive] at found
    have advances := consumeAll_advance engines.detector (inner.reset engines.detector)
      (cut earshotFrame (padded frame pcm)).1
    change (blockStates _ _ _).foldlM _ _ = _ at advances
    rw [← byFrame_flatten _ _ positive] at advances
    have covers : Covers frame pcm.length 0 frames.length := by
      rw [show frames.length = frameCount frame pcm by simp [frames, byFrame]]
      exact frameCount_covers positive pcm
    rw [Vad.coarseSegments, if_neg nothing]
    rw [← collect_iff_shown positive covers advances]
    exact (Eq.congr_left found).trans Option.some_inj

end Scoring

structure Ordered (low high : Nat) (segs : List SpeechSegment) : Prop where
  each : ∀ seg ∈ segs, low ≤ seg.startSample ∧ seg.startSample < seg.endSample ∧ seg.endSample ≤ high
  apart : segs.Pairwise fun a b => a.endSample ≤ b.startSample

theorem Ordered.nil {low high : Nat} : Ordered low high [] := ⟨nofun, .nil⟩

theorem Ordered.lower {low lower high : Nat} {segs : List SpeechSegment} (bound : lower ≤ low)
    (ordered : Ordered low high segs) : Ordered lower high segs :=
  ⟨fun seg member => ⟨bound.trans (ordered.each seg member).1, (ordered.each seg member).2⟩, ordered.apart⟩

theorem Ordered.cons {start stop high : Nat} {segs : List SpeechSegment} (some : start < stop) (inside : stop ≤ high)
    (ordered : Ordered stop high segs) : Ordered start high (⟨start, stop⟩ :: segs) := by
  refine ⟨?_, List.pairwise_cons.mpr ⟨fun seg member => (ordered.each seg member).1, ordered.apart⟩⟩
  rw [List.forall_mem_cons]
  exact ⟨⟨le_rfl, some, inside⟩, (ordered.lower some.le).each⟩

theorem coarseLoop_ordered [LE F] [DecidableLE F] (engines : Engines F ν ρ κ) (pcm : Pcm) (frame off : Nat)
    (vad : Vad F ν ρ κ) (inSpeech : Bool) (segStart : Nat)
    (opened : inSpeech = true → segStart < off ∧ segStart < pcm.length) {last : Vad F ν ρ κ}
    {segs : List SpeechSegment} (found : vad.coarseLoop engines pcm frame off inSpeech segStart = some (last, segs)) :
    Ordered (if inSpeech then segStart else off) pcm.length segs := by
  fun_induction Vad.coarseLoop engines pcm frame off vad inSpeech segStart generalizing segs with
  | case1 => cases found
  | case2 off vad inSpeech segStart inside next st processed starts ih =>
    have ordered := ih (fun _ => ⟨Nat.lt_add_of_pos_right inside.2, inside.1⟩) found
    simpa [starts.2] using ordered
  | case3 off vad inSpeech segStart inside next st processed stop _ stops ih =>
    obtain ⟨later, looped, same⟩ := Option.map_eq_some_iff.mp found
    cases same
    obtain ⟨before, within⟩ := opened stops.2
    have ordered : Ordered (off + frame) pcm.length later.2 := ih nofun looped
    have some : segStart < stop := lt_min (Nat.lt_add_right frame before) within
    rw [if_pos stops.2]
    exact (ordered.lower (min_le_left _ _)).cons some (min_le_right _ _)
  | case4 off vad inSpeech segStart inside next st processed _ _ ih =>
    have ordered := ih (fun speech => ⟨Nat.lt_add_right frame (opened speech).1, (opened speech).2⟩) found
    cases inSpeech with
    | false => exact ordered.lower (Nat.le_add_right off frame)
    | true => exact ordered
  | case5 off vad inSpeech segStart _ =>
    cases found
    cases inSpeech with
    | false => exact .nil
    | true => exact Ordered.nil.cons (opened rfl).2 le_rfl

theorem coarseSegments_ordered [LE F] [DecidableLE F] {engines : Engines F ν ρ κ} {pcm : Pcm} {frame : Nat}
    {vad last : Vad F ν ρ κ} {segs : List SpeechSegment}
    (found : vad.coarseSegments engines pcm frame = some (last, segs)) : Ordered 0 pcm.length segs := by
  rw [Vad.coarseSegments] at found
  split_ifs at found
  · cases found
    exact .nil
  · exact coarseLoop_ordered engines pcm frame 0 vad false 0 nofun found

def loud : Engines Rat Unit Unit Unit where
  detector := ⟨fun detector _ => (1, detector), id⟩
  resample res pcm := (pcm, res)
  switchVadProcess raw _ := (.none, raw)
  switchVadReset := id

/-- With the default settings the start is emitted at the 13th block, and behind it the frame
of 16 blocks goes on to talk. -/
theorem loud_misses :
    let vad : Vad Rat Unit Unit Unit :=
      Vad.reset loud { backend := .earshot (.new ()) none, sampleRate := earshotRate, channels := 1 }
    let pcm : Pcm := List.replicate 4096 0
    let frames := byFrame 4096 (frameCount 4096 pcm)
      (blockStates loud.detector (EarshotInner.reset loud.detector (.new ())) (padded 4096 pcm))
    (vad.coarseSegments loud pcm 4096).map Prod.snd = some [] ∧
      intervals 4096 pcm.length none 0 frames = [⟨0, 4096⟩] := by
  decide +kernel

end Fswtch.Audio.CoarseSegments
