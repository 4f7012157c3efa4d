import Mathlib.Algebra.GroupWithZero.Nat
import Mathlib.Data.List.Basic
import Fswtch.Lib.Chunks

/-! Frames of 10 ms against blocks of 64 samples. Audio comes in frames of two halves of 80
samples for each band and channel, the canceller works in blocks of 64: one buffer cuts blocks from
the halves, one builds halves from the blocks. What the source asserts is checked at each call. -/

namespace Fswtch.Apm.Framing

def blockSize : Nat := 64

def subFrameLength : Nat := 80

def frameSize : Nat := 160

@[ext] structure Sheet (bands channels size : Nat) (σ : Type) where
  samples : Fin bands → Fin channels → List σ
  even : ∀ band channel, (samples band channel).length = size

variable {bands channels size : Nat} {σ : Type}

def plane (sheets : List (Sheet bands channels size σ)) (band : Fin bands) (channel : Fin channels) : List σ :=
  sheets.flatMap fun sheet => sheet.samples band channel

theorem plane_append (first second : List (Sheet bands channels size σ)) (band : Fin bands) (channel : Fin channels) :
    plane (first ++ second) band channel = plane first band channel ++ plane second band channel :=
  List.flatMap_append

theorem plane_snoc (sheets : List (Sheet bands channels size σ)) (sheet : Sheet bands channels size σ)
    (band : Fin bands) (channel : Fin channels) :
    plane (sheets ++ [sheet]) band channel = plane sheets band channel ++ sheet.samples band channel := by
  rw [plane, List.flatMap_append, List.flatMap_singleton, plane]

theorem plane_length (sheets : List (Sheet bands channels size σ)) (band : Fin bands) (channel : Fin channels) :
    (plane sheets band channel).length = sheets.length * size := by
  induction sheets with
  | nil => simp [plane]
  | cons sheet rest ih =>
    rw [plane, List.flatMap_cons, List.length_append, sheet.even, ← plane, ih, List.length_cons, Nat.succ_mul,
      Nat.add_comm]

def Sheet.half (frame : Sheet bands channels frameSize σ) (index : Fin 2) : Sheet bands channels subFrameLength σ where
  samples band channel := ((frame.samples band channel).drop (index * subFrameLength)).take subFrameLength
  even band channel := by
    have long := frame.even band channel
    have first := index.isLt
    simp only [frameSize, subFrameLength] at long ⊢
    rw [List.length_take, List.length_drop, long]
    omega

def Sheet.setHalf (frame : Sheet bands channels frameSize σ) (index : Fin 2)
    (half : Sheet bands channels subFrameLength σ) : Sheet bands channels frameSize σ where
  samples band channel :=
    (frame.samples band channel).take (index * subFrameLength) ++ half.samples band channel ++
      (frame.samples band channel).drop ((index + 1) * subFrameLength)
  even band channel := by
    have long := frame.even band channel
    have short := half.even band channel
    have first := index.isLt
    simp only [frameSize, subFrameLength] at long short ⊢
    simp only [List.length_append, List.length_take, List.length_drop, long, short]
    omega

theorem half_setHalf (frame : Sheet bands channels frameSize σ) (half : Sheet bands channels subFrameLength σ) :
    (frame.setHalf 0 half).half 1 = frame.half 1 := by
  ext band channel : 3
  have short := half.even band channel
  simp [Sheet.half, Sheet.setHalf, short]

theorem setHalf_both (frame : Sheet bands channels frameSize σ) (first second : Sheet bands channels subFrameLength σ)
    (band : Fin bands) (channel : Fin channels) :
    ((frame.setHalf 0 first).setHalf 1 second).samples band channel =
      first.samples band channel ++ second.samples band channel := by
  have long := frame.even band channel
  have short := first.even band channel
  simp [Sheet.setHalf, short, long, frameSize, subFrameLength]

theorem half_append (frame : Sheet bands channels frameSize σ) (band : Fin bands) (channel : Fin channels) :
    (frame.half 0).samples band channel ++ (frame.half 1).samples band channel = frame.samples band channel := by
  have long := frame.even band channel
  have rest : ((frame.samples band channel).drop subFrameLength).length ≤ subFrameLength := by
    rw [List.length_drop, long]
    decide
  simp [Sheet.half, List.take_of_length_le rest]

structure FrameBlocker (bands channels : Nat) (σ : Type) where
  buffer : Fin bands → Fin channels → List σ

def FrameBlocker.new : FrameBlocker bands channels σ := ⟨fun _ _ => []⟩

def FrameBlocker.insertSubFrameAndExtractBlock (b : FrameBlocker bands channels σ)
    (subFrame : Sheet bands channels subFrameLength σ) :
    Option (Sheet bands channels blockSize σ × FrameBlocker bands channels σ) :=
  if fits : ∀ band channel, (b.buffer band channel).length ≤ blockSize - 16 then
    let samplesToBlock band channel := blockSize - (b.buffer band channel).length
    some
      ({ samples := fun band channel =>
           b.buffer band channel ++ (subFrame.samples band channel).take (samplesToBlock band channel)
         even := fun band channel => by
           have kept := fits band channel
           simp only [blockSize] at kept
           simp only [samplesToBlock, List.length_append, List.length_take, subFrame.even, blockSize, subFrameLength]
           omega },
        ⟨fun band channel => (subFrame.samples band channel).drop (samplesToBlock band channel)⟩)
  else none

def FrameBlocker.isBlockAvailable [NeZero bands] [NeZero channels] (b : FrameBlocker bands channels σ) : Bool :=
  blockSize == (b.buffer 0 0).length

def FrameBlocker.extractBlock (b : FrameBlocker bands channels σ) :
    Option (Sheet bands channels blockSize σ × FrameBlocker bands channels σ) :=
  if full : ∀ band channel, (b.buffer band channel).length = blockSize then
    some (⟨b.buffer, full⟩, .new)
  else none

def FrameBlocker.Level (b : FrameBlocker bands channels σ) (n : Nat) : Prop :=
  ∀ band channel, (b.buffer band channel).length = n

theorem FrameBlocker.level_new : (FrameBlocker.new : FrameBlocker bands channels σ).Level 0 := fun _ _ => rfl

/-- A half goes in where 16 places are free, and leaves 16 samples more. -/
theorem FrameBlocker.insert_spec {b : FrameBlocker bands channels σ} {n : Nat} (level : b.Level n)
    (small : n ≤ blockSize - 16) (subFrame : Sheet bands channels subFrameLength σ) :
    ∃ block later, b.insertSubFrameAndExtractBlock subFrame = some (block, later) ∧ later.Level (n + 16) ∧
      ∀ band channel, block.samples band channel ++ later.buffer band channel =
        b.buffer band channel ++ subFrame.samples band channel := by
  have fits : ∀ band channel, (b.buffer band channel).length ≤ blockSize - 16 := fun band channel => by
    rw [level]
    exact small
  refine ⟨_, _, dif_pos fits, fun band channel => ?_, fun band channel => ?_⟩
  · simp only [List.length_drop, subFrame.even, level band channel]
    simp only [blockSize, subFrameLength] at small ⊢
    omega
  · simp only [List.append_assoc, List.take_append_drop]

theorem FrameBlocker.extract_spec {b : FrameBlocker bands channels σ} (level : b.Level blockSize) :
    ∃ block, b.extractBlock = some (block, .new) ∧
      ∀ band channel, block.samples band channel = b.buffer band channel :=
  ⟨⟨b.buffer, level⟩, dif_pos level, fun _ _ => rfl⟩

theorem FrameBlocker.available_iff [NeZero bands] [NeZero channels] {b : FrameBlocker bands channels σ} {n : Nat}
    (level : b.Level n) : b.isBlockAvailable = decide (n = blockSize) := by
  rw [isBlockAvailable, level, Bool.eq_iff_iff, beq_iff_eq, decide_eq_true_iff]
  exact eq_comm

structure BlockFramer (bands channels : Nat) (σ : Type) where
  buffer : Fin bands → Fin channels → List σ

def BlockFramer.new [Zero σ] : BlockFramer bands channels σ := ⟨fun _ _ => List.replicate blockSize 0⟩

def BlockFramer.insertBlock (f : BlockFramer bands channels σ) (block : Sheet bands channels blockSize σ) :
    Option (BlockFramer bands channels σ) :=
  if ∀ band channel, f.buffer band channel = [] then some ⟨block.samples⟩ else none

def BlockFramer.insertBlockAndExtractSubFrame (f : BlockFramer bands channels σ)
    (block : Sheet bands channels blockSize σ) :
    Option (Sheet bands channels subFrameLength σ × BlockFramer bands channels σ) :=
  if fits : ∀ band channel, subFrameLength ≤ (f.buffer band channel).length + blockSize ∧
      (f.buffer band channel).length ≤ blockSize then
    let samplesToFrame band channel := subFrameLength - (f.buffer band channel).length
    some
      ({ samples := fun band channel =>
           f.buffer band channel ++ (block.samples band channel).take (samplesToFrame band channel)
         even := fun band channel => by
           have kept := fits band channel
           simp only [blockSize, subFrameLength] at kept
           simp only [samplesToFrame, List.length_append, List.length_take, block.even, blockSize, subFrameLength]
           omega },
        ⟨fun band channel => (block.samples band channel).drop (samplesToFrame band channel)⟩)
  else none

def BlockFramer.Level (f : BlockFramer bands channels σ) (n : Nat) : Prop :=
  ∀ band channel, (f.buffer band channel).length = n

theorem BlockFramer.level_new [Zero σ] : (BlockFramer.new : BlockFramer bands channels σ).Level blockSize :=
  fun _ _ => List.length_replicate

theorem BlockFramer.insertBlock_spec {f : BlockFramer bands channels σ} (level : f.Level 0)
    (block : Sheet bands channels blockSize σ) :
    ∃ later, f.insertBlock block = some later ∧ later.Level blockSize ∧
      ∀ band channel, later.buffer band channel = f.buffer band channel ++ block.samples band channel := by
  have empty : ∀ band channel, f.buffer band channel = [] :=
    fun band channel => List.eq_nil_of_length_eq_zero (level band channel)
  refine ⟨_, if_pos empty, block.even, fun band channel => ?_⟩
  rw [empty, List.nil_append]

theorem BlockFramer.insert_spec {f : BlockFramer bands channels σ} {n : Nat} (level : f.Level (n + 16))
    (small : n + 16 ≤ blockSize) (block : Sheet bands channels blockSize σ) :
    ∃ subFrame later, f.insertBlockAndExtractSubFrame block = some (subFrame, later) ∧ later.Level n ∧
      ∀ band channel, subFrame.samples band channel ++ later.buffer band channel =
        f.buffer band channel ++ block.samples band channel := by
  have fits : ∀ band channel, subFrameLength ≤ (f.buffer band channel).length + blockSize ∧
      (f.buffer band channel).length ≤ blockSize := fun band channel => by
    rw [level]
    simp only [blockSize, subFrameLength] at small ⊢
    omega
  refine ⟨_, _, dif_pos fits, fun band channel => ?_, fun band channel => ?_⟩
  · simp only [List.length_drop, block.even, level band channel]
    simp only [blockSize, subFrameLength] at small ⊢
    omega
  · simp only [List.append_assoc, List.take_append_drop]

end Fswtch.Apm.Framing
