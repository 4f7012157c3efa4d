import Fswtch.Apm.Canceller

/-! One frame on its way through the render side and through the capture side. Between two frames
0 or 32 samples are kept for the next block, so that the blocks, the frames built from them and what
is kept always add up. -/

namespace Fswtch.Apm.Canceller
open Fswtch.Apm.Framing

variable {bands channels : Nat} {σ ρ : Type}

def Between (n : Nat) : Prop := n = 0 ∨ n = 32

instance (n : Nat) : Decidable (Between n) := inferInstanceAs (Decidable (_ ∨ _))

theorem Between.flip {n : Nat} (between : Between n) : Between (32 - n) := by
  rcases between with rfl | rfl
  · exact .inr rfl
  · exact .inl rfl

structure RenderSide.Cut (side : RenderSide bands channels σ) (n : Nat) : Prop where
  level : side.blocker.Level n
  cut : ∀ band channel, plane side.blocks band channel ++ side.blocker.buffer band channel =
    plane side.halves band channel

theorem RenderSide.cut_new : ({} : RenderSide bands channels σ).Cut 0 where
  level := FrameBlocker.level_new
  cut _ _ := rfl

theorem RenderSide.Cut.blocks_eq [NeZero bands] [NeZero channels] {side : RenderSide bands channels σ} {n : Nat}
    (cut : side.Cut n) (between : Between n) :
    side.blocks.length = side.halves.length * subFrameLength / blockSize ∧
      ∀ band channel, plane side.blocks band channel =
        (plane side.halves band channel).take (side.blocks.length * blockSize) := by
  refine ⟨?_, fun band channel => ?_⟩
  · have long := congrArg List.length (cut.cut 0 0)
    rw [List.length_append, plane_length, plane_length, cut.level] at long
    simp only [blockSize] at long ⊢
    rcases between with rfl | rfl <;> omega
  · rw [← cut.cut, ← plane_length, List.take_left]

section Blocks

variable (bufferRender : ρ → Sheet bands channels blockSize σ → ρ)

theorem bufferRenderFrameContent_spec {side : RenderSide bands channels σ} {n : Nat} (cut : side.Cut n)
    (small : n ≤ blockSize - 16) (half : Sheet bands channels subFrameLength σ) (processor : ρ) :
    ∃ next, bufferRenderFrameContent bufferRender half side processor = some next ∧ next.1.Cut (n + 16) ∧
      next.1.halves = side.halves ++ [half] := by
  obtain ⟨block, later, inserted, level, moved⟩ := FrameBlocker.insert_spec cut.level small half
  refine ⟨_, by rw [bufferRenderFrameContent, inserted]; rfl, ⟨level, fun band channel => ?_⟩, rfl⟩
  rw [plane_snoc, plane_snoc, List.append_assoc, moved, ← List.append_assoc, cut.cut]

variable [NeZero bands] [NeZero channels]

theorem bufferRemainingRenderFrameContent_spec {side : RenderSide bands channels σ} {n : Nat} (cut : side.Cut n)
    (processor : ρ) :
    ∃ next, bufferRemainingRenderFrameContent bufferRender side processor = some next ∧
      next.1.Cut (if n = blockSize then 0 else n) ∧ next.1.halves = side.halves := by
  rw [bufferRemainingRenderFrameContent, FrameBlocker.available_iff cut.level]
  by_cases full : n = blockSize
  · subst full
    obtain ⟨block, extracted, moved⟩ := FrameBlocker.extract_spec cut.level
    refine ⟨_, by rw [extracted]; rfl, ⟨FrameBlocker.level_new, fun band channel => ?_⟩, rfl⟩
    rw [plane_snoc, moved, cut.cut]
    exact List.append_nil _
  · rw [if_neg full]
    exact ⟨(side, processor), by simp [full], cut, rfl⟩

theorem bufferRenderFrame_spec {side : RenderSide bands channels σ} {n : Nat} (cut : side.Cut n) (between : Between n)
    (halves : Fin 2 → Sheet bands channels subFrameLength σ) (processor : ρ) :
    ∃ next, bufferRenderFrame bufferRender halves side processor = some next ∧ next.1.Cut (32 - n) ∧
      next.1.halves = side.halves ++ [halves 0, halves 1] := by
  have small : n + 16 ≤ blockSize - 16 := by
    simp only [blockSize]
    rcases between with rfl | rfl <;> decide
  obtain ⟨one, first, cutOne, halvesOne⟩ :=
    bufferRenderFrameContent_spec bufferRender cut (by omega) (halves 0) processor
  obtain ⟨two, second, cutTwo, halvesTwo⟩ := bufferRenderFrameContent_spec bufferRender cutOne small (halves 1) one.2
  obtain ⟨three, third, cutThree, halvesThree⟩ := bufferRemainingRenderFrameContent_spec bufferRender cutTwo two.2
  refine ⟨three, ?_, ?_, ?_⟩
  · simp only [bufferRenderFrame, first, second, third, bind, Option.bind]
  · rcases between with rfl | rfl
    · exact cutThree
    · exact cutThree
  · rw [halvesThree, halvesTwo, halvesOne, List.append_assoc, List.singleton_append]

end Blocks

section Capture

variable [Zero σ] (produces : Sheet bands channels blockSize σ → Sheet bands channels blockSize σ → Prop)

/-- The blocks given to the processor and what is kept are the samples taken in, and those put out
and what is kept are one block of silence and the blocks returned. -/
structure CaptureSide.Relay (side : CaptureSide bands channels σ) (n : Nat)
    (taken put : Fin bands → Fin channels → List σ) : Prop where
  level : side.captureBlocker.Level n
  ready : side.outputFramer.Level (blockSize - n)
  cut : ∀ band channel, plane side.given band channel ++ side.captureBlocker.buffer band channel = taken band channel
  built : ∀ band channel, put band channel ++ side.outputFramer.buffer band channel =
    List.replicate blockSize 0 ++ plane side.returned band channel
  made : List.Forall₂ produces side.given side.returned

theorem CaptureSide.relay_new :
    ({ outputFramer := .new } : CaptureSide bands channels σ).Relay produces 0 (fun _ _ => []) (fun _ _ => []) where
  level := FrameBlocker.level_new
  ready := BlockFramer.level_new
  cut _ _ := rfl
  built _ _ := (List.append_nil _).symm
  made := .nil

variable {produces} (processCapture : ρ → Sheet bands channels blockSize σ → ρ × Sheet bands channels blockSize σ)
  (produced : ∀ processor block, produces block (processCapture processor block).2)
include produced

theorem processCaptureFrameContent_spec {side : CaptureSide bands channels σ} {n : Nat}
    {taken put : Fin bands → Fin channels → List σ} (relay : side.Relay produces n taken put)
    (small : n ≤ blockSize - 16) (index : Fin 2) (processor : ρ) (capture : Sheet bands channels frameSize σ) :
    ∃ (next : CaptureSide bands channels σ × ρ) (half : Sheet bands channels subFrameLength σ),
      processCaptureFrameContent processCapture index side processor capture =
        some (next.1, next.2, capture.setHalf index half) ∧
      next.1.Relay produces (n + 16)
        (fun band channel => taken band channel ++ (capture.half index).samples band channel)
        (fun band channel => put band channel ++ half.samples band channel) := by
  obtain ⟨block, blocker, inserted, level, moved⟩ := FrameBlocker.insert_spec relay.level small (capture.half index)
  have room : blockSize - n = blockSize - (n + 16) + 16 := by
    simp only [blockSize] at small ⊢
    omega
  obtain ⟨half, framer, built, ready, through⟩ :=
    BlockFramer.insert_spec (room ▸ relay.ready) (by omega) (processCapture processor block).2
  refine ⟨(_, _), half, by rw [processCaptureFrameContent, inserted]; simp only [bind, Option.bind, built]; rfl, ?_⟩
  constructor
  case level => exact level
  case ready => exact ready
  case cut =>
    intro band channel
    rw [plane_snoc, List.append_assoc, moved, ← List.append_assoc, relay.cut]
  case built =>
    intro band channel
    rw [List.append_assoc, through, ← List.append_assoc, relay.built, List.append_assoc, ← plane_snoc]
  case made => exact List.rel_append relay.made (.cons (produced processor block) .nil)

variable [NeZero bands] [NeZero channels]

theorem processRemainingCaptureFrameContent_spec {side : CaptureSide bands channels σ} {n : Nat}
    {taken put : Fin bands → Fin channels → List σ} (relay : side.Relay produces n taken put) (processor : ρ) :
    ∃ next, processRemainingCaptureFrameContent processCapture side processor = some next ∧
      next.1.Relay produces (if n = blockSize then 0 else n) taken put := by
  rw [processRemainingCaptureFrameContent, FrameBlocker.available_iff relay.level]
  by_cases full : n = blockSize
  · subst full
    obtain ⟨block, extracted, moved⟩ := FrameBlocker.extract_spec relay.level
    obtain ⟨framer, inserted, ready, through⟩ :=
      BlockFramer.insertBlock_spec relay.ready (processCapture processor block).2
    refine ⟨(_, _), by rw [extracted]; simp only [decide_true, if_true, bind, Option.bind, inserted]; rfl, ?_⟩
    rw [if_pos rfl]
    constructor
    case level => exact FrameBlocker.level_new
    case ready => exact ready
    case cut =>
      intro band channel
      rw [plane_snoc, moved, relay.cut]
      exact List.append_nil _
    case built =>
      intro band channel
      rw [through, ← List.append_assoc, relay.built, List.append_assoc, ← plane_snoc]
    case made => exact List.rel_append relay.made (.cons (produced processor block) .nil)
  · rw [if_neg full]
    exact ⟨(side, processor), by simp [full], relay⟩

theorem processCaptureFrame_spec {side : CaptureSide bands channels σ} {n : Nat}
    {taken put : Fin bands → Fin channels → List σ} (relay : side.Relay produces n taken put) (between : Between n)
    (processor : ρ) (capture : Sheet bands channels frameSize σ) :
    ∃ next, processCaptureFrame processCapture side processor capture = some next ∧
      next.1.Relay produces (32 - n)
        (fun band channel => taken band channel ++ capture.samples band channel)
        (fun band channel => put band channel ++ next.2.2.samples band channel) := by
  have small : n + 16 ≤ blockSize - 16 := by
    simp only [blockSize]
    rcases between with rfl | rfl <;> decide
  obtain ⟨one, first, stepOne, relayOne⟩ :=
    processCaptureFrameContent_spec processCapture produced relay (by omega) 0 processor capture
  obtain ⟨two, second, stepTwo, relayTwo⟩ :=
    processCaptureFrameContent_spec processCapture produced relayOne small 1 one.2 (capture.setHalf 0 first)
  obtain ⟨three, stepThree, relayThree⟩ := processRemainingCaptureFrameContent_spec processCapture produced relayTwo two.2
  refine ⟨(three.1, three.2, (capture.setHalf 0 first).setHalf 1 second), ?_, ?_⟩
  · simp only [processCaptureFrame, stepOne, stepTwo, stepThree, bind, Option.bind]
  · have level : (if n + 16 + 16 = blockSize then 0 else n + 16 + 16) = 32 - n := by
      rcases between with rfl | rfl <;> rfl
    rw [level] at relayThree
    simpa only [half_setHalf, List.append_assoc, half_append, setHalf_both] using relayThree

end Capture

end Fswtch.Apm.Canceller
