import Fswtch.Apm.Framing
import Fswtch.Lib.DelayLine

/-! The fixed delay of the capture signal: a ring for each channel and band, and one index
for them all. -/

namespace Fswtch.Apm.CaptureDelay
open Fswtch.Apm.Framing Fswtch.Lib.DelayLine

variable {bands channels size : Nat} {σ : Type}

structure BlockDelayBuffer (bands channels : Nat) (σ : Type) where
  delay : Nat
  buf : Fin channels → Fin bands → List σ
  lastInsert : Nat := 0

def BlockDelayBuffer.new [Zero σ] (delaySamples : Nat) : BlockDelayBuffer bands channels σ where
  delay := delaySamples
  buf _ _ := List.replicate delaySamples 0

def BlockDelayBuffer.exchanged (b : BlockDelayBuffer bands channels σ) (frame : Sheet bands channels size σ)
    (band : Fin bands) (channel : Fin channels) : List σ × List σ × Nat :=
  exchangeAll (b.buf channel band) b.lastInsert (frame.samples band channel)

def lastOf (n : Nat) [NeZero n] : Fin n := ⟨n - 1, Nat.sub_one_lt (NeZero.ne n)⟩

/-- Every ring starts from the index of the last frame. The index kept is where the last of
them ended. -/
def BlockDelayBuffer.delaySignal [NeZero bands] [NeZero channels] (b : BlockDelayBuffer bands channels σ)
    (frame : Sheet bands channels size σ) : BlockDelayBuffer bands channels σ × Sheet bands channels size σ :=
  if b.delay = 0 then (b, frame)
  else
    ({ b with
       buf := fun channel band => (b.exchanged frame band channel).2.1
       lastInsert := (b.exchanged frame (lastOf bands) (lastOf channels)).2.2 },
     { samples := fun band channel => (b.exchanged frame band channel).1
       even := fun band channel => (exchangeAll_length _ _ _).trans (frame.even band channel) })

/-- Every ring has as many places as the delay, and the index is one of them. -/
structure BlockDelayBuffer.Sound (b : BlockDelayBuffer bands channels σ) : Prop where
  wide : ∀ channel band, (b.buf channel band).length = b.delay
  inside : b.delay ≠ 0 → b.lastInsert < b.delay

theorem BlockDelayBuffer.sound_new [Zero σ] (delaySamples : Nat) :
    (BlockDelayBuffer.new delaySamples : BlockDelayBuffer bands channels σ).Sound where
  wide _ _ := List.length_replicate
  inside := Nat.pos_of_ne_zero

/-- What a ring holds, in the order in which it will come out. -/
def BlockDelayBuffer.held (b : BlockDelayBuffer bands channels σ) (band : Fin bands) (channel : Fin channels) :
    List σ := line (b.buf channel band) b.lastInsert

theorem BlockDelayBuffer.held_new [Zero σ] (delaySamples : Nat) (band : Fin bands) (channel : Fin channels) :
    (BlockDelayBuffer.new delaySamples).held band channel = List.replicate delaySamples (0 : σ) := line_zero _

section Runs

variable [NeZero bands] [NeZero channels]

def BlockDelayBuffer.delayAll (b : BlockDelayBuffer bands channels σ) :
    List (Sheet bands channels size σ) → BlockDelayBuffer bands channels σ × List (Sheet bands channels size σ)
  | [] => (b, [])
  | frame :: rest =>
    let one := b.delaySignal frame
    let later := one.1.delayAll rest
    (later.1, one.2 :: later.2)

theorem BlockDelayBuffer.delaySignal_spec {b : BlockDelayBuffer bands channels σ} (sound : b.Sound)
    (frame : Sheet bands channels size σ) :
    (b.delaySignal frame).1.Sound ∧ (b.delaySignal frame).1.delay = b.delay ∧
      ∀ band channel, (b.delaySignal frame).2.samples band channel ++ (b.delaySignal frame).1.held band channel =
        b.held band channel ++ frame.samples band channel := by
  by_cases none : b.delay = 0
  · have empty : ∀ channel band, b.buf channel band = [] := fun channel band =>
      List.eq_nil_of_length_eq_zero ((sound.wide channel band).trans none)
    rw [delaySignal, if_pos none]
    exact ⟨sound, rfl, fun band channel => by simp [held, line, empty]⟩
  · have inside : ∀ channel band, b.lastInsert < (b.buf channel band).length := fun channel band => by
      rw [sound.wide]
      exact sound.inside none
    have index : ∀ channel band, (b.exchanged frame (lastOf bands) (lastOf channels)).2.2 =
        (b.exchanged frame band channel).2.2 := fun channel band =>
      exchangeAll_index (by rw [sound.wide, sound.wide]) _ (by rw [frame.even, frame.even])
    have kept := fun channel band => exchangeAll_sound (inside channel band) (frame.samples band channel)
    rw [delaySignal, if_neg none]
    refine ⟨⟨fun channel band => ?_, fun _ => ?_⟩, rfl, fun band channel => ?_⟩
    · exact (kept channel band).1.trans (sound.wide channel band)
    · have last := kept (lastOf channels) (lastOf bands)
      exact Nat.lt_of_lt_of_eq last.2 (last.1.trans (sound.wide _ _))
    · simp only [held, index channel band]
      exact exchangeAll_line (inside channel band) (frame.samples band channel)

theorem BlockDelayBuffer.delayAll_length (b : BlockDelayBuffer bands channels σ)
    (frames : List (Sheet bands channels size σ)) : (b.delayAll frames).2.length = frames.length := by
  induction frames generalizing b with
  | nil => rfl
  | cons frame rest ih => rw [delayAll, List.length_cons, ih, List.length_cons]

theorem BlockDelayBuffer.delayAll_spec {b : BlockDelayBuffer bands channels σ} (sound : b.Sound)
    (frames : List (Sheet bands channels size σ)) (band : Fin bands) (channel : Fin channels) :
    plane (b.delayAll frames).2 band channel ++ (b.delayAll frames).1.held band channel =
      b.held band channel ++ plane frames band channel := by
  induction frames generalizing b with
  | nil => simp [delayAll, plane]
  | cons frame rest ih =>
    obtain ⟨later, -, moved⟩ := delaySignal_spec sound frame
    have front := moved band channel
    have back := ih later
    simp only [plane, delayAll, List.flatMap_cons, List.append_assoc] at back ⊢
    rw [back, ← List.append_assoc, front, List.append_assoc]

/-- Each channel of each band comes out as it went in, later by the delay, and silent until then. -/
theorem capture_delayed [Zero σ] (delaySamples : Nat) (frames : List (Sheet bands channels size σ))
    (band : Fin bands) (channel : Fin channels) :
    plane (BlockDelayBuffer.delayAll (.new delaySamples) frames).2 band channel =
      (List.replicate delaySamples 0 ++ plane frames band channel).take (frames.length * size) := by
  have spec := BlockDelayBuffer.delayAll_spec (BlockDelayBuffer.sound_new delaySamples) frames band channel
  have length := plane_length (BlockDelayBuffer.delayAll (.new delaySamples) frames).2 band channel
  rw [BlockDelayBuffer.delayAll_length] at length
  rw [BlockDelayBuffer.held_new] at spec
  rw [← spec, ← length, List.take_left]

theorem capture_delayed_three :
    plane (BlockDelayBuffer.delayAll (.new 3)
        [(⟨fun _ _ => [1, 2], fun _ _ => rfl⟩ : Sheet 1 1 2 Nat), ⟨fun _ _ => [3, 4], fun _ _ => rfl⟩]).2 0 0 =
      [0, 0, 0, 1] := capture_delayed 3 _ 0 0

end Runs

end Fswtch.Apm.CaptureDelay
