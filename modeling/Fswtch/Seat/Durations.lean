import Fswtch.Audio.Earshot
import Fswtch.Audio.Transitions

/-! Milliseconds and samples. Settings in milliseconds become counts of samples, and a segment of
samples gets its duration, each by a product in 32 bits before the division. -/

namespace Fswtch.Seat.Durations
open Fswtch.Audio.Earshot (EarshotInner earshotRate)
open Fswtch.Audio.Transitions (SpeechSegment)

def pipelineSampleRate : UInt32 := 8000

def vadSampleRate : UInt32 := 16000

structure VadConfig where
  silenceTimeoutMs : UInt32 := 500
  bargeInConfirmMs : UInt32 := 80

structure AudioConfig where
  fadeOutMs : UInt32 := 80

structure Config where
  vad : VadConfig := {}
  audio : AudioConfig := {}

def withoutPlus : List Char → List Char
  | '+' :: rest => rest
  | text => text

def parseU32 (value : String) : Option UInt32 :=
  let digits := withoutPlus value.toList
  if digits ≠ [] ∧ digits.all Char.isDigit then
    let number := Nat.ofDigitChars 10 digits 0
    if number < 2 ^ 32 then some (UInt32.ofNat number) else none
  else none

def applyParam (cfg : Config) (name value : String) : Config :=
  if name = "vad_silence_timeout_ms" then
    { cfg with vad := { cfg.vad with silenceTimeoutMs := (parseU32 value).getD 500 } }
  else if name = "vad_barge_in_confirm_ms" then
    { cfg with vad := { cfg.vad with bargeInConfirmMs := (parseU32 value).getD 80 } }
  else if name = "audio_fade_out_ms" then
    { cfg with audio := { cfg.audio with fadeOutMs := (parseU32 value).getD 80 } }
  else cfg

def loadConfig (params : List (String × String)) : Config :=
  params.foldl (fun cfg param => applyParam cfg param.1 param.2) {}

structure CallCounts where
  silenceSamples : UInt32
  bargeInConfirmSamples : UInt32
  fadeOutTotal : UInt32

def CallCounts.new (config : Option Config) : CallCounts :=
  let vadConfig := (config.map Config.vad).getD {}
  let audioConfig := (config.map Config.audio).getD {}
  { silenceSamples := vadConfig.silenceTimeoutMs * vadSampleRate / 1000
    bargeInConfirmSamples := vadConfig.bargeInConfirmMs * vadSampleRate / 1000
    fadeOutTotal := audioConfig.fadeOutMs * pipelineSampleRate / 1000 }

variable {F ν : Type}

def setParam (thousandths : Int32 → F) (e : EarshotInner F ν) (key : String) (val : Int32) : EarshotInner F ν :=
  if key = "voice_ms" then e.setVoiceMs (max val 0).toUInt32
  else if key = "silence_ms" then e.setSilenceMs (max val 0).toUInt32
  else if key = "threshold" then e.setThreshold (thousandths val)
  else e

/-- `none` stands for a difference or a quotient without a result. -/
def durationMs (segment : SpeechSegment) (sampleRate : UInt32) : Option UInt32 :=
  if segment.endSample < segment.startSample ∨ sampleRate = 0 then none
  else some (UInt32.ofNat (segment.endSample - segment.startSample) * 1000 / sampleRate)

theorem toNat_max (val : Int32) : (max val 0).toUInt32.toNat = (max val.toInt 0).toNat := by
  have zero : (0 : Int32).toInt = 0 := rfl
  rw [show max val 0 = if val ≤ 0 then 0 else val from rfl]
  split
  next negative =>
    rw [Int32.le_iff_toInt_le, zero] at negative
    rw [Int.max_eq_right negative]
    rfl
  next positive =>
    rw [Int32.le_iff_toInt_le, zero] at positive
    have nonneg : 0 ≤ val := Int32.le_iff_toInt_le.mpr (by omega)
    rw [Int32.toNat_toUInt32_of_le nonneg, Int.max_eq_left (by omega)]
    rfl

/-- The result is the floor of the quotient, and nothing on the way to it is cut to 32 bits. -/
structure Exact (value factor divisor : Nat) (result : UInt32) : Prop where
  whole : value * factor < 2 ^ 32
  floor : result.toNat = value * factor / divisor

theorem exact_iff {value factor divisor : Nat} {result : UInt32}
    (computed : result.toNat = value * factor % 2 ^ 32 / divisor) :
    Exact value factor divisor result ↔ value * factor < 2 ^ 32 := by
  constructor
  · exact Exact.whole
  · intro whole
    rw [Nat.mod_eq_of_lt whole] at computed
    exact ⟨whole, computed⟩

theorem toNat_mul_div (value factor divisor : UInt32) :
    (value * factor / divisor).toNat = value.toNat * factor.toNat % 2 ^ 32 / divisor.toNat := by
  rw [UInt32.toNat_div, UInt32.toNat_mul]

theorem samples_exact_iff (ms rate : UInt32) {most : Nat} (fits : most * rate.toNat < 2 ^ 32)
    (beyond : 2 ^ 32 ≤ (most + 1) * rate.toNat) :
    Exact ms.toNat rate.toNat 1000 (ms * rate / 1000) ↔ ms.toNat ≤ most := by
  have computed : (ms * rate / 1000).toNat = ms.toNat * rate.toNat % 2 ^ 32 / 1000 := toNat_mul_div ms rate 1000
  rw [exact_iff computed]
  constructor
  · intro whole
    by_contra more
    have least := Nat.mul_le_mul_right rate.toNat (Nat.lt_of_not_le more)
    rw [Nat.succ_eq_add_one] at least
    omega
  · intro few
    exact Nat.lt_of_le_of_lt (Nat.mul_le_mul_right rate.toNat few) fits

theorem vad_exact_iff (ms : UInt32) : Exact ms.toNat 16000 1000 (ms * 16000 / 1000) ↔ ms.toNat ≤ 268435 :=
  samples_exact_iff ms 16000 (by decide) (by decide)

theorem pipeline_exact_iff (ms : UInt32) : Exact ms.toNat 8000 1000 (ms * 8000 / 1000) ↔ ms.toNat ≤ 536870 :=
  samples_exact_iff ms 8000 (by decide) (by decide)

theorem val_exact_iff (val : Int32) :
    Exact (max val.toInt 0).toNat 16000 1000 ((max val 0).toUInt32 * 16000 / 1000) ↔ val.toInt ≤ 268435 := by
  rw [← toNat_max, vad_exact_iff, toNat_max]
  omega

theorem durationMs_exact_iff (segment : SpeechSegment) {sampleRate : UInt32}
    (ordered : segment.startSample ≤ segment.endSample) (rated : 0 < sampleRate) :
    (∃ ms, durationMs segment sampleRate = some ms ∧
        Exact (segment.endSample - segment.startSample) 1000 sampleRate.toNat ms) ↔
      segment.endSample - segment.startSample ≤ 4294967 := by
  have nonzero : sampleRate ≠ 0 := by
    rintro rfl
    cases rated
  have returned : durationMs segment sampleRate =
      some (UInt32.ofNat (segment.endSample - segment.startSample) * 1000 / sampleRate) :=
    if_neg (not_or.mpr ⟨Nat.not_lt.mpr ordered, nonzero⟩)
  have thousand : (1000 : UInt32).toNat = 1000 := rfl
  have computed : (UInt32.ofNat (segment.endSample - segment.startSample) * 1000 / sampleRate).toNat =
      (segment.endSample - segment.startSample) * 1000 % 2 ^ 32 / sampleRate.toNat := by
    rw [toNat_mul_div, UInt32.toNat_ofNat', Nat.mod_mul_mod, thousand]
  simp only [returned, Option.some.injEq, exists_eq_left', exact_iff computed]
  omega

/-- The settings up to 268435 ms at 16 kHz and 536870 ms at 8 kHz, and the segments of up to 4294967
samples, are those whose conversion is exact. -/
theorem conversions_exact_iff (params : List (String × String)) (thousandths : Int32 → F)
    (e : EarshotInner F ν) (val : Int32) (segment : SpeechSegment) (sampleRate : UInt32)
    (ordered : segment.startSample ≤ segment.endSample) (rated : 0 < sampleRate) :
    let cfg := loadConfig params
    let counts := CallCounts.new (some cfg)
    (Exact cfg.vad.silenceTimeoutMs.toNat 16000 1000 counts.silenceSamples ↔
        cfg.vad.silenceTimeoutMs.toNat ≤ 268435) ∧
      (Exact cfg.vad.bargeInConfirmMs.toNat 16000 1000 counts.bargeInConfirmSamples ↔
        cfg.vad.bargeInConfirmMs.toNat ≤ 268435) ∧
      (Exact cfg.audio.fadeOutMs.toNat 8000 1000 counts.fadeOutTotal ↔ cfg.audio.fadeOutMs.toNat ≤ 536870) ∧
      (Exact (max val.toInt 0).toNat 16000 1000 (setParam thousandths e "voice_ms" val).voiceSamples ↔
        val.toInt ≤ 268435) ∧
      (Exact (max val.toInt 0).toNat 16000 1000 (setParam thousandths e "silence_ms" val).silenceSamples ↔
        val.toInt ≤ 268435) ∧
      ((∃ ms, durationMs segment sampleRate = some ms ∧
          Exact (segment.endSample - segment.startSample) 1000 sampleRate.toNat ms) ↔
        segment.endSample - segment.startSample ≤ 4294967) :=
  ⟨vad_exact_iff _, vad_exact_iff _, pipeline_exact_iff _, val_exact_iff val, val_exact_iff val,
    durationMs_exact_iff segment ordered rated⟩

theorem second_exact : ∃ ms, durationMs ⟨0, 8000⟩ 8000 = some ms ∧ Exact 8000 1000 8000 ms :=
  (conversions_exact_iff [] (fun _ => ()) (EarshotInner.mk () [] false 0 0 .none () 0 0) 0 ⟨0, 8000⟩ 8000
    (by decide) (by decide)).2.2.2.2.2.mpr (by decide)

/-- 300000 ms at 16 kHz become 505032 samples in place of 4800000. -/
theorem fiveMinutes_not_exact :
    ¬Exact (loadConfig [("vad_silence_timeout_ms", "300000")]).vad.silenceTimeoutMs.toNat 16000 1000
      (CallCounts.new (some (loadConfig [("vad_silence_timeout_ms", "300000")]))).silenceSamples := by
  intro exact_
  have floor := exact_.floor
  revert floor
  decide +kernel

end Fswtch.Seat.Durations
