import Fswtch.Lib.Chunks
import Mathlib.Computability.Language
import Mathlib.Data.List.DropRight

/-! The earshot engine of the voice activity detection. Every block of 256 samples gets a score,
and a hysteresis over the scores says where speech starts and stops: two accumulators count the
voiced blocks before a start and the unvoiced ones before a stop. -/

namespace Fswtch.Audio.Earshot
open Fswtch.Lib.Chunks Computability

abbrev Pcm := List Int16

def earshotRate : UInt32 := 16000

def earshotFrame : Nat := 256

inductive VadState where
  | none
  | startTalking
  | talking
  | stopTalking
  | error
  deriving DecidableEq

/-- `earshot::Detector`, which keeps a state of its own between the blocks. -/
structure Detector (F ν : Type) where
  predictI16 : ν → Pcm → F × ν
  reset : ν → ν

structure EarshotInner (F ν : Type) where
  detector : ν
  stage : Pcm := []
  inSpeech : Bool := false
  onsetAccum : UInt32 := 0
  silenceAccum : UInt32 := 0
  state : VadState := .none
  threshold : F
  voiceSamples : UInt32
  silenceSamples : UInt32

variable {F ν : Type}

namespace EarshotInner

def new [OfScientific F] (detector : ν) : EarshotInner F ν :=
  { detector
    threshold := 0.5
    voiceSamples := 200 * earshotRate / 1000
    silenceSamples := 500 * earshotRate / 1000 }

def setThreshold (e : EarshotInner F ν) (threshold : F) : EarshotInner F ν := { e with threshold }

def setVoiceMs (e : EarshotInner F ν) (voiceMs : UInt32) : EarshotInner F ν :=
  { e with voiceSamples := voiceMs * earshotRate / 1000 }

def setSilenceMs (e : EarshotInner F ν) (silenceMs : UInt32) : EarshotInner F ν :=
  { e with silenceSamples := silenceMs * earshotRate / 1000 }

def reset (d : Detector F ν) (e : EarshotInner F ν) : EarshotInner F ν :=
  { e with
    detector := d.reset e.detector, stage := [], inSpeech := false, onsetAccum := 0
    silenceAccum := 0, state := .none }

section Scoring

variable [LE F] [DecidableLE F]

def voice (e : EarshotInner F ν) (score : F) : Bool := decide (e.threshold ≤ score)

def step (e : EarshotInner F ν) (score : F) : EarshotInner F ν × VadState :=
  if !e.inSpeech then
    if e.voice score then
      let onset := e.onsetAccum + UInt32.ofNat earshotFrame
      if e.voiceSamples ≤ onset then
        ({ e with inSpeech := true, onsetAccum := 0, silenceAccum := 0 }, .startTalking)
      else ({ e with onsetAccum := onset }, .none)
    else ({ e with onsetAccum := 0 }, .none)
  else if e.voice score then ({ e with silenceAccum := 0 }, .talking)
  else
    let silence := e.silenceAccum + UInt32.ofNat earshotFrame
    if e.silenceSamples ≤ silence then
      ({ e with inSpeech := false, onsetAccum := 0, silenceAccum := 0 }, .stopTalking)
    else ({ e with silenceAccum := silence }, .talking)

def steps (e : EarshotInner F ν) : List F → EarshotInner F ν × List VadState
  | [] => (e, [])
  | score :: rest =>
    let first := e.step score
    let later := first.1.steps rest
    (later.1, first.2 :: later.2)

def block (d : Detector F ν) (e : EarshotInner F ν) (pcm : Pcm) : EarshotInner F ν × VadState :=
  let scored := d.predictI16 e.detector pcm
  { e with detector := scored.2 }.step scored.1

def processStaged (d : Detector F ν) (e : EarshotInner F ν) (last : VadState) :
    EarshotInner F ν × VadState :=
  if earshotFrame ≤ e.stage.length then
    let stepped := e.block d (e.stage.take earshotFrame)
    processStaged d { stepped.1 with stage := e.stage.drop earshotFrame } stepped.2
  else ({ e with state := last }, last)
termination_by e.stage.length
decreasing_by
  simp only [List.length_drop]
  unfold earshotFrame at *
  omega

def process16k (d : Detector F ν) (e : EarshotInner F ν) (mono : Pcm) : EarshotInner F ν × VadState :=
  processStaged d { e with stage := e.stage ++ mono } e.state

end Scoring

end EarshotInner

/-- Whether speech is open after a state, or `none` where the state cannot come. -/
def advance : Bool → VadState → Option Bool
  | false, .none => some false
  | false, .startTalking => some true
  | true, .talking => some true
  | true, .stopTalking => some false
  | _, _ => none

def words : Language VadState :=
  (({[.none]} : Language VadState)∗ * ({[.startTalking]} : Language VadState) *
    ({[.talking]} : Language VadState)∗ * ({[.stopTalking]} : Language VadState))∗

def Speaking (states : List VadState) : Prop :=
  ∃ before after, states = before ++ .startTalking :: after ∧ .stopTalking ∉ after

theorem replicate_mem_kstar (state : VadState) (n : Nat) :
    List.replicate n state ∈ ({[state]} : Language VadState)∗ := by
  refine Language.mem_kstar.mpr ⟨List.replicate n [state], ?_, ?_⟩
  · simp
  · exact fun y member => (List.eq_of_mem_replicate member)

theorem words_append {word round : List VadState} (complete : word ∈ words)
    (more : round ∈ ({[.none]} : Language VadState)∗ * ({[.startTalking]} : Language VadState) *
      ({[.talking]} : Language VadState)∗ * ({[.stopTalking]} : Language VadState)) :
    word ++ round ∈ words := by
  obtain ⟨rounds, rfl, each⟩ := Language.mem_kstar.mp complete
  refine Language.mem_kstar.mpr ⟨rounds ++ [round], by simp, fun y member => ?_⟩
  rcases List.mem_append.mp member with old | new
  · exact each y old
  · exact List.mem_singleton.mp new ▸ more

theorem round_mem (idle talk : Nat) :
    List.replicate idle .none ++ [.startTalking] ++ List.replicate talk .talking ++ [.stopTalking] ∈
      ({[.none]} : Language VadState)∗ * ({[.startTalking]} : Language VadState) *
        ({[.talking]} : Language VadState)∗ * ({[.stopTalking]} : Language VadState) :=
  Language.append_mem_mul (Language.append_mem_mul
    (Language.append_mem_mul (replicate_mem_kstar .none idle) rfl) (replicate_mem_kstar .talking talk)) rfl

/-- The beginning of a round, before its stop. -/
inductive Begun : Bool → List VadState → Prop
  | idle (n : Nat) : Begun false (List.replicate n .none)
  | speech (n m : Nat) : Begun true (List.replicate n .none ++ [.startTalking] ++ List.replicate m .talking)

theorem foldlM_concat {states : List VadState} {state : VadState} {first last : Bool} :
    (states ++ [state]).foldlM advance first = some last ↔
      ∃ before, states.foldlM advance first = some before ∧ advance before state = some last := by
  rw [List.foldlM_append, Option.bind_eq_bind, Option.bind_eq_some_iff]
  simp

theorem advance_rounds {states : List VadState} {speech : Bool}
    (advances : states.foldlM advance false = some speech) :
    ∃ word begun, word ∈ words ∧ Begun speech begun ∧ states = word ++ begun := by
  induction states using List.reverseRecOn generalizing speech with
  | nil =>
    cases advances
    exact ⟨[], [], Language.nil_mem_kstar _, .idle 0, rfl⟩
  | append_singleton states state ih =>
    obtain ⟨before, front, last⟩ := foldlM_concat.mp advances
    obtain ⟨word, begun, complete, opening, rfl⟩ := ih front
    rw [List.append_assoc]
    cases opening with
    | idle n =>
      cases state with
      | none =>
        cases last
        exact ⟨word, _, complete, .idle (n + 1), by rw [List.replicate_succ']⟩
      | startTalking =>
        cases last
        exact ⟨word, _, complete, .speech n 0, by simp⟩
      | talking | stopTalking | error => cases last
    | speech n m =>
      cases state with
      | talking =>
        cases last
        exact ⟨word, _, complete, .speech n (m + 1), by simp [List.replicate_succ']⟩
      | stopTalking =>
        cases last
        exact ⟨_, [], words_append complete (round_mem n m), .idle 0, by simp⟩
      | none | startTalking | error => cases last

theorem advance_begins {states : List VadState} {speech : Bool}
    (advances : states.foldlM advance false = some speech) : ∃ word ∈ words, states <+: word := by
  obtain ⟨word, begun, complete, opening, rfl⟩ := advance_rounds advances
  cases opening with
  | idle n =>
    exact ⟨_, words_append complete (round_mem n 0), [.startTalking, .stopTalking], by simp⟩
  | speech n m => exact ⟨_, words_append complete (round_mem n m), [.stopTalking], by simp⟩

theorem speaking_concat (states : List VadState) (state : VadState) :
    Speaking (states ++ [state]) ↔ state = .startTalking ∨ (Speaking states ∧ state ≠ .stopTalking) := by
  constructor
  · rintro ⟨before, after, split, still⟩
    rcases List.eq_nil_or_concat after with rfl | ⟨rest, last, rfl⟩
    · exact .inl (List.singleton_inj.mp (List.append_inj' split rfl).2)
    · rw [List.concat_eq_append, ← List.cons_append, ← List.append_assoc] at split
      obtain ⟨front, same⟩ := List.append_inj' split rfl
      cases List.singleton_inj.mp same
      simp only [List.concat_eq_append, List.mem_append, List.mem_singleton, not_or] at still
      exact .inr ⟨⟨before, rest, front, still.1⟩, Ne.symm still.2⟩
  · rintro (rfl | ⟨⟨before, after, rfl, still⟩, other⟩)
    · exact ⟨states, [], rfl, List.not_mem_nil⟩
    · refine ⟨before, after ++ [state], by simp, ?_⟩
      simp only [List.mem_append, List.mem_singleton, not_or]
      exact ⟨still, Ne.symm other⟩

/-- Whether speech is open can be read off the states. -/
theorem advance_speaking {states : List VadState} {speech : Bool}
    (advances : states.foldlM advance false = some speech) : speech = true ↔ Speaking states := by
  induction states using List.reverseRecOn generalizing speech with
  | nil =>
    cases advances
    exact ⟨nofun, fun ⟨before, after, split, _⟩ => absurd (congrArg List.length split) (by simp)⟩
  | append_singleton states state ih =>
    obtain ⟨before, front, last⟩ := foldlM_concat.mp advances
    rw [speaking_concat, ← ih front]
    cases before <;> cases state <;> cases last <;> simp

def total (kind : F → Bool) (scores : List F) : Nat := earshotFrame * (scores.rtakeWhile kind).length

/-- The run of blocks of a kind that ends here is the first part of it to total so many samples. -/
def FirstTotals (kind : F → Bool) (samples : UInt32) (before : List F) (score : F) : Prop :=
  kind score = true ∧ samples.toNat ≤ total kind (before ++ [score]) ∧
    (total kind before ≠ 0 → total kind before < samples.toNat)

theorem total_pos {kind : F → Bool} {score : F} (same : kind score = true) (scores : List F) :
    total kind (scores ++ [score]) = total kind scores + earshotFrame := by
  rw [total, List.rtakeWhile_concat_pos _ _ _ same, List.length_append]
  rfl

theorem total_neg {kind : F → Bool} {score : F} (other : kind score = false) (scores : List F) :
    total kind (scores ++ [score]) = 0 := by
  rw [total, List.rtakeWhile_concat_neg _ _ _ (by simp [other])]
  rfl

section Scoring

variable [LE F] [DecidableLE F]

namespace EarshotInner

inductive Stepped (e : EarshotInner F ν) (score : F) : EarshotInner F ν × VadState → Prop
  | starts (silent : e.inSpeech = false) (voiced : e.voice score = true)
      (reached : e.voiceSamples ≤ e.onsetAccum + UInt32.ofNat earshotFrame) :
      Stepped e score ({ e with inSpeech := true, onsetAccum := 0, silenceAccum := 0 }, .startTalking)
  | gathers (silent : e.inSpeech = false) (voiced : e.voice score = true)
      (below : ¬e.voiceSamples ≤ e.onsetAccum + UInt32.ofNat earshotFrame) :
      Stepped e score ({ e with onsetAccum := e.onsetAccum + UInt32.ofNat earshotFrame }, .none)
  | rests (silent : e.inSpeech = false) (unvoiced : e.voice score = false) :
      Stepped e score ({ e with onsetAccum := 0 }, .none)
  | talks (speech : e.inSpeech = true) (voiced : e.voice score = true) :
      Stepped e score ({ e with silenceAccum := 0 }, .talking)
  | stops (speech : e.inSpeech = true) (unvoiced : e.voice score = false)
      (reached : e.silenceSamples ≤ e.silenceAccum + UInt32.ofNat earshotFrame) :
      Stepped e score ({ e with inSpeech := false, onsetAccum := 0, silenceAccum := 0 }, .stopTalking)
  | pauses (speech : e.inSpeech = true) (unvoiced : e.voice score = false)
      (below : ¬e.silenceSamples ≤ e.silenceAccum + UInt32.ofNat earshotFrame) :
      Stepped e score ({ e with silenceAccum := e.silenceAccum + UInt32.ofNat earshotFrame }, .talking)

theorem step_cases (e : EarshotInner F ν) (score : F) : Stepped e score (e.step score) := by
  unfold step
  cases speech : e.inSpeech with
  | false =>
    cases voiced : e.voice score with
    | true =>
      by_cases reached : e.voiceSamples ≤ e.onsetAccum + UInt32.ofNat earshotFrame
      · simpa [reached, speech] using Stepped.starts speech voiced reached
      · simpa [reached, speech] using Stepped.gathers speech voiced reached
    | false => simpa [speech] using Stepped.rests speech voiced
  | true =>
    cases voiced : e.voice score with
    | true => simpa [speech] using Stepped.talks speech voiced
    | false =>
      by_cases reached : e.silenceSamples ≤ e.silenceAccum + UInt32.ofNat earshotFrame
      · simpa [reached, speech] using Stepped.stops speech voiced reached
      · simpa [reached, speech] using Stepped.pauses speech voiced reached

theorem Stepped.advance_eq {e : EarshotInner F ν} {score : F} {next : EarshotInner F ν × VadState}
    (moves : Stepped e score next) : advance e.inSpeech next.2 = some next.1.inSpeech := by
  cases moves with
  | starts speech | gathers speech | rests speech | talks speech | stops speech | pauses speech =>
    simp [speech, advance]

theorem step_advance (e : EarshotInner F ν) (score : F) :
    advance e.inSpeech (e.step score).2 = some (e.step score).1.inSpeech := (step_cases e score).advance_eq

theorem step_settings (e : EarshotInner F ν) (score : F) :
    (e.step score).1.voice = e.voice ∧ (e.step score).1.voiceSamples = e.voiceSamples ∧
      (e.step score).1.silenceSamples = e.silenceSamples := by
  have moves := step_cases e score
  generalize e.step score = next at moves
  cases moves <;> exact ⟨rfl, rfl, rfl⟩

theorem steps_advance (e : EarshotInner F ν) (scores : List F) :
    (e.steps scores).2.foldlM advance e.inSpeech = some (e.steps scores).1.inSpeech := by
  induction scores generalizing e with
  | nil => rfl
  | cons score rest ih =>
    rw [steps, List.foldlM_cons, step_advance]
    exact ih _

theorem steps_append (e : EarshotInner F ν) (front back : List F) :
    e.steps (front ++ back) =
      (((e.steps front).1.steps back).1, (e.steps front).2 ++ ((e.steps front).1.steps back).2) := by
  induction front generalizing e with
  | nil => rfl
  | cons score rest ih =>
    rw [List.cons_append, steps, ih]
    rfl

theorem steps_take (e : EarshotInner F ν) (scores : List F) (k : Nat) :
    (e.steps scores).2.take k = (e.steps (scores.take k)).2 := by
  induction scores generalizing e k with
  | nil => simp [steps]
  | cons score rest ih =>
    cases k with
    | zero => rfl
    | succ k => simp [steps, ih]

theorem steps_getElem? (e : EarshotInner F ν) {scores : List F} {k : Nat} {score : F}
    (at_ : scores[k]? = some score) :
    (e.steps scores).2[k]? = some ((e.steps (scores.take k)).1.step score).2 := by
  induction scores generalizing e k with
  | nil => cases at_
  | cons first rest ih =>
    cases k with
    | zero =>
      cases at_
      rfl
    | succ k => exact ih (e.step first).1 at_

def unvoiced (e : EarshotInner F ν) (score : F) : Bool := !e.voice score

/-- Outside of speech the one accumulator counts the voiced blocks at the end, in speech the
other counts the unvoiced ones, and neither has reached its setting, which leaves room for a
block. -/
structure Counted (e : EarshotInner F ν) (scores : List F) : Prop where
  voiceRoom : e.voiceSamples.toNat + earshotFrame < 2 ^ 32
  silenceRoom : e.silenceSamples.toNat + earshotFrame < 2 ^ 32
  onset : e.inSpeech = false → e.onsetAccum.toNat = total e.voice scores ∧
    (total e.voice scores ≠ 0 → total e.voice scores < e.voiceSamples.toNat)
  silence : e.inSpeech = true → e.silenceAccum.toNat = total e.unvoiced scores ∧
    (total e.unvoiced scores ≠ 0 → total e.unvoiced scores < e.silenceSamples.toNat)

theorem toNat_accum {accum samples : UInt32} {before : Nat} (room : samples.toNat + earshotFrame < 2 ^ 32)
    (counts : accum.toNat = before) (below : before ≠ 0 → before < samples.toNat) :
    (accum + UInt32.ofNat earshotFrame).toNat = before + earshotFrame := by
  have frame : (UInt32.ofNat earshotFrame).toNat = earshotFrame := rfl
  have small : before + earshotFrame < 2 ^ 32 := by
    by_cases none : before = 0
    · omega
    · have bound := below none
      omega
  rw [UInt32.toNat_add, counts, frame, Nat.mod_eq_of_lt small]

theorem Stepped.counted {e : EarshotInner F ν} {score : F} {next : EarshotInner F ν × VadState}
    {scores : List F} (moves : Stepped e score next) (counted : Counted e scores) :
    Counted next.1 (scores ++ [score]) := by
  obtain ⟨voiceRoom, silenceRoom, onset, silence⟩ := counted
  cases moves with
  | starts silent voiced reached =>
    have none : total e.unvoiced (scores ++ [score]) = 0 := total_neg (by simp [unvoiced, voiced]) scores
    exact ⟨voiceRoom, silenceRoom, nofun, fun _ => ⟨none.symm, fun some => absurd none some⟩⟩
  | gathers silent voiced below =>
    obtain ⟨counts, bounded⟩ := onset silent
    have grown := toNat_accum voiceRoom counts bounded
    rw [← total_pos voiced scores] at grown
    refine ⟨voiceRoom, silenceRoom, fun _ => ⟨grown, fun _ => ?_⟩, fun speech => ?_⟩
    · rw [UInt32.le_iff_toNat_le, grown] at below
      exact Nat.lt_of_not_le below
    · cases silent.symm.trans speech
  | rests silent unvoiced =>
    have none : total e.voice (scores ++ [score]) = 0 := total_neg unvoiced scores
    refine ⟨voiceRoom, silenceRoom, fun _ => ⟨none.symm, fun some => absurd none some⟩, fun speech => ?_⟩
    cases silent.symm.trans speech
  | talks speech voiced =>
    have none : total e.unvoiced (scores ++ [score]) = 0 := total_neg (by simp [unvoiced, voiced]) scores
    refine ⟨voiceRoom, silenceRoom, fun silent => ?_, fun _ => ⟨none.symm, fun some => absurd none some⟩⟩
    cases silent.symm.trans speech
  | stops speech unvoiced reached =>
    have none : total e.voice (scores ++ [score]) = 0 := total_neg unvoiced scores
    exact ⟨voiceRoom, silenceRoom, fun _ => ⟨none.symm, fun some => absurd none some⟩, nofun⟩
  | pauses speech quiet below =>
    obtain ⟨counts, bounded⟩ := silence speech
    have grown := toNat_accum silenceRoom counts bounded
    have same : e.unvoiced score = true := by simp [unvoiced, quiet]
    rw [← total_pos same scores] at grown
    refine ⟨voiceRoom, silenceRoom, fun silent => ?_, fun _ => ⟨grown, fun _ => ?_⟩⟩
    · cases silent.symm.trans speech
    · rw [UInt32.le_iff_toNat_le, grown] at below
      exact Nat.lt_of_not_le below

theorem Stepped.emits {e : EarshotInner F ν} {score : F} {next : EarshotInner F ν × VadState}
    {scores : List F} (moves : Stepped e score next) (counted : Counted e scores) :
    (next.2 = .startTalking ↔ e.inSpeech = false ∧ FirstTotals e.voice e.voiceSamples scores score) ∧
      (next.2 = .stopTalking ↔
        e.inSpeech = true ∧ FirstTotals e.unvoiced e.silenceSamples scores score) := by
  obtain ⟨voiceRoom, silenceRoom, onset, silence⟩ := counted
  cases moves with
  | starts silent voiced reached =>
    obtain ⟨counts, bounded⟩ := onset silent
    rw [UInt32.le_iff_toNat_le, toNat_accum voiceRoom counts bounded, ← total_pos voiced scores] at reached
    refine ⟨⟨fun _ => ⟨silent, voiced, reached, bounded⟩, fun _ => rfl⟩, ⟨nofun, fun stops => ?_⟩⟩
    cases silent.symm.trans stops.1
  | gathers silent voiced below =>
    obtain ⟨counts, bounded⟩ := onset silent
    rw [UInt32.le_iff_toNat_le, toNat_accum voiceRoom counts bounded, ← total_pos voiced scores] at below
    refine ⟨⟨nofun, fun starts => absurd starts.2.2.1 below⟩, ⟨nofun, fun stops => ?_⟩⟩
    cases silent.symm.trans stops.1
  | rests silent unvoiced =>
    refine ⟨⟨nofun, fun starts => ?_⟩, ⟨nofun, fun stops => ?_⟩⟩
    · cases unvoiced.symm.trans starts.2.1
    · cases silent.symm.trans stops.1
  | talks speech voiced =>
    refine ⟨⟨nofun, fun starts => ?_⟩, ⟨nofun, fun stops => ?_⟩⟩
    · cases starts.1.symm.trans speech
    · have quiet := stops.2.1
      rw [unvoiced, voiced] at quiet
      cases quiet
  | stops speech quiet reached =>
    obtain ⟨counts, bounded⟩ := silence speech
    have same : e.unvoiced score = true := by simp [unvoiced, quiet]
    rw [UInt32.le_iff_toNat_le, toNat_accum silenceRoom counts bounded, ← total_pos same scores] at reached
    refine ⟨⟨nofun, fun starts => ?_⟩, ⟨fun _ => ⟨speech, same, reached, bounded⟩, fun _ => rfl⟩⟩
    cases starts.1.symm.trans speech
  | pauses speech quiet below =>
    obtain ⟨counts, bounded⟩ := silence speech
    have same : e.unvoiced score = true := by simp [unvoiced, quiet]
    rw [UInt32.le_iff_toNat_le, toNat_accum silenceRoom counts bounded, ← total_pos same scores] at below
    refine ⟨⟨nofun, fun starts => ?_⟩, ⟨nofun, fun stops => absurd stops.2.2.1 below⟩⟩
    cases starts.1.symm.trans speech

theorem steps_counted {e : EarshotInner F ν} (counted : Counted e []) (scores : List F) :
    Counted (e.steps scores).1 scores := by
  induction scores using List.reverseRecOn with
  | nil => exact counted
  | append_singleton scores score ih =>
    rw [steps_append]
    exact (step_cases _ score).counted ih

theorem steps_settings (e : EarshotInner F ν) (scores : List F) :
    (e.steps scores).1.voice = e.voice ∧ (e.steps scores).1.voiceSamples = e.voiceSamples ∧
      (e.steps scores).1.silenceSamples = e.silenceSamples := by
  induction scores using List.reverseRecOn with
  | nil => exact ⟨rfl, rfl, rfl⟩
  | append_singleton scores score ih =>
    obtain ⟨voice, voiceSamples, silenceSamples⟩ := step_settings (e.steps scores).1 score
    rw [steps_append]
    exact ⟨voice.trans ih.1, voiceSamples.trans ih.2.1, silenceSamples.trans ih.2.2⟩

def configured [OfScientific F] (detector : ν) (threshold : F) (voiceMs silenceMs : UInt32) :
    EarshotInner F ν :=
  (((new detector).setThreshold threshold).setVoiceMs voiceMs).setSilenceMs silenceMs

/-- A setting in milliseconds is far from the end of the accumulator. -/
theorem room_of_ms (ms : UInt32) : (ms * earshotRate / 1000).toNat + earshotFrame < 2 ^ 32 := by
  have small : (ms * earshotRate).toNat < 2 ^ 32 := UInt32.toNat_lt _
  have thousand : (1000 : UInt32).toNat = 1000 := rfl
  rw [UInt32.toNat_div, thousand, earshotFrame]
  omega

theorem configured_counted [OfScientific F] (detector : ν) (threshold : F) (voiceMs silenceMs : UInt32) :
    Counted (configured detector threshold voiceMs silenceMs) [] :=
  ⟨room_of_ms voiceMs, room_of_ms silenceMs, fun _ => ⟨rfl, fun some => absurd rfl some⟩, nofun⟩

/-- The states of any sequence of scores begin a word of rounds. Outside of speech a block starts
it exactly when the voiced run first totals the voice samples, in speech a block stops it exactly
when the unvoiced run first totals the silence samples, and the flag says whether it is open. -/
theorem steps_hysteresis [OfScientific F] (detector : ν) (threshold : F) (voiceMs silenceMs : UInt32)
    (scores : List F) :
    let e : EarshotInner F ν := configured detector threshold voiceMs silenceMs
    let states := (e.steps scores).2
    (∃ word ∈ words, states <+: word) ∧
      (∀ k score, scores[k]? = some score →
        (states[k]? = some .startTalking ↔ ¬Speaking (states.take k) ∧
          FirstTotals e.voice e.voiceSamples (scores.take k) score) ∧
        (states[k]? = some .stopTalking ↔ Speaking (states.take k) ∧
          FirstTotals e.unvoiced e.silenceSamples (scores.take k) score)) ∧
      ∀ k, (e.steps (scores.take k)).1.inSpeech = true ↔ Speaking (states.take k) := by
  intro e states
  have counted : Counted e [] := configured_counted detector threshold voiceMs silenceMs
  have speaking : ∀ k, (e.steps (scores.take k)).1.inSpeech = true ↔ Speaking (states.take k) := by
    intro k
    rw [steps_take]
    exact advance_speaking (steps_advance e (scores.take k))
  refine ⟨advance_begins (steps_advance e scores), fun k score at_ => ?_, speaking⟩
  obtain ⟨voice, voiceSamples, silenceSamples⟩ := steps_settings e (scores.take k)
  have unvoiced : (e.steps (scores.take k)).1.unvoiced = e.unvoiced := by
    funext score
    exact congrArg (fun voice : F → Bool => !voice score) voice
  have emits := (step_cases _ score).emits (steps_counted counted (scores.take k))
  rw [voice, unvoiced, voiceSamples, silenceSamples, speaking k] at emits
  have silent : (e.steps (scores.take k)).1.inSpeech = false ↔ ¬Speaking (states.take k) := by
    rw [← speaking k, Bool.not_eq_true]
  rw [steps_getElem? e at_, Option.some_inj, Option.some_inj, ← silent]
  exact emits

end EarshotInner

end Scoring

end Fswtch.Audio.Earshot
