import Mathlib.Algebra.Order.Field.Rat
import Mathlib.Data.List.Induction
import Mathlib.Tactic.Linarith
import Mathlib.Tactic.NormNum
import Fswtch.Seat.SpeechSegments

/-! When a segment starts and ends. The frames that the calls of a run have scored are looked at one
after the other, whatever calls they came in; onsets, ends and `BargeIn` are read off them. -/

namespace Fswtch.Seat.SpeechSegments

variable {F ν ρ : Type}

def Scored.onset (frame : Scored F ν ρ) : Bool := !frame.before.inSpeech && frame.after.inSpeech

def Scored.ended (frame : Scored F ν ρ) : Bool := frame.before.inSpeech && !frame.after.inSpeech

def bargeIns (effects : List Effect) : Nat := effects.count .bargeIn

def upsampled (engine : Engine F ν ρ) (resampler : ρ) : List Pcm → Pcm
  | [] => []
  | samples :: rest =>
    if samples = [] then upsampled engine resampler rest
    else
      let out := engine.resample resampler samples
      out.1 ++ upsampled engine out.2 rest

theorem upsampled_cons (engine : Engine F ν ρ) (resampler : ρ) (samples : Pcm) (rest : List Pcm) :
    upsampled engine resampler (samples :: rest) =
      if samples = [] then upsampled engine resampler rest
      else (engine.resample resampler samples).1 ++ upsampled engine (engine.resample resampler samples).2 rest := rfl

section Engines

variable [NatCast F] [Zero F] [One F] [Neg F] [Add F] [Sub F] [Mul F] [Div F]
  [LE F] [LT F] [DecidableLE F] [DecidableLT F]

def isVoiced (engine : Engine F ν ρ) (config : VadConfig F) (vad : ν) (frame : Pcm) : Bool :=
  let scored := scoreFrame engine vad frame config.minSpeechRms
  decide (config.speechThreshold ≤ scored.1.1) && decide (config.minSpeechRms ≤ scored.1.2)

def detector (engine : Engine F ν ρ) (config : VadConfig F) (vad : ν) (frames : List Pcm) : ν :=
  frames.foldl (fun vad frame => (scoreFrame engine vad frame config.minSpeechRms).2) vad

end Engines

def speaking (record : List (Scored F ν ρ)) : Bool :=
  record.foldl (fun inside frame => if frame.onset then true else if frame.ended then false else inside) false

def sinceEnd (record : List (Scored F ν ρ)) : List Bool :=
  record.foldl (fun verdicts frame => if frame.ended then [] else verdicts ++ [frame.voiced]) []

def unvoicedRun (record : List (Scored F ν ρ)) : Nat :=
  record.foldl (fun run frame => if frame.voiced then 0 else run + 1) 0

def leaky (decay : ℚ) (verdicts : List Bool) : ℚ :=
  verdicts.foldl (fun accum voiced => if voiced then accum + 16 else accum * (1 - decay)) 0

def Reached (config : VadConfig ℚ) (verdicts : List Bool) (voiced : Bool) : Prop :=
  config.speechOnsetMs ≤ leaky config.speechOnsetDecay (verdicts ++ [voiced]) ∧
    ∀ front, front <+: verdicts → leaky config.speechOnsetDecay front < config.speechOnsetMs

/-- A run of unvoiced frames is as long as the silence asked for, and none of its beginnings is. -/
def LongEnough (silence run : Nat) : Prop :=
  0 < run ∧ silence ≤ 256 * run ∧ ∀ shorter, 0 < shorter → shorter < run → 256 * shorter < silence

def silenceOf (config : VadConfig ℚ) : UInt32 := config.silenceTimeoutMs * 16000 / 1000

structure Lawful (config : VadConfig ℚ) (past : List (Scored ℚ ν ρ)) (frame : Scored ℚ ν ρ) : Prop where
  before : frame.before.inSpeech = speaking past
  inside : frame.after.inSpeech = speaking (past ++ [frame])
  onset : frame.onset = true ↔ Reached config (sinceEnd past) frame.voiced
  voiced : frame.onset = true → frame.voiced = true
  ended : frame.ended = true ↔ speaking past = true ∧ LongEnough (silenceOf config).toNat (unvoicedRun (past ++ [frame]))
  silence : frame.after.inSpeech = true → frame.after.currentSilence.toNat = 256 * unvoicedRun (past ++ [frame])
  bargeIn : bargeIns frame.effects = if frame.onset && frame.turnPending then 1 else 0

theorem speaking_concat (past : List (Scored F ν ρ)) (frame : Scored F ν ρ) :
    speaking (past ++ [frame]) = if frame.onset then true else if frame.ended then false else speaking past := by
  rw [speaking, List.foldl_append]
  rfl

theorem sinceEnd_concat (past : List (Scored F ν ρ)) (frame : Scored F ν ρ) :
    sinceEnd (past ++ [frame]) = if frame.ended then [] else sinceEnd past ++ [frame.voiced] := by
  rw [sinceEnd, List.foldl_append]
  rfl

theorem unvoicedRun_concat (past : List (Scored F ν ρ)) (frame : Scored F ν ρ) :
    unvoicedRun (past ++ [frame]) = if frame.voiced then 0 else unvoicedRun past + 1 := by
  rw [unvoicedRun, List.foldl_append]
  rfl

theorem leaky_concat (decay : ℚ) (verdicts : List Bool) (voiced : Bool) :
    leaky decay (verdicts ++ [voiced]) =
      if voiced then leaky decay verdicts + 16 else leaky decay verdicts * (1 - decay) := by
  rw [leaky, List.foldl_append]
  rfl

theorem leaky_nonneg {decay : ℚ} (most : decay ≤ 1) (verdicts : List Bool) : 0 ≤ leaky decay verdicts := by
  induction verdicts using List.reverseRecOn with
  | nil => exact le_refl 0
  | append_singleton verdicts voiced ih =>
    rw [leaky_concat]
    split
    next => linarith
    next => exact mul_nonneg ih (by linarith)

/-- An unvoiced frame lets the sum fall. -/
theorem leaky_unvoiced {decay : ℚ} (least : 0 ≤ decay) (most : decay ≤ 1) (verdicts : List Bool) :
    leaky decay (verdicts ++ [false]) ≤ leaky decay verdicts := by
  rw [leaky_concat, if_neg Bool.false_ne_true]
  exact mul_le_of_le_one_right (leaky_nonneg most verdicts) (by linarith)

/-- What a frame with the verdict `voiced`, at which the accumulator comes to `accum`, does. -/
inductive Switched (s : CallState ℚ ν ρ) (turnPending voiced : Bool) (accum : ℚ) :
    CallState ℚ ν ρ → List Effect → Prop
  | onset (after : CallState ℚ ν ρ) (effects : List Effect) (closed : s.inSpeech = false)
      (reached : s.speechOnsetMs ≤ accum) (opened : after.inSpeech = true) (kept : after.onsetAccumMs = accum)
      (reset : after.currentSilence = 0) (raises : bargeIns effects = if turnPending then 1 else 0) :
      Switched s turnPending voiced accum after effects
  | waits (after : CallState ℚ ν ρ) (closed : s.inSpeech = false) (short : accum < s.speechOnsetMs)
      (still : after.inSpeech = false) (kept : after.onsetAccumMs = accum) :
      Switched s turnPending voiced accum after []
  | speaks (after : CallState ℚ ν ρ) (opened : s.inSpeech = true) (loud : voiced = true)
      (still : after.inSpeech = true) (kept : after.onsetAccumMs = accum) (reset : after.currentSilence = 0) :
      Switched s turnPending voiced accum after []
  | pauses (after : CallState ℚ ν ρ) (opened : s.inSpeech = true) (quiet : voiced = false)
      (short : s.currentSilence + 256 < s.silenceSamples) (still : after.inSpeech = true)
      (kept : after.onsetAccumMs = accum) (counted : after.currentSilence = s.currentSilence + 256) :
      Switched s turnPending voiced accum after []
  | ends (after : CallState ℚ ν ρ) (effects : List Effect) (opened : s.inSpeech = true) (quiet : voiced = false)
      (long : s.silenceSamples ≤ s.currentSilence + 256) (closed : after.inSpeech = false)
      (reset : after.onsetAccumMs = 0) (offers : bargeIns effects = 0) :
      Switched s turnPending voiced accum after effects

theorem endSpeech_closes (s : CallState ℚ ν ρ) :
    s.endSpeech.1.inSpeech = false ∧ s.endSpeech.1.onsetAccumMs = 0 ∧ bargeIns s.endSpeech.2 = 0 := by
  unfold CallState.endSpeech
  split
  next => exact ⟨rfl, rfl, rfl⟩
  next =>
    refine ⟨rfl, rfl, ?_⟩
    cases s.speechTx <;> rfl

theorem startSpeech_raises {s : CallState ℚ ν ρ} (actor : s.actor = true) (turnPending : Bool) :
    bargeIns (s.startSpeech turnPending).2 = if turnPending then 1 else 0 := by
  unfold CallState.startSpeech
  rw [actor]
  cases turnPending <;> rfl

theorem switchFrame_switched (s : CallState ℚ ν ρ) (actor : s.actor = true) (turnPending voiced : Bool) :
    let switched := s.switchFrame turnPending voiced (!s.inSpeech && decide (s.speechOnsetMs ≤ s.onsetAccumMs))
    Switched s turnPending voiced s.onsetAccumMs switched.1 switched.2 := by
  intro switched
  cases inside : s.inSpeech with
  | false =>
    by_cases reached : s.speechOnsetMs ≤ s.onsetAccumMs
    · have same : switched = s.startSpeech turnPending := by
        simp [switched, CallState.switchFrame, inside, reached]
      rw [same]
      exact .onset _ _ inside reached rfl rfl rfl (startSpeech_raises actor turnPending)
    · have short := not_le.mp reached
      cases voiced with
      | false =>
        have same : switched = (s, []) := by
          simp [switched, CallState.switchFrame, CallState.silentFrame, inside, reached]
        rw [same]
        exact .waits s inside short inside rfl
      | true =>
        have same : switched = ({ s with bargeInConfirm := 0 }, []) := by
          simp [switched, CallState.switchFrame, inside, reached]
        rw [same]
        exact .waits _ inside short inside rfl
  | true =>
    cases voiced with
    | true =>
      have same : switched = ({ s with currentSilence := 0, bargeInConfirm := 0 }, []) := by
        simp [switched, CallState.switchFrame, inside]
      rw [same]
      exact .speaks _ inside rfl inside rfl rfl
    | false =>
      let quiet : CallState ℚ ν ρ := { s with currentSilence := s.currentSilence + 256 }
      by_cases long : s.silenceSamples ≤ s.currentSilence + 256
      · have same : switched = quiet.endSpeech := by
          simp [switched, CallState.switchFrame, CallState.silentFrame, inside, long, quiet]
        rw [same]
        obtain ⟨closed, reset, offers⟩ := endSpeech_closes quiet
        exact .ends _ _ inside rfl long closed reset offers
      · have same : switched = (quiet, []) := by
          simp [switched, CallState.switchFrame, CallState.silentFrame, inside, long, quiet]
        rw [same]
        exact .pauses quiet inside rfl (UInt32.not_le.mp long) inside rfl rfl

def CallState.accum (s : CallState ℚ ν ρ) (voiced : Bool) : ℚ :=
  if voiced then s.onsetAccumMs + 16 else s.onsetAccumMs * (1 - s.speechOnsetDecay)

theorem frameMs_eq : (frameMs : ℚ) = 16 := by
  unfold frameMs
  norm_num

theorem Switched.rescored {s after : CallState ℚ ν ρ} {turnPending voiced : Bool} {accum sum : ℚ} {vad : ν}
    {effects : List Effect}
    (switched : Switched { s with vad := vad, onsetAccumMs := sum } turnPending voiced accum after effects) :
    Switched s turnPending voiced accum after effects := by
  cases switched with
  | onset _ closed reached opened kept reset raises =>
    exact .onset after effects closed reached opened kept reset raises
  | waits closed short still kept => exact .waits after closed short still kept
  | speaks opened loud still kept reset => exact .speaks after opened loud still kept reset
  | pauses opened quiet short still kept counted => exact .pauses after opened quiet short still kept counted
  | ends _ opened quiet long closed reset offers => exact .ends after effects opened quiet long closed reset offers

theorem vadFrame_switched (engine : Engine ℚ ν ρ) {s : CallState ℚ ν ρ} (actor : s.actor = true)
    (turnPending : Bool) (pcm : Pcm) :
    let frame := s.vadFrame engine turnPending pcm
    Switched s turnPending frame.voiced (s.accum frame.voiced) frame.after frame.effects := by
  intro frame
  have switched := switchFrame_switched
    { s with
      vad := (scoreFrame engine s.vad pcm s.minSpeechRms).2
      onsetAccumMs := s.accum frame.voiced } actor turnPending frame.voiced
  have same : s.accum frame.voiced =
      if frame.voiced then s.onsetAccumMs + frameMs else s.onsetAccumMs * (1 - s.speechOnsetDecay) := by
    rw [frameMs_eq]
    rfl
  have run : (frame.after, frame.effects) = CallState.switchFrame
      { s with
        vad := (scoreFrame engine s.vad pcm s.minSpeechRms).2
        onsetAccumMs := s.accum frame.voiced } turnPending frame.voiced
      (!s.inSpeech && decide (s.speechOnsetMs ≤ s.accum frame.voiced)) := by
    rw [same]
    rfl
  rw [show frame.after = (frame.after, frame.effects).1 from rfl,
    show frame.effects = (frame.after, frame.effects).2 from rfl, run]
  exact switched.rescored

structure Configured (config : VadConfig ℚ) (s : CallState ℚ ν ρ) : Prop where
  threshold : s.speechThreshold = config.speechThreshold
  rms : s.minSpeechRms = config.minSpeechRms
  onset : s.speechOnsetMs = config.speechOnsetMs
  decay : s.speechOnsetDecay = config.speechOnsetDecay
  silence : s.silenceSamples = silenceOf config
  actor : s.actor = true

theorem Configured.of_same {config : VadConfig ℚ} {s t : CallState ℚ ν ρ} (known : Configured config s)
    (same : (t.speechThreshold, t.minSpeechRms, t.speechOnsetMs, t.speechOnsetDecay, t.silenceSamples, t.actor) =
      (s.speechThreshold, s.minSpeechRms, s.speechOnsetMs, s.speechOnsetDecay, s.silenceSamples, s.actor)) :
    Configured config t := by
  simp only [Prod.mk.injEq] at same
  obtain ⟨threshold, rms, onset, decay, silence, actor⟩ := same
  exact ⟨threshold.trans known.threshold, rms.trans known.rms, onset.trans known.onset,
    decay.trans known.decay, silence.trans known.silence, actor.trans known.actor⟩

theorem switchFrame_configured {config : VadConfig ℚ} {s : CallState ℚ ν ρ} (known : Configured config s)
    (turnPending voiced onsetFired : Bool) :
    Configured config (s.switchFrame turnPending voiced onsetFired).1 := by
  have ended (quiet : CallState ℚ ν ρ) (still : Configured config quiet) : Configured config quiet.endSpeech.1 := by
    unfold CallState.endSpeech
    split
    next => exact still.of_same rfl
    next => exact still.of_same rfl
  have counted (frameLen : UInt32) : Configured config { s with currentSilence := s.currentSilence + frameLen } :=
    known.of_same rfl
  unfold CallState.switchFrame CallState.silentFrame
  split
  · split
    · exact known.of_same rfl
    · split <;> exact known.of_same rfl
  · split
    · dsimp only
      split
      · exact ended _ (counted 256)
      · exact counted 256
    · exact known

theorem vadFrame_configured {config : VadConfig ℚ} {s : CallState ℚ ν ρ} (known : Configured config s)
    (engine : Engine ℚ ν ρ) (turnPending : Bool) (pcm : Pcm) :
    Configured config (s.vadFrame engine turnPending pcm).after :=
  switchFrame_configured (s := { s with
    vad := (scoreFrame engine s.vad pcm s.minSpeechRms).2, onsetAccumMs := _ }) (known.of_same rfl) _ _ _

/-- How the state stands to the frames scored so far. -/
structure Tracked (config : VadConfig ℚ) (past : List (Scored ℚ ν ρ)) (s : CallState ℚ ν ρ) : Prop where
  configured : Configured config s
  inside : s.inSpeech = speaking past
  accum : s.onsetAccumMs = leaky config.speechOnsetDecay (sinceEnd past)
  waiting : s.inSpeech = false →
    ∀ front, front <+: sinceEnd past → leaky config.speechOnsetDecay front < config.speechOnsetMs
  reached : s.inSpeech = true →
    ∃ front, front <+: sinceEnd past ∧ config.speechOnsetMs ≤ leaky config.speechOnsetDecay front
  silence : s.inSpeech = true → s.currentSilence.toNat = 256 * unvoicedRun past ∧
    ∀ shorter, 0 < shorter → shorter ≤ unvoicedRun past → 256 * shorter < (silenceOf config).toNat

/-- Nothing but the frames moves what the law is about. -/
theorem Tracked.of_same {config : VadConfig ℚ} {past : List (Scored ℚ ν ρ)} {s t : CallState ℚ ν ρ}
    (known : Tracked config past s) (configured : Configured config t) (inside : t.inSpeech = s.inSpeech)
    (accum : t.onsetAccumMs = s.onsetAccumMs) (silence : t.currentSilence = s.currentSilence) :
    Tracked config past t where
  configured := configured
  inside := inside.trans known.inside
  accum := accum.trans known.accum
  waiting := inside ▸ known.waiting
  reached := inside ▸ known.reached
  silence := inside ▸ silence ▸ known.silence

theorem prefix_concat {front verdicts : List Bool} {voiced : Bool} (before : front <+: verdicts ++ [voiced]) :
    front = verdicts ++ [voiced] ∨ front <+: verdicts := by
  rcases List.prefix_concat_iff.mp (by simpa using before) with same | shorter
  · exact .inl (by simpa using same)
  · exact .inr shorter

/-- The division keeps the silence asked for far from the end of the counter. -/
theorem silenceOf_le (config : VadConfig ℚ) : (silenceOf config).toNat ≤ 4294967 := by
  have bound := (config.silenceTimeoutMs * 16000).toNat_lt
  unfold silenceOf
  rw [UInt32.toNat_div, show (1000 : UInt32).toNat = 1000 from rfl]
  omega

section Step

variable {config : VadConfig ℚ} {past : List (Scored ℚ ν ρ)} {s : CallState ℚ ν ρ}

theorem Tracked.accum_eq (known : Tracked config past s) (voiced : Bool) :
    s.accum voiced = leaky config.speechOnsetDecay (sinceEnd past ++ [voiced]) := by
  rw [leaky_concat, CallState.accum, known.accum, known.configured.decay]

theorem Tracked.counted (known : Tracked config past s) (opened : s.inSpeech = true) :
    (s.currentSilence + 256).toNat = 256 * (unvoicedRun past + 1) := by
  obtain ⟨count, short⟩ := known.silence opened
  have most := silenceOf_le config
  have small : 256 * unvoicedRun past ≤ 4294967 := by
    rcases Nat.eq_zero_or_pos (unvoicedRun past) with none | some
    · omega
    · have below := short (unvoicedRun past) some (le_refl _)
      omega
  rw [UInt32.toNat_add, count, show (256 : UInt32).toNat = 256 from rfl]
  omega

theorem Tracked.not_reached (known : Tracked config past s) (opened : s.inSpeech = true) (voiced : Bool) :
    ¬Reached config (sinceEnd past) voiced := by
  intro reaches
  obtain ⟨front, before, high⟩ := known.reached opened
  exact absurd high (not_le.mpr (reaches.2 front before))

theorem Tracked.loud (known : Tracked config past s) (least : 0 ≤ config.speechOnsetDecay)
    (most : config.speechOnsetDecay ≤ 1) (closed : s.inSpeech = false) {voiced : Bool}
    (reached : s.speechOnsetMs ≤ leaky config.speechOnsetDecay (sinceEnd past ++ [voiced])) : voiced = true := by
  cases voiced with
  | true => rfl
  | false =>
    have falls := leaky_unvoiced least most (sinceEnd past)
    have below := known.waiting closed _ (List.prefix_refl _)
    rw [known.configured.onset] at reached
    linarith

/-- Onsets and ends are the changes of `in_speech`, so the record follows it. -/
theorem Tracked.inside_after (known : Tracked config past s) {frame : Scored ℚ ν ρ} (before : frame.before = s) :
    frame.after.inSpeech = speaking (past ++ [frame]) := by
  rw [speaking_concat, ← known.inside, Scored.onset, Scored.ended, before]
  cases s.inSpeech <;> cases frame.after.inSpeech <;> rfl

theorem onset_lawful (known : Tracked config past s) (least : 0 ≤ config.speechOnsetDecay)
    (most : config.speechOnsetDecay ≤ 1) {frame : Scored ℚ ν ρ} (before : frame.before = s)
    (configured : Configured config frame.after) (closed : s.inSpeech = false)
    (reached : s.speechOnsetMs ≤ leaky config.speechOnsetDecay (sinceEnd past ++ [frame.voiced]))
    (opened : frame.after.inSpeech = true)
    (kept : frame.after.onsetAccumMs = leaky config.speechOnsetDecay (sinceEnd past ++ [frame.voiced]))
    (reset : frame.after.currentSilence = 0)
    (raises : bargeIns frame.effects = if frame.turnPending then 1 else 0) :
    Lawful config past frame ∧ Tracked config (past ++ [frame]) frame.after := by
  have onset : frame.onset = true := by rw [Scored.onset, before, closed, opened]; rfl
  have unended : frame.ended = false := by rw [Scored.ended, before, closed]; rfl
  have loud := known.loud least most closed reached
  have none : unvoicedRun (past ++ [frame]) = 0 := by rw [unvoicedRun_concat, if_pos loud]
  have since : sinceEnd (past ++ [frame]) = sinceEnd past ++ [frame.voiced] := by
    rw [sinceEnd_concat, unended]
    rfl
  have inside := known.inside_after before
  have silent : frame.after.currentSilence.toNat = 256 * unvoicedRun (past ++ [frame]) := by
    rw [none, reset]
    rfl
  rw [known.configured.onset] at reached
  constructor
  · refine ⟨before ▸ known.inside, inside, ?_, fun _ => loud, ?_, fun _ => silent, ?_⟩
    · exact iff_of_true onset ⟨reached, known.waiting closed⟩
    · rw [unended, ← known.inside, closed]
      simp
    · rw [onset, raises]
      rfl
  · refine ⟨configured, inside, by rw [kept, since], fun still => ?_, fun _ => ?_, fun _ => ⟨silent, ?_⟩⟩
    · cases still.symm.trans opened
    · exact ⟨sinceEnd past ++ [frame.voiced], since ▸ List.prefix_refl _, reached⟩
    · rw [none]
      omega

theorem steady_lawful (known : Tracked config past s) {frame : Scored ℚ ν ρ} (before : frame.before = s)
    (configured : Configured config frame.after) (same : frame.after.inSpeech = s.inSpeech)
    (kept : frame.after.onsetAccumMs = leaky config.speechOnsetDecay (sinceEnd past ++ [frame.voiced]))
    (quiet : frame.effects = [])
    (short : s.inSpeech = false → leaky config.speechOnsetDecay (sinceEnd past ++ [frame.voiced]) < config.speechOnsetMs)
    (silence : s.inSpeech = true → frame.after.currentSilence.toNat = 256 * unvoicedRun (past ++ [frame]) ∧
      ∀ shorter, 0 < shorter → shorter ≤ unvoicedRun (past ++ [frame]) → 256 * shorter < (silenceOf config).toNat) :
    Lawful config past frame ∧ Tracked config (past ++ [frame]) frame.after := by
  have unstarted : frame.onset = false := by rw [Scored.onset, before, same, Bool.not_and_self]
  have unended : frame.ended = false := by rw [Scored.ended, before, same, Bool.and_not_self]
  have since : sinceEnd (past ++ [frame]) = sinceEnd past ++ [frame.voiced] := by
    rw [sinceEnd_concat, unended]
    rfl
  have inside := known.inside_after before
  constructor
  · refine ⟨before ▸ known.inside, inside, ?_, fun started => ?_, ?_,
      fun opened => (silence (same ▸ opened)).1, ?_⟩
    · rw [unstarted]
      apply iff_of_false Bool.false_ne_true
      intro reaches
      cases opened : s.inSpeech with
      | false => exact absurd reaches.1 (not_le.mpr (short opened))
      | true => exact known.not_reached opened frame.voiced reaches
    · cases unstarted.symm.trans started
    · rw [unended]
      apply iff_of_false Bool.false_ne_true
      intro ⟨speaks, positive, long, _⟩
      have below := (silence (known.inside.trans speaks)).2 _ positive (le_refl _)
      omega
    · rw [unstarted, quiet]
      rfl
  · refine ⟨configured, inside, by rw [kept, since], fun closed front within => ?_, fun opened => ?_,
      fun opened => silence (same ▸ opened)⟩
    · rw [same] at closed
      rw [since] at within
      rcases prefix_concat within with rfl | earlier
      · exact short closed
      · exact known.waiting closed front earlier
    · obtain ⟨front, within, high⟩ := known.reached (same ▸ opened)
      exact ⟨front, since ▸ within.trans (List.prefix_append _ _), high⟩

theorem ends_lawful (known : Tracked config past s) (onsetPos : 0 < config.speechOnsetMs) {frame : Scored ℚ ν ρ}
    (before : frame.before = s) (configured : Configured config frame.after) (opened : s.inSpeech = true)
    (quiet : frame.voiced = false) (long : s.silenceSamples ≤ s.currentSilence + 256)
    (closed : frame.after.inSpeech = false) (reset : frame.after.onsetAccumMs = 0)
    (offers : bargeIns frame.effects = 0) :
    Lawful config past frame ∧ Tracked config (past ++ [frame]) frame.after := by
  have unstarted : frame.onset = false := by rw [Scored.onset, closed, Bool.and_false]
  have ended : frame.ended = true := by rw [Scored.ended, before, opened, closed]; rfl
  have run : unvoicedRun (past ++ [frame]) = unvoicedRun past + 1 := by rw [unvoicedRun_concat, quiet]; rfl
  have since : sinceEnd (past ++ [frame]) = [] := by rw [sinceEnd_concat, if_pos ended]
  have inside := known.inside_after before
  have enough : LongEnough (silenceOf config).toNat (unvoicedRun (past ++ [frame])) := by
    rw [UInt32.le_iff_toNat_le, known.counted opened, known.configured.silence] at long
    rw [run]
    refine ⟨Nat.succ_pos _, long, fun shorter some less => ?_⟩
    exact (known.silence opened).2 shorter some (Nat.le_of_lt_succ less)
  constructor
  · refine ⟨before ▸ known.inside, inside, ?_, fun started => ?_, ?_, fun still => ?_, ?_⟩
    · rw [unstarted]
      exact iff_of_false Bool.false_ne_true (known.not_reached opened frame.voiced)
    · cases unstarted.symm.trans started
    · exact iff_of_true ended ⟨known.inside.symm.trans opened, enough⟩
    · cases closed.symm.trans still
    · rw [unstarted, offers]
      rfl
  · refine ⟨configured, inside, by rw [reset, since]; rfl, fun _ front within => ?_, fun still => ?_, fun still => ?_⟩
    · rw [since, List.prefix_nil] at within
      rw [within]
      exact onsetPos
    · cases closed.symm.trans still
    · cases closed.symm.trans still

theorem vadFrame_lawful (known : Tracked config past s) (onsetPos : 0 < config.speechOnsetMs)
    (least : 0 ≤ config.speechOnsetDecay) (most : config.speechOnsetDecay ≤ 1) (engine : Engine ℚ ν ρ)
    (turnPending : Bool) (pcm : Pcm) :
    let frame := s.vadFrame engine turnPending pcm
    Lawful config past frame ∧ Tracked config (past ++ [frame]) frame.after := by
  intro frame
  have configured : Configured config frame.after :=
    vadFrame_configured known.configured engine turnPending pcm
  have before : frame.before = s := rfl
  have run : unvoicedRun (past ++ [frame]) = if frame.voiced then 0 else unvoicedRun past + 1 :=
    unvoicedRun_concat past frame
  have switched : Switched s frame.turnPending frame.voiced (s.accum frame.voiced) frame.after frame.effects :=
    vadFrame_switched engine known.configured.actor turnPending pcm
  rw [known.accum_eq] at switched
  generalize raised : frame.effects = effects at switched
  generalize behind : frame.after = after at switched
  cases switched with
  | onset _ closed reached opened kept reset raises =>
    subst behind raised
    exact onset_lawful known least most before configured closed reached opened kept reset raises
  | waits closed short still kept =>
    subst behind
    apply steady_lawful known before configured (still.trans closed.symm) kept raised
    · exact fun _ => known.configured.onset ▸ short
    · exact fun opened => absurd (closed.symm.trans opened) Bool.false_ne_true
  | speaks opened loud still kept reset =>
    subst behind
    apply steady_lawful known before configured (still.trans opened.symm) kept raised
    · exact fun closed => absurd (closed.symm.trans opened) Bool.false_ne_true
    · intro _
      rw [run, if_pos loud, reset]
      exact ⟨rfl, fun shorter some less => absurd some (Nat.not_lt.mpr less)⟩
  | pauses opened quiet short still kept counted =>
    subst behind
    apply steady_lawful known before configured (still.trans opened.symm) kept raised
    · exact fun closed => absurd (closed.symm.trans opened) Bool.false_ne_true
    · intro _
      rw [UInt32.lt_iff_toNat_lt, known.counted opened, known.configured.silence] at short
      rw [run, quiet, counted, known.counted opened]
      refine ⟨rfl, fun shorter some less => ?_⟩
      rcases Nat.lt_or_eq_of_le less with below | same
      · exact (known.silence opened).2 shorter some (Nat.le_of_lt_succ below)
      · rw [same]
        exact short
  | ends _ opened quiet long closed reset offers =>
    subst behind raised
    exact ends_lawful known onsetPos before configured opened quiet long closed reset offers

end Step

section Run

variable {engine : Engine ℚ ν ρ} {config : VadConfig ℚ} {vad : ν}

/-- Every frame goes by the law after `past` and the frames before it, and has the verdict of the
detector as those frames have left it. -/
def LawfulRun (engine : Engine ℚ ν ρ) (config : VadConfig ℚ) (vad : ν) (past record : List (Scored ℚ ν ρ)) : Prop :=
  ∀ front frame back, record = front ++ frame :: back → Lawful config (past ++ front) frame ∧
    frame.voiced = isVoiced engine config (detector engine config vad ((past ++ front).map Scored.pcm)) frame.pcm

theorem lawfulRun_nil (past : List (Scored ℚ ν ρ)) : LawfulRun engine config vad past [] := by
  intro front frame back split
  cases front <;> cases split

theorem LawfulRun.append {past first second : List (Scored ℚ ν ρ)}
    (one : LawfulRun engine config vad past first) (other : LawfulRun engine config vad (past ++ first) second) :
    LawfulRun engine config vad past (first ++ second) := by
  intro front frame back split
  rcases List.append_eq_append_iff.mp split with ⟨more, rfl, rest⟩ | ⟨more, whole, rest⟩
  · rw [← List.append_assoc]
    exact other more frame back rest
  · cases more with
    | nil =>
      rw [List.append_nil] at whole
      have here := other [] frame back rest.symm
      rwa [whole, List.append_nil] at here
    | cons frame' more =>
      obtain ⟨rfl, _⟩ := List.cons.inj rest
      exact one front frame more whole

theorem lawfulRun_singleton {past : List (Scored ℚ ν ρ)} {frame : Scored ℚ ν ρ} (here : Lawful config past frame)
    (verdict : frame.voiced = isVoiced engine config (detector engine config vad (past.map Scored.pcm)) frame.pcm) :
    LawfulRun engine config vad past [frame] := by
  intro front other back split
  cases front with
  | nil =>
    obtain ⟨rfl, _⟩ := List.cons.inj split
    rw [List.append_nil]
    exact ⟨here, verdict⟩
  | cons first front =>
    have sizes := congrArg List.length split
    simp at sizes

structure Follows (engine : Engine ℚ ν ρ) (config : VadConfig ℚ) (vad : ν) (past : List (Scored ℚ ν ρ))
    (s : CallState ℚ ν ρ) : Prop where
  tracked : Tracked config past s
  detector : s.vad = detector engine config vad (past.map Scored.pcm)

/-- Buffering and staging the samples moves nothing that the frames look at. -/
theorem Follows.stage {s : CallState ℚ ν ρ} {past : List (Scored ℚ ν ρ)} (known : Follows engine config vad past s)
    (samples : Pcm) : Follows engine config vad past { (s.accumulate samples).stage engine samples with vadStage := [] } := by
  unfold CallState.accumulate
  split
  next =>
    exact ⟨known.tracked.of_same (known.tracked.configured.of_same rfl) rfl rfl rfl, known.detector⟩
  next =>
    exact ⟨known.tracked.of_same (known.tracked.configured.of_same rfl) rfl rfl rfl, known.detector⟩

theorem vadFrame_voiced {s : CallState ℚ ν ρ} (known : Configured config s) (turnPending : Bool) (pcm : Pcm) :
    (s.vadFrame engine turnPending pcm).voiced = isVoiced engine config s.vad pcm := by
  rw [isVoiced, ← known.rms, ← known.threshold]
  rfl

theorem switchFrame_engine (s : CallState ℚ ν ρ) (turnPending voiced onsetFired : Bool) :
    (s.switchFrame turnPending voiced onsetFired).1.vad = s.vad ∧
      (s.switchFrame turnPending voiced onsetFired).1.resampler = s.resampler := by
  have ended (quiet : CallState ℚ ν ρ) :
      quiet.endSpeech.1.vad = quiet.vad ∧ quiet.endSpeech.1.resampler = quiet.resampler := by
    unfold CallState.endSpeech
    split <;> exact ⟨rfl, rfl⟩
  unfold CallState.switchFrame CallState.silentFrame
  split
  · split
    · exact ⟨rfl, rfl⟩
    · split <;> exact ⟨rfl, rfl⟩
  · split
    · dsimp only
      split
      · exact ended _
      · exact ⟨rfl, rfl⟩
    · exact ⟨rfl, rfl⟩

theorem vadFrame_engine (engine : Engine ℚ ν ρ) (s : CallState ℚ ν ρ) (turnPending : Bool) (pcm : Pcm) :
    (s.vadFrame engine turnPending pcm).after.vad = (scoreFrame engine s.vad pcm s.minSpeechRms).2 ∧
      (s.vadFrame engine turnPending pcm).after.resampler = s.resampler := by
  unfold CallState.vadFrame
  exact switchFrame_engine _ _ _ _

theorem Follows.vadFrame {s : CallState ℚ ν ρ} {past : List (Scored ℚ ν ρ)} (known : Follows engine config vad past s)
    (turnPending : Bool) (pcm : Pcm)
    (tracked : Tracked config (past ++ [s.vadFrame engine turnPending pcm]) (s.vadFrame engine turnPending pcm).after) :
    Follows engine config vad (past ++ [s.vadFrame engine turnPending pcm])
      (s.vadFrame engine turnPending pcm).after := by
  refine ⟨tracked, ?_⟩
  rw [(vadFrame_engine engine s turnPending pcm).1, known.detector, known.tracked.configured.rms, List.map_append, SpeechSegments.detector,
    SpeechSegments.detector, List.foldl_append]
  rfl

structure Loops (turnPending : Nat → Bool) (staged : Pcm) (s : CallState ℚ ν ρ)
    (done : CallState ℚ ν ρ × List (Scored ℚ ν ρ)) : Prop where
  stream : done.2.flatMap Scored.pcm ++ done.1.vadStage = staged
  whole : ∀ frame ∈ done.2, frame.pcm.length = earshotFrameSize
  reads : done.2.map Scored.turnPending = (List.range done.2.length).map turnPending
  resampler : done.1.resampler = s.resampler

theorem vadLoop_loops (turnPending : Nat → Bool) (staged : Pcm) (s : CallState ℚ ν ρ) :
    Loops turnPending staged s (CallState.vadLoop.go engine turnPending staged s) := by
  fun_induction CallState.vadLoop.go engine turnPending staged s with
  | case1 turnPending staged s whole scored later ih =>
    refine ⟨?_, ?_, ?_, ih.resampler.trans (vadFrame_engine engine s _ _).2⟩
    · rw [List.flatMap_cons, List.append_assoc, ih.stream]
      exact List.take_append_drop _ _
    · rw [List.forall_mem_cons]
      exact ⟨by rw [show scored.pcm = staged.take earshotFrameSize from rfl, List.length_take, Nat.min_eq_left whole],
        ih.whole⟩
    · rw [List.map_cons, ih.reads, List.length_cons, List.range_succ_eq_map, List.map_cons, List.map_map]
      rfl
  | case2 turnPending staged s short => exact ⟨rfl, List.forall_mem_nil _, rfl, rfl⟩

structure TurnTaking (engine : Engine ℚ ν ρ) (config : VadConfig ℚ) (vad : ν) (past : List (Scored ℚ ν ρ))
    (s : CallState ℚ ν ρ) (calls : List Call) (last : CallState ℚ ν ρ) (scored : List (List (Scored ℚ ν ρ))) :
    Prop where
  lawful : LawfulRun engine config vad past scored.flatten
  stream : scored.flatten.flatMap Scored.pcm ++ last.vadStage =
    s.vadStage ++ upsampled engine s.resampler (calls.map Call.samples)
  whole : ∀ frame ∈ scored.flatten, frame.pcm.length = earshotFrameSize
  reads : List.Forall₂ (fun call frames =>
    frames.map Scored.turnPending = (List.range frames.length).map call.turnPending) calls scored

section Law

variable (onsetPos : 0 < config.speechOnsetMs) (least : 0 ≤ config.speechOnsetDecay)
  (most : config.speechOnsetDecay ≤ 1)
include onsetPos least most

theorem vadLoop_lawful (turnPending : Nat → Bool) (staged : Pcm) (s : CallState ℚ ν ρ)
    (past : List (Scored ℚ ν ρ)) (known : Follows engine config vad past s) :
    let done := CallState.vadLoop.go engine turnPending staged s
    LawfulRun engine config vad past done.2 ∧ Follows engine config vad (past ++ done.2) done.1 := by
  fun_induction CallState.vadLoop.go engine turnPending staged s generalizing past with
  | case1 turnPending staged s whole scored later ih =>
    obtain ⟨here, next⟩ := vadFrame_lawful known.tracked onsetPos least most engine (turnPending 0)
      (staged.take earshotFrameSize)
    have verdict := @vadFrame_voiced _ _ engine _ _ known.tracked.configured (turnPending 0) (staged.take earshotFrameSize)
    rw [known.detector] at verdict
    obtain ⟨rest, last⟩ := ih _ (known.vadFrame _ _ next)
    rw [List.append_assoc] at last
    exact ⟨(lawfulRun_singleton here verdict).append rest, last⟩
  | case2 turnPending staged s short =>
    intro done
    rw [show past ++ done.2 = past from List.append_nil past]
    exact ⟨lawfulRun_nil past, known.tracked.of_same (known.tracked.configured.of_same rfl) rfl rfl rfl,
      known.detector⟩

theorem writeFrame_lawful {s : CallState ℚ ν ρ} {past : List (Scored ℚ ν ρ)}
    (known : Follows engine config vad past s) (call : Call) :
    LawfulRun engine config vad past (s.writeFrame engine call).2 ∧
      Follows engine config vad (past ++ (s.writeFrame engine call).2) (s.writeFrame engine call).1 := by
  unfold CallState.writeFrame
  split
  next =>
    rw [List.append_nil]
    exact ⟨lawfulRun_nil past, known⟩
  next => exact vadLoop_lawful onsetPos least most call.turnPending _ _ past (known.stage call.samples)

variable (engine) in
omit onsetPos least most in
theorem writeFrame_loops (s : CallState ℚ ν ρ) (call : Call) (rest : List Pcm) :
    (s.writeFrame engine call).2.flatMap Scored.pcm ++ ((s.writeFrame engine call).1.vadStage ++
        upsampled engine (s.writeFrame engine call).1.resampler rest) =
      s.vadStage ++ upsampled engine s.resampler (call.samples :: rest) ∧
    (∀ frame ∈ (s.writeFrame engine call).2, frame.pcm.length = earshotFrameSize) ∧
    (s.writeFrame engine call).2.map Scored.turnPending =
      (List.range (s.writeFrame engine call).2.length).map call.turnPending := by
  unfold CallState.writeFrame
  rw [upsampled_cons]
  split
  next => exact ⟨rfl, List.forall_mem_nil _, rfl⟩
  next =>
    have loops := @vadLoop_loops _ _ engine call.turnPending
      ((s.accumulate call.samples).stage engine call.samples).vadStage
      { (s.accumulate call.samples).stage engine call.samples with vadStage := [] }
    have kept : (s.accumulate call.samples).vadStage = s.vadStage ∧
        (s.accumulate call.samples).resampler = s.resampler := by
      unfold CallState.accumulate
      split <;> exact ⟨rfl, rfl⟩
    refine ⟨?_, loops.whole, loops.reads⟩
    rw [CallState.vadLoop, ← List.append_assoc, loops.stream, loops.resampler]
    simp only [CallState.stage, kept.1, kept.2, List.append_assoc]

theorem writeFrames_turnTaking {s : CallState ℚ ν ρ} {track : Track ℚ ν ρ}
    (known : Follows engine config vad track.scored.flatten s) (calls : List Call) :
    ∃ scored, (writeFrames engine s track calls).2.scored = track.scored ++ scored ∧
      TurnTaking engine config vad track.scored.flatten s calls (writeFrames engine s track calls).1 scored := by
  induction calls generalizing s track with
  | nil =>
    refine ⟨[], (List.append_nil _).symm, lawfulRun_nil _, ?_, List.forall_mem_nil _, .nil⟩
    rw [List.map_nil, upsampled, List.append_nil]
    rfl
  | cons call rest ih =>
    obtain ⟨here, follows⟩ := writeFrame_lawful onsetPos least most known call
    obtain ⟨stream, whole, reads⟩ := writeFrame_loops engine s call (rest.map Call.samples)
    have kept : ((track.append call.samples).call (s.writeFrame engine call).2).scored =
        track.scored ++ [(s.writeFrame engine call).2] := Track.call_scored _ _ _
    have flat : ((track.append call.samples).call (s.writeFrame engine call).2).scored.flatten =
        track.scored.flatten ++ (s.writeFrame engine call).2 := by
      rw [kept, List.flatten_append, List.flatten_singleton]
    rw [← flat] at follows
    obtain ⟨later, grown, turns⟩ := ih follows
    rw [kept, List.append_assoc] at grown
    refine ⟨(s.writeFrame engine call).2 :: later, grown, ?_, ?_, ?_, .cons reads turns.reads⟩
    · rw [List.flatten_cons]
      exact here.append (flat ▸ turns.lawful)
    · rw [List.flatten_cons, List.flatMap_append, List.append_assoc, List.map_cons, ← stream]
      exact congrArg _ turns.stream
    · rw [List.flatten_cons, List.forall_mem_append]
      exact ⟨whole, turns.whole⟩

/-- Over any calls, onsets, ends, the silence counter and `BargeIn` go by the law, frame by frame of all
that the calls have upsampled. -/
theorem writeFrame_turnTaking (resampler : ρ) (calls : List Call) :
    let final := writeFrames engine (CallState.new config vad resampler) {} calls
    TurnTaking engine config vad [] (CallState.new config vad resampler) calls final.1 final.2.scored ∧
      final.1.vadStage.length < earshotFrameSize := by
  have fresh : Tracked config [] (CallState.new config vad resampler : CallState ℚ ν ρ) := by
    refine ⟨⟨rfl, rfl, rfl, rfl, rfl, rfl⟩, rfl, rfl, fun _ front within => ?_, nofun, nofun⟩
    rw [List.prefix_nil.mp within]
    exact onsetPos
  obtain ⟨scored, grown, turns⟩ := writeFrames_turnTaking onsetPos least most
    (show Follows engine config vad ({} : Track ℚ ν ρ).scored.flatten (CallState.new config vad resampler) from
      ⟨fresh, rfl⟩) calls
  rw [List.nil_append] at grown
  intro final
  rw [grown]
  exact ⟨turns, (writeFrames_segments engine config vad resampler calls).2.2⟩

end Law

end Run

/-- A detector that takes the first sample of a frame for its score, on a stream of 16 kHz. -/
def firstSample : Engine ℚ Unit Unit where
  predict vad frame := ((frame.headD 0).toInt, vad)
  rms _ := 1
  resample resampler samples := (samples, resampler)

def quickTurns : VadConfig ℚ where
  speechThreshold := 1
  speechOnsetMs := 32
  speechOnsetDecay := 1 / 2
  minSpeechRms := 1 / 100
  silenceTimeoutMs := 32

/-- Two voiced frames and two unvoiced ones, in two calls cut across a frame, during a turn. -/
def duringTurn : List Call :=
  [⟨List.replicate 500 1, fun _ => true⟩, ⟨List.replicate 12 1 ++ List.replicate 512 0, fun _ => true⟩]

theorem quickTurns_turnTaking :
    let final := writeFrames firstSample (CallState.new quickTurns () ()) {} duringTurn
    (TurnTaking firstSample quickTurns () [] (CallState.new quickTurns () ()) duringTurn final.1 final.2.scored ∧
      final.1.vadStage.length < earshotFrameSize) ∧
    bargeIns (final.2.scored.flatten.flatMap Scored.effects) = 1 :=
  ⟨writeFrame_turnTaking (by decide +kernel) (by decide +kernel) (by decide +kernel) () duringTurn,
    by decide +kernel⟩

end Fswtch.Seat.SpeechSegments
