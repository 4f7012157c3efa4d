import Mathlib.Algebra.Ring.Int.Defs
import Fswtch.Apm.RenderDelay

/-! In every order of calls the read indices of the render rings stand at one and the same block, with
its transform and its spectrum, and no assertion of the buffer fails. -/

namespace Fswtch.Apm.RenderDelay
open Fswtch.Apm.Framing Fswtch.Lib.CircularBuffer Fswtch.Lib.StepRun

variable {c : Config} {β φ ψ σ δ : Type}

theorem Config.subBlockSize_pos (c : Config) : 0 < c.subBlockSize := by
  rw [subBlockSize]
  rcases c.factor with four | eight
  · rw [four]; decide
  · rw [eight]; decide

theorem Config.lowBlocks_pos (c : Config) : 1 < c.lowBlocks := by
  simp only [lowBlocks, matchedFilterWindowSizeSubBlocks]
  omega

theorem Config.lowRateSize_eq (c : Config) : c.lowRateSize = c.lowBlocks * c.subBlockSize := Nat.mul_comm _ _

theorem Config.size_eq (c : Config) : c.size = c.lowBlocks + c.lengthBlocks + 1 := by
  have quotient : c.lowRateSize / c.subBlockSize = c.lowBlocks := by
    rw [lowRateSize_eq, Nat.mul_div_cancel _ c.subBlockSize_pos]
  rw [← quotient]
  rfl

theorem Config.subBlock_fits {blocks : Nat} (inside : blocks < c.lowBlocks) :
    blocks * c.subBlockSize + c.subBlockSize ≤ c.lowRateSize := by
  rw [c.lowRateSize_eq, ← Nat.succ_mul]
  exact Nat.mul_le_mul_right _ inside

theorem Config.subBlock_inside {blocks : Nat} : blocks * c.subBlockSize < c.lowRateSize ↔ blocks < c.lowBlocks := by
  rw [c.lowRateSize_eq, Nat.mul_lt_mul_right c.subBlockSize_pos]

theorem Config.size_pos (c : Config) : 1 ≤ c.size := by
  rw [c.size_eq]
  omega

theorem Config.lowRate_back (c : Config) (index : Nat) :
    (index * c.subBlockSize + (c.lowRateSize - c.subBlockSize)) % c.lowRateSize =
      (index + (c.lowBlocks - 1)) % c.lowBlocks * c.subBlockSize := by
  have back : c.lowRateSize - c.subBlockSize = (c.lowBlocks - 1) * c.subBlockSize := by
    rw [c.lowRateSize_eq, Nat.sub_one_mul]
  rw [back, ← Nat.add_mul, c.lowRateSize_eq, Nat.mul_mod_mul_right]

theorem mod_return {write steps size : Nat} (inside : write < size) (short : steps ≤ size) :
    ((write + (size - steps)) % size + steps) % size = write := by
  rw [Nat.mod_add_mod, show write + (size - steps) + steps = write + size by omega, Nat.add_mod_right,
    Nat.mod_eq_of_lt inside]

section Contents

variable [Zero σ] (parts : Parts c β φ ψ σ δ)

def transforms : List β → List φ
  | [] => []
  | block :: earlier => parts.paddedFft block (earlier.headD parts.silentBlock) :: transforms earlier

/-- The rings hold the newest blocks and what was computed from them. -/
structure Stored (s : RenderDelayBuffer β φ ψ σ δ) : Prop where
  blocksSize : s.blocks.size = c.size
  fftsSize : s.ffts.size = c.size
  spectraSize : s.spectra.size = c.size
  lowRateSize : s.lowRate.size = c.lowRateSize
  blocksInside : s.blocks.write < c.size
  fftsInside : s.ffts.write < c.size
  level : s.spectra.write = s.ffts.write
  grid : ∃ index < c.lowBlocks, s.lowRate.write = index * c.subBlockSize
  blocks : s.blocks.risen = lastOf c.size parts.silentBlock s.inserted
  ffts : s.ffts.fallen = lastOf c.size parts.silentFft (transforms parts s.inserted)
  spectra : s.spectra.fallen = lastOf c.size parts.silentSpectrum ((transforms parts s.inserted).map parts.spectrum)
  lowRate : s.lowRate.fallen = lastOf c.lowRateSize 0 s.decimated

/-- All the read indices are so many blocks behind, and the one at the lower rate by its own latency. -/
structure Lagging (c : Config) (s : RenderDelayBuffer β φ ψ σ δ) (lag latency : Nat) : Prop where
  blocks : s.blocks.Rising lag
  ffts : s.ffts.Falling lag
  spectra : s.spectra.Falling lag
  lowRate : s.lowRate.Falling (latency * c.subBlockSize)

def Following (s : RenderDelayBuffer β φ ψ σ δ) (lag latency : Nat) : Prop :=
  ∀ delay, s.delay = some delay → lag ≤ latency + delay ∧ (s.limited = false → lag = latency + delay)

structure Sound (s : RenderDelayBuffer β φ ψ σ δ) : Prop where
  stored : Stored parts s
  aligned : ∃ lag latency, Lagging c s lag latency ∧ Following s lag latency

structure Agrees (s : RenderDelayBuffer β φ ψ σ δ) (record : DelayRecord) (lag : Nat) : Prop where
  stored : Stored parts s
  lagging : Lagging c s lag record.latency
  following : Following s lag record.latency
  reported : s.externalAudioBufferDelay = record.reported
  delay : s.delay = record.inForce
  limited : s.limited = record.limited

variable {parts} in
theorem Agrees.sound {s : RenderDelayBuffer β φ ψ σ δ} {record : DelayRecord} {lag : Nat}
    (agrees : Agrees parts s record lag) : Sound parts s :=
  ⟨agrees.stored, lag, record.latency, agrees.lagging, agrees.following⟩

variable {parts} in
theorem Sound.agrees {s : RenderDelayBuffer β φ ψ σ δ} (sound : Sound parts s) :
    ∃ record lag, Agrees parts s record lag := by
  obtain ⟨stored, lag, latency, lagging, following⟩ := sound
  refine ⟨⟨latency, s.externalAudioBufferDelay, s.delay, 0, s.limited⟩, lag, stored, lagging, following, rfl, ?_, rfl⟩
  exact (congrFun Option.map_id s.delay).symm

structure SameDelay (s later : RenderDelayBuffer β φ ψ σ δ) : Prop where
  delay : later.delay = s.delay
  limited : later.limited = s.limited
  reported : later.externalAudioBufferDelay = s.externalAudioBufferDelay

omit [Zero σ] in
theorem SameDelay.following {s later : RenderDelayBuffer β φ ψ σ δ} {lag latency nextLag nextLatency : Nat}
    (same : SameDelay s later) (following : Following s lag latency)
    (moves : ∀ delay, lag ≤ latency + delay → nextLag ≤ nextLatency + delay ∧
      (lag = latency + delay → nextLag = nextLatency + delay)) : Following later nextLag nextLatency := by
  intro delay present
  obtain ⟨most, exact⟩ := following delay (same.delay ▸ present)
  exact ⟨(moves delay most).1, fun unlimited => (moves delay most).2 (exact (same.limited ▸ unlimited))⟩

end Contents

section Reading

variable {s : RenderDelayBuffer β φ ψ σ δ} {lag latency : Nat}

theorem wrap_back {size write x : Nat} (inside : write < size) (short : x < size) :
    (size + (write + x) % size - write) % size = x := by
  have inner : (write + x) % size = if write + x < size then write + x else write + x - size := mod_wrap (by omega)
  rw [inner]
  split
  next below => rw [show size + (write + x) - write = x + size by omega, Nat.add_mod_right, Nat.mod_eq_of_lt short]
  next above => rw [show size + (write + x - size) - write = x by omega, Nat.mod_eq_of_lt short]

theorem Lagging.bufferLatency_eq (lagging : Lagging c s lag latency) : s.bufferLatency c = latency := by
  rw [RenderDelayBuffer.bufferLatency, lagging.lowRate.behind, wrap_back lagging.lowRate.inside lagging.lowRate.short,
    Nat.mul_div_cancel _ c.subBlockSize_pos]

theorem Lagging.computeDelay_eq (lagging : Lagging c s lag latency) : s.computeDelay c = lag - latency := by
  have inside := lagging.spectra.inside
  have short := lagging.spectra.short
  rw [RenderDelayBuffer.computeDelay, lagging.bufferLatency_eq, lagging.spectra.behind, mod_wrap (by omega)]
  split <;> split <;> omega

end Reading

section Steps

variable [Zero σ] {parts : Parts c β φ ψ σ δ} {s : RenderDelayBuffer β φ ψ σ δ} {lag latency : Nat}

theorem Stored.spectraInside (stored : Stored parts s) : s.spectra.write < c.size := stored.level ▸ stored.fftsInside

theorem Stored.lowRateInside (stored : Stored parts s) : s.lowRate.write < c.lowRateSize := by
  obtain ⟨index, inside, write⟩ := stored.grid
  rw [write, Config.subBlock_inside]
  exact inside

theorem Stored.maxDelay_eq (stored : Stored parts s) : s.maxDelay c = c.lowBlocks := by
  rw [RenderDelayBuffer.maxDelay, stored.blocksSize, c.size_eq]
  omega

theorem applyTotalDelay_spec (stored : Stored parts s) (short : lag < c.size)
    (low : s.lowRate.Falling (latency * c.subBlockSize)) :
    ∃ later, s.applyTotalDelay lag = some later ∧ Stored parts later ∧ Lagging c later lag latency ∧
      SameDelay s later ∧ later.inserted = s.inserted := by
  have blocks := stored.blocksSize
  have ffts := stored.fftsSize
  have spectra := stored.spectraSize
  have first : s.blocks.offsetIndex s.blocks.write (-lag) = some ((s.blocks.write + (s.blocks.size - lag)) % s.blocks.size) :=
    RingBuffer.offsetIndex_down (blocks ▸ stored.blocksInside) (by omega)
  have second : s.spectra.offsetIndex s.spectra.write lag = some ((s.spectra.write + lag) % s.spectra.size) :=
    RingBuffer.offsetIndex_up (spectra ▸ stored.spectraInside) (by omega)
  have third : s.ffts.offsetIndex s.ffts.write lag = some ((s.ffts.write + lag) % s.ffts.size) :=
    RingBuffer.offsetIndex_up (ffts ▸ stored.fftsInside) (by omega)
  have taken : s.applyTotalDelay lag = some { s with
      blocks := { s.blocks with read := (s.blocks.write + (s.blocks.size - lag)) % s.blocks.size }
      spectra := { s.spectra with read := (s.spectra.write + lag) % s.spectra.size }
      ffts := { s.ffts with read := (s.ffts.write + lag) % s.ffts.size } } := by
    rw [RenderDelayBuffer.applyTotalDelay, first, second, third]
    rfl
  refine ⟨_, taken, { stored with }, ?_, ⟨rfl, rfl, rfl⟩, rfl⟩
  exact {
    blocks := RingBuffer.rising_at (blocks ▸ stored.blocksInside) (blocks ▸ short)
    ffts := RingBuffer.falling_at (ffts ▸ stored.fftsInside) (ffts ▸ short)
    spectra := RingBuffer.falling_at (spectra ▸ stored.spectraInside) (spectra ▸ short)
    lowRate := low }

theorem resetLowRate_spec (stored : Stored parts s) :
    ∃ later, s.resetLowRate c = some later ∧ Stored parts later ∧ later.lowRate.Falling (1 * c.subBlockSize) ∧
      later.limited = false ∧ later.externalAudioBufferDelay = s.externalAudioBufferDelay ∧
      later.inserted = s.inserted := by
  have size := stored.lowRateSize
  have one : c.subBlockSize < s.lowRate.size := by
    rw [size, ← Nat.one_mul c.subBlockSize, Config.subBlock_inside]
    exact c.lowBlocks_pos
  have moved : s.lowRate.offsetIndex s.lowRate.write c.subBlockSize =
      some ((s.lowRate.write + c.subBlockSize) % s.lowRate.size) :=
    RingBuffer.offsetIndex_up (size ▸ stored.lowRateInside) (by omega)
  have taken : s.resetLowRate c = some { s with
      lowRate := { s.lowRate with read := (s.lowRate.write + c.subBlockSize) % s.lowRate.size }
      minLatencyBlocks := 0
      excessRenderDetectionCounter := 0
      limited := false } := by
    rw [RenderDelayBuffer.resetLowRate, moved]
    rfl
  refine ⟨_, taken, { stored with }, ?_, rfl, rfl, rfl⟩
  rw [Nat.one_mul]
  exact RingBuffer.falling_at (size ▸ stored.lowRateInside) one

theorem reset_agrees {record : DelayRecord} (stored : Stored parts s)
    (reported : s.externalAudioBufferDelay = record.reported) :
    ∃ later lag, s.reset c = some later ∧ Agrees parts later (record.restart c.lowBlocks) lag ∧
      later.inserted = s.inserted := by
  obtain ⟨ready, cleared, kept, low, plain, external, inserted⟩ := resetLowRate_spec stored
  rw [RenderDelayBuffer.reset, cleared, Option.bind_eq_bind, Option.bind_some]
  rw [← external] at reported
  cases report : ready.externalAudioBufferDelay with
  | none =>
    rw [report] at reported
    obtain ⟨later, taken, stored, lagging, same, rest⟩ := applyTotalDelay_spec kept c.reached low
    refine ⟨{ later with delay := none }, c.defaultDelay, ?_, ?_, rest.trans inserted⟩
    · simp only [taken, Option.bind_some]
    · refine ⟨{ stored with }, { lagging with }, nofun, ?_, ?_, same.limited.trans plain⟩
      · exact same.reported.trans (report.trans reported)
      · rw [DelayRecord.inForce, DelayRecord.restart, ← reported]
        rfl
  | some external =>
    rw [report] at reported
    have positive : 1 ≤ audioBufferDelayToSet external := by
      rw [audioBufferDelayToSet]
      split
      next => exact Nat.le_refl 1
      next above => simp only [headroom] at above ⊢; omega
    have most := c.lowBlocks_pos
    have short : min (audioBufferDelayToSet external) (ready.maxDelay c) < c.size := by
      rw [kept.maxDelay_eq, c.size_eq]
      omega
    obtain ⟨later, taken, stored, lagging, same, rest⟩ := applyTotalDelay_spec kept short low
    have set : (later.computeDelay c).toNat = min (audioBufferDelayToSet external) c.lowBlocks - 1 := by
      rw [lagging.computeDelay_eq, kept.maxDelay_eq]
      omega
    refine ⟨{ later with delay := some (later.computeDelay c).toNat },
      min (audioBufferDelayToSet external) (ready.maxDelay c), ?_, ?_, rest.trans inserted⟩
    · simp only [taken, Option.bind_some]
    · refine ⟨{ stored with }, { lagging with }, ?_, ?_, ?_, same.limited.trans plain⟩
      · intro delay present
        obtain rfl := Option.some.inj present
        rw [set, kept.maxDelay_eq]
        simp only [DelayRecord.restart]
        omega
      · exact same.reported.trans (report.trans reported)
      · rw [DelayRecord.inForce, DelayRecord.restart, ← reported, set]
        rfl

theorem reset_spec (sound : Sound parts s) :
    ∃ later, s.reset c = some later ∧ Sound parts later ∧ later.inserted = s.inserted := by
  obtain ⟨record, lag, agrees⟩ := sound.agrees
  obtain ⟨later, lag, taken, agrees, same⟩ := reset_agrees agrees.stored agrees.reported
  exact ⟨later, taken, agrees.sound, same⟩

/-- The write indices have moved on, and nothing is written there yet. -/
structure Opened (parts : Parts c β φ ψ σ δ) (s : RenderDelayBuffer β φ ψ σ δ) (previous : Nat) : Prop where
  blocksSize : s.blocks.size = c.size
  fftsSize : s.ffts.size = c.size
  spectraSize : s.spectra.size = c.size
  lowRateSize : s.lowRate.size = c.lowRateSize
  before : previous < c.size
  next : s.blocks.write = (previous + 1) % c.size
  fftsInside : s.ffts.write < c.size
  level : s.spectra.write = s.ffts.write
  grid : ∃ index < c.lowBlocks, s.lowRate.write = index * c.subBlockSize
  blocks : (s.blocks.buffer.rotate s.blocks.write).reverse = lastOf c.size parts.silentBlock s.inserted
  ffts : s.ffts.buffer.rotate ((s.ffts.write + 1) % c.size) = lastOf c.size parts.silentFft (transforms parts s.inserted)
  spectra : s.spectra.buffer.rotate ((s.ffts.write + 1) % c.size) =
    lastOf c.size parts.silentSpectrum ((transforms parts s.inserted).map parts.spectrum)
  lowRate : s.lowRate.buffer.rotate ((s.lowRate.write + c.subBlockSize) % c.lowRateSize) =
    lastOf c.lowRateSize 0 s.decimated

theorem insertBlock_spec {previous : Nat} (opened : Opened parts s previous) (block : β) :
    ∃ later, s.insertBlock parts block previous = some later ∧ Stored parts later ∧
      later.inserted = parts.amplify block :: s.inserted ∧ SameDelay s later ∧
      ∀ lag latency, Lagging c s lag latency → Lagging c later lag latency := by
  have many := c.size_eq
  have most := c.lowBlocks_pos
  have positive : 0 < c.size := by omega
  have inside : s.blocks.write < c.size := by
    rw [opened.next]
    exact Nat.mod_lt _ positive
  generalize heard : parts.decimate s.decimator (parts.amplify block) = lower
  have even : lower.2.reverse.length = c.subBlockSize := by
    rw [List.length_reverse, ← heard, parts.even]
  have blocksFit : s.blocks.write + [parts.amplify block].length ≤ s.blocks.size := by
    rw [opened.blocksSize]
    exact inside
  have fftFit : ∀ fft : φ, s.ffts.write + [fft].length ≤ s.ffts.size := fun fft => by
    rw [opened.fftsSize]
    exact opened.fftsInside
  have spectrumFit : ∀ spectrum : ψ, s.spectra.write + [spectrum].length ≤ s.spectra.size := fun spectrum => by
    rw [opened.spectraSize, opened.level]
    exact opened.fftsInside
  have lowFit : s.lowRate.write + lower.2.reverse.length ≤ s.lowRate.size := by
    obtain ⟨index, below, write⟩ := opened.grid
    rw [even, write, opened.lowRateSize]
    exact Config.subBlock_fits below
  have one : ∀ {α : Type} (entry : α), [entry].length ≤ c.size := fun _ => positive
  have risen : (s.blocks.put [parts.amplify block]).risen =
      lastOf c.size parts.silentBlock (parts.amplify block :: s.inserted) := by
    rw [RingBuffer.risen_put blocksFit, opened.blocks, opened.blocksSize]
    exact lastOf_append (one _) s.inserted
  have earlier : (s.blocks.put [parts.amplify block]).buffer[previous]? = some (s.inserted.headD parts.silentBlock) := by
    have size : (s.blocks.put [parts.amplify block]).size = c.size := (RingBuffer.put_size blocksFit).trans opened.blocksSize
    have found := RingBuffer.risen_getElem? (show 1 < (s.blocks.put [parts.amplify block]).size by rw [size]; omega)
    have place : (s.blocks.write + (c.size - 1)) % c.size = previous := by
      rw [opened.next, Nat.mod_add_mod, show previous + 1 + (c.size - 1) = previous + c.size by omega, Nat.add_mod_right,
        Nat.mod_eq_of_lt opened.before]
    rw [risen, size, lastOf_getElem? (by omega)] at found
    rw [← place]
    refine found.symm.trans (congrArg some ?_)
    cases s.inserted <;> rfl
  let fft := parts.paddedFft (parts.amplify block) (s.inserted.headD parts.silentBlock)
  have taken : s.insertBlock parts block previous = some { s with
      blocks := s.blocks.put [parts.amplify block]
      lowRate := s.lowRate.put lower.2.reverse
      ffts := s.ffts.put [fft]
      spectra := s.spectra.put [parts.spectrum fft]
      decimator := lower.1
      inserted := parts.amplify block :: s.inserted
      decimated := lower.2.reverse ++ s.decimated } := by
    simp only [RenderDelayBuffer.insertBlock, RingBuffer.store, if_pos blocksFit, heard, if_pos lowFit, earlier, if_pos (fftFit _),
      if_pos (spectrumFit _), bind, Option.bind, fft]
  refine ⟨_, taken, ?_, rfl, ⟨rfl, rfl, rfl⟩, fun lag latency lagging => ?_⟩
  · exact {
      blocksSize := (RingBuffer.put_size blocksFit).trans opened.blocksSize
      fftsSize := (RingBuffer.put_size (fftFit _)).trans opened.fftsSize
      spectraSize := (RingBuffer.put_size (spectrumFit _)).trans opened.spectraSize
      lowRateSize := (RingBuffer.put_size lowFit).trans opened.lowRateSize
      blocksInside := inside
      fftsInside := opened.fftsInside
      level := opened.level
      grid := opened.grid
      blocks := risen
      ffts := by
        rw [RingBuffer.fallen_put (fftFit _) rfl, opened.fftsSize, List.length_singleton, opened.ffts]
        exact lastOf_append (one fft) _
      spectra := by
        rw [RingBuffer.fallen_put (spectrumFit _) rfl, opened.spectraSize, List.length_singleton, opened.level, opened.spectra]
        exact lastOf_append (one (parts.spectrum fft)) _
      lowRate := by
        rw [RingBuffer.fallen_put lowFit rfl, even, opened.lowRateSize, opened.lowRate, ← even]
        exact lastOf_append (by rw [even, ← opened.lowRateSize]; omega) _ }
  · exact {
      blocks := lagging.blocks.put blocksFit
      ffts := lagging.ffts.put (fftFit _)
      spectra := lagging.spectra.put (spectrumFit _)
      lowRate := lagging.lowRate.put lowFit }

theorem incrementWriteIndices_spec (stored : Stored parts s) :
    ∃ later, s.incrementWriteIndices c = some later ∧ Opened parts later s.blocks.write ∧ SameDelay s later ∧
      later.inserted = s.inserted ∧
      ∀ lag latency, Lagging c s lag latency → later.renderOverrun = false →
        Lagging c later (lag + 1) (latency + 1) := by
  have lowRateSize := stored.lowRateSize
  have inside : s.lowRate.write < s.lowRate.size := lowRateSize ▸ stored.lowRateInside
  have short : c.subBlockSize ≤ s.lowRate.size := by
    rw [lowRateSize, ← Nat.one_mul c.subBlockSize]
    exact Nat.le_of_lt (Config.subBlock_inside.mpr c.lowBlocks_pos)
  have blocks := RingBuffer.incIndex_eq (stored.blocksSize ▸ stored.blocksInside : s.blocks.write < s.blocks.size)
  have ffts := RingBuffer.decIndex_eq (stored.fftsSize ▸ stored.fftsInside : s.ffts.write < s.ffts.size)
  have spectra := RingBuffer.decIndex_eq (stored.spectraSize ▸ stored.spectraInside : s.spectra.write < s.spectra.size)
  have taken : s.incrementWriteIndices c = some { s with
      lowRate := { s.lowRate with write := (s.lowRate.write + (s.lowRate.size - c.subBlockSize)) % s.lowRate.size }
      blocks := { s.blocks with write := (s.blocks.write + 1) % s.blocks.size }
      spectra := { s.spectra with write := (s.spectra.write + (s.spectra.size - 1)) % s.spectra.size }
      ffts := { s.ffts with write := (s.ffts.write + (s.ffts.size - 1)) % s.ffts.size } } := by
    rw [RenderDelayBuffer.incrementWriteIndices, RingBuffer.offsetIndex_down inside short, blocks, ffts, spectra]
    rfl
  refine ⟨_, taken, ?_, ⟨rfl, rfl, rfl⟩, rfl, fun lag latency lagging clear => ?_⟩
  · constructor
    case blocksSize => exact stored.blocksSize
    case fftsSize => exact stored.fftsSize
    case spectraSize => exact stored.spectraSize
    case lowRateSize => exact lowRateSize
    case before => exact stored.blocksInside
    case next => simp only [stored.blocksSize]
    case fftsInside => exact stored.fftsSize ▸ Nat.mod_lt _ (Nat.zero_lt_of_lt (stored.fftsSize ▸ stored.fftsInside))
    case level => simp only [stored.level, stored.fftsSize, stored.spectraSize]
    case grid =>
      obtain ⟨index, below, write⟩ := stored.grid
      refine ⟨_, Nat.mod_lt (index + (c.lowBlocks - 1)) (Nat.zero_lt_of_lt below), ?_⟩
      simp only [write, lowRateSize, c.lowRate_back]
    case blocks =>
      rw [← stored.blocks]
      exact congrArg List.reverse (List.rotate_mod _ _)
    case ffts =>
      simp only [stored.fftsSize, mod_return stored.fftsInside c.size_pos]
      exact stored.ffts
    case spectra =>
      simp only [stored.fftsSize, mod_return stored.fftsInside c.size_pos]
      exact stored.level ▸ stored.spectra
    case lowRate =>
      simp only [lowRateSize, mod_return stored.lowRateInside (lowRateSize ▸ short)]
      exact stored.lowRate
  · simp only [RenderDelayBuffer.renderOverrun, Bool.or_eq_false_iff, beq_eq_false_iff_ne, ne_eq] at clear
    obtain ⟨low, high⟩ := clear
    have near : latency * c.subBlockSize + c.subBlockSize ≤ s.lowRate.size := by
      rw [lowRateSize]
      exact Config.subBlock_fits (Config.subBlock_inside.mp (lowRateSize ▸ lagging.lowRate.short))
    rw [lagging.lowRate.meet_back c.subBlockSize_pos near] at low
    rw [lagging.blocks.meet_up] at high
    have short := lagging.blocks.short
    have same : s.ffts.size = s.blocks.size ∧ s.spectra.size = s.blocks.size :=
      ⟨stored.fftsSize.trans stored.blocksSize.symm, stored.spectraSize.trans stored.blocksSize.symm⟩
    exact {
      blocks := lagging.blocks.write_up (by omega)
      ffts := lagging.ffts.write_back (by omega)
      spectra := lagging.spectra.write_back (by omega)
      lowRate := Nat.succ_mul latency _ ▸ lagging.lowRate.write_back (by omega) }

theorem insert_agrees {record : DelayRecord} (agrees : Agrees parts s record lag) (block : β) :
    ∃ next lag, s.insert parts block = some next ∧ Agrees parts next.1 (record.note c (.insert block) next.2) lag ∧
      next.1.inserted = parts.amplify block :: s.inserted := by
  obtain ⟨moved, opening, opened, same, inserted, onward⟩ := incrementWriteIndices_spec agrees.stored
  rw [RenderDelayBuffer.insert, opening, Option.bind_eq_bind, Option.bind_some]
  generalize (if moved.renderActivity then moved.renderActivityCounter
    else moved.renderActivityCounter + if parts.detectActiveRender block then 1 else 0) = counter
  have ready : Opened parts { moved with
      renderActivityCounter := counter
      renderActivity := moved.renderActivity || decide (counter ≥ 20) } s.blocks.write := { opened with }
  obtain ⟨written, taken, kept, added, plain, still⟩ := insertBlock_spec ready block
  have reported : written.externalAudioBufferDelay = record.reported :=
    plain.reported.trans (same.reported.trans agrees.reported)
  simp only [taken, Option.bind_some]
  cases overrun : moved.renderOverrun with
  | true =>
    obtain ⟨later, lag, cleared, agrees, rest⟩ := reset_agrees kept reported
    simp only [if_true, cleared, Option.bind_some]
    exact ⟨_, lag, rfl, agrees, by rw [rest, added, inserted]⟩
  | false =>
    simp only [Bool.false_eq_true, if_false]
    refine ⟨_, lag + 1, rfl, ?_, by rw [added, inserted]⟩
    exact {
      stored := kept
      lagging := still _ _ { onward lag record.latency agrees.lagging overrun with }
      following := by
        refine SameDelay.following (s := s) ⟨plain.delay.trans same.delay, plain.limited.trans same.limited,
          plain.reported.trans same.reported⟩ agrees.following fun delay most => ?_
        simp only [DelayRecord.note]
        omega
      reported
      delay := plain.delay.trans (same.delay.trans agrees.delay)
      limited := plain.limited.trans (same.limited.trans agrees.limited) }

theorem insert_spec (sound : Sound parts s) (block : β) :
    ∃ next, s.insert parts block = some next ∧ Sound parts next.1 ∧
      next.1.inserted = parts.amplify block :: s.inserted := by
  obtain ⟨record, lag, agrees⟩ := sound.agrees
  obtain ⟨next, lag, taken, agrees, added⟩ := insert_agrees agrees block
  exact ⟨next, taken, agrees.sound, added⟩

theorem incrementReadIndices_spec (stored : Stored parts s) (lagging : Lagging c s lag latency) :
    Stored parts s.incrementReadIndices ∧ Lagging c s.incrementReadIndices (lag - 1) latency ∧
      SameDelay s s.incrementReadIndices ∧ s.incrementReadIndices.inserted = s.inserted := by
  have blocks := RingBuffer.incIndex_eq lagging.blocks.read_inside
  have ffts := RingBuffer.decIndex_eq lagging.ffts.read_inside
  have spectra := RingBuffer.decIndex_eq lagging.spectra.read_inside
  rw [RenderDelayBuffer.incrementReadIndices]
  split
  next apart =>
    rw [ne_eq, lagging.blocks.meet_iff] at apart
    obtain ⟨less, rfl⟩ := Nat.exists_eq_succ_of_ne_zero apart
    refine ⟨{ stored with }, ?_, ⟨rfl, rfl, rfl⟩, rfl⟩
    simp only [blocks, ffts, spectra]
    exact {
      blocks := lagging.blocks.read_up
      ffts := lagging.ffts.read_back
      spectra := lagging.spectra.read_back
      lowRate := lagging.lowRate }
  next meet =>
    rw [ne_eq, not_not, lagging.blocks.meet_iff] at meet
    subst meet
    exact ⟨stored, lagging, ⟨rfl, rfl, rfl⟩, rfl⟩

theorem inForce_underrun (record : DelayRecord) :
    { record with underruns := record.underruns + 1 }.inForce = record.inForce.map (· - 1) := by
  simp only [DelayRecord.inForce, Option.map_map]
  congr 1

/-- Nothing waits: the readers of the blocks go on alone, and come nearer by one. -/
theorem underrun_agrees {record : DelayRecord} (agrees : Agrees parts s record lag) (empty : record.latency = 0) :
    ∃ lag, Agrees parts { s.incrementReadIndices with delay := s.incrementReadIndices.delay.map (· - 1) }
        (record.note c (.prepareCaptureProcessing : Action β) .renderUnderrun) lag ∧
      s.incrementReadIndices.inserted = s.inserted := by
  obtain ⟨stored, lagging, following, reported, delay, limited⟩ := agrees
  rw [empty] at lagging following
  obtain ⟨stored, lagging, same, rest⟩ := incrementReadIndices_spec stored lagging
  refine ⟨lag - 1, ?_, rest⟩
  exact {
    stored := { stored with }
    lagging := by
      rw [show (record.note c (.prepareCaptureProcessing : Action β) .renderUnderrun).latency = 0 from empty]
      exact { lagging with }
    following := by
      intro wanted present
      obtain ⟨before, known, rfl⟩ := Option.map_eq_some_iff.mp present
      obtain ⟨most, exact⟩ := following before (same.delay ▸ known)
      simp only [DelayRecord.note, empty]
      refine ⟨by omega, fun unlimited => ?_⟩
      have equal := exact (same.limited ▸ unlimited)
      omega
    reported := same.reported.trans reported
    delay := by
      simp only [DelayRecord.note, inForce_underrun]
      rw [same.delay, delay]
    limited := same.limited.trans limited }

/-- A block waits: all the readers go on. -/
theorem advance_agrees {record : DelayRecord} (agrees : Agrees parts s record lag) {latency : Nat}
    (waiting : record.latency = latency + 1) :
    ∃ next lag, (s.lowRate.offsetIndex s.lowRate.read (-c.subBlockSize)).map (fun lowRate =>
          { s with lowRate := { s.lowRate with read := lowRate } }.incrementReadIndices) = some next ∧
      Agrees parts next (record.note c (.prepareCaptureProcessing : Action β) .none) lag ∧ next.inserted = s.inserted := by
  obtain ⟨stored, lagging, following, reported, delay, limited⟩ := agrees
  rw [waiting] at lagging following
  have back : s.lowRate.offsetIndex s.lowRate.read (-c.subBlockSize) =
      some ((s.lowRate.read + (s.lowRate.size - c.subBlockSize)) % s.lowRate.size) := by
    refine RingBuffer.offsetIndex_down lagging.lowRate.read_inside ?_
    have short := lagging.lowRate.short
    rw [Nat.succ_mul] at short
    omega
  let moved := { s with
    lowRate := { s.lowRate with read := (s.lowRate.read + (s.lowRate.size - c.subBlockSize)) % s.lowRate.size } }
  have kept : Stored parts moved := { stored with }
  have aligned : Lagging c moved lag latency :=
    { lagging with lowRate := (Nat.succ_mul latency _ ▸ lagging.lowRate).read_back }
  obtain ⟨stored, lagging, same, rest⟩ := incrementReadIndices_spec kept aligned
  have next : (record.note c (.prepareCaptureProcessing : Action β) .none).latency = latency :=
    congrArg (· - 1) waiting
  refine ⟨moved.incrementReadIndices, lag - 1, by rw [back, Option.map_some], ?_, rest⟩
  exact {
    stored
    lagging := next ▸ lagging
    following := by
      rw [next]
      refine SameDelay.following (s := s) ⟨same.delay, same.limited, same.reported⟩ following fun delay most => ?_
      omega
    reported := same.reported.trans reported
    delay := same.delay.trans delay
    limited := same.limited.trans limited }

theorem moveReadIndices_agrees {record : DelayRecord} (agrees : Agrees parts s record lag) (excess : Bool) :
    ∃ next lag, s.moveReadIndices c excess = some next ∧
      Agrees parts next.1 (record.note c (.prepareCaptureProcessing : Action β) next.2) lag ∧
      next.1.inserted = s.inserted := by
  have meet : s.renderUnderrun = decide (record.latency = 0) := by
    rw [RenderDelayBuffer.renderUnderrun, Bool.eq_iff_iff, beq_iff_eq, decide_eq_true_iff, agrees.lagging.lowRate.meet_iff,
      Nat.mul_eq_zero, or_iff_left (Nat.ne_of_gt c.subBlockSize_pos)]
  rw [RenderDelayBuffer.moveReadIndices]
  cases excess with
  | true =>
    obtain ⟨later, lag, taken, agrees, rest⟩ := reset_agrees agrees.stored agrees.reported
    rw [if_pos rfl, taken]
    exact ⟨_, lag, rfl, agrees, rest⟩
  | false =>
    rw [if_neg Bool.false_ne_true, meet]
    cases waiting : record.latency with
    | zero =>
      obtain ⟨lag, agrees, rest⟩ := underrun_agrees agrees waiting
      exact ⟨_, lag, rfl, agrees, rest⟩
    | succ latency =>
      obtain ⟨next, lag, taken, agrees, rest⟩ := advance_agrees agrees waiting
      obtain ⟨lowRate, back, rfl⟩ := Option.map_eq_some_iff.mp taken
      rw [if_neg (by simp), back]
      exact ⟨_, lag, rfl, agrees, rest⟩

theorem prepareCaptureProcessing_agrees {record : DelayRecord} (agrees : Agrees parts s record lag) :
    ∃ next lag, s.prepareCaptureProcessing c = some next ∧
      Agrees parts next.1 (record.note c (.prepareCaptureProcessing : Action β) next.2) lag ∧
      next.1.inserted = s.inserted := by
  have counted : ∀ least counter, Agrees parts { s with
      minLatencyBlocks := least
      excessRenderDetectionCounter := counter } record lag := fun least counter =>
    { agrees with stored := { agrees.stored with }, lagging := { agrees.lagging with } }
  have found : ∃ least counter excess, s.detectExcessRenderBlocks c =
      ({ s with minLatencyBlocks := least, excessRenderDetectionCounter := counter }, excess) := by
    rw [RenderDelayBuffer.detectExcessRenderBlocks]
    split
    next => exact ⟨_, _, _, rfl⟩
    next => exact ⟨_, _, _, rfl⟩
  obtain ⟨least, counter, excess, same⟩ := found
  obtain ⟨next, lag, taken, agrees, rest⟩ := moveReadIndices_agrees (counted least counter) excess
  rw [RenderDelayBuffer.prepareCaptureProcessing, same]
  refine ⟨_, lag, congrArg (Option.map _) taken, ?_, rest⟩
  exact { agrees with stored := { agrees.stored with }, lagging := { agrees.lagging with } }

theorem prepareCaptureProcessing_spec (sound : Sound parts s) :
    ∃ next, s.prepareCaptureProcessing c = some next ∧ Sound parts next.1 ∧ next.1.inserted = s.inserted := by
  obtain ⟨record, lag, agrees⟩ := sound.agrees
  obtain ⟨next, lag, taken, agrees, same⟩ := prepareCaptureProcessing_agrees agrees
  exact ⟨next, taken, agrees.sound, same⟩

theorem alignFromDelay_agrees {record : DelayRecord} (own : c.useExternalDelayEstimator = false)
    (agrees : Agrees parts s record lag) (delay : Nat) :
    ∃ next lag, s.alignFromDelay c delay = some next ∧
      Agrees parts next.1 (record.note c (.alignFromDelay delay : Action β) .none) lag ∧
      next.1.delay = some delay ∧ next.1.inserted = s.inserted := by
  obtain ⟨stored, lagging, following, reported, present, limited⟩ := agrees
  rw [RenderDelayBuffer.alignFromDelay, own, if_neg Bool.false_ne_true]
  by_cases same : s.delay = some delay
  · rw [if_pos same]
    refine ⟨_, lag, rfl, ⟨stored, lagging, following, reported, same, ?_⟩, same, rfl⟩
    simp only [DelayRecord.note, ← present, same, if_pos, limited]
  · have short : min (s.maxDelay c) (record.latency + delay) < c.size := by
      rw [stored.maxDelay_eq, c.size_eq]
      omega
    obtain ⟨later, taken, kept, aligned, still, rest⟩ := applyTotalDelay_spec stored short lagging.lowRate
    rw [if_neg same, lagging.bufferLatency_eq]
    simp only [taken, Option.bind_eq_bind, Option.bind_some]
    refine ⟨_, _, rfl, ⟨{ kept with }, { aligned with }, ?_, still.reported.trans reported, rfl, ?_⟩, rfl, rest⟩
    · intro wanted present
      obtain rfl := Option.some.inj present
      refine ⟨Nat.min_le_right _ _, fun unlimited => Nat.min_eq_right ?_⟩
      rw [stored.maxDelay_eq, ← kept.maxDelay_eq]
      exact Nat.le_of_not_lt (of_decide_eq_false unlimited)
    · simp only [DelayRecord.note, ← present, same, if_neg, not_false_eq_true, kept.maxDelay_eq]

theorem alignFromDelay_spec (own : c.useExternalDelayEstimator = false) (sound : Sound parts s) (delay : Nat) :
    ∃ next, s.alignFromDelay c delay = some next ∧ Sound parts next.1 ∧ next.1.delay = some delay ∧
      next.1.inserted = s.inserted := by
  obtain ⟨record, lag, agrees⟩ := sound.agrees
  obtain ⟨next, lag, taken, agrees, rest⟩ := alignFromDelay_agrees own agrees delay
  exact ⟨next, taken, agrees.sound, rest⟩

theorem setAudioBufferDelay_spec (sound : Sound parts s) (delayMs : Int) :
    Sound parts (s.setAudioBufferDelay c delayMs) := by
  obtain ⟨stored, lag, latency, lagging, following⟩ := sound
  exact ⟨{ stored with }, lag, latency, { lagging with }, following⟩

def Action.Allowed (c : Config) : Action β → Prop
  | .alignFromDelay _ => c.useExternalDelayEstimator = false
  | _ => True

theorem rotate_silence {α : Type} (size turn : Nat) (silence : α) :
    (List.replicate size silence).rotate turn = lastOf size silence [] := by
  rw [List.rotate_replicate, lastOf, List.nil_append, List.take_of_length_le (by rw [List.length_replicate])]

theorem agrees_fresh (parts : Parts c β φ ψ σ δ) (decimator : δ) :
    ∃ s lag, fresh parts decimator = some s ∧ Agrees parts s {} lag ∧ s.inserted = [] := by
  have stored : Stored parts
      { blocks := { buffer := List.replicate c.size parts.silentBlock }
        spectra := { buffer := List.replicate c.size parts.silentSpectrum }
        ffts := { buffer := List.replicate c.size parts.silentFft }
        lowRate := { buffer := List.replicate c.lowRateSize 0 }
        decimator
        delay := some c.defaultDelay } := by
    constructor
    case blocksSize => exact List.length_replicate
    case fftsSize => exact List.length_replicate
    case spectraSize => exact List.length_replicate
    case lowRateSize => exact List.length_replicate
    case blocksInside => exact c.size_pos
    case fftsInside => exact c.size_pos
    case level => rfl
    case grid => exact ⟨0, Nat.zero_lt_of_lt c.lowBlocks_pos, (Nat.zero_mul _).symm⟩
    case blocks =>
      rw [RingBuffer.risen, rotate_silence, lastOf, List.nil_append, List.take_of_length_le (by rw [List.length_replicate]),
        List.reverse_replicate]
    case ffts => exact rotate_silence _ _ _
    case spectra => exact rotate_silence _ _ _
    case lowRate => exact rotate_silence _ _ _
  obtain ⟨next, lag, taken, agrees, same⟩ := reset_agrees stored
    (show _ = ({} : DelayRecord).reported from rfl)
  exact ⟨next, lag, taken, agrees, same⟩

theorem sound_fresh (parts : Parts c β φ ψ σ δ) (decimator : δ) :
    ∃ s, fresh parts decimator = some s ∧ Sound parts s ∧ s.inserted = [] := by
  obtain ⟨s, lag, taken, agrees, empty⟩ := agrees_fresh parts decimator
  exact ⟨s, taken, agrees.sound, empty⟩

end Steps

structure Located [Zero σ] (parts : Parts c β φ ψ σ δ) (inserted : List β) (s : RenderDelayBuffer β φ ψ σ δ)
    (lag latency : Nat) : Prop where
  short : lag < c.size
  /-- The transforms and the spectra have one position. -/
  position : s.spectra.read = s.ffts.read ∧ s.spectra.write = s.ffts.write
  block : ∀ back, lag + back < c.size → s.blocks.entry (-back) = some (inserted.getD (lag + back) parts.silentBlock)
  fft : ∀ back, lag + back < c.size →
    s.ffts.entry back = some ((transforms parts inserted).getD (lag + back) parts.silentFft)
  spectrum : ∀ back, lag + back < c.size → s.spectra.entry back =
    some (((transforms parts inserted).map parts.spectrum).getD (lag + back) parts.silentSpectrum)
  /-- The signal at the lower rate is read from its own latency on. -/
  lowRate : ∀ back, latency * c.subBlockSize + back < c.lowRateSize →
    s.lowRate.entry back = some (s.decimated.getD (latency * c.subBlockSize + back) 0)
  /-- The delay is what the lag is beyond the latency. -/
  delay : s.computeDelay c = lag - latency
  /-- It is the delay of the buffer, unless that was too long for it. -/
  following : ∀ delay, s.delay = some delay → lag ≤ latency + delay ∧ (s.limited = false → lag = latency + delay)

theorem Stored.located [Zero σ] {parts : Parts c β φ ψ σ δ} {s : RenderDelayBuffer β φ ψ σ δ} {lag latency : Nat}
    (stored : Stored parts s) (lagging : Lagging c s lag latency) (following : Following s lag latency) :
    Located parts s.inserted s lag latency := by
  have blocksSize := stored.blocksSize
  have fftsSize := stored.fftsSize
  have spectraSize := stored.spectraSize
  have lowRateSize := stored.lowRateSize
  constructor
  case short => exact blocksSize ▸ lagging.blocks.short
  case position =>
    refine ⟨?_, stored.level⟩
    rw [lagging.spectra.behind, lagging.ffts.behind, stored.level, spectraSize, fftsSize]
  case block =>
    intro back near
    rw [lagging.blocks.entry_eq (blocksSize ▸ near), stored.blocks, lastOf_getElem? near]
  case fft =>
    intro back near
    rw [lagging.ffts.entry_eq (fftsSize ▸ near), stored.ffts, lastOf_getElem? near]
  case spectrum =>
    intro back near
    rw [lagging.spectra.entry_eq (spectraSize ▸ near), stored.spectra, lastOf_getElem? near]
  case lowRate =>
    intro back near
    rw [lagging.lowRate.entry_eq (lowRateSize ▸ near), stored.lowRate, lastOf_getElem? near]
  case delay => exact lagging.computeDelay_eq
  case following => exact following

theorem Sound.located [Zero σ] {parts : Parts c β φ ψ σ δ} {s : RenderDelayBuffer β φ ψ σ δ} (sound : Sound parts s) :
    ∃ lag latency, Located parts s.inserted s lag latency := by
  obtain ⟨stored, lag, latency, lagging, following⟩ := sound
  exact ⟨lag, latency, stored.located lagging following⟩

/-- The delay is the one last set, less one for each underrun since, and the readers are at that delay behind the
blocks that wait. Only a delay too long for the buffer is cut. -/
structure Timed (s : RenderDelayBuffer β φ ψ σ δ) (record : DelayRecord) (lag : Nat) : Prop where
  delay : s.delay = record.inForce
  short : ∀ delay ∈ record.inForce, lag ≤ record.latency + delay
  exact : record.limited = false → ∀ delay ∈ record.inForce, lag = record.latency + delay

theorem Agrees.timed [Zero σ] {parts : Parts c β φ ψ σ δ} {s : RenderDelayBuffer β φ ψ σ δ} {record : DelayRecord}
    {lag : Nat} (agrees : Agrees parts s record lag) : Timed s record lag where
  delay := agrees.delay
  short delay present := (agrees.following delay (agrees.delay.trans present)).1
  exact unlimited delay present :=
    (agrees.following delay (agrees.delay.trans present)).2 (agrees.limited.trans unlimited)

def oneFilter : Config := { downSamplingFactor := 8, numFilters := 1 }

def plainParts : Parts oneFilter Unit Unit Unit Int Unit where
  amplify := id
  decimate _ _ := ((), List.replicate oneFilter.subBlockSize 0)
  paddedFft _ _ := ()
  spectrum _ := ()
  detectActiveRender _ := false
  silentBlock := ()
  silentFft := ()
  silentSpectrum := ()
  even _ _ := List.length_replicate

end Fswtch.Apm.RenderDelay
