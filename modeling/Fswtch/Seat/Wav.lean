import Fswtch.Lib.ByteReader
import Fswtch.Lib.CursorReader
import Fswtch.Unicast.Media

/-! WAV files. `decode_wav_to_pcm` walks the chunks of a RIFF file, keeps what the format chunk says
and takes the samples of the data chunk; `encode_wav` writes a file of one format chunk and one
data chunk. -/

namespace Fswtch.Seat.Wav
open Fswtch.Lib.ByteReader (utf8)
open Fswtch.Lib.CursorReader
open Fswtch.Unicast.Media (Pcm writeI16Le bytesToI16 bytesToI16_writeI16Le length_writeI16Le)

def eof (position : Nat) : String := s!"unexpected EOF in WAV at byte {position}"

def readLeU16 : Reader String UInt16 := UInt16.ofNat <$> readLe eof 2

def readLeU32 : Reader String UInt32 := UInt32.ofNat <$> readLe eof 4

structure Parsed where
  sampleRate : UInt32 := 0
  numChannels : UInt16 := 0
  pcmData : Option Pcm := none
  deriving DecidableEq

def average (left right : Int16) : Int16 := ((left.toInt32 + right.toInt32) / 2).toInt16

def downmix : Pcm → Pcm
  | left :: right :: rest => average left right :: downmix rest
  | _ => []

def readFmt (chunkSize : UInt32) (s : Parsed) : Reader String Parsed := do
  let audioFormat ← readLeU16
  ensure (audioFormat = 1) s!"unsupported WAV format: {audioFormat} (only PCM=1)"
  let numChannels ← readLeU16
  let sampleRate ← readLeU32
  let _byteRate ← readLeU32
  let _blockAlign ← readLeU16
  let bitsPerSample ← readLeU16
  ensure (bitsPerSample = 16) s!"only 16-bit WAV supported, got {bitsPerSample}-bit"
  if more : 16 < chunkSize.toNat then
    discard eof (min (chunkSize.toNat - 16) 4096) (by omega) (chunkSize.toNat - 16)
  pure { s with sampleRate, numChannels }

def readData (chunkSize : UInt32) (s : Parsed) : Reader String Parsed := do
  let raw ← readExact eof chunkSize.toNat
  let samples := bytesToI16 raw
  if s.numChannels = 2 then pure { s with pcmData := some (downmix samples) }
  else if 2 < s.numChannels then throw s!"unsupported channel count: {s.numChannels}"
  else pure { s with pcmData := some samples }

/-- What the loop does behind the id of a chunk. A chunk of an odd size is left without its
padding. -/
def readChunk (chunkId : List UInt8) (s : Parsed) : Reader String Parsed := do
  let chunkSize ← readLeU32
  if chunkId = utf8 "fmt " then readFmt chunkSize s
  else if chunkId = utf8 "data" then readData chunkSize s
  else do
    discard eof 4096 (Nat.succ_pos 4095) chunkSize.toNat
    pure s

theorem forward_readLeU16 : Forward readLeU16 := (forward_readLe eof 2).map _

theorem forward_readLeU32 : Forward readLeU32 := (forward_readLe eof 4).map _

theorem forward_readFmt (chunkSize : UInt32) (s : Parsed) : Forward (readFmt chunkSize s) := by
  refine forward_readLeU16.bind fun audioFormat => (forward_ensure _ _).bind fun _ => ?_
  refine forward_readLeU16.bind fun numChannels => forward_readLeU32.bind fun sampleRate => ?_
  refine forward_readLeU32.bind fun _ => forward_readLeU16.bind fun _ => forward_readLeU16.bind fun bits => ?_
  refine (forward_ensure _ _).bind fun _ => ?_
  split
  · exact (forward_discard eof _ _).bind fun _ => forward_pure _
  · exact forward_pure _

theorem forward_readData (chunkSize : UInt32) (s : Parsed) : Forward (readData chunkSize s) := by
  refine (forward_readExact eof _).bind fun raw => ?_
  dsimp only
  split
  · exact forward_pure _
  · split
    · exact forward_throw _
    · exact forward_pure _

theorem forward_readChunk (chunkId : List UInt8) (s : Parsed) : Forward (readChunk chunkId s) := by
  refine forward_readLeU32.bind fun chunkSize => ?_
  split
  · exact forward_readFmt chunkSize s
  · split
    · exact forward_readData chunkSize s
    · exact (forward_discard eof _ _).bind fun _ => forward_pure s

def walk (s : Parsed) (cursor : Cursor) : Except String Parsed :=
  match _ : (readExact eof 4).run cursor with
  | .error _ => .ok s
  | .ok (chunkId, behind) =>
    match _ : (readChunk chunkId s).run behind with
    | .error error => .error error
    | .ok (next, after) => walk next after
termination_by cursor.rest.length
decreasing_by
  rename_i id chunk
  have taken := readExact_rest id
  have forward := forward_readChunk chunkId s behind next after chunk
  omega

def readHeader : Reader String Unit := do
  let riffId ← readExact eof 4
  ensure (riffId = utf8 "RIFF") "not a RIFF file"
  let _fileSize ← readLeU32
  let waveId ← readExact eof 4
  ensure (waveId = utf8 "WAVE") "not a WAVE file"

def Parsed.finish (s : Parsed) : Except String (Pcm × UInt32) :=
  match s.pcmData with
  | none => .error "WAV file has no data chunk"
  | some pcm =>
    if s.sampleRate = 0 then .error "WAV format chunk missing sample rate" else .ok (pcm, s.sampleRate)

def decodeWavToPcm (bytes : List UInt8) : Except String (Pcm × UInt32) := do
  let (_, cursor) ← readHeader.run ⟨0, bytes⟩
  let s ← walk {} cursor
  s.finish

structure Chunk where
  id : List UInt8
  four : id.length = 4
  body : List UInt8
  pad : UInt8 := 0

def Chunk.padding (c : Chunk) : List UInt8 := if c.body.length % 2 = 0 then [] else [c.pad]

def Chunk.bytes (c : Chunk) : List UInt8 := c.id ++ (leBytes 4 c.body.length ++ (c.body ++ c.padding))

def riff (chunks : List Chunk) : List UInt8 :=
  utf8 "RIFF" ++ (leBytes 4 (4 + (chunks.flatMap Chunk.bytes).length) ++
    (utf8 "WAVE" ++ chunks.flatMap Chunk.bytes))

/-- The fields of a format chunk for 16-bit PCM, and the bytes behind them. -/
structure Format where
  sampleRate : UInt32
  byteRate : UInt32
  blockAlign : UInt16
  extra : List UInt8 := []
  pad : UInt8 := 0

inductive Audio where
  | mono (samples : Pcm)
  | stereo (frames : List (Int16 × Int16))

def Audio.channels : Audio → UInt16
  | .mono _ => 1
  | .stereo _ => 2

def Audio.interleaved : Audio → Pcm
  | .mono samples => samples
  | .stereo frames => frames.flatMap fun frame => [frame.1, frame.2]

def Audio.pcm : Audio → Pcm
  | .mono samples => samples
  | .stereo frames => frames.map fun frame => Int16.ofInt ((frame.1.toInt + frame.2.toInt).tdiv 2)

def Format.chunk (f : Format) (channels : UInt16) : Chunk where
  id := utf8 "fmt "
  four := by decide
  body := leBytes 2 1 ++ (leBytes 2 channels.toNat ++ (leBytes 4 f.sampleRate.toNat ++
    (leBytes 4 f.byteRate.toNat ++ (leBytes 2 f.blockAlign.toNat ++ (leBytes 2 16 ++ f.extra)))))
  pad := f.pad

def Audio.chunk (audio : Audio) : Chunk where
  id := utf8 "data"
  four := by decide
  body := writeI16Le audio.interleaved

def Unknown (c : Chunk) : Prop := c.id ≠ utf8 "fmt " ∧ c.id ≠ utf8 "data"

/-- A well-formed file: the format chunk stands before the data chunk, and unknown chunks stand
before, between and after them. -/
structure WavFile where
  format : Format
  rated : format.sampleRate ≠ 0
  audio : Audio
  before : List Chunk
  between : List Chunk
  after : List Chunk
  unknown : ∀ c ∈ before ++ between ++ after, Unknown c
  fits : 4 + ((before ++ format.chunk audio.channels :: (between ++ audio.chunk :: after)).flatMap
    Chunk.bytes).length < 2 ^ 32

def WavFile.chunks (f : WavFile) : List Chunk :=
  f.before ++ f.format.chunk f.audio.channels :: (f.between ++ f.audio.chunk :: f.after)

def WavFile.bytes (f : WavFile) : List UInt8 := riff f.chunks

def WavFile.Decodes (f : WavFile) : Prop :=
  decodeWavToPcm f.bytes = .ok (f.audio.pcm, f.format.sampleRate)

theorem reads_readLeU16 (word : UInt16) : Reads readLeU16 (leBytes 2 word.toNat) word := by
  have reads := (@reads_readLe String eof 2 _ word.toNat_lt).map UInt16.ofNat
  rwa [UInt16.ofNat_toNat] at reads

theorem reads_readLeU32 (word : UInt32) : Reads readLeU32 (leBytes 4 word.toNat) word := by
  have reads := (@reads_readLe String eof 4 _ word.toNat_lt).map UInt32.ofNat
  rwa [UInt32.ofNat_toNat] at reads

theorem length_format (f : Format) (channels : UInt16) :
    (f.chunk channels).body.length = 16 + f.extra.length := by
  simp only [Format.chunk, List.length_append, length_leBytes]
  omega

theorem reads_readFmt (f : Format) (channels : UInt16) (s : Parsed)
    (small : (f.chunk channels).body.length < 2 ^ 32) :
    Reads (readFmt (UInt32.ofNat (f.chunk channels).body.length) s) (f.chunk channels).body
      { s with sampleRate := f.sampleRate, numChannels := channels } := by
  have skip : (UInt32.ofNat (f.chunk channels).body.length).toNat = 16 + f.extra.length := by
    rw [UInt32.toNat_ofNat_of_lt' small, length_format]
  refine (reads_readLeU16 1).bind (.after (reads_ensure rfl _) ?_)
  refine (reads_readLeU16 channels).bind ((reads_readLeU32 f.sampleRate).bind ?_)
  refine (reads_readLeU32 f.byteRate).bind ((reads_readLeU16 f.blockAlign).bind ?_)
  refine (reads_readLeU16 16).bind (.after (reads_ensure rfl _) ?_)
  split
  next more =>
    have left : (UInt32.ofNat (f.chunk channels).body.length).toNat - 16 = f.extra.length := by omega
    have skipped := reads_discard eof (Nat.lt_min.mpr ⟨Nat.sub_pos_of_lt more, Nat.succ_pos 4095⟩) f.extra
    rw [← left] at skipped
    exact skipped.before (reads_pure _)
  next none =>
    have empty : f.extra = [] := List.length_eq_zero_iff.mp (by omega)
    rw [empty]
    exact reads_pure _

/-- A half, rounded toward zero, stays within its bounds. -/
theorem half_bounds {low high sum : Int} (least : 2 * low ≤ sum) (most : sum ≤ 2 * high) :
    low ≤ sum.tdiv 2 ∧ sum.tdiv 2 ≤ high := by
  rw [Int.tdiv_eq_ediv]
  split
  · omega
  · change low ≤ sum / 2 + 1 ∧ sum / 2 + 1 ≤ high
    omega

/-- The average of two samples is the exact one, rounded toward zero. -/
theorem average_toInt (left right : Int16) :
    (average left right).toInt = (left.toInt + right.toInt).tdiv 2 := by
  have lowLeft := left.le_toInt
  have highLeft := left.toInt_lt
  have lowRight := right.le_toInt
  have highRight := right.toInt_lt
  have sum : (left.toInt32 + right.toInt32).toInt = left.toInt + right.toInt := by
    rw [Int32.toInt_add, Int16.toInt_toInt32, Int16.toInt_toInt32]
    exact Int.bmod_eq_of_le (by omega) (by omega)
  obtain ⟨least, most⟩ := @half_bounds (-2 ^ 15) (2 ^ 15 - 1) (left.toInt + right.toInt) (by omega) (by omega)
  have half : ((left.toInt32 + right.toInt32) / 2).toInt = (left.toInt + right.toInt).tdiv 2 := by
    rw [Int32.toInt_div, sum]
    change ((left.toInt + right.toInt).tdiv 2).bmod (2 ^ 32) = _
    exact Int.bmod_eq_of_le (by omega) (by omega)
  rw [average, Int32.toInt_toInt16, half]
  exact Int.bmod_eq_of_le (by omega) (by omega)

theorem downmix_interleaved (frames : List (Int16 × Int16)) :
    downmix (frames.flatMap fun frame => [frame.1, frame.2]) =
      frames.map fun frame => Int16.ofInt ((frame.1.toInt + frame.2.toInt).tdiv 2) := by
  induction frames with
  | nil => rfl
  | cons frame rest ih =>
    rw [List.flatMap_cons, List.map_cons, ← ih, ← average_toInt, Int16.ofInt_toInt]
    rfl

theorem reads_readData (audio : Audio) {s : Parsed} (channels : s.numChannels = audio.channels)
    (small : audio.chunk.body.length < 2 ^ 32) :
    Reads (readData (UInt32.ofNat audio.chunk.body.length) s) audio.chunk.body
      { s with pcmData := some audio.pcm } := by
  have size : (UInt32.ofNat audio.chunk.body.length).toNat = audio.chunk.body.length :=
    UInt32.toNat_ofNat_of_lt' small
  rw [readData, size]
  refine (reads_readExact eof audio.chunk.body).before ?_
  dsimp only
  rw [show bytesToI16 audio.chunk.body = audio.interleaved from bytesToI16_writeI16Le _, channels]
  cases audio with
  | mono samples => exact reads_pure _
  | stereo frames =>
    have mixed : downmix (Audio.stereo frames).interleaved = (Audio.stereo frames).pcm :=
      downmix_interleaved frames
    rw [if_pos (show (Audio.stereo frames).channels = 2 from rfl), mixed]
    exact reads_pure _

def Means (s : Parsed) (c : Chunk) (next : Parsed) : Prop :=
  Reads (readChunk c.id s) (leBytes 4 c.body.length ++ c.body) next

theorem reads_size {c : Chunk} (small : c.body.length < 2 ^ 32) :
    Reads readLeU32 (leBytes 4 c.body.length) (UInt32.ofNat c.body.length) := by
  have reads := reads_readLeU32 (UInt32.ofNat c.body.length)
  rwa [UInt32.toNat_ofNat_of_lt' small] at reads

theorem means_unknown {c : Chunk} (unknown : Unknown c) (small : c.body.length < 2 ^ 32) (s : Parsed) :
    Means s c s := by
  refine (reads_size small).bind ?_
  rw [if_neg unknown.1, if_neg unknown.2, UInt32.toNat_ofNat_of_lt' small]
  exact (reads_discard eof _ c.body).before (reads_pure s)

theorem means_format (f : Format) (channels : UInt16) (s : Parsed)
    (small : (f.chunk channels).body.length < 2 ^ 32) :
    Means s (f.chunk channels) { s with sampleRate := f.sampleRate, numChannels := channels } := by
  refine (reads_size small).bind ?_
  rw [if_pos (show (f.chunk channels).id = utf8 "fmt " from rfl)]
  exact reads_readFmt f channels s small

theorem means_data (audio : Audio) {s : Parsed} (channels : s.numChannels = audio.channels)
    (small : audio.chunk.body.length < 2 ^ 32) :
    Means s audio.chunk { s with pcmData := some audio.pcm } := by
  refine (reads_size small).bind ?_
  have other : audio.chunk.id ≠ utf8 "fmt " := by
    change utf8 "data" ≠ utf8 "fmt "
    decide
  rw [if_neg other, if_pos (show audio.chunk.id = utf8 "data" from rfl)]
  exact reads_readData audio channels small

inductive Chain : Parsed → List Chunk → Parsed → Prop
  | nil (s : Parsed) : Chain s [] s
  | cons {s next final : Parsed} {c : Chunk} {rest : List Chunk} :
      Means s c next → Chain next rest final → Chain s (c :: rest) final

theorem Chain.append {s next final : Parsed} {front back : List Chunk} (first : Chain s front next)
    (second : Chain next back final) : Chain s (front ++ back) final := by
  induction first with
  | nil => exact second
  | cons first _ ih => exact .cons first (ih second)

theorem Chain.split {s final : Parsed} {front back : List Chunk} (chain : Chain s (front ++ back) final) :
    ∃ mid, Chain s front mid ∧ Chain mid back final := by
  induction front generalizing s with
  | nil => exact ⟨s, .nil s, chain⟩
  | cons c front ih =>
    cases chain with
    | cons means chain =>
      obtain ⟨mid, first, second⟩ := ih chain
      exact ⟨mid, .cons means first, second⟩

theorem chain_unknown {chunks : List Chunk} (unknown : ∀ c ∈ chunks, Unknown c)
    (small : ∀ c ∈ chunks, c.body.length < 2 ^ 32) (s : Parsed) : Chain s chunks s := by
  induction chunks with
  | nil => exact .nil s
  | cons c rest ih =>
    rw [List.forall_mem_cons] at unknown small
    exact .cons (means_unknown unknown.1 small.1 s) (ih unknown.2 small.2)

theorem walk_eq (s : Parsed) (cursor : Cursor) :
    walk s cursor = match (readExact eof 4).run cursor with
      | .error _ => .ok s
      | .ok (chunkId, behind) => match (readChunk chunkId s).run behind with
        | .error error => .error error
        | .ok (next, after) => walk next after := by
  rw [walk]
  split
  next taken => rw [taken]
  next chunkId behind taken =>
    rw [taken]
    dsimp only
    split
    next read => rw [read]
    next read => rw [read]

theorem walk_end {s : Parsed} {cursor : Cursor} (short : cursor.rest.length < 4) : walk s cursor = .ok s := by
  rw [walk_eq, readExact_short eof short]

theorem run_id (c : Chunk) (position : Nat) (back : List UInt8) :
    (readExact eof 4).run ⟨position, c.bytes ++ back⟩ =
      .ok (c.id, ⟨position + 4, leBytes 4 c.body.length ++ c.body ++ (c.padding ++ back)⟩) := by
  have id := reads_readExact eof c.id position (leBytes 4 c.body.length ++ c.body ++ (c.padding ++ back))
  rw [c.four] at id
  simpa [Chunk.bytes] using id

theorem walk_chunk {s next : Parsed} {c : Chunk} (means : Means s c next) (position : Nat) (back : List UInt8) :
    ∃ after, walk s ⟨position, c.bytes ++ back⟩ = walk next ⟨after, c.padding ++ back⟩ := by
  refine ⟨position + 4 + (leBytes 4 c.body.length ++ c.body).length, ?_⟩
  rw [walk_eq, run_id]
  dsimp only
  rw [means]

theorem walk_front {s mid : Parsed} {front : List Chunk} (chain : Chain s front mid)
    (even : ∀ c ∈ front, c.body.length % 2 = 0) (position : Nat) (back : List UInt8) :
    ∃ after, walk s ⟨position, front.flatMap Chunk.bytes ++ back⟩ = walk mid ⟨after, back⟩ := by
  induction chain generalizing position with
  | nil => exact ⟨position, rfl⟩
  | @cons s next final c rest means chain ih =>
    rw [List.forall_mem_cons] at even
    rw [List.flatMap_cons, List.append_assoc]
    obtain ⟨behind, walked⟩ := walk_chunk means position (rest.flatMap Chunk.bytes ++ back)
    rw [walked, Chunk.padding, if_pos even.1]
    exact ih even.2 behind

/-- Where only the last chunk may have an odd size, the loop reads every chunk. -/
theorem walk_chain {s final : Parsed} {chunks : List Chunk} (chain : Chain s chunks final)
    (even : ∀ c ∈ chunks.dropLast, c.body.length % 2 = 0) (position : Nat) :
    walk s ⟨position, chunks.flatMap Chunk.bytes⟩ = .ok final := by
  obtain rfl | nonempty := eq_or_ne chunks []
  · cases chain
    exact walk_end (Nat.succ_pos 3)
  · rw [← List.dropLast_append_getLast nonempty] at chain
    obtain ⟨mid, front, last⟩ := chain.split
    cases last with
    | cons means none =>
      cases none
      obtain ⟨before, walked⟩ := walk_front front even position (chunks.getLast nonempty).bytes
      obtain ⟨behind, ended⟩ := walk_chunk means before []
      rw [List.append_nil] at ended
      have whole : chunks.flatMap Chunk.bytes =
          chunks.dropLast.flatMap Chunk.bytes ++ (chunks.getLast nonempty).bytes := by
        rw [← List.flatMap_singleton Chunk.bytes (chunks.getLast nonempty), ← List.flatMap_append,
          List.dropLast_append_getLast]
      rw [whole, walked, ended]
      refine walk_end ?_
      rw [Chunk.padding]
      split <;> simp

/-- The size that is read one byte early: the last letter of the id and three bytes of the size. -/
def misread (c : Chunk) : Nat := ofLeBytes (c.id.drop 3) + 2 ^ 8 * (c.body.length % 2 ^ 24)

theorem reads_word (bytes : List UInt8) (four : bytes.length = 4) :
    Reads readLeU32 bytes (UInt32.ofNat (ofLeBytes bytes)) := by
  have reads := ((reads_readExact eof bytes).map ofLeBytes).map UInt32.ofNat
  rwa [four] at reads

theorem bytes_early (c : Chunk) : ∃ letters word tail, c.bytes = letters ++ (word ++ tail) ∧
    letters.length = 3 ∧ word.length = 4 ∧ ofLeBytes word = misread c := by
  obtain ⟨id, four, body, pad⟩ := c
  obtain ⟨a, b, c, d, rfl⟩ := List.length_eq_four.mp four
  refine ⟨[a, b, c], d :: leBytes 3 body.length, _, rfl, rfl, rfl, ?_⟩
  simp only [misread, leBytes, ofLeBytes, List.drop_succ_cons, List.drop_zero, UInt8.toNat_ofNat']
  omega

theorem misread_lt (c : Chunk) : misread c < 2 ^ 32 := by
  obtain ⟨id, four, body, pad⟩ := c
  obtain ⟨a, b, c, d, rfl⟩ := List.length_eq_four.mp four
  have letter := d.toNat_lt
  simp only [misread, ofLeBytes, List.drop_succ_cons, List.drop_zero]
  omega

/-- Behind a chunk of an odd size the loop takes the padding for the first letter of the next id. -/
theorem walk_misread {s next : Parsed} {odd following : Chunk} (means : Means s odd next)
    (uneven : odd.body.length % 2 = 1) (pad : odd.pad = 0) {back : List UInt8}
    (short : (following.bytes ++ back).length < 7 + misread following) (position : Nat) :
    ∃ error, walk s ⟨position, odd.bytes ++ (following.bytes ++ back)⟩ = .error error := by
  obtain ⟨behind, walked⟩ := walk_chunk means position (following.bytes ++ back)
  obtain ⟨letters, word, tail, bytes, three, four, size⟩ := bytes_early following
  rw [walked, Chunk.padding, if_neg (by omega), pad]
  -- The id that is read starts with the padding, which no known id does.
  have id := reads_readExact eof (0 :: letters) behind (word ++ (tail ++ back))
  rw [List.length_cons, three] at id
  have other : ∀ known, known.head? ≠ some 0 → 0 :: letters ≠ known := by
    rintro known first rfl
    exact first rfl
  have left : (tail ++ back).length < misread following := by
    simp only [bytes, List.length_append] at short ⊢
    omega
  obtain ⟨error, failed⟩ := @discard_short String eof 4096 (Nat.succ_pos 4095) (misread following)
    ⟨behind + 4 + word.length, tail ++ back⟩ left
  have chunk : (readChunk (0 :: letters) next).run ⟨behind + 4, word ++ (tail ++ back)⟩ = .error error := by
    rw [readChunk, run_bind, reads_word word four]
    dsimp only
    rw [if_neg (other _ (by decide)), if_neg (other _ (by decide)), size,
      UInt32.toNat_ofNat_of_lt' (misread_lt following), run_bind, failed]
  have front : [0] ++ (letters ++ (word ++ tail) ++ back) = 0 :: letters ++ (word ++ (tail ++ back)) := by simp
  refine ⟨error, ?_⟩
  rw [bytes, front, walk_eq, id]
  dsimp only
  rw [chunk]

theorem reads_readHeader {size : Nat} (small : size < 2 ^ 32) :
    Reads readHeader (utf8 "RIFF" ++ (leBytes 4 size ++ utf8 "WAVE")) () := by
  have word := reads_readLeU32 (UInt32.ofNat size)
  rw [UInt32.toNat_ofNat_of_lt' small] at word
  refine (reads_readExact eof (utf8 "RIFF")).bind (.after (reads_ensure rfl _) (word.bind ?_))
  exact (reads_readExact eof (utf8 "WAVE")).before (reads_ensure rfl _)

theorem decode_riff {chunks : List Chunk} (small : 4 + (chunks.flatMap Chunk.bytes).length < 2 ^ 32) :
    decodeWavToPcm (riff chunks) = (walk {} ⟨12, chunks.flatMap Chunk.bytes⟩ >>= Parsed.finish) := by
  have header := reads_readHeader small 0 (chunks.flatMap Chunk.bytes)
  have bytes : riff chunks = utf8 "RIFF" ++ (leBytes 4 (4 + (chunks.flatMap Chunk.bytes).length) ++
      utf8 "WAVE") ++ chunks.flatMap Chunk.bytes := by
    simp only [riff, List.append_assoc]
  rw [decodeWavToPcm, bytes, header]
  rfl

theorem length_body_le {c : Chunk} {chunks : List Chunk} (occurs : c ∈ chunks) :
    c.body.length ≤ (chunks.flatMap Chunk.bytes).length := by
  obtain ⟨front, back, rfl⟩ := List.append_of_mem occurs
  simp only [List.flatMap_append, List.flatMap_cons, List.length_append, Chunk.bytes]
  omega

theorem WavFile.chain (f : WavFile) :
    Chain {} f.chunks ⟨f.format.sampleRate, f.audio.channels, some f.audio.pcm⟩ := by
  have small : ∀ c ∈ f.chunks, c.body.length < 2 ^ 32 := by
    intro c occurs
    have total : 4 + (f.chunks.flatMap Chunk.bytes).length < 2 ^ 32 := f.fits
    have body := length_body_le occurs
    omega
  have unknown := f.unknown
  simp only [WavFile.chunks, List.forall_mem_append, List.forall_mem_cons] at small unknown
  obtain ⟨before, format, between, data, after⟩ := small
  obtain ⟨⟨first, second⟩, third⟩ := unknown
  refine (chain_unknown first before {}).append (.cons (means_format f.format f.audio.channels {} format) ?_)
  exact (chain_unknown second between _).append (.cons (means_data f.audio rfl data) (chain_unknown third after _))

def WavFile.Even (f : WavFile) : Prop := ∀ c ∈ f.chunks.dropLast, c.body.length % 2 = 0

def WavFile.Misread (f : WavFile) : Prop :=
  ∃ front odd following back, f.chunks = front ++ odd :: following :: back ∧
    (∀ c ∈ front, c.body.length % 2 = 0) ∧ odd.body.length % 2 = 1 ∧ odd.pad = 0 ∧
    ((following :: back).flatMap Chunk.bytes).length < 7 + misread following

theorem WavFile.decode_eq (f : WavFile) : decodeWavToPcm f.bytes =
    (walk {} ⟨12, f.chunks.flatMap Chunk.bytes⟩ >>= Parsed.finish) := decode_riff f.fits

theorem WavFile.Even.decodes {f : WavFile} (even : f.Even) : f.Decodes := by
  rw [WavFile.Decodes, f.decode_eq, walk_chain f.chain even]
  exact if_neg f.rated

theorem WavFile.Misread.not_decodes {f : WavFile} (misread : f.Misread) : ¬f.Decodes := by
  obtain ⟨front, odd, following, back, chunks, even, uneven, pad, short⟩ := misread
  have chain := f.chain
  rw [chunks] at chain
  obtain ⟨mid, first, last⟩ := chain.split
  cases last with
  | cons means _ =>
    have bytes : f.chunks.flatMap Chunk.bytes = front.flatMap Chunk.bytes ++
        (odd.bytes ++ (following.bytes ++ back.flatMap Chunk.bytes)) := by
      rw [chunks, List.flatMap_append, List.flatMap_cons, List.flatMap_cons]
    rw [List.flatMap_cons] at short
    obtain ⟨behind, walked⟩ := walk_front first even 12
      (odd.bytes ++ (following.bytes ++ back.flatMap Chunk.bytes))
    obtain ⟨error, failed⟩ := walk_misread means uneven pad short behind
    intro decodes
    rw [WavFile.Decodes, f.decode_eq, bytes, walked, failed] at decodes
    cases decodes

/-- A file is decoded where only its last chunk may have an odd size. It is not where a chunk of an
odd size makes the loop misread a size that is more than what is left of the file. -/
theorem decode_follows (f : WavFile) : (f.Even → f.Decodes) ∧ (f.Misread → ¬f.Decodes) :=
  ⟨WavFile.Even.decodes, WavFile.Misread.not_decodes⟩

instance (f : WavFile) : Decidable f.Even := inferInstanceAs (Decidable (∀ c ∈ f.chunks.dropLast, _))

instance (c : Chunk) : Decidable (Unknown c) := inferInstanceAs (Decidable (_ ∧ _))

def behindUnknown (before : List Chunk) (unknown : ∀ c ∈ before, Unknown c)
    (fits : (before.flatMap Chunk.bytes).length < 2 ^ 31) : WavFile where
  format := ⟨8000, 16000, 2, [], 0⟩
  rated := by decide
  audio := .mono [42, -43]
  before := before
  between := []
  after := []
  unknown := by simpa using unknown
  fits := by
    rw [List.flatMap_append, List.length_append]
    change 4 + (_ + 36) < 2 ^ 32
    omega

def junk (body : List UInt8) : Chunk := ⟨utf8 "JUNK", by decide, body, 0⟩

def evenJunk : WavFile := behindUnknown [junk [1, 2]] (by decide) (by decide)

def oddJunk : WavFile := behindUnknown [junk [1]] (by decide) (by decide)

/-- A chunk of one byte is padded, and the padding is read for the next id. -/
theorem oddJunk_not_decoded : ¬oddJunk.Decodes := by
  have failed : (decodeWavToPcm oddJunk.bytes).toOption = none := by decide +kernel
  intro decodes
  rw [WavFile.Decodes] at decodes
  rw [decodes] at failed
  cases failed

theorem junk_decoded : evenJunk.Decodes ∧ ¬oddJunk.Decodes :=
  ⟨(decode_follows evenJunk).1 (by decide), (decode_follows oddJunk).2
    ⟨[], _, _, _, rfl, by simp, by decide, by decide, by decide +kernel⟩⟩

def checkedAdd (left right : UInt32) : Option UInt32 :=
  if left.toNat + right.toNat < 2 ^ 32 then some (left + right) else none

def checkedMul (left right : UInt32) : Option UInt32 :=
  if left.toNat * right.toNat < 2 ^ 32 then some (left * right) else none

def encodeWav (audio : Pcm) (sampleRate : UInt32) : Option (List UInt8) := do
  let dataSize ← checkedMul (UInt32.ofNat audio.length) 2
  let fileSize ← checkedAdd 36 dataSize
  let byteRate ← checkedMul sampleRate 2
  pure (utf8 "RIFF" ++ (leBytes 4 fileSize.toNat ++ (utf8 "WAVE" ++
    (utf8 "fmt " ++ (leBytes 4 16 ++ (leBytes 2 1 ++ (leBytes 2 1 ++ (leBytes 4 sampleRate.toNat ++
    (leBytes 4 byteRate.toNat ++ (leBytes 2 2 ++ (leBytes 2 16 ++
    (utf8 "data" ++ (leBytes 4 dataSize.toNat ++ writeI16Le audio)))))))))))))

def monoFormat (sampleRate : UInt32) : Format where
  sampleRate := sampleRate
  byteRate := sampleRate * 2
  blockAlign := 2

def encoded (audio : Pcm) (sampleRate : UInt32) : List Chunk :=
  [(monoFormat sampleRate).chunk 1, (Audio.mono audio).chunk]

theorem format_size (sampleRate : UInt32) : ((monoFormat sampleRate).chunk 1).body.length = 16 :=
  length_format (monoFormat sampleRate) 1

theorem format_bytes (sampleRate : UInt32) : ((monoFormat sampleRate).chunk 1).bytes =
    utf8 "fmt " ++ (leBytes 4 16 ++ (leBytes 2 1 ++ (leBytes 2 1 ++ (leBytes 4 sampleRate.toNat ++
      (leBytes 4 (sampleRate * 2).toNat ++ (leBytes 2 2 ++ leBytes 2 16)))))) := by
  rw [Chunk.bytes, Chunk.padding, format_size, if_pos (show 16 % 2 = 0 from rfl), List.append_nil]
  simp only [Format.chunk, monoFormat, List.append_nil]
  rfl

theorem data_bytes (audio : Pcm) : (Audio.mono audio).chunk.bytes =
    utf8 "data" ++ (leBytes 4 (2 * audio.length) ++ writeI16Le audio) := by
  have size : (Audio.mono audio).chunk.body.length = 2 * audio.length := length_writeI16Le audio
  rw [Chunk.bytes, Chunk.padding, size, if_pos (Nat.mul_mod_right 2 audio.length), List.append_nil]
  rfl

theorem encoded_length (audio : Pcm) (sampleRate : UInt32) :
    ((encoded audio sampleRate).flatMap Chunk.bytes).length = 32 + 2 * audio.length := by
  rw [encoded, List.flatMap_cons, List.flatMap_cons, List.flatMap_nil, List.append_nil, List.length_append,
    format_bytes, data_bytes]
  have header : (utf8 "fmt ").length = 4 ∧ (utf8 "data").length = 4 := by decide
  simp only [List.length_append, length_leBytes, length_writeI16Le, header.1, header.2]
  omega

/-- The sizes do not overflow, and the file is one of a format chunk and a data chunk. -/
theorem encodeWav_eq {audio : Pcm} {sampleRate : UInt32} (small : 36 + 2 * audio.length < 2 ^ 32)
    (slow : sampleRate.toNat < 2 ^ 31) : encodeWav audio sampleRate = some (riff (encoded audio sampleRate)) := by
  have few : audio.length < 2 ^ 32 := by omega
  have count : (UInt32.ofNat audio.length).toNat = audio.length := UInt32.toNat_ofNat_of_lt' few
  have data : (UInt32.ofNat audio.length * 2).toNat = 2 * audio.length := by
    rw [UInt32.toNat_mul, count]
    change audio.length * 2 % 2 ^ 32 = _
    omega
  have file : (36 + UInt32.ofNat audio.length * 2).toNat = 36 + 2 * audio.length := by
    rw [UInt32.toNat_add, data]
    change (36 + 2 * audio.length) % 2 ^ 32 = _
    omega
  have dataSize : checkedMul (UInt32.ofNat audio.length) 2 = some (UInt32.ofNat audio.length * 2) := by
    refine if_pos ?_
    rw [count]
    change audio.length * 2 < 2 ^ 32
    omega
  have fileSize : checkedAdd 36 (UInt32.ofNat audio.length * 2) = some (36 + UInt32.ofNat audio.length * 2) := by
    refine if_pos ?_
    rw [data]
    exact small
  have byteRate : checkedMul sampleRate 2 = some (sampleRate * 2) := by
    refine if_pos ?_
    change sampleRate.toNat * 2 < 2 ^ 32
    omega
  rw [encodeWav, dataSize, Option.bind_eq_bind, Option.bind_some, fileSize, Option.bind_some, byteRate,
    Option.bind_some, file, data, riff, encoded_length, encoded, List.flatMap_cons, List.flatMap_cons,
    List.flatMap_nil, List.append_nil, format_bytes, data_bytes]
  simp only [List.append_assoc]
  rw [show 36 + 2 * audio.length = 4 + (32 + 2 * audio.length) by omega]
  rfl

def encodedFile (audio : Pcm) (sampleRate : UInt32) (small : 36 + 2 * audio.length < 2 ^ 32)
    (rated : sampleRate ≠ 0) : WavFile where
  format := monoFormat sampleRate
  rated := rated
  audio := .mono audio
  before := []
  between := []
  after := []
  unknown := by simp
  fits := by
    change 4 + ((encoded audio sampleRate).flatMap Chunk.bytes).length < 2 ^ 32
    rw [encoded_length]
    omega

/-- What is written is decoded again. -/
theorem decode_encodeWav (audio : Pcm) (sampleRate : UInt32) (small : 36 + 2 * audio.length < 2 ^ 32)
    (rated : 1 ≤ sampleRate.toNat) (slow : sampleRate.toNat < 2 ^ 31) :
    (encodeWav audio sampleRate).map decodeWavToPcm = some (.ok (audio, sampleRate)) := by
  have nonzero : sampleRate ≠ 0 := by
    rintro rfl
    cases rated
  have even : (encodedFile audio sampleRate small nonzero).Even := by
    intro c occurs
    rw [List.mem_singleton.mp occurs]
    exact congrArg (· % 2) (format_size sampleRate)
  rw [encodeWav_eq small slow, Option.map_some]
  exact congrArg some even.decodes

theorem decode_encodeWav_three :
    (encodeWav [100, -200, 300] 8000).map decodeWavToPcm = some (.ok ([100, -200, 300], 8000)) :=
  decode_encodeWav [100, -200, 300] 8000 (by decide) (by decide) (by decide)

end Fswtch.Seat.Wav
