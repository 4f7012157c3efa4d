import Fswtch.Lib.Base64
import Fswtch.Seat.MimoTts
import Fswtch.Unicast.Media

/-! The PCM of a MIMO response. It comes in pieces, each in an event of its own, and each piece
is decoded to samples by itself. -/

namespace Fswtch.Seat.MimoTts
open Fswtch.Lib Fswtch.Lib.ByteReader Fswtch.Lib.ChunkedText
open Fswtch.Seat.SentenceSplit Fswtch.Seat.DoubaoStream
open Fswtch.Unicast.Media (writeI16Le bytesToI16 fromLeBytes length_writeI16Le bytesToI16_writeI16Le)

variable {ρ : Type}

/-- The decoder with a record of all samples that its resampler was called with. -/
def Decoder.tracked (d : Decoder ρ) : Decoder (ρ × Pcm) where
  parse := d.parse
  base64 := d.base64
  fresh := (d.fresh, [])
  process state pcm := (((d.process state.1 pcm).1, state.2 ++ pcm), (d.process state.1 pcm).2)

/-- The chunks of a response are read one after the other, and what each brings is pushed. -/
def Synthesis.stream (d : Decoder ρ) (c : Synthesis ρ) : List (List UInt8) → Option (Synthesis ρ)
  | [] => some c
  | bytes :: rest => (c.chunk d bytes 0).bind fun next => { next with queue := [] }.stream d rest

/-- The samples that a call feeds to its resampler, or `none` where it fails. -/
def fed (d : Decoder ρ) (turn : Nat) (chunks : List (List UInt8)) : Option Pcm :=
  (Synthesis.stream d.tracked { turn, phase := .streaming, resampler := d.tracked.fresh } chunks).bind
    fun c => if c.phase = .streaming then some c.resampler.2 else none

def audioField (d : Decoder ρ) (block : Text) : Option Text :=
  if readBlock block = [] then none else (d.parse (readBlock block)).bind audioData

inductive Carries (d : Decoder ρ) : List Text → List (List UInt8) → Prop
  | nil : Carries d [] []
  | done (block : Text) (last : readBlock block = "[DONE]".toList) : Carries d [block] []
  | other (block : Text) (blocks : List Text) (pieces : List (List UInt8))
      (on : readBlock block ≠ "[DONE]".toList) (none : audioField d block = none)
      (later : Carries d blocks pieces) : Carries d (block :: blocks) pieces
  | piece (block : Text) (blocks : List Text) (audio : Text) (bytes : List UInt8)
      (pieces : List (List UInt8)) (on : readBlock block ≠ "[DONE]".toList)
      (found : audioField d block = some audio) (encoded : d.base64 audio = some bytes)
      (later : Carries d blocks pieces) : Carries d (block :: blocks) (bytes :: pieces)

def blocks (text : Text) : List Text := (drainBlocks (withoutReturns text)).1

theorem samples_eq (bytes : List UInt8) : samples bytes = bytesToI16 bytes := by
  fun_induction samples bytes with
  | case1 low high rest ih =>
    rw [ih, bytesToI16, fromLeBytes, Nat.mul_comm]
    rfl
  | case2 bytes short =>
    rw [bytesToI16]
    exact short

theorem samples_writeI16Le (pcm : Pcm) : samples (writeI16Le pcm) = pcm := by
  rw [samples_eq, bytesToI16_writeI16Le]

theorem length_of_short {bytes : List UInt8} (short : ∀ low high rest, bytes = low :: high :: rest → False) :
    bytes.length < 2 := by
  rcases bytes with _ | ⟨low, _ | ⟨high, rest⟩⟩
  · exact Nat.succ_pos 1
  · exact Nat.lt_succ_self 1
  · exact absurd rfl (short low high rest)

theorem samples_length (bytes : List UInt8) : (samples bytes).length = bytes.length / 2 := by
  fun_induction samples bytes with
  | case1 low high rest ih =>
    rw [List.length_cons, ih]
    simp only [List.length_cons]
    omega
  | case2 bytes short => exact (Nat.div_eq_of_lt (length_of_short short)).symm

theorem samples_append {first : List UInt8} (even : first.length % 2 = 0) (second : List UInt8) :
    samples (first ++ second) = samples first ++ samples second := by
  fun_induction samples first with
  | case1 low high rest ih =>
    have even : rest.length % 2 = 0 := by
      simp only [List.length_cons] at even
      omega
    rw [List.cons_append, List.cons_append, samples, ih even, List.cons_append]
  | case2 bytes short =>
    have empty : bytes.length = 0 := by
      have bound := length_of_short short
      omega
    rw [List.length_eq_zero_iff.mp empty]
    rfl

theorem flatMap_samples_length (pieces : List (List UInt8)) :
    2 * (pieces.flatMap samples).length ≤ pieces.flatten.length ∧
      (2 * (pieces.flatMap samples).length = pieces.flatten.length →
        ∀ piece ∈ pieces, piece.length % 2 = 0) := by
  induction pieces with
  | nil => exact ⟨le_rfl, fun _ => nofun⟩
  | cons piece rest ih =>
    obtain ⟨bound, even⟩ := ih
    rw [List.flatMap_cons, List.flatten_cons, List.length_append, List.length_append, samples_length]
    refine ⟨by omega, fun same => ?_⟩
    rw [List.forall_mem_cons]
    exact ⟨by omega, even (by omega)⟩

theorem flatMap_samples_even {pieces : List (List UInt8)} (even : ∀ piece ∈ pieces, piece.length % 2 = 0) :
    pieces.flatMap samples = samples pieces.flatten := by
  induction pieces with
  | nil => rfl
  | cons piece rest ih =>
    rw [List.forall_mem_cons] at even
    rw [List.flatMap_cons, List.flatten_cons, ih even.2, samples_append even.1]

theorem flatMap_samples {pieces : List (List UInt8)} {pcm : Pcm} (cut : pieces.flatten = writeI16Le pcm) :
    pieces.flatMap samples = pcm ↔ ∀ piece ∈ pieces, piece.length % 2 = 0 := by
  constructor
  · intro same
    apply (flatMap_samples_length pieces).2
    rw [same, cut, length_writeI16Le]
  · intro even
    rw [flatMap_samples_even even, cut, samples_writeI16Le]

theorem cutBlankLine_tail {front back : Text} (uncut : cutBlankLine (front ++ back) = none) :
    cutBlankLine back = none := by
  induction front with
  | nil => exact uncut
  | cons ch rest ih =>
    apply ih
    rw [List.cons_append] at uncut
    unfold cutBlankLine at uncut
    split at uncut
    next empty => cases empty
    next => cases uncut
    next later _ same =>
      cases same
      exact Option.map_eq_none_iff.mp uncut

theorem cutBlankLine_of_blocks {text : Text} (none : blocks text = []) :
    cutBlankLine (withoutReturns text) = .none := by
  cases cut : cutBlankLine (withoutReturns text) with
  | none => rfl
  | some halves =>
    rw [blocks, drainBlocks_some cut] at none
    cases none

theorem blocks_tail {front back : Text} (none : blocks (front ++ back) = []) : blocks back = [] := by
  have uncut := cutBlankLine_of_blocks none
  rw [withoutReturns_append] at uncut
  rw [blocks, drainBlocks_none (cutBlankLine_tail uncut)]

theorem readBlocks_done (d : Decoder ρ) (resampler : ρ) {block : Text} (rest : List Text)
    (last : readBlock block = "[DONE]".toList) :
    readBlocks d resampler (block :: rest) = { resampler, ending := .done } := by
  rw [readBlocks, last]
  rfl

theorem readBlocks_other {d : Decoder ρ} {block : Text} (on : readBlock block ≠ "[DONE]".toList)
    (none : audioField d block = none) (resampler : ρ) (rest : List Text) :
    readBlocks d resampler (block :: rest) = readBlocks d resampler rest := by
  unfold audioField at none
  rw [readBlocks]
  simp only
  by_cases empty : readBlock block = []
  · rw [if_pos empty]
  · rw [if_neg empty] at none
    rw [if_neg empty, if_neg on, none]

theorem readBlocks_piece {d : Decoder ρ} {block audio : Text} {bytes : List UInt8}
    (on : readBlock block ≠ "[DONE]".toList) (found : audioField d block = some audio)
    (encoded : d.base64 audio = some bytes) (resampler : ρ) (rest : List Text) :
    ∃ pushed, readBlocks d resampler (block :: rest) =
      { readBlocks d (d.process resampler (samples bytes)).1 rest with audio := pushed } := by
  unfold audioField at found
  rw [readBlocks]
  simp only
  by_cases empty : readBlock block = []
  · rw [if_pos empty] at found
    cases found
  · rw [if_neg empty] at found
    rw [if_neg empty, if_neg on, found]
    simp only [encoded]
    exact ⟨_, rfl⟩

theorem Carries.read {d : Decoder ρ} {blocks : List Text} {pieces : List (List UInt8)}
    (carries : Carries d blocks pieces) (state : ρ × Pcm) :
    (readBlocks d.tracked state blocks).ending ≠ .failed ∧
      (readBlocks d.tracked state blocks).resampler.2 = state.2 ++ pieces.flatMap samples := by
  induction carries generalizing state with
  | nil => exact ⟨nofun, (List.append_nil _).symm⟩
  | done block last =>
    rw [readBlocks_done d.tracked state [] last]
    exact ⟨nofun, (List.append_nil _).symm⟩
  | other block blocks pieces on none later ih =>
    have skipped := @readBlocks_other _ d.tracked block on none state blocks
    rw [skipped]
    exact ih state
  | piece block blocks audio bytes pieces on found encoded later ih =>
    obtain ⟨pushed, read⟩ := @readBlocks_piece _ d.tracked block audio bytes on found encoded state blocks
    obtain ⟨reads, feeds⟩ := ih (d.tracked.process state (samples bytes)).1
    rw [read, List.flatMap_cons, ← List.append_assoc]
    exact ⟨reads, feeds⟩

theorem Carries.split {d : Decoder ρ} {first second : List Text} {pieces : List (List UInt8)}
    (carries : Carries d (first ++ second) pieces) :
    ∃ front back, pieces = front ++ back ∧ Carries d first front ∧ Carries d second back ∧
      ∀ state, (readBlocks d.tracked state first).ending = .done → second = [] := by
  induction first generalizing pieces with
  | nil => exact ⟨[], pieces, rfl, .nil, carries, nofun⟩
  | cons block rest ih =>
    rw [List.cons_append] at carries
    generalize whole : rest ++ second = later at carries ih
    cases carries with
    | done _ last =>
      obtain ⟨rfl, rfl⟩ := List.append_eq_nil_iff.mp whole
      exact ⟨[], [], rfl, .done block last, .nil, fun _ _ => rfl⟩
    | other _ _ _ on none later =>
      obtain ⟨front, back, rfl, one, two, ends⟩ := ih later
      refine ⟨front, back, rfl, .other block rest front on none one, two, fun state => ?_⟩
      have skipped := @readBlocks_other _ d.tracked block on none state rest
      rw [skipped]
      exact ends state
    | piece _ _ audio bytes _ on found encoded later =>
      obtain ⟨front, back, rfl, one, two, ends⟩ := ih later
      refine ⟨bytes :: front, back, rfl, .piece block rest audio bytes front on found encoded one, two,
        fun state => ?_⟩
      obtain ⟨pushed, read⟩ := @readBlocks_piece _ d.tracked block audio bytes on found encoded state rest
      rw [read]
      exact ends _

/-- A response is read to its end, however it was cut into chunks. -/
theorem stream_carries {d : Decoder ρ} {c : Synthesis (ρ × Pcm)} {chunks pieces : List (List UInt8)}
    (streaming : c.phase = .streaming) (idle : c.queue = []) (settled : Settled c.buffer)
    (carries : Carries d (blocks (c.buffer ++ chunks.flatMap decoded)) pieces) :
    ∃ last, c.stream d.tracked chunks = some last ∧ last.phase = .streaming ∧
      last.resampler.2 = c.resampler.2 ++ pieces.flatMap samples := by
  induction chunks generalizing c pieces with
  | nil =>
    rw [List.flatMap_nil, List.append_nil, blocks, settled.stripped, drainBlocks_none settled.uncut] at carries
    cases carries
    exact ⟨c, rfl, streaming, (List.append_nil _).symm⟩
  | cons bytes rest ih =>
    rw [List.flatMap_cons, ← List.append_assoc, blocks, drain_append] at carries
    obtain ⟨front, back, rfl, one, two, ends⟩ := carries.split
    obtain ⟨reads, feeds⟩ := one.read c.resampler
    have kept : ∀ buffer, buffer = (if (c.reading d.tracked bytes).ending = .done then [] else (c.drain bytes).2) →
        Settled buffer ∧ Carries d (blocks (buffer ++ rest.flatMap decoded)) back := by
      rintro _ rfl
      split
      next done =>
        have nothing : blocks ((c.drain bytes).2 ++ rest.flatMap decoded) = [] := ends c.resampler done
        change Carries d (blocks ((c.drain bytes).2 ++ rest.flatMap decoded)) back at two
        rw [nothing] at two
        cases two
        rw [List.nil_append, blocks_tail nothing]
        exact ⟨settled_nil, .nil⟩
      next => exact ⟨settled_drain _, two⟩
    have taken : c.chunk d.tracked bytes 0 = some _ := if_pos ⟨streaming, idle⟩
    rw [Synthesis.stream, taken, Option.bind_some, List.flatMap_append, ← List.append_assoc, ← feeds]
    exact ih (if_neg reads) rfl (kept _ rfl).1 (kept _ rfl).2

/-- However the bytes of a response are cut into chunks, its samples come to the resampler as they are. -/
def FedWhole (d : Decoder ρ) (turn : Nat) (text : String) (pcm : Pcm) : Prop :=
  ∀ chunks : List (List UInt8), chunks.flatten = utf8 text → fed d turn chunks = some pcm

section Response

variable {d : Decoder ρ} {text : String} {pieces : List (List UInt8)} {pcm : Pcm}

theorem fed_of_decodes (turn : Nat) (carries : Carries d (blocks text.toList) pieces)
    {chunks : List (List UInt8)} (whole : chunks.flatten = utf8 text)
    (decodes : ∀ chunk ∈ chunks, (fromUtf8 chunk).isSome) :
    fed d turn chunks = some (pieces.flatMap samples) := by
  rw [← (decoded_eq_iff whole).mpr decodes] at carries
  obtain ⟨last, streamed, streaming, feeds⟩ := @stream_carries ρ d
    { turn, phase := .streaming, resampler := d.tracked.fresh } chunks pieces rfl rfl settled_nil carries
  rw [fed, streamed, Option.bind_some, if_pos streaming, feeds]
  rfl

theorem fed_lost (turn : Nat) {chunks : List (List UInt8)} (lost : chunks.flatMap decoded = []) :
    fed d turn chunks = some [] := by
  have nothing : Carries d (blocks ([] ++ chunks.flatMap decoded)) [] := by
    rw [lost, blocks, drainBlocks_none rfl]
    exact .nil
  obtain ⟨last, streamed, streaming, feeds⟩ := @stream_carries ρ d
    { turn, phase := .streaming, resampler := d.tracked.fresh } chunks [] rfl rfl settled_nil nothing
  rw [fed, streamed, Option.bind_some, if_pos streaming, feeds]
  rfl

/-- A response with a character of more than one byte can be cut so that nothing is fed. -/
theorem narrow_of_fedWhole {turn : Nat} (some : pcm ≠ []) (fedWhole : FedWhole d turn text pcm) :
    ∀ c ∈ text.toList, c.utf8Size = 1 := by
  intro c member
  by_contra wide
  obtain ⟨front, back, cut, first, second⟩ := exists_lost_cut member wide
  rw [String.ofList_toList] at cut
  have whole := fedWhole [front, back] (by simpa using cut)
  rw [fed_lost turn (by simp [first, second])] at whole
  exact some (Option.some_inj.mp whole).symm

/-- Where every chunk decodes, the samples come to the resampler as they are exactly if every piece has
whole samples; for all cuts into chunks they do exactly if the response is, besides, of one-byte
characters. -/
theorem fed_iff (turn : Nat) (carries : Carries d (blocks text.toList) pieces)
    (cut : pieces.flatten = writeI16Le pcm) :
    (∀ chunks : List (List UInt8), chunks.flatten = utf8 text →
      (∀ chunk ∈ chunks, (fromUtf8 chunk).isSome) →
      (fed d turn chunks = some pcm ↔ ∀ piece ∈ pieces, piece.length % 2 = 0)) ∧
    (pcm ≠ [] → (FedWhole d turn text pcm ↔
      (∀ piece ∈ pieces, piece.length % 2 = 0) ∧ ∀ c ∈ text.toList, c.utf8Size = 1)) := by
  have decoding : ∀ chunks : List (List UInt8), chunks.flatten = utf8 text →
      (∀ chunk ∈ chunks, (fromUtf8 chunk).isSome) →
      (fed d turn chunks = some pcm ↔ ∀ piece ∈ pieces, piece.length % 2 = 0) := by
    intro chunks whole decodes
    rw [fed_of_decodes turn carries whole decodes, Option.some_inj]
    exact flatMap_samples cut
  refine ⟨decoding, fun some => ⟨fun fedWhole => ⟨?_, narrow_of_fedWhole some fedWhole⟩, ?_⟩⟩
  · have single : [utf8 text].flatten = utf8 text := by simp
    refine (decoding [utf8 text] single fun chunk member => ?_).mp (fedWhole [utf8 text] single)
    rw [List.mem_singleton.mp member]
    exact Option.isSome_iff_exists.mpr ⟨text, (fromUtf8_eq_some _ _).mpr rfl⟩
  · rintro ⟨even, narrow⟩ chunks whole
    exact (decoding chunks whole (isSome_of_narrow narrow (by rwa [String.ofList_toList]))).mpr even

end Response

/-- Reads the audio of events that have the form of `event`. -/
def plain : Decoder Unit where
  parse text := (afterFirst "\"data\":\"".toList text).map fun rest =>
    .object [("choices", .array [.object [("delta", .object [("audio",
      .object [("data", .string (rest.takeWhile fun ch => ch ≠ '"'))])])]])]
  base64 text := Base64.decode (utf8 (String.ofList text))
  fresh := ()
  process _ pcm := ((), pcm)

def eventLine (audio : String) : String :=
  "data: \x7b\"choices\":[\x7b\"delta\":\x7b\"audio\":\x7b\"data\":\"" ++ audio ++ "\"\x7d\x7d\x7d]\x7d"

def event (audio : String) : String := eventLine audio ++ "\n\n"

theorem wholeSample_fed : FedWhole plain 0 (event "AQA=") [1] := by
  have split : blocks (event "AQA=").toList = [(eventLine "AQA=").toList] := by decide +kernel
  have carries : Carries plain (blocks (event "AQA=").toList) [[1, 0]] := by
    rw [split]
    exact .piece _ [] "AQA=".toList _ [] (by decide +kernel) (by decide +kernel) (by decide +kernel) .nil
  have narrow : (event "AQA=").toList.all (fun c => c.utf8Size == 1) = true := by decide +kernel
  exact ((fed_iff 0 carries (by decide)).2 (by decide)).mpr ⟨by decide, by simpa using narrow⟩

/-- The sample 1 in two pieces of a byte each. -/
theorem cutSample_lost :
    Carries plain (blocks (event "AQ==" ++ event "AA==").toList) [[1], [0]] ∧
      [[1], [0]].flatten = writeI16Le [1] ∧
      fed plain 0 [utf8 (event "AQ=="), utf8 (event "AA==")] = some [] := by
  have split : blocks (event "AQ==" ++ event "AA==").toList =
      [(eventLine "AQ==").toList, (eventLine "AA==").toList] := by decide +kernel
  refine ⟨?_, by decide, by decide +kernel⟩
  rw [split]
  exact .piece _ _ "AQ==".toList _ _ (by decide +kernel) (by decide +kernel) (by decide +kernel)
    (.piece _ [] "AA==".toList _ [] (by decide +kernel) (by decide +kernel) (by decide +kernel) .nil)

end Fswtch.Seat.MimoTts
