import Fswtch.Seat.TtsWsFrame
import Mathlib.Algebra.Group.Int.Defs

/-! The Python side of the bidirectional TTS socket: its own parser and writer of the frames,
which agree with the codec of the seat. -/

namespace Fswtch.Brain.TtsFrames
open Fswtch.Lib.ByteReader Fswtch.Seat.TtsWsCodec

def msgFullClient : UInt8 := 0x1

def flagWithEvent : UInt8 := 0x4

def msgError : UInt8 := 0xF

def sequencedTypes : List UInt8 := [0x1, 0x9, 0xC, 0x2, 0xB]

def sequencedFlags : List UInt8 := [0x1, 0x3]

def skipSession : List Int := [1, 2, 50, 51]

def readerSkipSession : List Int := [1, 2, 50, 51, 52]

def carriesConnectId : List Int := [50, 51, 52]

inductive PyError where
  | indexError
  | structError
  deriving DecidableEq

structure ParsedFrame where
  msgType : UInt8
  flag : UInt8
  seq : Option Int := none
  error : Option Nat := none
  event : Option Int := none
  sid : List UInt8 := []
  cid : List UInt8 := []
  payload : List UInt8
  deriving DecidableEq

abbrev PyReader (α : Type) := Reader PyError α

/-- `data[pos:pos + n]`, which may be shorter. -/
def slice (n : Nat) : PyReader (List UInt8) := fun rest => .ok (rest.take n, rest.drop n)

def unpackU32 : PyReader UInt32 := do
  match ← slice 4 with
  | [a, b, c, d] => pure (ofBe32 a b c d)
  | _ => throw .structError

def unpackI32 : PyReader Int := do
  let word ← unpackU32
  pure word.toInt32.toInt

def sizedSlice : PyReader (List UInt8) := do
  let size ← unpackU32
  slice size.toNat

def parseLead (msgType flag : UInt8) : PyReader (Option Int × Option Nat) := do
  if msgType ∈ sequencedTypes ∧ flag ∈ sequencedFlags then
    let seq ← unpackI32
    pure (some seq, none)
  else if msgType = msgError then
    let err ← unpackU32
    pure (none, some err.toNat)
  else pure (none, none)

structure ParsedEvent where
  event : Option Int := none
  sid : List UInt8 := []
  cid : List UInt8 := []

def parseSid (event : Int) : PyReader (List UInt8) :=
  if event ∉ readerSkipSession then sizedSlice else pure []

def parseCid (event : Int) : PyReader (List UInt8) :=
  if event ∈ carriesConnectId then sizedSlice else pure []

def parseEvent (flag : UInt8) : PyReader ParsedEvent := do
  if flag = flagWithEvent then
    let event ← unpackI32
    let sid ← parseSid event
    let cid ← parseCid event
    pure { event := some event, sid, cid }
  else pure {}

def parseFields (msgType flag : UInt8) : PyReader ParsedFrame := do
  let lead ← parseLead msgType flag
  let fields ← parseEvent flag
  let payload ← sizedSlice
  pure
    { msgType, flag, seq := lead.1, error := lead.2, event := fields.event, sid := fields.sid,
      cid := fields.cid, payload }

def parseFrame (data : List UInt8) : Except PyError ParsedFrame :=
  match data[1]? with
  | none => .error .indexError
  | some b1 =>
    ((parseFields (b1 >>> 4) (b1 &&& 0x0F)).run (data.drop 4)).map Prod.fst

def packI32 (value : Int) : Option (List UInt8) :=
  if -2 ^ 31 ≤ value ∧ value < 2 ^ 31 then some (be32 (Int32.ofInt value).toUInt32) else none

def packU32 (value : Nat) : Option (List UInt8) :=
  if value < 2 ^ 32 then some (be32 (UInt32.ofNat value)) else none

def packSized (bytes : List UInt8) : Option (List UInt8) :=
  (packU32 bytes.length).map fun size => size ++ bytes

def packSid (event : Int) (sessionId : String) : Option (List UInt8) :=
  if event ∉ skipSession then packSized (utf8 sessionId) else some []

/-- `payloadBytes` is the encoded JSON of the payload; `none` stands for a `struct.error`. -/
def marshalControl (event : Int) (sessionId : String) (payloadBytes : List UInt8) :
    Option (List UInt8) := do
  let header : List UInt8 := [0x11, (msgFullClient <<< 4) ||| flagWithEvent, 0x10, 0x00]
  let code ← packI32 event
  let sid ← packSid event sessionId
  let payload ← packSized payloadBytes
  some (header ++ code ++ sid ++ payload)

theorem run_unpackU32 (word : UInt32) (rest : List UInt8) :
    unpackU32.run (be32 word ++ rest) = .ok (word, rest) := by
  rw [unpackU32, run_bind]
  change Except.ok (ofBe32 _ _ _ _, rest) = _
  rw [ofBe32_be32]

theorem run_unpackI32 (word : UInt32) (rest : List UInt8) :
    unpackI32.run (be32 word ++ rest) = .ok (word.toInt32.toInt, rest) := by
  rw [unpackI32, run_bind, run_unpackU32]
  rfl

theorem run_sizedSlice {used value : List UInt8} (field : Prefixed used value) (rest : List UInt8) :
    sizedSlice.run (used ++ rest) = .ok (value, rest) := by
  obtain ⟨bound, rfl⟩ := field
  have size : (UInt32.ofNat value.length).toNat = value.length := by
    rw [UInt32.toNat_ofNat']
    omega
  rw [sizedSlice, run_bind, List.append_assoc, run_unpackU32]
  change Except.ok ((value ++ rest).take _, (value ++ rest).drop _) = _
  rw [size, List.take_left, List.drop_left]

theorem seqCapable_iff (msgType : MsgType) : msgType.seqCapable = true ↔ msgType.asU8 ∈ sequencedTypes := by
  cases msgType <;> decide

theorem sequenced_iff (flag : MsgTypeFlagBits) : flag.sequenced = true ↔ flag.asU8 ∈ sequencedFlags := by
  cases flag <;> decide

theorem error_iff (msgType : MsgType) : msgType = .error ↔ msgType.asU8 = msgError := by
  cases msgType <;> decide

theorem withEvent_iff (flag : MsgTypeFlagBits) : flag = .withEvent ↔ flag.asU8 = flagWithEvent := by
  cases flag <;> decide

theorem run_parseLead {msgType : MsgType} {flag : MsgTypeFlagBits} {used : List UInt8}
    {lead : Int32 × UInt32} (derived : Lead msgType flag used lead) (rest : List UInt8) :
    (parseLead msgType.asU8 flag.asU8).run (used ++ rest) =
      .ok ((if msgType.seqCapable = true ∧ flag.sequenced = true then some lead.1.toInt else none,
        if msgType = .error then some lead.2.toNat else none), rest) := by
  have both : msgType.asU8 ∈ sequencedTypes ∧ flag.asU8 ∈ sequencedFlags ↔
      msgType.seqCapable = true ∧ flag.sequenced = true :=
    and_congr (seqCapable_iff msgType).symm (sequenced_iff flag).symm
  unfold Lead at derived
  unfold parseLead
  by_cases sequence : msgType.seqCapable = true ∧ flag.sequenced = true
  · have plain : msgType ≠ .error := by
      rintro rfl
      cases sequence.1
    rw [if_pos sequence.1, if_pos sequence.2] at derived
    obtain ⟨_, rfl⟩ := derived
    rw [if_pos (both.mpr sequence), if_pos sequence, if_neg plain, run_bind, run_unpackI32,
      Int32.toInt32_toUInt32]
    rfl
  · rw [if_neg (mt both.mp sequence), if_neg sequence]
    by_cases error : msgType = .error
    · have incapable : ¬msgType.seqCapable = true := by
        rw [error]
        decide
      rw [if_neg incapable] at derived
      obtain ⟨_, _, rfl⟩ := derived
      rw [if_pos ((error_iff msgType).mp error), if_pos error, run_bind, run_unpackU32]
      rfl
    · have empty : used = [] := by
        by_cases capable : msgType.seqCapable = true
        · have unsequenced : ¬flag.sequenced = true := fun sequenced => sequence ⟨capable, sequenced⟩
          rw [if_pos capable, if_neg unsequenced] at derived
          exact derived.2.1
        · rw [if_neg capable] at derived
          exact absurd derived.1 error
      rw [if_neg (mt (error_iff msgType).mpr error), if_neg error, empty]
      rfl

/-- The sets of the two parsers say the same of every code, known or not. -/
theorem eventSets (value : Int32) :
    (((EventType.fromI32 value).getD .none).omitsSessionIdReader = true ↔
        value.toInt ∈ readerSkipSession) ∧
      (((EventType.fromI32 value).getD .none).carriesConnectId = true ↔
        value.toInt ∈ carriesConnectId) := by
  cases found : EventType.fromI32 value with
  | some event =>
    rw [EventType.asI32_of_fromI32 found]
    cases event <;> decide
  | none =>
    have unlisted : ∀ code ∈ readerSkipSession, value.toInt ≠ code := by
      rintro code member same
      simp only [readerSkipSession, List.mem_cons, List.not_mem_nil, or_false] at member
      unfold EventType.fromI32 at found
      rcases member with rfl | rfl | rfl | rfl | rfl <;> (rw [same] at found; cases found)
    have inside : ∀ code ∈ carriesConnectId, code ∈ readerSkipSession := by decide
    have absent : value.toInt ∉ readerSkipSession := fun member => unlisted _ member rfl
    have apart : value.toInt ∉ carriesConnectId := fun member => absent (inside _ member)
    exact ⟨⟨nofun, fun member => absurd member absent⟩, ⟨nofun, fun member => absurd member apart⟩⟩

theorem run_parseSid {value : Int32} {event : EventType} {used : List UInt8} {text : String}
    (known : (EventType.fromI32 value).getD .none = event) (derived : SessionField event used text)
    (rest : List UInt8) : (parseSid value.toInt).run (used ++ rest) = .ok (utf8 text, rest) := by
  have skips := (eventSets value).1
  rw [known] at skips
  unfold SessionField at derived
  unfold parseSid
  by_cases omitted : event.omitsSessionIdReader = true
  · rw [if_pos omitted] at derived
    obtain ⟨rfl, rfl⟩ := derived
    rw [if_neg (not_not.mpr (skips.mp omitted))]
    rfl
  · rw [if_neg omitted] at derived
    rw [if_pos (mt skips.mpr omitted), run_sizedSlice derived]

theorem run_parseCid {value : Int32} {event : EventType} {used : List UInt8} {text : String}
    (known : (EventType.fromI32 value).getD .none = event) (derived : ConnectField event used text)
    (rest : List UInt8) : (parseCid value.toInt).run (used ++ rest) = .ok (utf8 text, rest) := by
  have carries := (eventSets value).2
  rw [known] at carries
  unfold ConnectField at derived
  unfold parseCid
  by_cases present : event.carriesConnectId = true
  · rw [if_pos present] at derived
    rw [if_pos (carries.mp present), run_sizedSlice derived]
  · rw [if_neg present] at derived
    obtain ⟨rfl, rfl⟩ := derived
    rw [if_neg (mt carries.mpr present)]
    rfl

theorem run_parseEvent {flag : MsgTypeFlagBits} {used : List UInt8} {fields : EventFields}
    (derived : EventBlock flag used fields) (rest : List UInt8) :
    ∃ event, (parseEvent flag.asU8).run (used ++ rest) =
        .ok (⟨event, utf8 fields.sessionId, utf8 fields.connectId⟩, rest) ∧
      if flag = .withEvent then
        ∃ code : Int32, event = some code.toInt ∧ (EventType.fromI32 code).getD .none = fields.event
      else event = none ∧ fields.event = .none := by
  unfold EventBlock at derived
  unfold parseEvent
  by_cases carried : flag = .withEvent
  · rw [if_pos carried] at derived
    obtain ⟨word, session, connect, rfl, known, hSession, hConnect⟩ := derived
    rw [if_pos ((withEvent_iff flag).mp carried), run_bind, List.append_assoc, run_unpackI32,
      List.append_assoc]
    simp only [if_pos carried]
    refine ⟨_, ?_, word.toInt32, rfl, known⟩
    rw [run_bind, run_parseSid known hSession]
    simp only
    rw [run_bind, run_parseCid known hConnect]
    rfl
  · rw [if_neg carried] at derived
    obtain ⟨rfl, rfl⟩ := derived
    rw [if_neg (mt (withEvent_iff flag).mpr carried)]
    simp only [if_neg carried]
    exact ⟨none, rfl, rfl, trivial⟩

/-- The two parsers read the same. What a frame lacks is `None` on one side and the default on
the other, and an event code that the seat does not know is its `None`. -/
structure Agrees (f : ParsedFrame) (m : Message) : Prop where
  msgType : f.msgType = m.msgType.asU8
  flag : f.flag = m.flag.asU8
  seq : f.seq =
    if m.msgType.seqCapable = true ∧ m.flag.sequenced = true then some m.sequence.toInt else none
  seqDefault : f.seq = none → m.sequence = 0
  error : f.error = if m.msgType = .error then some m.errorCode.toNat else none
  errorDefault : f.error = none → m.errorCode = 0
  event : if m.flag = .withEvent then
      ∃ code : Int32, f.event = some code.toInt ∧ (EventType.fromI32 code).getD .none = m.event
    else f.event = none ∧ m.event = .none
  sid : f.sid = utf8 m.sessionId
  cid : f.cid = utf8 m.connectId
  payload : f.payload = m.payload

theorem lead_defaults {msgType : MsgType} {flag : MsgTypeFlagBits} {used : List UInt8}
    {lead : Int32 × UInt32} (derived : Lead msgType flag used lead) :
    (¬(msgType.seqCapable = true ∧ flag.sequenced = true) → lead.1 = 0) ∧
      (msgType ≠ .error → lead.2 = 0) := by
  unfold Lead at derived
  by_cases capable : msgType.seqCapable = true
  · rw [if_pos capable] at derived
    refine ⟨fun without => ?_, fun _ => derived.1⟩
    have unsequenced : ¬flag.sequenced = true := fun sequenced => without ⟨capable, sequenced⟩
    rw [if_neg unsequenced] at derived
    exact derived.2.2
  · rw [if_neg capable] at derived
    exact ⟨fun _ => derived.2.1, fun other => absurd derived.1 other⟩

/-- Of a frame with the four-byte header, what the seat accepts is parsed to the same fields. -/
theorem parseFrame_agrees (data : List UInt8) (m : Message) (accepted : unmarshal data = .ok m)
    (headerSize : (data.headD 0) &&& 0x0F = 1) : ∃ f, parseFrame data = .ok f ∧ Agrees f m := by
  obtain ⟨padding, lead, block, payload, rfl, length, hLead, hBlock, hPayload⟩ :=
    (unmarshal_eq_ok_iff_frame data m).mp accepted
  have split (byte high low : UInt8) (same : byte = (high <<< 4) ||| low) (first : high.toNat < 16)
      (second : low.toNat < 16) : byte >>> 4 = high ∧ byte &&& 0x0F = low :=
    (nibbles_eq_iff byte high low first second).mpr same
  have four : m.headerPadding = 1 := by
    have low := (split _ _ _ rfl m.version.asU8_small m.headerSize.asU8_small).2
    have one : m.headerSize.asU8 = 1 := low.symm.trans headerSize
    rw [Message.headerPadding, one]
    rfl
  obtain ⟨pad, rfl⟩ := List.length_eq_one_iff.mp (length.trans four)
  obtain ⟨msgType, flag⟩ := split _ _ _ rfl m.msgType.asU8_small m.flag.asU8_small
  obtain ⟨event, ran, known⟩ := run_parseEvent hBlock payload
  have leads := run_parseLead hLead (block ++ payload)
  have ends := run_sizedSlice hPayload []
  rw [List.append_nil] at ends
  obtain ⟨seqDefault, errorDefault⟩ := lead_defaults hLead
  let seq := if m.msgType.seqCapable = true ∧ m.flag.sequenced = true then some m.sequence.toInt else none
  let error := if m.msgType = .error then some m.errorCode.toNat else none
  refine ⟨⟨m.msgType.asU8, m.flag.asU8, seq, error, event, utf8 m.sessionId, utf8 m.connectId, m.payload⟩,
    ?_, ⟨rfl, rfl, rfl, fun absent => seqDefault fun carried => ?_, rfl,
      fun absent => errorDefault fun failed => ?_, known, rfl, rfl, rfl⟩⟩
  · have second : (m.headerBytes ++ [pad] ++ lead ++ block ++ payload)[1]? =
        some ((m.msgType.asU8 <<< 4) ||| m.flag.asU8) := rfl
    have rest : (m.headerBytes ++ [pad] ++ lead ++ block ++ payload).drop 4 =
        lead ++ (block ++ payload) := by
      simp [Message.headerBytes]
    unfold parseFrame
    rw [second, rest]
    simp only [msgType, flag]
    rw [parseFields, run_bind, leads]
    simp only
    rw [run_bind, ran]
    simp only
    rw [run_bind, ends]
    rfl
  · cases (if_pos carried).symm.trans absent
  · cases (if_pos failed).symm.trans absent

/-- A `TTSResponse` of the session "s" with two bytes of audio. -/
def audioFrame : List UInt8 :=
  [0x11, 0xB4, 0x10, 0x00, 0, 0, 1, 96, 0, 0, 0, 1, 115, 0, 0, 0, 2, 7, 8]

theorem audioFrame_agrees :
    ∃ m f, unmarshal audioFrame = .ok m ∧ parseFrame audioFrame = .ok f ∧ f.event = some 352 ∧ Agrees f m := by
  have read : (unmarshal audioFrame).toOption.isSome = true := by decide +kernel
  cases accepted : unmarshal audioFrame with
  | error error =>
    rw [accepted] at read
    cases read
  | ok m =>
    obtain ⟨f, parsed, agrees⟩ := parseFrame_agrees audioFrame m accepted rfl
    have event : (parseFrame audioFrame).map ParsedFrame.event = .ok (some 352) := by decide +kernel
    rw [parsed] at event
    exact ⟨m, f, rfl, parsed, Except.ok.inj event, agrees⟩

theorem writerSkips_iff (event : EventType) :
    event.omitsSessionIdWriter = true ↔ event.asI32.toInt ∈ skipSession := by
  cases event <;> decide

theorem packI32_asI32 (event : EventType) : packI32 event.asI32.toInt = some (be32 event.asI32.toUInt32) := by
  cases event <;> rfl

theorem packSized_eq (bytes : List UInt8) : packSized bytes = (Message.lengthPrefixed bytes).toOption := by
  unfold packSized packU32 Message.lengthPrefixed
  split <;> rfl

/-- Of every event, session id and payload the two writers make the same bytes, or none because
of a length that does not fit. -/
theorem marshalControl_eq_marshal (event : EventType) (sessionId : String) (payload : List UInt8) :
    marshalControl event.asI32.toInt sessionId payload =
      (Message.marshal { msgType := .fullClientRequest, flag := .withEvent, event, sessionId, payload }).toOption := by
  have skips := writerSkips_iff event
  have sid : packSid event.asI32.toInt sessionId =
      (Message.writeSessionId { msgType := .fullClientRequest, flag := .withEvent, event, sessionId, payload }
        ).toOption := by
    unfold packSid Message.writeSessionId
    by_cases omitted : event.omitsSessionIdWriter = true
    · rw [if_neg (not_not.mpr (skips.mp omitted)), if_pos omitted]
      rfl
    · rw [if_pos (mt skips.mpr omitted), if_neg omitted, packSized_eq]
  rw [marshalControl, packI32_asI32, sid, packSized_eq]
  unfold Message.marshal Message.writeEventBlock Message.writeLead Message.writePayload
  cases Message.writeSessionId { msgType := .fullClientRequest, flag := .withEvent, event, sessionId, payload } with
  | error error => rfl
  | ok session =>
    cases Message.lengthPrefixed payload with
    | error error => rfl
    | ok field =>
      -- The codec joins the code and the session id first, and has an empty sequence.
      change some ((_ : List UInt8) ++ be32 event.asI32.toUInt32 ++ session ++ field) =
        some ((_ ++ List.replicate 1 0) ++ (be32 event.asI32.toUInt32 ++ session) ++ [] ++ field)
      have first : (VersionBits.version1.asU8 <<< 4) ||| HeaderSizeBits.headerSize4.asU8 = 0x11 := by decide
      have third : (SerializationBits.json.asU8 <<< 4) ||| CompressionBits.none.asU8 = 0x10 := by decide
      rw [List.append_nil, ← List.append_assoc _ _ session, Message.headerBytes, first, third]
      rfl

end Fswtch.Brain.TtsFrames
