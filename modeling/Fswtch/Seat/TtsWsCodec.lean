import Fswtch.Lib.ByteReader

/-! The binary message codec of the bidirectional TTS socket: a three-byte header
padded to `4 * header_size`, then fields whose presence and order depend on the
message type, the flag and the event. The writer and the reader are two separate
functions with their own field order. -/

namespace Fswtch.Seat.TtsWsCodec
open Fswtch.Lib.ByteReader

inductive MsgType where
  | invalid | fullClientRequest | audioOnlyClient | fullServerResponse
  | audioOnlyServer | frontEndResultServer | error
  deriving DecidableEq, Repr

def MsgType.asU8 : MsgType → UInt8
  | .invalid => 0b0000
  | .fullClientRequest => 0b0001
  | .audioOnlyClient => 0b0010
  | .fullServerResponse => 0b1001
  | .audioOnlyServer => 0b1011
  | .frontEndResultServer => 0b1100
  | .error => 0b1111

def MsgType.fromU8 : UInt8 → Option MsgType
  | 0b0000 => some .invalid
  | 0b0001 => some .fullClientRequest
  | 0b0010 => some .audioOnlyClient
  | 0b1001 => some .fullServerResponse
  | 0b1011 => some .audioOnlyServer
  | 0b1100 => some .frontEndResultServer
  | 0b1111 => some .error
  | _ => none

inductive MsgTypeFlagBits where
  | noSeq | positiveSeq | lastNoSeq | negativeSeq | withEvent
  deriving DecidableEq, Repr

def MsgTypeFlagBits.asU8 : MsgTypeFlagBits → UInt8
  | .noSeq => 0
  | .positiveSeq => 0b1
  | .lastNoSeq => 0b10
  | .negativeSeq => 0b11
  | .withEvent => 0b100

def MsgTypeFlagBits.fromU8 : UInt8 → Option MsgTypeFlagBits
  | 0 => some .noSeq
  | 0b1 => some .positiveSeq
  | 0b10 => some .lastNoSeq
  | 0b11 => some .negativeSeq
  | 0b100 => some .withEvent
  | _ => none

inductive VersionBits where
  | version1 | version2 | version3 | version4
  deriving DecidableEq, Repr

inductive HeaderSizeBits where
  | headerSize4 | headerSize8 | headerSize12 | headerSize16
  deriving DecidableEq, Repr

inductive SerializationBits where
  | raw | json | thrift | custom
  deriving DecidableEq, Repr

inductive CompressionBits where
  | none | gzip | custom
  deriving DecidableEq, Repr

inductive CodecError where
  | unexpectedEof
  | headerTooShort
  | unknownMsgType (value : UInt8)
  | unknownFlag (value : UInt8)
  | unknownVersion (value : UInt8)
  | unknownHeaderSize (value : UInt8)
  | unknownSerialization (value : UInt8)
  | unknownCompression (value : UInt8)
  | unsupportedMsgType (value : UInt8)
  | unexpectedTrailing (count : Nat)
  | lengthTooLarge
  deriving DecidableEq, Repr

def VersionBits.asU8 : VersionBits → UInt8
  | .version1 => 1
  | .version2 => 2
  | .version3 => 3
  | .version4 => 4

def VersionBits.fromU8Safe (value : UInt8) : Except CodecError VersionBits :=
  match value with
  | 1 => .ok .version1
  | 2 => .ok .version2
  | 3 => .ok .version3
  | 4 => .ok .version4
  | _ => .error (.unknownVersion value)

def HeaderSizeBits.asU8 : HeaderSizeBits → UInt8
  | .headerSize4 => 1
  | .headerSize8 => 2
  | .headerSize12 => 3
  | .headerSize16 => 4

def HeaderSizeBits.fromU8Safe (value : UInt8) : Except CodecError HeaderSizeBits :=
  match value with
  | 1 => .ok .headerSize4
  | 2 => .ok .headerSize8
  | 3 => .ok .headerSize12
  | 4 => .ok .headerSize16
  | _ => .error (.unknownHeaderSize value)

def SerializationBits.asU8 : SerializationBits → UInt8
  | .raw => 0
  | .json => 0b1
  | .thrift => 0b11
  | .custom => 0b1111

def SerializationBits.fromU8Safe (value : UInt8) : Except CodecError SerializationBits :=
  match value with
  | 0 => .ok .raw
  | 0b1 => .ok .json
  | 0b11 => .ok .thrift
  | 0b1111 => .ok .custom
  | _ => .error (.unknownSerialization value)

def CompressionBits.asU8 : CompressionBits → UInt8
  | .none => 0
  | .gzip => 0b1
  | .custom => 0b1111

def CompressionBits.fromU8Safe (value : UInt8) : Except CodecError CompressionBits :=
  match value with
  | 0 => .ok .none
  | 0b1 => .ok .gzip
  | 0b1111 => .ok .custom
  | _ => .error (.unknownCompression value)

inductive EventType where
  | none
  | startConnection | finishConnection
  | connectionStarted | connectionFailed | connectionFinished
  | startSession | cancelSession | finishSession
  | sessionStarted | sessionCanceled | sessionFinished | sessionFailed | usageResponse
  | taskRequest | updateConfig
  | audioMuted
  | sayHello
  | ttsSentenceStart | ttsSentenceEnd | ttsResponse | ttsSubtitle | ttsEnded
  | podcastRoundStart | podcastRoundResponse | podcastRoundEnd
  | asrInfo | asrResponse | asrEnded
  | chatTtsText
  | chatResponse | chatEnded
  | sourceSubtitleStart | sourceSubtitleResponse | sourceSubtitleEnd
  | translationSubtitleStart | translationSubtitleResponse | translationSubtitleEnd
  deriving DecidableEq, Repr

namespace EventType

def asI32 : EventType → Int32
  | none => 0
  | startConnection => 1
  | finishConnection => 2
  | connectionStarted => 50
  | connectionFailed => 51
  | connectionFinished => 52
  | startSession => 100
  | cancelSession => 101
  | finishSession => 102
  | sessionStarted => 150
  | sessionCanceled => 151
  | sessionFinished => 152
  | sessionFailed => 153
  | usageResponse => 154
  | taskRequest => 200
  | updateConfig => 201
  | audioMuted => 250
  | sayHello => 300
  | ttsSentenceStart => 350
  | ttsSentenceEnd => 351
  | ttsResponse => 352
  | ttsSubtitle => 364
  | ttsEnded => 359
  | podcastRoundStart => 360
  | podcastRoundResponse => 361
  | podcastRoundEnd => 362
  | asrInfo => 450
  | asrResponse => 451
  | asrEnded => 459
  | chatTtsText => 500
  | chatResponse => 550
  | chatEnded => 559
  | sourceSubtitleStart => 650
  | sourceSubtitleResponse => 651
  | sourceSubtitleEnd => 652
  | translationSubtitleStart => 653
  | translationSubtitleResponse => 654
  | translationSubtitleEnd => 655

def fromI32 (value : Int32) : Option EventType :=
  match value.toInt with
  | 0 => some none
  | 1 => some startConnection
  | 2 => some finishConnection
  | 50 => some connectionStarted
  | 51 => some connectionFailed
  | 52 => some connectionFinished
  | 100 => some startSession
  | 101 => some cancelSession
  | 102 => some finishSession
  | 150 => some sessionStarted
  | 151 => some sessionCanceled
  | 152 => some sessionFinished
  | 153 => some sessionFailed
  | 154 => some usageResponse
  | 200 => some taskRequest
  | 201 => some updateConfig
  | 250 => some audioMuted
  | 300 => some sayHello
  | 350 => some ttsSentenceStart
  | 351 => some ttsSentenceEnd
  | 352 => some ttsResponse
  | 364 => some ttsSubtitle
  | 359 => some ttsEnded
  | 360 => some podcastRoundStart
  | 361 => some podcastRoundResponse
  | 362 => some podcastRoundEnd
  | 450 => some asrInfo
  | 451 => some asrResponse
  | 459 => some asrEnded
  | 500 => some chatTtsText
  | 550 => some chatResponse
  | 559 => some chatEnded
  | 650 => some sourceSubtitleStart
  | 651 => some sourceSubtitleResponse
  | 652 => some sourceSubtitleEnd
  | 653 => some translationSubtitleStart
  | 654 => some translationSubtitleResponse
  | 655 => some translationSubtitleEnd
  | _ => Option.none

def omitsSessionIdWriter : EventType → Bool
  | startConnection | finishConnection | connectionStarted | connectionFailed => true
  | _ => false

def omitsSessionIdReader : EventType → Bool
  | startConnection | finishConnection | connectionStarted | connectionFailed
  | connectionFinished => true
  | _ => false

def carriesConnectId : EventType → Bool
  | connectionStarted | connectionFailed | connectionFinished => true
  | _ => false

theorem fromI32_asI32 (event : EventType) : fromI32 event.asI32 = some event := by
  cases event <;> rfl

theorem asI32_of_fromI32 {value : Int32} {event : EventType}
    (known : fromI32 value = some event) : value = event.asI32 := by
  apply Int32.toInt_inj.mp
  unfold fromI32 at known
  split at known <;> first
    | (cases known; assumption)
    | cases known

end EventType

structure Message where
  version : VersionBits := .version1
  headerSize : HeaderSizeBits := .headerSize4
  msgType : MsgType := .invalid
  flag : MsgTypeFlagBits := .noSeq
  serialization : SerializationBits := .json
  compression : CompressionBits := .none
  event : EventType := .none
  sessionId : String := ""
  connectId : String := ""
  sequence : Int32 := 0
  errorCode : UInt32 := 0
  payload : List UInt8 := []
  deriving DecidableEq, Repr

def MsgType.seqCapable : MsgType → Bool
  | .fullClientRequest | .fullServerResponse | .frontEndResultServer
  | .audioOnlyClient | .audioOnlyServer => true
  | _ => false

def MsgTypeFlagBits.sequenced : MsgTypeFlagBits → Bool
  | .positiveSeq | .negativeSeq => true
  | _ => false

namespace Message

def headerBytes (m : Message) : List UInt8 :=
  [(m.version.asU8 <<< 4) ||| m.headerSize.asU8,
    (m.msgType.asU8 <<< 4) ||| m.flag.asU8,
    (m.serialization.asU8 <<< 4) ||| m.compression.asU8]

def headerPadding (m : Message) : Nat := 4 * m.headerSize.asU8.toNat - 3

def lengthPrefixed (bytes : List UInt8) : Except CodecError (List UInt8) :=
  if bytes.length < 2 ^ 32 then .ok (be32 (UInt32.ofNat bytes.length) ++ bytes)
  else .error .lengthTooLarge

def writeEvent (m : Message) : List UInt8 := be32 m.event.asI32.toUInt32

def writeSessionId (m : Message) : Except CodecError (List UInt8) :=
  if m.event.omitsSessionIdWriter then .ok [] else lengthPrefixed (utf8 m.sessionId)

def writeSequence (m : Message) : List UInt8 := be32 m.sequence.toUInt32

def writeErrorCode (m : Message) : List UInt8 := be32 m.errorCode

def writePayload (m : Message) : Except CodecError (List UInt8) := lengthPrefixed m.payload

def writeEventBlock (m : Message) : Except CodecError (List UInt8) :=
  if m.flag = .withEvent then do
    let sessionId ← m.writeSessionId
    pure (m.writeEvent ++ sessionId)
  else pure []

def writeLead (m : Message) : Except CodecError (List UInt8) :=
  if m.msgType.seqCapable then pure (if m.flag.sequenced then m.writeSequence else [])
  else if m.msgType = .error then pure m.writeErrorCode
  else throw (.unsupportedMsgType m.msgType.asU8)

def marshal (m : Message) : Except CodecError (List UInt8) := do
  let header := m.headerBytes ++ List.replicate m.headerPadding 0
  let eventBlock ← m.writeEventBlock
  let lead ← m.writeLead
  let payload ← m.writePayload
  pure (header ++ eventBlock ++ lead ++ payload)

end Message

abbrev CodecReader (α : Type) := Reader CodecError α

def readU8 : CodecReader UInt8 := do
  match ← take .unexpectedEof 1 with
  | [byte] => pure byte
  | _ => throw .unexpectedEof

def readU32Be : CodecReader UInt32 := takeBe32 .unexpectedEof

def readI32Be : CodecReader Int32 := do
  let word ← readU32Be
  pure word.toInt32

def readLenPrefixed : CodecReader (List UInt8) := takePrefixed .unexpectedEof

def readLenPrefixedString : CodecReader String := takePrefixedUtf8 .unexpectedEof

def readNibbles {α β : Type} (high : UInt8 → Except CodecError α)
    (low : UInt8 → Except CodecError β) : CodecReader (α × β) := do
  let byte ← readU8
  let first ← liftM (high (byte >>> 4))
  let second ← liftM (low (byte &&& 0x0F))
  pure (first, second)

structure Header where
  version : VersionBits
  headerSize : HeaderSizeBits
  serialization : SerializationBits
  compression : CompressionBits

def readHeader : CodecReader Header := do
  let byte0 ← readNibbles VersionBits.fromU8Safe HeaderSizeBits.fromU8Safe
  let _ ← readU8
  let byte2 ← readNibbles SerializationBits.fromU8Safe CompressionBits.fromU8Safe
  let _ ← take .unexpectedEof (4 * byte0.2.asU8.toNat - 3)
  pure ⟨byte0.1, byte0.2, byte2.1, byte2.2⟩

def readLead (msgType : MsgType) (flag : MsgTypeFlagBits) : CodecReader (Int32 × UInt32) := do
  if msgType.seqCapable then
    if flag.sequenced then
      let sequence ← readI32Be
      pure (sequence, 0)
    else pure (0, 0)
  else if msgType = .error then
    let errorCode ← readU32Be
    pure (0, errorCode)
  else throw (.unsupportedMsgType msgType.asU8)

def readEvent : CodecReader EventType := do
  let value ← readI32Be
  pure ((EventType.fromI32 value).getD .none)

def readSessionId (event : EventType) : CodecReader String :=
  if event.omitsSessionIdReader then pure "" else readLenPrefixedString

def readConnectId (event : EventType) : CodecReader String :=
  if event.carriesConnectId then readLenPrefixedString else pure ""

structure EventFields where
  event : EventType := .none
  sessionId : String := ""
  connectId : String := ""

def readEventBlock (flag : MsgTypeFlagBits) : CodecReader EventFields := do
  if flag = .withEvent then
    let event ← readEvent
    let sessionId ← readSessionId event
    let connectId ← readConnectId event
    pure { event, sessionId, connectId }
  else pure {}

def readMessage (msgType : MsgType) (flag : MsgTypeFlagBits) : CodecReader Message := do
  let header ← readHeader
  let lead ← readLead msgType flag
  let fields ← readEventBlock flag
  let payload ← readLenPrefixed
  pure
    { version := header.version, headerSize := header.headerSize, msgType, flag,
      serialization := header.serialization, compression := header.compression,
      event := fields.event, sessionId := fields.sessionId, connectId := fields.connectId,
      sequence := lead.1, errorCode := lead.2, payload }

def unmarshal (data : List UInt8) : Except CodecError Message :=
  match data with
  | _ :: typeAndFlag :: _ :: _ =>
    match MsgType.fromU8 (typeAndFlag >>> 4) with
    | none => .error (.unknownMsgType (typeAndFlag >>> 4))
    | some msgType =>
      match MsgTypeFlagBits.fromU8 (typeAndFlag &&& 0x0F) with
      | none => .error (.unknownFlag (typeAndFlag &&& 0x0F))
      | some flag =>
        match (readMessage msgType flag).run data with
        | .error error => .error error
        | .ok (message, []) => .ok message
        | .ok (_, rest) => .error (.unexpectedTrailing rest.length)
  | _ => .error .headerTooShort

end Fswtch.Seat.TtsWsCodec
