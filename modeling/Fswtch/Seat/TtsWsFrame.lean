import Fswtch.Seat.TtsWsCodec

/-! The grammar of the frames the reader accepts, and that the reader accepts
exactly those. The layout is stated once, as a concatenation of the blocks the
reader takes in its own order. -/

namespace Fswtch.Seat.TtsWsCodec
open Fswtch.Lib.ByteReader

theorem nibbles_recompose (byte : UInt8) : ((byte >>> 4) <<< 4) ||| (byte &&& 0x0F) = byte := by
  apply UInt8.toNat_inj.mp
  have bound := byte.toNat_lt
  have low : byte.toNat &&& 15 = byte.toNat % 16 := Nat.and_two_pow_sub_one_eq_mod byte.toNat 4
  simp only [UInt8.toNat_or, UInt8.toNat_shiftLeft, UInt8.toNat_shiftRight, UInt8.toNat_and,
    UInt8.reduceToNat, Nat.reduceMod, Nat.shiftRight_eq_div_pow, low]
  have small : byte.toNat / 2 ^ 4 < 16 := by omega
  rw [Nat.shiftLeft_eq, Nat.mod_eq_of_lt (by omega), ← Nat.shiftLeft_eq,
    ← Nat.shiftLeft_add_eq_or_of_lt (by omega : byte.toNat % 16 < 2 ^ 4), Nat.shiftLeft_eq]
  omega

theorem VersionBits.fromU8Safe_eq_ok (value : UInt8) (bits : VersionBits) :
    VersionBits.fromU8Safe value = .ok bits ↔ value = bits.asU8 := by
  constructor
  · intro known
    unfold VersionBits.fromU8Safe at known
    split at known <;> cases known <;> rfl
  · rintro rfl
    cases bits <;> rfl

theorem HeaderSizeBits.fromU8Safe_eq_ok (value : UInt8) (bits : HeaderSizeBits) :
    HeaderSizeBits.fromU8Safe value = .ok bits ↔ value = bits.asU8 := by
  constructor
  · intro known
    unfold HeaderSizeBits.fromU8Safe at known
    split at known <;> cases known <;> rfl
  · rintro rfl
    cases bits <;> rfl

theorem SerializationBits.fromU8Safe_eq_ok (value : UInt8) (bits : SerializationBits) :
    SerializationBits.fromU8Safe value = .ok bits ↔ value = bits.asU8 := by
  constructor
  · intro known
    unfold SerializationBits.fromU8Safe at known
    split at known <;> cases known <;> rfl
  · rintro rfl
    cases bits <;> rfl

theorem CompressionBits.fromU8Safe_eq_ok (value : UInt8) (bits : CompressionBits) :
    CompressionBits.fromU8Safe value = .ok bits ↔ value = bits.asU8 := by
  constructor
  · intro known
    unfold CompressionBits.fromU8Safe at known
    split at known <;> cases known <;> rfl
  · rintro rfl
    cases bits <;> rfl

theorem MsgType.fromU8_eq_some (value : UInt8) (msgType : MsgType) :
    MsgType.fromU8 value = some msgType ↔ value = msgType.asU8 := by
  constructor
  · intro known
    unfold MsgType.fromU8 at known
    split at known <;> cases known <;> rfl
  · rintro rfl
    cases msgType <;> rfl

theorem MsgTypeFlagBits.fromU8_eq_some (value : UInt8) (flag : MsgTypeFlagBits) :
    MsgTypeFlagBits.fromU8 value = some flag ↔ value = flag.asU8 := by
  constructor
  · intro known
    unfold MsgTypeFlagBits.fromU8 at known
    split at known <;> cases known <;> rfl
  · rintro rfl
    cases flag <;> rfl

/-- A byte splits into two known nibbles exactly when it is their combination. -/
theorem nibbles_eq_iff (byte high low : UInt8) (smallHigh : high.toNat < 16)
    (smallLow : low.toNat < 16) :
    byte >>> 4 = high ∧ byte &&& 0x0F = low ↔ byte = (high <<< 4) ||| low := by
  constructor
  · rintro ⟨rfl, rfl⟩
    exact (nibbles_recompose byte).symm
  · rintro rfl
    have combined : ((high <<< 4) ||| low).toNat = high.toNat * 16 + low.toNat := by
      simp only [UInt8.toNat_or, UInt8.toNat_shiftLeft, UInt8.reduceToNat, Nat.reduceMod]
      rw [Nat.shiftLeft_eq, Nat.mod_eq_of_lt (by omega), ← Nat.shiftLeft_eq,
        ← Nat.shiftLeft_add_eq_or_of_lt (by omega : low.toNat < 2 ^ 4), Nat.shiftLeft_eq]
    constructor
    · apply UInt8.toNat_inj.mp
      rw [UInt8.toNat_shiftRight, combined]
      simp only [UInt8.reduceToNat, Nat.reduceMod, Nat.shiftRight_eq_div_pow]
      omega
    · apply UInt8.toNat_inj.mp
      rw [UInt8.toNat_and, combined]
      change (high.toNat * 16 + low.toNat) &&& (2 ^ 4 - 1) = low.toNat
      rw [Nat.and_two_pow_sub_one_eq_mod]
      omega

theorem VersionBits.asU8_small (bits : VersionBits) : bits.asU8.toNat < 16 := by
  cases bits <;> decide

theorem HeaderSizeBits.asU8_small (bits : HeaderSizeBits) : bits.asU8.toNat < 16 := by
  cases bits <;> decide

theorem SerializationBits.asU8_small (bits : SerializationBits) : bits.asU8.toNat < 16 := by
  cases bits <;> decide

theorem CompressionBits.asU8_small (bits : CompressionBits) : bits.asU8.toNat < 16 := by
  cases bits <;> decide

theorem MsgType.asU8_small (msgType : MsgType) : msgType.asU8.toNat < 16 := by
  cases msgType <;> decide

theorem MsgTypeFlagBits.asU8_small (flag : MsgTypeFlagBits) : flag.asU8.toNat < 16 := by
  cases flag <;> decide

theorem consumes_readU8 : Consumes readU8 (fun used byte => used = [byte]) := by
  refine Consumes.congr (@Consumes.bind _ _ _ _ _ _ (fun bytes used byte => used = [] ∧ bytes = [byte])
    (consumes_take CodecError.unexpectedEof 1) fun bytes => ?_) (fun used byte => ?_)
  · rcases bytes with _ | ⟨byte, _ | ⟨_, _⟩⟩
    · exact (consumes_throw _).congr (fun used byte => by simp)
    · refine (consumes_pure byte).congr (fun used other => and_congr_right fun _ => ?_)
      simp [eq_comm]
    · exact (consumes_throw _).congr (fun used byte => by simp)
  · constructor
    · rintro ⟨front, back, bytes, rfl, ⟨rfl, _⟩, rfl, rfl⟩
      rfl
    · rintro rfl
      exact ⟨[byte], [], [byte], rfl, ⟨rfl, rfl⟩, rfl, rfl⟩

theorem consumes_lift {α : Type} (result : Except CodecError α) :
    Consumes (liftM result : CodecReader α) (fun used value => used = [] ∧ result = .ok value) := by
  cases result with
  | error error =>
    exact (consumes_throw error).congr (fun used value => by simp)
  | ok value =>
    exact (consumes_pure value).congr (fun used other => and_congr_right fun _ => by
      simp [eq_comm])

theorem consumes_readI32Be : Consumes readI32Be (fun used value => used = be32 value.toUInt32) := by
  refine ((consumes_takeBe32 _).bind fun word => consumes_pure word.toInt32).congr
    (fun used value => ?_)
  constructor
  · rintro ⟨front, back, word, rfl, rfl, rfl, rfl⟩
    simp
  · rintro rfl
    exact ⟨be32 value.toUInt32, [], value.toUInt32, by simp, rfl, rfl, by simp⟩

theorem consumes_readNibbles {α β : Type} {high : UInt8 → Except CodecError α}
    {low : UInt8 → Except CodecError β} {highBits : α → UInt8} {lowBits : β → UInt8}
    (knownHigh : ∀ value bits, high value = .ok bits ↔ value = highBits bits)
    (knownLow : ∀ value bits, low value = .ok bits ↔ value = lowBits bits)
    (smallHigh : ∀ bits, (highBits bits).toNat < 16)
    (smallLow : ∀ bits, (lowBits bits).toNat < 16) :
    Consumes (readNibbles high low) (fun used bits =>
      used = [(highBits bits.1 <<< 4) ||| lowBits bits.2]) := by
  refine (consumes_readU8.bind fun byte => (consumes_lift _).bind fun first =>
    (consumes_lift _).bind fun second => consumes_pure (first, second)).congr ?_
  rintro used ⟨first, second⟩
  have split : ∀ byte : UInt8, high (byte >>> 4) = .ok first ∧ low (byte &&& 0x0F) = .ok second ↔
      byte = (highBits first <<< 4) ||| lowBits second := by
    intro byte
    rw [knownHigh, knownLow]
    exact nibbles_eq_iff byte _ _ (smallHigh first) (smallLow second)
  constructor
  · rintro ⟨_, _, byte, rfl, rfl, _, _, _, rfl, ⟨rfl, hHigh⟩, _, _, _, rfl, ⟨rfl, hLow⟩, rfl, same⟩
    cases same
    rw [(split byte).mp ⟨hHigh, hLow⟩]
    rfl
  · rintro rfl
    obtain ⟨hHigh, hLow⟩ := (split _).mpr rfl
    exact ⟨_, [], _, rfl, rfl, [], [], first, rfl, ⟨rfl, hHigh⟩, [], [], second, rfl,
      ⟨rfl, hLow⟩, rfl, rfl⟩

def HeaderBytes : Grammar Header := fun used header =>
  ∃ b1 padding, padding.length = 4 * header.headerSize.asU8.toNat - 3 ∧
    used = ((header.version.asU8 <<< 4) ||| header.headerSize.asU8) :: b1 ::
      ((header.serialization.asU8 <<< 4) ||| header.compression.asU8) :: padding

theorem consumes_readHeader : Consumes readHeader HeaderBytes := by
  have byte0 := consumes_readNibbles VersionBits.fromU8Safe_eq_ok HeaderSizeBits.fromU8Safe_eq_ok
    VersionBits.asU8_small HeaderSizeBits.asU8_small
  have byte2 := consumes_readNibbles SerializationBits.fromU8Safe_eq_ok
    CompressionBits.fromU8Safe_eq_ok SerializationBits.asU8_small CompressionBits.asU8_small
  refine (byte0.bind fun first => consumes_readU8.bind fun _ => byte2.bind fun third =>
    (consumes_take _ (4 * first.2.asU8.toNat - 3)).bind fun _ =>
    consumes_pure (Header.mk first.1 first.2 third.1 third.2)).congr ?_
  rintro used ⟨version, headerSize, serialization, compression⟩
  constructor
  · rintro ⟨_, _, first, rfl, rfl, _, _, b1, rfl, rfl, _, _, third, rfl, rfl, padding, _, _, rfl,
      ⟨rfl, length⟩, rfl, same⟩
    cases same
    exact ⟨b1, padding, length, by simp⟩
  · rintro ⟨b1, padding, length, rfl⟩
    exact ⟨_, _, (version, headerSize), rfl, rfl, [b1], _, b1, rfl, rfl, _, _,
      (serialization, compression), rfl, rfl, padding, [], padding, by simp, ⟨rfl, length⟩,
      rfl, rfl⟩

def Lead (msgType : MsgType) (flag : MsgTypeFlagBits) : Grammar (Int32 × UInt32) :=
  fun used lead =>
    if msgType.seqCapable then
      lead.2 = 0 ∧ if flag.sequenced then used = be32 lead.1.toUInt32 else used = [] ∧ lead.1 = 0
    else msgType = .error ∧ lead.1 = 0 ∧ used = be32 lead.2

theorem consumes_readLead (msgType : MsgType) (flag : MsgTypeFlagBits) :
    Consumes (readLead msgType flag) (Lead msgType flag) := by
  unfold readLead Lead
  by_cases capable : msgType.seqCapable = true
  · simp only [if_pos capable]
    by_cases sequenced : flag.sequenced = true
    · simp only [if_pos sequenced]
      refine (consumes_readI32Be.bind fun sequence =>
        consumes_pure (sequence, (0 : UInt32))).congr ?_
      rintro used ⟨sequence, errorCode⟩
      constructor
      · rintro ⟨_, _, _, rfl, rfl, rfl, same⟩
        cases same
        simp
      · rintro ⟨rfl, rfl⟩
        exact ⟨_, [], sequence, by simp, rfl, rfl, rfl⟩
    · simp only [if_neg sequenced]
      refine (consumes_pure ((0 : Int32), (0 : UInt32))).congr ?_
      rintro used ⟨sequence, errorCode⟩
      simp only [Prod.mk.injEq]
      tauto
  · simp only [if_neg capable]
    by_cases error : msgType = .error
    · simp only [if_pos error]
      refine ((consumes_takeBe32 _).bind fun code => consumes_pure ((0 : Int32), code)).congr ?_
      rintro used ⟨sequence, errorCode⟩
      constructor
      · rintro ⟨_, _, _, rfl, rfl, rfl, same⟩
        cases same
        simp [error]
      · rintro ⟨_, rfl, rfl⟩
        exact ⟨_, [], errorCode, by simp, rfl, rfl, rfl⟩
    · simp only [if_neg error]
      exact (consumes_throw _).congr (fun used lead => by simp [error])

def SessionField (event : EventType) : Grammar String := fun used text =>
  if event.omitsSessionIdReader then used = [] ∧ text = "" else Prefixed used (utf8 text)

def ConnectField (event : EventType) : Grammar String := fun used text =>
  if event.carriesConnectId then Prefixed used (utf8 text) else used = [] ∧ text = ""

theorem consumes_readSessionId (event : EventType) :
    Consumes (readSessionId event) (SessionField event) := by
  unfold readSessionId SessionField
  by_cases omitted : event.omitsSessionIdReader = true
  · simpa only [if_pos omitted] using consumes_pure ""
  · simpa only [if_neg omitted, readLenPrefixedString] using consumes_takePrefixedUtf8 _

theorem consumes_readConnectId (event : EventType) :
    Consumes (readConnectId event) (ConnectField event) := by
  unfold readConnectId ConnectField
  by_cases carried : event.carriesConnectId = true
  · simpa only [if_pos carried, readLenPrefixedString] using consumes_takePrefixedUtf8 _
  · simpa only [if_neg carried] using consumes_pure ""

/-- The event block: a code, known or mapped to `none`, and the ids of its event. -/
def EventBlock (flag : MsgTypeFlagBits) : Grammar EventFields := fun used fields =>
  if flag = .withEvent then
    ∃ code session connect, used = be32 code ++ (session ++ connect) ∧
      (EventType.fromI32 code.toInt32).getD .none = fields.event ∧
      SessionField fields.event session fields.sessionId ∧
      ConnectField fields.event connect fields.connectId
  else used = [] ∧ fields = {}

theorem consumes_readEvent : Consumes readEvent (fun used event =>
    ∃ code, used = be32 code ∧ (EventType.fromI32 code.toInt32).getD .none = event) := by
  refine (consumes_readI32Be.bind fun value => consumes_pure _).congr (fun used event => ?_)
  constructor
  · rintro ⟨_, _, value, rfl, rfl, rfl, rfl⟩
    exact ⟨value.toUInt32, by simp, by simp⟩
  · rintro ⟨code, rfl, rfl⟩
    exact ⟨be32 code, [], code.toInt32, by simp, by simp, rfl, rfl⟩

theorem consumes_readEventBlock (flag : MsgTypeFlagBits) :
    Consumes (readEventBlock flag) (EventBlock flag) := by
  unfold readEventBlock EventBlock
  by_cases carried : flag = .withEvent
  · simp only [if_pos carried]
    refine (consumes_readEvent.bind fun event => (consumes_readSessionId event).bind fun sessionId =>
      (consumes_readConnectId event).bind fun connectId =>
      consumes_pure (EventFields.mk event sessionId connectId)).congr ?_
    rintro used ⟨event, sessionId, connectId⟩
    constructor
    · rintro ⟨_, _, _, rfl, ⟨code, rfl, rfl⟩, session, _, _, rfl, hSession, connect, _, _, rfl,
        hConnect, rfl, same⟩
      cases same
      exact ⟨code, session, connect, by simp, rfl, hSession, hConnect⟩
    · rintro ⟨code, session, connect, rfl, rfl, hSession, hConnect⟩
      exact ⟨be32 code, session ++ connect, _, rfl, ⟨code, rfl, rfl⟩, session, connect, sessionId,
        rfl, hSession, connect, [], connectId, by simp, hConnect, rfl, rfl⟩
  · simpa only [if_neg carried] using consumes_pure ({} : EventFields)

def Message.header (m : Message) : Header :=
  ⟨m.version, m.headerSize, m.serialization, m.compression⟩

def Message.eventFields (m : Message) : EventFields := ⟨m.event, m.sessionId, m.connectId⟩

def Frame (m : Message) (bytes : List UInt8) : Prop :=
  ∃ padding lead block payload,
    bytes = m.headerBytes ++ padding ++ lead ++ block ++ payload ∧
    padding.length = m.headerPadding ∧
    Lead m.msgType m.flag lead (m.sequence, m.errorCode) ∧
    EventBlock m.flag block m.eventFields ∧
    Prefixed payload m.payload

theorem consumes_readMessage (msgType : MsgType) (flag : MsgTypeFlagBits) :
    Consumes (readMessage msgType flag) (fun used m => m.msgType = msgType ∧ m.flag = flag ∧
      ∃ header lead block payload, used = header ++ (lead ++ (block ++ payload)) ∧
        HeaderBytes header m.header ∧ Lead msgType flag lead (m.sequence, m.errorCode) ∧
        EventBlock flag block m.eventFields ∧ Prefixed payload m.payload) := by
  refine (consumes_readHeader.bind fun header => (consumes_readLead msgType flag).bind fun lead =>
    (consumes_readEventBlock flag).bind fun fields => (consumes_takePrefixed _).bind fun payload =>
    consumes_pure _).congr (fun used m => ?_)
  constructor
  · rintro ⟨header, _, _, rfl, hHeader, lead, _, _, rfl, hLead, block, _, _, rfl, hBlock,
      field, _, _, rfl, hPayload, rfl, rfl⟩
    exact ⟨rfl, rfl, header, lead, block, field, by simp, hHeader, hLead, hBlock, hPayload⟩
  · rintro ⟨rfl, rfl, header, lead, block, field, rfl, hHeader, hLead, hBlock, hPayload⟩
    exact ⟨header, _, m.header, rfl, hHeader, lead, _, (m.sequence, m.errorCode), rfl, hLead,
      block, _, m.eventFields, rfl, hBlock, field, [], m.payload, by simp, hPayload, rfl, rfl⟩

theorem unmarshal_eq_ok_of_header {b0 b1 b2 : UInt8} {tail : List UInt8} {m : Message} :
    unmarshal (b0 :: b1 :: b2 :: tail) = .ok m ↔
      ∃ (msgType : MsgType) (flag : MsgTypeFlagBits), b1 = (msgType.asU8 <<< 4) ||| flag.asU8 ∧
        (readMessage msgType flag).run (b0 :: b1 :: b2 :: tail) = .ok (m, []) := by
  have nibbles : ∀ (msgType : MsgType) (flag : MsgTypeFlagBits), (MsgType.fromU8 (b1 >>> 4) = some msgType ∧
      MsgTypeFlagBits.fromU8 (b1 &&& 0x0F) = some flag) ↔
      b1 = (msgType.asU8 <<< 4) ||| flag.asU8 := by
    intro msgType flag
    rw [MsgType.fromU8_eq_some, MsgTypeFlagBits.fromU8_eq_some]
    exact nibbles_eq_iff b1 _ _ msgType.asU8_small flag.asU8_small
  constructor
  · intro accepted
    simp only [unmarshal] at accepted
    cases hType : MsgType.fromU8 (b1 >>> 4) with
    | none => simp [hType] at accepted
    | some msgType =>
      cases hFlag : MsgTypeFlagBits.fromU8 (b1 &&& 0x0F) with
      | none => simp [hType, hFlag] at accepted
      | some flag =>
        refine ⟨msgType, flag, (nibbles msgType flag).mp ⟨hType, hFlag⟩, ?_⟩
        simp only [hType, hFlag] at accepted
        cases ran : (readMessage msgType flag).run (b0 :: b1 :: b2 :: tail) with
        | error error => simp [ran] at accepted
        | ok pair =>
          obtain ⟨message, rest⟩ := pair
          cases rest with
          | nil => simpa [ran] using accepted
          | cons byte rest => simp [ran] at accepted
  · rintro ⟨msgType, flag, same, ran⟩
    obtain ⟨hType, hFlag⟩ := (nibbles msgType flag).mpr same
    simp only [unmarshal, hType, hFlag, ran]

/-- The reader accepts exactly the frames of the grammar, with exactly their fields. -/
theorem unmarshal_eq_ok_iff_frame (bytes : List UInt8) (m : Message) :
    unmarshal bytes = .ok m ↔ Frame m bytes := by
  constructor
  · intro accepted
    match bytes with
    | [] | [_] | [_, _] => simp [unmarshal] at accepted
    | b0 :: b1 :: b2 :: tail =>
      obtain ⟨msgType, flag, same, ran⟩ := unmarshal_eq_ok_of_header.mp accepted
      obtain ⟨rfl, rfl, header, lead, block, payload, split, ⟨b1', padding, length, rfl⟩,
        hLead, hBlock, hPayload⟩ := ((consumes_readMessage msgType flag).whole _ _).mp ran
      simp only [List.cons_append, List.cons.injEq] at split
      obtain ⟨rfl, rfl, rfl, rfl⟩ := split
      exact ⟨padding, lead, block, payload, by
        simp [Message.headerBytes, Message.header, same], length,
        hLead, hBlock, hPayload⟩
  · rintro ⟨padding, lead, block, payload, rfl, length, hLead, hBlock, hPayload⟩
    simp only [Message.headerBytes, List.cons_append, List.nil_append, List.append_assoc]
    refine unmarshal_eq_ok_of_header.mpr ⟨m.msgType, m.flag, rfl, ?_⟩
    refine ((consumes_readMessage m.msgType m.flag).whole _ _).mpr
      ⟨rfl, rfl, _, lead, block, payload, ?_,
        ⟨(m.msgType.asU8 <<< 4) ||| m.flag.asU8, padding, length, rfl⟩, hLead, hBlock, hPayload⟩
    simp [Message.header]

end Fswtch.Seat.TtsWsCodec
