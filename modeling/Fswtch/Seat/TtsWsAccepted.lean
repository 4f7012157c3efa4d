import Fswtch.Seat.TtsWsRoundTrip

/-! The frames the reader accepts: no other frame begins with one of them, and the writer
gives each of them back as long as the two sides agree on its layout. -/

namespace Fswtch.Seat.TtsWsCodec
open Fswtch.Lib.ByteReader

def wordAt (bytes : List UInt8) (offset : Nat) : Option UInt32 :=
  match bytes.drop offset with
  | a :: b :: c :: d :: _ => some (ofBe32 a b c d)
  | _ => none

def Message.headerLength (m : Message) : Nat := 4 * m.headerSize.asU8.toNat

theorem Message.headerLength_eq (m : Message) : m.headerLength = 3 + m.headerPadding := by
  unfold Message.headerLength Message.headerPadding
  cases m.headerSize <;> rfl

theorem headerBytes_length (m : Message) : m.headerBytes.length = 3 := rfl

theorem wordAt_append {front : List UInt8} {offset : Nat} (length : front.length = offset) (word : UInt32)
    (rest : List UInt8) : wordAt (front ++ (be32 word ++ rest)) offset = some word := by
  rw [wordAt, ← length, List.drop_left]
  exact congrArg some (ofBe32_be32 word)

theorem unmarshal_append {bytes more : List UInt8} {m other : Message}
    (accepted : unmarshal bytes = .ok m) (longer : unmarshal (bytes ++ more) = .ok other) : more = [] := by
  match bytes with
  | [] | [_] | [_, _] => simp [unmarshal] at accepted
  | b0 :: b1 :: b2 :: tail =>
    obtain ⟨msgType, flag, same, ran⟩ := unmarshal_eq_ok_of_header.mp accepted
    obtain ⟨msgType', flag', same', ran'⟩ := unmarshal_eq_ok_of_header.mp longer
    have types : msgType = msgType' ∧ flag = flag' := by
      have nibbles := (nibbles_eq_iff b1 _ _ msgType.asU8_small flag.asU8_small).mpr same
      have nibbles' := (nibbles_eq_iff b1 _ _ msgType'.asU8_small flag'.asU8_small).mpr same'
      constructor
      · have known := (MsgType.fromU8_eq_some _ _).mpr nibbles.1
        exact Option.some.inj (known.symm.trans ((MsgType.fromU8_eq_some _ _).mpr nibbles'.1))
      · have known := (MsgTypeFlagBits.fromU8_eq_some _ _).mpr nibbles.2
        exact Option.some.inj (known.symm.trans ((MsgTypeFlagBits.fromU8_eq_some _ _).mpr nibbles'.2))
    obtain ⟨rfl, rfl⟩ := types
    have derived := ((consumes_readMessage msgType flag).whole _ _).mp ran
    have reads := (consumes_readMessage msgType flag (b0 :: b1 :: b2 :: tail ++ more) m more).mpr
      ⟨_, rfl, derived⟩
    have both := reads.symm.trans ran'
    simp only [Except.ok.injEq, Prod.mk.injEq] at both
    exact both.2

def Incomparable (bytes other : List UInt8) : Prop := bytes ≠ other → ¬bytes <+: other ∧ ¬other <+: bytes

theorem unmarshal_incomparable {bytes other : List UInt8} {m m' : Message} (accepted : unmarshal bytes = .ok m)
    (too : unmarshal other = .ok m') : Incomparable bytes other := by
  intro apart
  constructor
  · rintro ⟨more, rfl⟩
    rw [unmarshal_append accepted too, List.append_nil] at apart
    exact apart rfl
  · rintro ⟨more, rfl⟩
    rw [unmarshal_append too accepted, List.append_nil] at apart
    exact apart rfl

/-- The reader accepts exactly the frames of the grammar, with their fields, and of two of them
neither begins with the other. An event code that is not known is read as `none`. -/
theorem unmarshal_accepts :
    (∀ bytes m, unmarshal bytes = .ok m ↔ Frame m bytes) ∧
      ∀ bytes other m m', unmarshal bytes = .ok m → unmarshal other = .ok m' → Incomparable bytes other :=
  ⟨unmarshal_eq_ok_iff_frame, fun _ _ _ _ => unmarshal_incomparable⟩

def unknownEventFrame : List UInt8 := [0x11, 0x94, 0x10, 0, 0, 0, 0, 7, 0, 0, 0, 0, 0, 0, 0, 0]

def unknownEventMessage : Message := { msgType := .fullServerResponse, flag := .withEvent }

theorem unmarshal_unknownEventFrame : unmarshal unknownEventFrame = .ok unknownEventMessage := rfl

theorem unknownEventFrame_whole : ∀ m, unmarshal (unknownEventFrame.take 15) ≠ .ok m := by
  intro m shorter
  have apart := unmarshal_accepts.2 _ _ _ _ unmarshal_unknownEventFrame shorter (by decide)
  exact apart.2 (List.take_prefix 15 _)

/-- The event of an accepted frame need not be the one on the wire. -/
theorem unknownEvent_not_kept :
    ¬∀ bytes m, unmarshal bytes = .ok m → m.flag = .withEvent → m.msgType ≠ .error →
      wordAt bytes m.headerLength = some m.event.asI32.toUInt32 := by
  intro kept
  have same := kept unknownEventFrame _ unmarshal_unknownEventFrame rfl (by decide)
  revert same
  decide

/-- The padding is zeros, the event code is known, and the two sides agree on the layout. -/
structure Reencodable (bytes : List UInt8) (m : Message) : Prop where
  padding : ∀ byte ∈ (bytes.take m.headerLength).drop 3, byte = 0
  known : m.flag = .withEvent → m.msgType ≠ .error →
    ∃ word, wordAt bytes m.headerLength = some word ∧ (EventType.fromI32 word.toInt32).isSome
  event : m.event ∉ [.connectionStarted, .connectionFailed, .connectionFinished]
  layout : ¬(m.msgType = .error ∧ m.flag = .withEvent)

theorem lead_written {m : Message} {used : List UInt8}
    (lead : Lead m.msgType m.flag used (m.sequence, m.errorCode)) : m.writeLead = .ok used := by
  unfold Lead at lead
  unfold Message.writeLead
  by_cases capable : m.msgType.seqCapable = true
  · rw [if_pos capable] at lead ⊢
    by_cases sequenced : m.flag.sequenced = true
    · rw [if_pos sequenced] at lead ⊢
      exact congrArg Except.ok lead.2.symm
    · rw [if_neg sequenced] at lead ⊢
      exact congrArg Except.ok lead.2.1.symm
  · rw [if_neg capable] at lead ⊢
    rw [if_pos lead.1]
    exact congrArg Except.ok lead.2.2.symm

theorem ids_of_sessionEvent {event : EventType}
    (session : event ∉ [.connectionStarted, .connectionFailed, .connectionFinished]) :
    event.omitsSessionIdReader = event.omitsSessionIdWriter ∧ event.carriesConnectId = false := by
  revert session
  cases event <;> decide

theorem sessionId_written {m : Message} {used : List UInt8}
    (session : m.event ∉ [.connectionStarted, .connectionFailed, .connectionFinished])
    (field : SessionField m.event used m.sessionId) : m.writeSessionId = .ok used := by
  rw [SessionField, (ids_of_sessionEvent session).1] at field
  unfold Message.writeSessionId
  by_cases omitted : m.event.omitsSessionIdWriter = true
  · rw [if_pos omitted] at field ⊢
    exact congrArg Except.ok field.1.symm
  · rw [if_neg omitted] at field ⊢
    exact (lengthPrefixed_eq_ok _ _).mpr field

theorem eventBlock_written {m : Message} {used : List UInt8}
    (session : m.event ∉ [.connectionStarted, .connectionFailed, .connectionFinished])
    (block : EventBlock m.flag used m.eventFields)
    (known : m.flag = .withEvent → ∀ word rest, used = be32 word ++ rest →
      (EventType.fromI32 word.toInt32).isSome) :
    m.writeEventBlock = .ok used := by
  unfold EventBlock at block
  unfold Message.writeEventBlock
  by_cases carried : m.flag = .withEvent
  · rw [if_pos carried] at block ⊢
    obtain ⟨word, first, second, rfl, event, sessionId, connectId⟩ := block
    obtain ⟨found, decoded⟩ := Option.isSome_iff_exists.mp (known carried word _ rfl)
    rw [decoded, Option.getD_some] at event
    have code : word = m.event.asI32.toUInt32 := by
      have same := EventType.asI32_of_fromI32 decoded
      rw [event] at same
      exact (congrArg Int32.toUInt32 same)
    have empty : second = [] := by
      rw [ConnectField, if_neg (by simp [(ids_of_sessionEvent session).2, Message.eventFields])] at connectId
      exact connectId.1
    rw [sessionId_written session sessionId, empty, List.append_nil, code]
    rfl
  · rw [if_neg carried] at block ⊢
    exact congrArg Except.ok block.1.symm

theorem blocks_commute {m : Message} {lead block : List UInt8} (layout : ¬(m.msgType = .error ∧ m.flag = .withEvent))
    (hLead : Lead m.msgType m.flag lead (m.sequence, m.errorCode)) (hBlock : EventBlock m.flag block m.eventFields) :
    lead ++ block = block ++ lead := by
  by_cases carried : m.flag = .withEvent
  · unfold Lead at hLead
    have unsequenced : ¬m.flag.sequenced = true := by
      rw [carried]
      decide
    by_cases capable : m.msgType.seqCapable = true
    · rw [if_pos capable, if_neg unsequenced] at hLead
      rw [hLead.2.1, List.nil_append, List.append_nil]
    · rw [if_neg capable] at hLead
      exact absurd ⟨hLead.1, carried⟩ layout
  · rw [EventBlock, if_neg carried] at hBlock
    rw [hBlock.1, List.nil_append, List.append_nil]

/-- What the reader accepted, the writer gives back byte for byte. -/
theorem marshal_unmarshal {bytes : List UInt8} {m : Message} (accepted : unmarshal bytes = .ok m)
    (plain : Reencodable bytes m) : m.marshal = .ok bytes := by
  obtain ⟨padding, lead, block, payload, rfl, length, hLead, hBlock, hPayload⟩ :=
    (unmarshal_eq_ok_iff_frame bytes m).mp accepted
  have header : (m.headerBytes ++ padding).length = m.headerLength := by
    rw [List.length_append, headerBytes_length, length, m.headerLength_eq]
  have zeros : padding = List.replicate m.headerPadding 0 := by
    have bytesOf := plain.padding
    rw [List.append_assoc _ lead, List.append_assoc _ _ payload, ← header, List.take_left,
      List.drop_left' (headerBytes_length m)] at bytesOf
    exact List.eq_replicate_iff.mpr ⟨length, bytesOf⟩
  have commute := blocks_commute plain.layout hLead hBlock
  have known : m.flag = .withEvent → ∀ word rest, block = be32 word ++ rest →
      (EventType.fromI32 word.toInt32).isSome := by
    intro carried word rest same
    have notError : m.msgType ≠ .error := fun error => plain.layout ⟨error, carried⟩
    obtain ⟨found, here, event⟩ := plain.known carried notError
    rw [List.append_assoc _ lead, commute, same] at here
    simp only [List.append_assoc] at here
    rw [← List.append_assoc, wordAt_append header] at here
    rwa [Option.some.inj here]
  have writes := eventBlock_written plain.event hBlock known
  rw [Message.marshal, writes, lead_written hLead, Message.writePayload,
    (lengthPrefixed_eq_ok _ _).mpr hPayload, ← zeros]
  change Except.ok (m.headerBytes ++ padding ++ block ++ lead ++ payload) = _
  rw [List.append_assoc _ block, List.append_assoc _ lead, commute]

theorem audioFrame_reencoded :
    ∃ bytes m, unmarshal bytes = .ok m ∧ m.payload = [1, 2, 3] ∧ m.marshal = .ok bytes := by
  refine ⟨[0x11, 0xb4, 0x10, 0, 0, 0, 1, 0x60, 0, 0, 0, 0, 0, 0, 0, 3, 1, 2, 3],
    { audioFrame with sessionId := "" }, rfl, rfl, marshal_unmarshal rfl ?_⟩
  have padding : ∀ byte ∈ [(0 : UInt8)], byte = 0 := fun _ => List.mem_singleton.mp
  exact ⟨padding, fun _ _ => ⟨_, rfl, by decide⟩, by decide, by decide⟩

end Fswtch.Seat.TtsWsCodec
