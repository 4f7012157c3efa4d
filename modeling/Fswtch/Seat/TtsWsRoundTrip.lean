import Fswtch.Seat.TtsWsFrame

/-! Reading back what the writer wrote. The two sides disagree in two places: the
reader takes a `connect_id` that the writer never emits, and of an error message
with an event the writer puts the event block first, the reader the error code.
The messages that survive the trip are characterised exactly. -/

namespace Fswtch.Seat.TtsWsCodec
open Fswtch.Lib.ByteReader

def WrittenSession (m : Message) : Grammar Unit := fun used _ =>
  if m.event.omitsSessionIdWriter then used = [] else Prefixed used (utf8 m.sessionId)

def WrittenBlock (m : Message) : Grammar Unit := fun used _ =>
  if m.flag = .withEvent then
    ∃ session, used = be32 m.event.asI32.toUInt32 ++ session ∧ WrittenSession m session ()
  else used = []

def WrittenLead (m : Message) : Grammar Unit := fun used _ =>
  if m.msgType.seqCapable then
    used = if m.flag.sequenced then be32 m.sequence.toUInt32 else []
  else m.msgType = .error ∧ used = be32 m.errorCode

theorem lengthPrefixed_eq_ok (bytes used : List UInt8) :
    Message.lengthPrefixed bytes = .ok used ↔ Prefixed used bytes := by
  unfold Message.lengthPrefixed Prefixed
  split
  next fits =>
    exact ⟨fun same => ⟨fits, (Except.ok.inj same).symm⟩, fun prefixed => congrArg _ prefixed.2.symm⟩
  next long => exact ⟨nofun, fun prefixed => absurd prefixed.1 long⟩

theorem writeSessionId_eq_ok (m : Message) (used : List UInt8) :
    m.writeSessionId = .ok used ↔ WrittenSession m used () := by
  unfold Message.writeSessionId WrittenSession
  split
  · simp [eq_comm]
  · exact lengthPrefixed_eq_ok _ _

theorem bind_eq_ok {α β ε : Type} (first : Except ε α) (next : α → Except ε β) (value : β) :
    (first >>= next) = .ok value ↔ ∃ middle, first = .ok middle ∧ next middle = .ok value := by
  cases first with
  | error error => exact ⟨fun absurd => (nomatch absurd), fun ⟨_, absurd, _⟩ => (nomatch absurd)⟩
  | ok middle =>
    constructor
    · exact fun same => ⟨middle, rfl, same⟩
    · rintro ⟨_, same, rest⟩
      cases same
      exact rest

theorem marshal_layout {m : Message} {bytes : List UInt8} (encoded : m.marshal = .ok bytes) :
    ∃ block lead payload,
      bytes = m.headerBytes ++ List.replicate m.headerPadding 0 ++ block ++ lead ++ payload ∧
      WrittenBlock m block () ∧ WrittenLead m lead () ∧ Prefixed payload m.payload := by
  unfold Message.marshal at encoded
  simp only [bind_eq_ok] at encoded
  obtain ⟨block, hBlock, lead, hLead, payload, hPayload, same⟩ := encoded
  refine ⟨block, lead, payload, (Except.ok.inj same).symm, ?_, ?_,
    (lengthPrefixed_eq_ok _ _).mp hPayload⟩
  · unfold Message.writeEventBlock at hBlock
    unfold WrittenBlock
    split at hBlock
    next carried =>
      obtain ⟨session, written, joined⟩ := (bind_eq_ok _ _ _).mp hBlock
      rw [if_pos carried]
      exact ⟨session, (Except.ok.inj joined).symm, (writeSessionId_eq_ok m session).mp written⟩
    next plain =>
      rw [if_neg plain]
      exact (Except.ok.inj hBlock).symm
  · unfold Message.writeLead at hLead
    unfold WrittenLead
    split at hLead
    next capable =>
      rw [if_pos capable]
      exact (Except.ok.inj hLead).symm
    next incapable =>
      rw [if_neg incapable]
      split at hLead
      next error => exact ⟨error, (Except.ok.inj hLead).symm⟩
      next => cases hLead

/-- Header, padding and payload agree on both sides, so the round trip is decided
by the two blocks between them, which the sides take in opposite order. -/
theorem unmarshal_layout {m : Message} {block lead payload : List UInt8}
    (field : Prefixed payload m.payload) :
    unmarshal (m.headerBytes ++ List.replicate m.headerPadding 0 ++ block ++ lead ++ payload) =
        .ok m ↔
      ∃ readLead readBlock, block ++ lead = readLead ++ readBlock ∧
        Lead m.msgType m.flag readLead (m.sequence, m.errorCode) ∧
        EventBlock m.flag readBlock m.eventFields := by
  rw [unmarshal_eq_ok_iff_frame]
  constructor
  · rintro ⟨padding, readLead, readBlock, readPayload, same, length, hLead, hBlock, hPayload⟩
    have payloads : readPayload = payload := hPayload.2.trans field.2.symm
    subst payloads
    simp only [List.append_assoc] at same
    have tails := List.append_cancel_left same
    have rest := List.append_inj_right tails (by simp [length])
    refine ⟨readLead, readBlock, ?_, hLead, hBlock⟩
    simpa only [← List.append_assoc, List.append_left_inj] using rest
  · rintro ⟨readLead, readBlock, same, hLead, hBlock⟩
    refine ⟨List.replicate m.headerPadding 0, readLead, readBlock, payload, ?_, by simp,
      hLead, hBlock, field⟩
    rw [List.append_assoc _ block lead, same]
    simp only [List.append_assoc]

/-- The fields a frame of this type, flag and event has no place for are at their defaults. -/
structure Message.UncarriedDefault (m : Message) : Prop where
  sequence : ¬(m.msgType.seqCapable = true ∧ m.flag.sequenced = true) → m.sequence = 0
  errorCode : m.msgType ≠ .error → m.errorCode = 0
  event : m.flag ≠ .withEvent → m.event = .none
  sessionId : m.flag ≠ .withEvent ∨ m.event.omitsSessionIdWriter = true → m.sessionId = ""
  connectId : m.flag ≠ .withEvent ∨ m.event.carriesConnectId = false → m.connectId = ""

def Message.eventCode (m : Message) : UInt32 := m.event.asI32.toUInt32

/-- Without an event every message reads back. With one, an event that has a
`connect_id` does only as an empty `ConnectionFinished`, and an error message only
when its two leading words and its session id cannot be told apart in either order. -/
def Message.ReadsBack (m : Message) : Prop :=
  m.flag = .withEvent →
    if m.msgType = .error then
      m.errorCode = m.eventCode ∧ m.event.carriesConnectId = false ∧
        (m.event.omitsSessionIdWriter = false →
          (utf8 m.sessionId).length = m.eventCode.toNat ∧
            be32 m.eventCode ++ utf8 m.sessionId = utf8 m.sessionId ++ be32 m.eventCode)
    else m.event.carriesConnectId = true →
      m.event = .connectionFinished ∧ m.sessionId = "" ∧ m.connectId = ""

theorem EventType.omitsSessionIdReader_iff (event : EventType) :
    event.omitsSessionIdReader = true ↔
      event.omitsSessionIdWriter = true ∨ event = .connectionFinished := by
  cases event <;> decide

theorem EventType.carriesConnectId_cases (event : EventType)
    (carried : event.carriesConnectId = true) :
    event = .connectionFinished ∨ event.omitsSessionIdWriter = true := by
  cases event <;> first | (left; rfl) | (right; rfl) | (exact absurd carried (by decide))

/-- Apart from the events with a `connect_id` the two sides leave the session id out alike. -/
theorem EventType.omitsSessionId_agree {event : EventType} (plain : event.carriesConnectId = false) :
    event.omitsSessionIdReader = event.omitsSessionIdWriter := by
  revert plain
  cases event <;> decide

theorem prefixed_ne_nil {value : List UInt8} : ¬Prefixed [] value := by
  rintro ⟨_, same⟩
  have lengths := congrArg List.length same
  simp only [List.length_nil, List.length_append, be32_length] at lengths
  omega

/-- A word whose bytes can be moved past a string is a word of zeros if the string
puts zeros on the other side. -/
theorem word_zero_of_shift {text : List UInt8} {size : UInt32}
    (shift : text ++ be32 0 = be32 size ++ text) : size = 0 := by
  have rearranged : (be32 0 ++ text).Perm (be32 size ++ text) := by
    rw [← shift]
    exact List.perm_append_comm
  have words : (be32 size).Perm (be32 0) :=
    ((List.perm_append_right_iff text).mp rearranged).symm
  have zeros : be32 0 = List.replicate 4 0 := rfl
  rw [zeros] at words
  have same := List.perm_replicate.mp words
  exact be32_injective (same.trans zeros.symm)

theorem connectField_of_default {m : Message} (plain : m.UncarriedDefault)
    (absent : m.event.carriesConnectId = false) (used : List UInt8) :
    ConnectField m.event used m.connectId ↔ used = [] := by
  unfold ConnectField
  simp [absent, plain.connectId (.inr absent)]

theorem Message.eventCode_known (m : Message) :
    (EventType.fromI32 m.eventCode.toInt32).getD .none = m.event := by
  have ofCode : m.eventCode.toInt32 = m.event.asI32 := Int32.toInt32_toUInt32 _
  rw [ofCode, EventType.fromI32_asI32]
  rfl

theorem reads_back_sequenced {m : Message} (plain : m.UncarriedDefault)
    (capable : m.msgType.seqCapable = true) (carried : m.flag = .withEvent)
    {session : List UInt8} (written : WrittenSession m session ()) :
    EventBlock m.flag (be32 m.eventCode ++ session) m.eventFields ↔ m.ReadsBack := by
  have notError : m.msgType ≠ .error := by
    intro same
    rw [same] at capable
    cases capable
  have fields : EventBlock m.flag (be32 m.eventCode ++ session) m.eventFields ↔
      ∃ front back, session = front ++ back ∧ SessionField m.event front m.sessionId ∧
        ConnectField m.event back m.connectId := by
    unfold EventBlock
    rw [if_pos carried]
    constructor
    · rintro ⟨code, front, back, same, _, hSession, hConnect⟩
      exact ⟨front, back, List.append_inj_right same rfl, hSession, hConnect⟩
    · rintro ⟨front, back, rfl, hSession, hConnect⟩
      exact ⟨m.eventCode, front, back, rfl, m.eventCode_known, hSession, hConnect⟩
  rw [fields]
  unfold Message.ReadsBack
  simp only [carried, forall_const, if_neg notError]
  cases connect : m.event.carriesConnectId with
  | false =>
    simp only [Bool.false_eq_true, false_implies, iff_true]
    refine ⟨session, [], by simp, ?_, (connectField_of_default plain connect []).mpr rfl⟩
    unfold WrittenSession at written
    unfold SessionField
    rw [EventType.omitsSessionId_agree connect]
    split
    next omitted =>
      rw [if_pos omitted] at written
      exact ⟨written, plain.sessionId (.inr omitted)⟩
    next kept => rwa [if_neg kept] at written
  | true =>
    simp only [forall_const]
    rcases m.event.carriesConnectId_cases connect with finished | omitted
    · have skipped : m.event.omitsSessionIdReader = true := by rw [finished]; rfl
      have kept : ¬m.event.omitsSessionIdWriter = true := by rw [finished]; decide
      unfold WrittenSession at written
      rw [if_neg kept] at written
      unfold SessionField ConnectField
      simp only [skipped, connect, if_true]
      constructor
      · rintro ⟨front, back, rfl, ⟨rfl, emptySession⟩, hConnect⟩
        refine ⟨finished, emptySession, ?_⟩
        have same := Prefixed.unique written hConnect
        rw [emptySession] at same
        exact (utf8_injective same).symm
      · rintro ⟨_, emptySession, emptyConnect⟩
        refine ⟨[], session, rfl, ⟨rfl, emptySession⟩, ?_⟩
        rwa [emptyConnect, ← emptySession]
    · unfold WrittenSession at written
      rw [if_pos omitted] at written
      subst written
      constructor
      · rintro ⟨front, back, same, _, hConnect⟩
        have empty := (List.append_eq_nil_iff.mp same.symm).2
        subst empty
        unfold ConnectField at hConnect
        rw [if_pos connect] at hConnect
        exact (prefixed_ne_nil hConnect).elim
      · rintro ⟨finished, _⟩
        rw [finished] at omitted
        cases omitted

theorem error_codes {m : Message} {session : List UInt8} :
    (∃ block, be32 m.eventCode ++ session ++ be32 m.errorCode = be32 m.errorCode ++ block ∧
      EventBlock m.flag block m.eventFields) ↔
      m.errorCode = m.eventCode ∧ EventBlock m.flag (session ++ be32 m.eventCode) m.eventFields := by
  constructor
  · rintro ⟨block, same, hBlock⟩
    rw [List.append_assoc] at same
    have words := be32_injective (List.append_inj_left same rfl)
    have rest := List.append_inj_right same rfl
    rw [← words] at rest
    exact ⟨words.symm, rest ▸ hBlock⟩
  · rintro ⟨words, hBlock⟩
    refine ⟨_, ?_, hBlock⟩
    rw [words, List.append_assoc]

theorem error_unnamed {m : Message} (plain : m.UncarriedDefault) (carried : m.flag = .withEvent)
    (omitted : m.event.omitsSessionIdWriter = true) :
    EventBlock m.flag (be32 m.eventCode) m.eventFields ↔ m.event.carriesConnectId = false := by
  have skipped : m.event.omitsSessionIdReader = true := m.event.omitsSessionIdReader_iff.mpr (.inl omitted)
  unfold EventBlock
  rw [if_pos carried]
  constructor
  · rintro ⟨code, front, back, same, _, _, hConnect⟩
    have lengths := congrArg List.length same
    simp only [List.length_append, be32_length] at lengths
    have empty : back = [] := List.eq_nil_of_length_eq_zero (by omega)
    subst empty
    by_contra connect
    rw [Bool.not_eq_false] at connect
    unfold ConnectField at hConnect
    simp only [Message.eventFields, connect, if_true] at hConnect
    exact prefixed_ne_nil hConnect
  · intro connect
    refine ⟨m.eventCode, [], [], by simp, m.eventCode_known, ?_, (connectField_of_default plain connect _).mpr rfl⟩
    unfold SessionField
    simp only [Message.eventFields, skipped, if_true, true_and]
    exact plain.sessionId (.inr omitted)

/-- A length that the reader takes for the code of the event, in front of a text that ends in
that code, is the code. -/
theorem size_of_shift {m : Message} {size : UInt32} {text : List UInt8}
    (known : (EventType.fromI32 size.toInt32).getD .none = m.event)
    (shift : text ++ be32 m.eventCode = be32 size ++ text) : size = m.eventCode := by
  have ofCode : m.eventCode.toInt32 = m.event.asI32 := Int32.toInt32_toUInt32 _
  cases found : EventType.fromI32 size.toInt32 with
  | some event =>
    rw [found, Option.getD_some] at known
    have same := EventType.asI32_of_fromI32 found
    rw [known, ← ofCode] at same
    simpa using congrArg Int32.toUInt32 same
  | none =>
    rw [found, Option.getD_none] at known
    have zero : m.eventCode = 0 := by
      unfold Message.eventCode
      rw [← known]
      rfl
    rw [zero] at shift
    rw [word_zero_of_shift shift, zero]

theorem error_named {m : Message} (plain : m.UncarriedDefault) (carried : m.flag = .withEvent)
    (named : m.event.omitsSessionIdWriter = false) (short : (utf8 m.sessionId).length < 2 ^ 32) :
    EventBlock m.flag (be32 (UInt32.ofNat (utf8 m.sessionId).length) ++ utf8 m.sessionId ++ be32 m.eventCode)
        m.eventFields ↔
      m.event.carriesConnectId = false ∧ (utf8 m.sessionId).length = m.eventCode.toNat ∧
        be32 m.eventCode ++ utf8 m.sessionId = utf8 m.sessionId ++ be32 m.eventCode := by
  unfold EventBlock
  rw [if_pos carried]
  constructor
  · rintro ⟨code, front, back, same, known, hSession, hConnect⟩
    rw [List.append_assoc] at same
    have size := be32_injective (List.append_inj_left same rfl)
    have rest := List.append_inj_right same rfl
    subst size
    simp only [Message.eventFields] at known hSession hConnect
    have connect : m.event.carriesConnectId = false := by
      by_contra connect
      rw [Bool.not_eq_false] at connect
      have finished : m.event = .connectionFinished :=
        (m.event.carriesConnectId_cases connect).resolve_right (by simp [named])
      unfold SessionField at hSession
      rw [finished] at known hSession
      rw [if_pos (by rfl)] at hSession
      rw [hSession.2] at known
      exact absurd known (by decide)
    rw [connectField_of_default plain connect] at hConnect
    unfold SessionField at hSession
    rw [EventType.omitsSessionId_agree connect, if_neg (by simp [named])] at hSession
    subst hConnect
    rw [List.append_nil, hSession.2] at rest
    have size := size_of_shift known rest
    refine ⟨connect, ?_, ?_⟩
    · rw [← size, UInt32.toNat_ofNat']
      omega
    · rw [size] at rest
      exact rest.symm
  · rintro ⟨connect, length, commutes⟩
    have size : UInt32.ofNat (utf8 m.sessionId).length = m.eventCode := by
      rw [length, UInt32.ofNat_toNat]
    refine ⟨m.eventCode, be32 m.eventCode ++ utf8 m.sessionId, [], ?_, m.eventCode_known, ?_,
      (connectField_of_default plain connect _).mpr rfl⟩
    · rw [size, List.append_nil, List.append_assoc, commutes]
    · have kept : m.event.omitsSessionIdReader = false := (EventType.omitsSessionId_agree connect).trans named
      unfold SessionField
      simp only [Message.eventFields, kept, Bool.false_eq_true, if_false]
      exact ⟨short, by rw [size]⟩

theorem reads_back_error {m : Message} (plain : m.UncarriedDefault)
    (error : m.msgType = .error) (carried : m.flag = .withEvent)
    {session : List UInt8} (written : WrittenSession m session ()) :
    (∃ block, be32 m.eventCode ++ session ++ be32 m.errorCode = be32 m.errorCode ++ block ∧
      EventBlock m.flag block m.eventFields) ↔ m.ReadsBack := by
  rw [error_codes]
  unfold Message.ReadsBack
  simp only [carried, forall_const, if_pos error]
  refine and_congr_right fun _ => ?_
  rw [← carried]
  unfold WrittenSession at written
  cases omitted : m.event.omitsSessionIdWriter with
  | true =>
    rw [if_pos omitted] at written
    subst written
    rw [List.nil_append, error_unnamed plain carried omitted]
    simp
  | false =>
    rw [if_neg (by simp [omitted])] at written
    obtain ⟨short, rfl⟩ := written
    rw [error_named plain carried omitted short]
    simp

/-- A message that the writer accepts, with nothing in the fields its frame has no
place for, is read back as itself exactly when `ReadsBack` holds of it. -/
theorem unmarshal_marshal_iff (m : Message) (bytes : List UInt8)
    (encoded : m.marshal = .ok bytes) (plain : m.UncarriedDefault) :
    unmarshal bytes = .ok m ↔ m.ReadsBack := by
  obtain ⟨block, lead, payload, rfl, hBlock, hLead, hPayload⟩ := marshal_layout encoded
  rw [unmarshal_layout hPayload]
  unfold WrittenBlock at hBlock
  unfold WrittenLead at hLead
  by_cases carried : m.flag = .withEvent
  · rw [if_pos carried] at hBlock
    obtain ⟨session, rfl, written⟩ := hBlock
    have unsequenced : m.flag.sequenced = false := by rw [carried]; rfl
    have zero : m.sequence = 0 := plain.sequence (by simp [unsequenced])
    by_cases capable : m.msgType.seqCapable = true
    · have noError : m.errorCode = 0 :=
        plain.errorCode (by rintro same; simp [same, MsgType.seqCapable] at capable)
      rw [if_pos capable, unsequenced] at hLead
      simp only [Bool.false_eq_true, if_false] at hLead
      subst hLead
      rw [← reads_back_sequenced plain capable carried written]
      unfold Lead
      simp [capable, unsequenced, zero, noError, Message.eventCode]
    · rw [if_neg capable] at hLead
      obtain ⟨error, rfl⟩ := hLead
      rw [← reads_back_error plain error carried written]
      unfold Lead
      simp [error, MsgType.seqCapable, zero, Message.eventCode]
  · rw [if_neg carried] at hBlock
    subst hBlock
    have trivially : m.ReadsBack := fun same => (carried same).elim
    simp only [trivially, iff_true, List.nil_append]
    have fields : m.eventFields = {} := by
      simp [Message.eventFields, plain.event carried, plain.sessionId (.inl carried),
        plain.connectId (.inl carried)]
    refine ⟨lead, [], by simp, ?_, by simp [EventBlock, carried, fields]⟩
    unfold Lead
    by_cases capable : m.msgType.seqCapable = true
    · have noError : m.errorCode = 0 :=
        plain.errorCode (by rintro same; simp [same, MsgType.seqCapable] at capable)
      rw [if_pos capable] at hLead
      simp only [capable, if_true, noError, true_and]
      split at hLead
      next sequenced => simpa [sequenced] using hLead
      next unsequenced =>
        simpa [unsequenced, hLead] using plain.sequence (by simp [unsequenced])
    · rw [if_neg capable] at hLead
      obtain ⟨error, rfl⟩ := hLead
      rw [if_neg capable]
      exact ⟨error, plain.sequence (by simp [capable]), rfl⟩

def audioFrame : Message :=
  { msgType := .audioOnlyServer, flag := .withEvent, event := .ttsResponse, sessionId := "s-1",
    payload := [1, 2, 3] }

theorem unmarshal_marshal_audioFrame :
    ∃ bytes, audioFrame.marshal = .ok bytes ∧ unmarshal bytes = .ok audioFrame := by
  refine ⟨_, rfl, (unmarshal_marshal_iff audioFrame _ rfl ?_).mpr ?_⟩
  · exact ⟨fun _ => rfl, fun _ => rfl, by decide, by decide, fun _ => rfl⟩
  · intro _
    simp [audioFrame, EventType.carriesConnectId]

/-- The handshake frame the reader's own connect-id step was written for. -/
def connectionStartedFrame : Message :=
  { msgType := .fullClientRequest, flag := .withEvent, event := .connectionStarted,
    payload := [0x7b, 0x7d] }

theorem connectionStartedFrame_not_read_back :
    connectionStartedFrame.UncarriedDefault ∧
      connectionStartedFrame.marshal =
        .ok [0x11, 0x14, 0x10, 0, 0, 0, 0, 50, 0, 0, 0, 2, 0x7b, 0x7d] ∧
      unmarshal [0x11, 0x14, 0x10, 0, 0, 0, 0, 50, 0, 0, 0, 2, 0x7b, 0x7d] ≠
        .ok connectionStartedFrame := by
  refine ⟨⟨fun _ => rfl, fun _ => rfl, by decide, fun _ => rfl, fun _ => rfl⟩, rfl, ?_⟩
  have short : unmarshal [0x11, 0x14, 0x10, 0, 0, 0, 0, 50, 0, 0, 0, 2, 0x7b, 0x7d] =
      .error .unexpectedEof := rfl
  rw [short]
  exact fun absurd => nomatch absurd

end Fswtch.Seat.TtsWsCodec
