import Mathlib.Data.List.Flatten
import Fswtch.Unicast.Staging
import Fswtch.Unicast.Wire

/-! From the `write_frame` of one end to the `read_frame` of the other, with both modules and the
network between them at work at the same time. The network may lose datagrams, and anyone may send to
the socket; it keeps the order of what it delivers. -/

namespace Fswtch.Unicast.EndToEnd
open Fswtch.Lib.StepRun Fswtch.Unicast.Media Fswtch.Unicast.Wire

/-- The way of the audio from one end to the other: the datagrams in flight to the socket of the far
end, each with its source, and the chunk its receive task waits to put into the channel. Kept beside
are the frames with samples that were written and the chunks that came into the channel. -/
structure Link where
  near : CallState
  nearAddr : SocketAddr
  network : List (List UInt8 × SocketAddr) := []
  recvBuf : RecvBuf := .zeroed
  sending : Option Pcm := none
  far : Staging.Path
  offered : List Pcm := []
  forwarded : List Pcm := []

inductive Action where
  | writeFrame (frame : Option Pcm)
  /-- The send task takes the next frame of its channel. -/
  | sendNext
  /-- The network loses a datagram. -/
  | lose (index : Nat)
  /-- A datagram of somebody else. -/
  | stray (datagram : List UInt8) (addr : SocketAddr)
  /-- The receive task takes the next datagram of its socket. -/
  | recvNext
  /-- There is room for its chunk in the channel. -/
  | forward
  | readFrame (len : Nat)
  | tryRecv

def Link.recvNext (s : Link) (datagram : List UInt8) (addr : SocketAddr) (rest : List (List UInt8 × SocketAddr)) : Link :=
  { s with
    network := rest
    recvBuf := (s.recvBuf.recvFrom datagram).2
    sending := (recvLoop s.far.call.remoteAddr s.recvBuf [(datagram, addr)]).head? }

def step (s : Link) : Action → Option Link
  | .writeFrame frame =>
    some { s with near := s.near.writeFrame frame, offered := s.offered ++ frame.toList.filter (· ≠ []) }
  | .sendNext =>
    match s.near.sendTx with
    | [] => none
    | samples :: rest =>
      some { s with
        near := { s.near with sendTx := rest }
        network := s.network ++ (sendLoop [samples]).map fun datagram => (datagram, s.nearAddr) }
  | .lose index => if index < s.network.length then some { s with network := s.network.eraseIdx index } else none
  | .stray datagram addr => if addr = s.nearAddr then none else some { s with network := s.network ++ [(datagram, addr)] }
  | .recvNext =>
    match s.sending, s.network with
    | none, (datagram, addr) :: rest => some (s.recvNext datagram addr rest)
    | _, _ => none
  | .forward =>
    s.sending.bind fun chunk => (s.far.recv chunk).map fun far =>
      { s with far, sending := none, forwarded := s.forwarded ++ [chunk] }
  | .readFrame len => (Staging.step s.far (.stageAndFill len)).map fun far => { s with far }
  | .tryRecv => (Staging.step s.far .tryRecv).map fun far => { s with far }

def init (nearAddr farAddr : SocketAddr) : Link where
  near := { remoteAddr := farAddr }
  nearAddr := nearAddr
  far := Staging.init nearAddr

/-- What the buffer of the receive task can hold of a frame. -/
def cut (frame : Pcm) : Pcm := frame.take (udpBufBytes / 2)

def front (datagram : List UInt8) : Pcm := bytesToI16 (datagram.take udpBufBytes)

def Link.flying (s : Link) : List Pcm :=
  (s.network.filter fun item => item.2 = s.nearAddr).map fun item => front item.1

/-- The frames and what is left of them on their way, the oldest first. -/
def Link.transit (s : Link) : List Pcm :=
  s.forwarded ++ (s.sending.toList ++ (s.flying ++ s.near.sendTx.map cut))

theorem front_writeI16Le (samples : Pcm) : front (writeI16Le samples) = cut samples := by
  have whole := bytesToI16_take samples (udpBufBytes / 2)
  rwa [show 2 * (udpBufBytes / 2) = udpBufBytes by decide] at whole

theorem recvLoop_single (peer addr : SocketAddr) (buf : RecvBuf) (datagram : List UInt8) :
    (recvLoop peer buf [(datagram, addr)]).head? = if addr = peer then some (front datagram) else none := by
  rw [recvLoop]
  by_cases same : addr = peer
  · simp only [same, ne_eq, not_true_eq_false, if_false, if_true, List.head?_cons, recvFrom_bytes, front]
  · simp only [same, ne_eq, not_false_eq_true, if_true, if_false, recvLoop, List.head?_nil]

theorem sendLoop_single (samples : Pcm) :
    sendLoop [samples] = if 2 * samples.length ≤ udpPayloadLimit then [writeI16Le samples] else [] := by
  rw [sendLoop, sendTo, length_writeI16Le]
  by_cases fits : 2 * samples.length ≤ udpPayloadLimit
  · rw [if_pos fits, if_pos fits]
    rfl
  · rw [if_neg fits, if_neg fits]
    rfl

/-- The steps on which nothing gets lost: a frame fits the buffer of the far end and finds room in the
channel, the network delivers, and no more is staged than may be. -/
def Keeps (s : Link) : Action → Prop
  | .writeFrame (some samples) => samples.length ≤ udpBufBytes / 2 ∧ s.near.sendTx.length < frameChannelCap
  | .lose _ => False
  | .tryRecv => s.far.call.recvBuffer.length ≤ recvBufferCapSamples
  | _ => True

instance (s : Link) : (action : Action) → Decidable (Keeps s action)
  | .writeFrame (some _) => inferInstanceAs (Decidable (_ ∧ _))
  | .writeFrame none | .sendNext | .stray _ _ | .recvNext | .forward | .readFrame _ => .isTrue trivial
  | .lose _ => .isFalse id
  | .tryRecv => inferInstanceAs (Decidable (_ ≤ _))

/-- The far end belongs to the near one, and got what was forwarded. -/
structure Joined (s : Link) : Prop where
  peer : s.far.call.remoteAddr = s.nearAddr
  far : Staging.Invariant s.far
  arrived : s.far.arrived = s.forwarded.flatten

/-- What a step does to the frames on their way: those written come in at the end, and none is added
or moved. -/
structure Carries (s next : Link) (written : List Pcm) : Prop where
  offered : next.offered = s.offered ++ written
  transit : next.transit.Sublist (s.transit ++ written.map cut)

structure CarriesAll (s next : Link) (written : List Pcm) : Prop where
  offered : next.offered = s.offered ++ written
  transit : next.transit = s.transit ++ written.map cut
  waiting : ∀ frame ∈ next.near.sendTx, frame ∈ s.near.sendTx ∨ frame ∈ written

theorem CarriesAll.carries {s next : Link} {written : List Pcm} (all : CarriesAll s next written) : Carries s next written :=
  ⟨all.offered, all.transit ▸ List.Sublist.refl _⟩

section Steps

variable {s next : Link}

def written : Action → List Pcm
  | .writeFrame frame => frame.toList.filter (· ≠ [])
  | _ => []

theorem writeFrame_carries {frame : Option Pcm} (taken : step s (.writeFrame frame) = some next) :
    (Keeps s (.writeFrame frame) → CarriesAll s next (written (.writeFrame frame))) ∧
      Carries s next (written (.writeFrame frame)) := by
  obtain rfl := Option.some.inj taken
  have nothing : s.near.writeFrame frame = s.near → written (.writeFrame frame) = [] →
      CarriesAll s { s with near := s.near.writeFrame frame, offered := s.offered ++ written (.writeFrame frame) }
        (written (.writeFrame frame)) := fun same none => by
    refine ⟨rfl, ?_, fun frame waits => .inl (same ▸ waits)⟩
    simp [Link.transit, Link.flying, same, none]
  cases frame with
  | none =>
    have all := nothing rfl rfl
    exact ⟨fun _ => all, all.carries⟩
  | some samples =>
    by_cases empty : samples = []
    · have all := nothing (if_pos empty) (by simp [written, empty])
      exact ⟨fun _ => all, all.carries⟩
    · have kept : written (.writeFrame (some samples)) = [samples] := by simp [written, empty]
      by_cases room : s.near.sendTx.length < frameChannelCap
      · have put : s.near.writeFrame (some samples) = { s.near with sendTx := s.near.sendTx ++ [samples] } := by
          rw [CallState.writeFrame, if_neg empty, CallState.tryEnqueue, if_pos room]
        have all : CarriesAll s { s with
            near := s.near.writeFrame (some samples)
            offered := s.offered ++ written (.writeFrame (some samples)) } (written (.writeFrame (some samples))) := by
          refine ⟨rfl, ?_, fun frame waits => ?_⟩
          · simp [Link.transit, Link.flying, put, kept]
          · rw [put] at waits
            rw [kept]
            exact List.mem_append.mp waits
        exact ⟨fun _ => all, all.carries⟩
      · have refused : s.near.writeFrame (some samples) = s.near := by
          rw [CallState.writeFrame, if_neg empty, CallState.tryEnqueue, if_neg room]
        refine ⟨fun keeps => absurd keeps.2 room, rfl, ?_⟩
        simp [Link.transit, Link.flying, refused]

theorem sendNext_carries (taken : step s .sendNext = some next) :
    ((∀ frame ∈ s.near.sendTx, frame.length ≤ udpBufBytes / 2) → CarriesAll s next []) ∧ Carries s next [] := by
  simp only [step] at taken
  split at taken
  next => cases taken
  next samples rest queue =>
    obtain rfl := Option.some.inj taken
    have out : ∀ frames : List (List UInt8), (frames.map fun datagram => (datagram, s.nearAddr)).filter
        (fun item => item.2 = s.nearAddr) = frames.map fun datagram => (datagram, s.nearAddr) := fun frames => by simp
    by_cases fits : 2 * samples.length ≤ udpPayloadLimit
    · have all : CarriesAll s { s with
          near := { s.near with sendTx := rest }
          network := s.network ++ (sendLoop [samples]).map fun datagram => (datagram, s.nearAddr) } [] := by
        refine ⟨(List.append_nil _).symm, ?_, fun frame waits => .inl (queue ▸ List.mem_cons_of_mem _ waits)⟩
        simp [Link.transit, Link.flying, queue, sendLoop_single, fits, front_writeI16Le]
      exact ⟨fun _ => all, all.carries⟩
    · refine ⟨fun small => absurd (small samples (queue ▸ List.mem_cons_self)) ?_, (List.append_nil _).symm, ?_⟩
      · simp only [udpPayloadLimit, udpBufBytes] at fits ⊢
        omega
      · simp [Link.transit, Link.flying, queue, sendLoop_single, fits]

theorem recvNext_carries (joined : Joined s) (taken : step s .recvNext = some next) : CarriesAll s next [] := by
  simp only [step] at taken
  split at taken
  next datagram addr rest idle arrived =>
    obtain rfl := Option.some.inj taken
    refine ⟨(List.append_nil _).symm, ?_, fun frame waits => .inl waits⟩
    by_cases own : addr = s.nearAddr
    · simp [Link.transit, Link.flying, Link.recvNext, idle, arrived, recvLoop_single, joined.peer, own]
    · simp [Link.transit, Link.flying, Link.recvNext, idle, arrived, recvLoop_single, joined.peer, own]
  next => cases taken

theorem forward_carries (taken : step s .forward = some next) : CarriesAll s next [] := by
  obtain ⟨chunk, sending, through⟩ := Option.bind_eq_some_iff.mp taken
  obtain ⟨far, -, rfl⟩ := Option.map_eq_some_iff.mp through
  refine ⟨(List.append_nil _).symm, ?_, fun frame waits => .inl waits⟩
  simp [Link.transit, Link.flying, sending]

theorem step_carries (joined : Joined s) {action : Action} (taken : step s action = some next) :
    (Keeps s action → (∀ frame ∈ s.near.sendTx, frame.length ≤ udpBufBytes / 2) →
      CarriesAll s next (written action)) ∧ Carries s next (written action) := by
  cases action with
  | writeFrame frame =>
    obtain ⟨all, some⟩ := writeFrame_carries taken
    exact ⟨fun keeps _ => all keeps, some⟩
  | sendNext =>
    obtain ⟨all, some⟩ := sendNext_carries taken
    exact ⟨fun _ => all, some⟩
  | lose index =>
    simp only [step] at taken
    split at taken <;> cases taken
    refine ⟨fun keeps => keeps.elim, (List.append_nil _).symm, ?_⟩
    have flying := (((s.network.eraseIdx_sublist index).filter fun item => item.2 = s.nearAddr).map fun item => front item.1)
    simp only [Link.transit, Link.flying, written, List.map_nil, List.append_nil, List.append_sublist_append_left]
    exact flying.append (List.Sublist.refl _)
  | stray datagram addr =>
    simp only [step] at taken
    split at taken
    next => cases taken
    next other =>
      obtain rfl := Option.some.inj taken
      have all : CarriesAll s { s with network := s.network ++ [(datagram, addr)] } [] := by
        refine ⟨(List.append_nil _).symm, ?_, fun frame waits => .inl waits⟩
        simp [Link.transit, Link.flying, other]
      exact ⟨fun _ _ => all, all.carries⟩
  | recvNext => exact ⟨fun _ _ => recvNext_carries joined taken, (recvNext_carries joined taken).carries⟩
  | forward => exact ⟨fun _ _ => forward_carries taken, (forward_carries taken).carries⟩
  | readFrame len =>
    obtain ⟨far, -, rfl⟩ := Option.map_eq_some_iff.mp taken
    have all : CarriesAll s { s with far } [] :=
      ⟨(List.append_nil _).symm, (List.append_nil _).symm, fun frame waits => .inl waits⟩
    exact ⟨fun _ _ => all, all.carries⟩
  | tryRecv =>
    obtain ⟨far, -, rfl⟩ := Option.map_eq_some_iff.mp taken
    have all : CarriesAll s { s with far } [] :=
      ⟨(List.append_nil _).symm, (List.append_nil _).symm, fun frame waits => .inl waits⟩
    exact ⟨fun _ _ => all, all.carries⟩

theorem far_recv {far later : Staging.Path} {chunk : Pcm} (taken : far.recv chunk = some later) :
    later.call.remoteAddr = far.call.remoteAddr ∧ later.arrived = far.arrived ++ chunk := by
  simp only [Staging.Path.recv] at taken
  split at taken <;> cases taken
  exact ⟨rfl, rfl⟩

theorem far_tryRecv (far : Staging.Path) (len : Nat) :
    (far.tryRecv len).call.remoteAddr = far.call.remoteAddr ∧ (far.tryRecv len).arrived = far.arrived := by
  rw [Staging.Path.tryRecv]
  split
  · exact ⟨rfl, rfl⟩
  · exact ⟨rfl, rfl⟩

theorem joined_step (joined : Joined s) {action : Action} (taken : step s action = some next) : Joined next := by
  cases action with
  | writeFrame frame =>
    obtain rfl := Option.some.inj taken
    exact { joined with }
  | sendNext =>
    simp only [step] at taken
    split at taken <;> cases taken
    exact { joined with }
  | lose index =>
    simp only [step] at taken
    split at taken <;> cases taken
    exact { joined with }
  | stray datagram addr =>
    simp only [step] at taken
    split at taken <;> cases taken
    exact { joined with }
  | recvNext =>
    simp only [step] at taken
    split at taken <;> cases taken
    exact { joined with }
  | forward =>
    obtain ⟨chunk, -, through⟩ := Option.bind_eq_some_iff.mp taken
    obtain ⟨far, received, rfl⟩ := Option.map_eq_some_iff.mp through
    obtain ⟨peer, arrived⟩ := far_recv received
    refine ⟨peer.trans joined.peer, Staging.recv_invariant joined.far received, ?_⟩
    rw [arrived, joined.arrived, List.flatten_append, List.flatten_singleton]
  | readFrame len =>
    obtain ⟨far, filled, rfl⟩ := Option.map_eq_some_iff.mp taken
    refine ⟨?_, Staging.step_invariant _ _ _ joined.far filled, ?_⟩
    · simp only [Staging.step] at filled
      split at filled <;> cases filled
      exact joined.peer
    · simp only [Staging.step] at filled
      split at filled <;> cases filled
      exact joined.arrived
  | tryRecv =>
    obtain ⟨far, filled, rfl⟩ := Option.map_eq_some_iff.mp taken
    have known := Staging.step_invariant _ _ _ joined.far filled
    obtain ⟨len, -, rfl⟩ := Option.map_eq_some_iff.mp filled
    obtain ⟨peer, arrived⟩ := far_tryRecv s.far len
    exact ⟨peer.trans joined.peer, known, arrived.trans joined.arrived⟩

end Steps

theorem joined_init (nearAddr farAddr : SocketAddr) : Joined (init nearAddr farAddr) :=
  ⟨rfl, Staging.init_invariant nearAddr, rfl⟩

theorem written_sublist_arrived {far : Staging.Path} (known : Staging.Invariant far) : far.written.Sublist far.arrived := by
  rw [known.stream, known.boundedFifo.written]
  exact (List.filter_sublist.map _).trans (List.sublist_append_left _ _)

/-- Whatever the network loses and whoever else sends, the samples played are samples of the frames
written at the other end, in their order, none of them twice. -/
theorem played_inOrder (nearAddr farAddr : SocketAddr) (actions : List Action) {s : Link}
    (taken : run step (init nearAddr farAddr) actions = some s) :
    s.far.written.Sublist (s.offered.map cut).flatten := by
  let invariant (s : Link) : Prop := Joined s ∧ s.transit.Sublist (s.offered.map cut)
  have both : invariant s := by
    refine invariant_of_any_run (fun s action next both stepped => ?_) ⟨joined_init nearAddr farAddr, List.Sublist.refl _⟩ taken
    obtain ⟨-, carries⟩ := step_carries both.1 stepped
    refine ⟨joined_step both.1 stepped, ?_⟩
    rw [carries.offered, List.map_append]
    exact carries.transit.trans (both.2.append (List.Sublist.refl _))
  obtain ⟨joined, transit⟩ := both
  have forwarded : s.forwarded.Sublist (s.offered.map cut) := (List.sublist_append_left _ _).trans transit
  have arrived := written_sublist_arrived joined.far
  rw [joined.arrived] at arrived
  exact arrived.trans forwarded.flatten

def oneFrame : List Action :=
  [.writeFrame (some [1, 2]), .stray [9, 9] ⟨"10.0.0.9", 1⟩, .sendNext, .recvNext, .recvNext, .forward, .readFrame 3,
    .tryRecv, .tryRecv, .writeFrame (some [3])]

theorem oneFrame_played : ∃ s, run step (init ⟨"10.0.0.1", 4000⟩ ⟨"10.0.0.2", 5000⟩) oneFrame = some s ∧
    s.far.written = [1, 2] ∧ s.far.written.Sublist (s.offered.map cut).flatten :=
  ⟨_, rfl, by decide, played_inOrder ⟨"10.0.0.1", 4000⟩ ⟨"10.0.0.2", 5000⟩ oneFrame rfl⟩

structure Whole (s : Link) : Prop where
  joined : Joined s
  transit : s.transit = s.offered.map cut
  short : ∀ frame ∈ s.offered, frame.length ≤ udpBufBytes / 2
  waiting : ∀ frame ∈ s.near.sendTx, frame ∈ s.offered
  undropped : ∀ c ∈ s.far.filled, c.dropped = []

theorem dropped_nil {c : Staging.Filled} (few : c.staged.length ≤ recvBufferCapSamples) : c.dropped = [] := by
  have size : c.kept.length = min c.staged.length recvBufferCapSamples := Staging.kept_length c.staged
  rw [Staging.Filled.dropped, size, Nat.min_eq_left few, Nat.sub_self, List.take_zero]

theorem undropped_step {s next : Link} (undropped : ∀ c ∈ s.far.filled, c.dropped = []) {action : Action}
    (keeps : Keeps s action) (taken : step s action = some next) : ∀ c ∈ next.far.filled, c.dropped = [] := by
  cases action with
  | writeFrame frame =>
    obtain rfl := Option.some.inj taken
    exact undropped
  | sendNext =>
    simp only [step] at taken
    split at taken <;> cases taken
    exact undropped
  | lose index => exact keeps.elim
  | stray datagram addr =>
    simp only [step] at taken
    split at taken <;> cases taken
    exact undropped
  | recvNext =>
    simp only [step] at taken
    split at taken <;> cases taken
    exact undropped
  | forward =>
    obtain ⟨chunk, -, through⟩ := Option.bind_eq_some_iff.mp taken
    obtain ⟨far, received, rfl⟩ := Option.map_eq_some_iff.mp through
    simp only [Staging.Path.recv] at received
    split at received <;> cases received
    exact undropped
  | readFrame len =>
    obtain ⟨far, filled, rfl⟩ := Option.map_eq_some_iff.mp taken
    simp only [Staging.step] at filled
    split at filled <;> cases filled
    exact undropped
  | tryRecv =>
    obtain ⟨far, filled, rfl⟩ := Option.map_eq_some_iff.mp taken
    obtain ⟨len, -, rfl⟩ := Option.map_eq_some_iff.mp filled
    simp only [Staging.Path.tryRecv]
    split
    next => exact undropped
    next =>
      intro c member
      rcases List.mem_append.mp member with before | last
      · exact undropped c before
      · rw [List.mem_singleton.mp last]
        exact dropped_nil keeps

theorem whole_step {s next : Link} (whole : Whole s) {action : Action} (keeps : Keeps s action)
    (taken : step s action = some next) : Whole next := by
  have short : ∀ frame ∈ written action, frame.length ≤ udpBufBytes / 2 := fun frame member => by
    cases action with
    | writeFrame one =>
      obtain ⟨given, -⟩ := List.mem_filter.mp member
      obtain rfl := Option.mem_toList.mp given
      exact keeps.1
    | _ => simp [written] at member
  have carries := (step_carries whole.joined taken).1 keeps fun frame waits => whole.short frame (whole.waiting frame waits)
  constructor
  case joined => exact joined_step whole.joined taken
  case transit => rw [carries.transit, whole.transit, carries.offered, List.map_append]
  case short =>
    rw [carries.offered]
    exact fun frame member => (List.mem_append.mp member).elim (whole.short frame) (short frame)
  case waiting =>
    rw [carries.offered]
    exact fun frame waits => List.mem_append.mpr ((carries.waiting frame waits).imp_left (whole.waiting frame))
  case undropped => exact undropped_step whole.undropped keeps taken

/-- Where no step drops anything, the samples written at one end are those played at the other and
those on their way, in order. -/
theorem played_whole (nearAddr farAddr : SocketAddr) (actions : List Action) {s : Link}
    (keeps : Along step Keeps (init nearAddr farAddr) actions)
    (taken : run step (init nearAddr farAddr) actions = some s) :
    s.offered.flatten = s.far.written ++ (s.far.call.recvBuffer ++ (s.far.call.recvRx.flatten ++
      (s.sending.toList ++ (s.flying ++ s.near.sendTx)).flatten)) := by
  have whole : Whole s := by
    refine invariant_of_run (fun s action next whole keeps stepped => whole_step whole keeps stepped) ?_ keeps taken
    exact ⟨joined_init nearAddr farAddr, rfl, nofun, nofun, nofun⟩
  have uncut : ∀ frames : List Pcm, (∀ frame ∈ frames, frame ∈ s.offered) → frames.map cut = frames := fun frames known => by
    refine List.map_congr_left (fun frame member => ?_) |>.trans (List.map_id _)
    exact List.take_of_length_le (whole.short frame (known frame member))
  have gone : s.far.gone.map Prod.fst = s.far.written := by
    rw [Staging.Path.gone, Staging.Path.written, List.map_flatMap]
    refine List.flatMap_congr fun c member => ?_
    rw [Staging.gone_samples, whole.undropped c member, List.nil_append]
  have transit := congrArg List.flatten whole.transit
  rw [uncut s.offered fun frame member => member, Link.transit, uncut s.near.sendTx whole.waiting, List.flatten_append,
    ← whole.joined.arrived, whole.joined.far.stream, gone] at transit
  rw [← transit, List.append_assoc, List.append_assoc]

theorem oneFrame_whole : ∃ s, run step (init ⟨"10.0.0.1", 4000⟩ ⟨"10.0.0.2", 5000⟩) oneFrame = some s ∧
    s.offered.flatten = s.far.written ++ (s.far.call.recvBuffer ++ (s.far.call.recvRx.flatten ++
      (s.sending.toList ++ (s.flying ++ s.near.sendTx)).flatten)) :=
  ⟨_, rfl, played_whole ⟨"10.0.0.1", 4000⟩ ⟨"10.0.0.2", 5000⟩ oneFrame (by decide) rfl⟩

end Fswtch.Unicast.EndToEnd
