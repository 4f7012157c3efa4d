import Mathlib.Algebra.GroupWithZero.Nat
import Mathlib.Data.List.Basic

/-! The media path of a unicast call. `write_frame` queues caller audio for the send task,
which turns each frame into one datagram; the receive task turns each datagram of the peer
into a chunk of samples, which `stage_and_fill` stages and hands out frame by frame. -/

namespace Fswtch.Unicast.Media

def udpBufBytes : Nat := 2048

def frameChannelCap : Nat := 256

def recvBufferCapSamples : Nat := 81920

abbrev Pcm := List Int16

structure SocketAddr where
  ip : String
  port : UInt16
  deriving DecidableEq

/-- The channels are the queues of what was sent and not yet received. -/
structure CallState where
  remoteAddr : SocketAddr
  sendTx : List Pcm := []
  recvRx : List Pcm := []
  recvBuffer : Pcm := []

def toLeBytes (sample : Int16) : List UInt8 :=
  [UInt8.ofNat sample.toUInt16.toNat, UInt8.ofNat (sample.toUInt16.toNat / 2 ^ 8)]

def fromLeBytes (low high : UInt8) : Int16 :=
  (UInt16.ofNat (low.toNat + high.toNat * 2 ^ 8)).toInt16

def writeI16Le (samples : Pcm) : List UInt8 := samples.flatMap toLeBytes

def bytesToI16 : List UInt8 → Pcm
  | low :: high :: rest => fromLeBytes low high :: bytesToI16 rest
  | _ => []

theorem fromLeBytes_toLeBytes (sample : Int16) :
    fromLeBytes (UInt8.ofNat sample.toUInt16.toNat) (UInt8.ofNat (sample.toUInt16.toNat / 2 ^ 8)) =
      sample := by
  have bound := sample.toUInt16.toNat_lt
  have word : UInt16.ofNat ((UInt8.ofNat sample.toUInt16.toNat).toNat +
      (UInt8.ofNat (sample.toUInt16.toNat / 2 ^ 8)).toNat * 2 ^ 8) = sample.toUInt16 := by
    apply UInt16.toNat_inj.mp
    simp only [UInt16.toNat_ofNat', UInt8.toNat_ofNat']
    omega
  rw [fromLeBytes, word, Int16.toInt16_toUInt16]

@[simp] theorem length_writeI16Le (samples : Pcm) : (writeI16Le samples).length = 2 * samples.length := by
  induction samples with
  | nil => rfl
  | cons sample rest ih =>
    rw [writeI16Le, List.flatMap_cons, List.length_append, ← writeI16Le, ih, List.length_cons]
    change 2 + _ = _
    omega

/-- The bytes of some samples, cut after any number of whole samples, are those samples. -/
theorem bytesToI16_take (samples : Pcm) (n : Nat) :
    bytesToI16 ((writeI16Le samples).take (2 * n)) = samples.take n := by
  induction samples generalizing n with
  | nil => simp [writeI16Le, bytesToI16]
  | cons sample rest ih =>
    cases n with
    | zero => rfl
    | succ n =>
      have bytes : (writeI16Le (sample :: rest)).take (2 * (n + 1)) =
          UInt8.ofNat sample.toUInt16.toNat :: UInt8.ofNat (sample.toUInt16.toNat / 2 ^ 8) ::
            (writeI16Le rest).take (2 * n) := rfl
      rw [bytes, bytesToI16, ih, fromLeBytes_toLeBytes, List.take_succ_cons]

@[simp] theorem bytesToI16_writeI16Le (samples : Pcm) : bytesToI16 (writeI16Le samples) = samples := by
  have whole := bytesToI16_take samples samples.length
  rwa [← length_writeI16Le, List.take_length, List.take_length] at whole

def CallState.tryEnqueue (s : CallState) (samples : Pcm) : CallState :=
  if s.sendTx.length < frameChannelCap then { s with sendTx := s.sendTx ++ [samples] } else s

/-- `none` stands for a frame without PCM. -/
def CallState.writeFrame (s : CallState) : Option Pcm → CallState
  | none => s
  | some samples => if samples = [] then s else s.tryEnqueue samples

def udpPayloadLimit : Nat := 65507

/-- `send_to` fails on more than a datagram can hold. -/
def sendTo (payload : List UInt8) : Option (List UInt8) :=
  if payload.length ≤ udpPayloadLimit then some payload else none

/-- The datagrams of the frames the send task takes from its channel; an error only skips one. -/
def sendLoop : List Pcm → List (List UInt8)
  | [] => []
  | samples :: rest =>
    match sendTo (writeI16Le samples) with
    | some datagram => datagram :: sendLoop rest
    | none => sendLoop rest

structure RecvBuf where
  bytes : List UInt8
  size : bytes.length = udpBufBytes

def RecvBuf.zeroed : RecvBuf := ⟨List.replicate udpBufBytes 0, List.length_replicate⟩

/-- What of a datagram fits is copied to the front of the buffer, the rest is discarded. -/
def RecvBuf.recvFrom (buf : RecvBuf) (datagram : List UInt8) : Nat × RecvBuf :=
  (min datagram.length udpBufBytes,
    ⟨datagram.take udpBufBytes ++ buf.bytes.drop datagram.length, by
      rw [List.length_append, List.length_take, List.length_drop, buf.size]
      omega⟩)

/-- The chunks the receive task forwards for the datagrams it gets, each with its source. -/
def recvLoop (remote : SocketAddr) : RecvBuf → List (List UInt8 × SocketAddr) → List Pcm
  | _, [] => []
  | buf, (datagram, addr) :: rest =>
    let received := buf.recvFrom datagram
    if addr ≠ remote then recvLoop remote received.2 rest
    else bytesToI16 (received.2.bytes.take received.1) :: recvLoop remote received.2 rest

def dropOldest : Pcm → Pcm
  | [] => []
  | sample :: rest =>
    if recvBufferCapSamples < (sample :: rest).length then dropOldest rest else sample :: rest

/-- `available` samples off the front of the staging buffer. -/
def copyStaged : Nat → Pcm → Pcm × Pcm
  | 0, staged => ([], staged)
  | available + 1, [] => (0 :: (copyStaged available []).1, [])
  | available + 1, sample :: rest =>
    (sample :: (copyStaged available rest).1, (copyStaged available rest).2)

def fillFrame (len : Nat) (staged : Pcm) : Pcm × Pcm :=
  let available := min staged.length len
  let copied := copyStaged available staged
  (copied.1 ++ List.replicate (len - available) 0, copied.2)

theorem dropOldest_eq (staged : Pcm) :
    dropOldest staged = staged.drop (staged.length - recvBufferCapSamples) := by
  induction staged with
  | nil => rfl
  | cons sample rest ih =>
    rw [dropOldest]
    split
    next long =>
      have shift : (sample :: rest).length - recvBufferCapSamples =
          (rest.length - recvBufferCapSamples) + 1 := by
        rw [List.length_cons] at long ⊢
        omega
      rw [ih, shift, List.drop_succ_cons]
    next short =>
      rw [Nat.sub_eq_zero_of_le (Nat.le_of_not_lt short), List.drop_zero]

theorem copyStaged_eq {available : Nat} {staged : Pcm} (enough : available ≤ staged.length) :
    copyStaged available staged = (staged.take available, staged.drop available) := by
  induction available generalizing staged with
  | zero => rfl
  | succ available ih =>
    cases staged with
    | nil => cases enough
    | cons sample rest =>
      have fewer : available ≤ rest.length := Nat.le_of_succ_le_succ enough
      rw [copyStaged, ih fewer]
      rfl

end Fswtch.Unicast.Media
