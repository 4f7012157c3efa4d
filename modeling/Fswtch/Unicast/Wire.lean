import Fswtch.Unicast.Media

/-! From the `write_frame` of one end to the chunks the receive task of the other end forwards.
The send task puts a whole frame into a datagram, of which the receive task's buffer takes
the first `udpBufBytes`. -/

namespace Fswtch.Unicast.Wire
open Fswtch.Unicast.Media

def Accepts (s : CallState) (frame : Pcm) : Prop :=
  (s.writeFrame (some frame)).sendTx = s.sendTx ++ [frame]

/-- What the peer's receive task forwards for what the send channel holds. -/
def forwarded (s : CallState) (peer : SocketAddr) (buf : RecvBuf) : List Pcm :=
  recvLoop peer buf ((sendLoop s.sendTx).map fun datagram => (datagram, peer))

theorem recvFrom_bytes (buf : RecvBuf) (datagram : List UInt8) :
    (buf.recvFrom datagram).2.bytes.take (buf.recvFrom datagram).1 = datagram.take udpBufBytes := by
  have size : (datagram.take udpBufBytes).length = (buf.recvFrom datagram).1 := by
    rw [List.length_take, Nat.min_comm]
    rfl
  change (datagram.take udpBufBytes ++ _).take _ = _
  rw [← size, List.take_left]

/-- The receive task forwards the front of every datagram of its peer. -/
theorem recvLoop_eq (peer : SocketAddr) (buf : RecvBuf) (datagrams : List (List UInt8)) :
    recvLoop peer buf (datagrams.map fun datagram => (datagram, peer)) =
      datagrams.map fun datagram => bytesToI16 (datagram.take udpBufBytes) := by
  induction datagrams generalizing buf with
  | nil => rfl
  | cons datagram rest ih =>
    rw [List.map_cons, recvLoop]
    simp only [ne_eq, not_true_eq_false, if_false]
    rw [recvFrom_bytes, ih, List.map_cons]

theorem sendLoop_append (first second : List Pcm) :
    sendLoop (first ++ second) = sendLoop first ++ sendLoop second := by
  induction first with
  | nil => rfl
  | cons samples rest ih =>
    rw [List.cons_append, sendLoop, sendLoop]
    split
    · rw [ih, List.cons_append]
    · exact ih

/-- The last frame of the channel comes out last, without what the receive buffer cannot hold. -/
theorem forwarded_accepted {s : CallState} {frame : Pcm} (accepted : Accepts s frame)
    (fits : 2 * frame.length ≤ udpPayloadLimit) (peer : SocketAddr) (buf : RecvBuf) :
    forwarded (s.writeFrame (some frame)) peer buf =
      forwarded s peer buf ++ [frame.take (udpBufBytes / 2)] := by
  have sent : sendLoop [frame] = [writeI16Le frame] := by
    rw [sendLoop, sendTo, if_pos (by rwa [length_writeI16Le])]
    rfl
  have chunk := bytesToI16_take frame (udpBufBytes / 2)
  have even : 2 * (udpBufBytes / 2) = udpBufBytes := by decide
  rw [even] at chunk
  rw [forwarded, accepted, sendLoop_append, sent, recvLoop_eq, List.map_append, ← recvLoop_eq peer buf,
    List.map_singleton, chunk]
  rfl

/-- A frame that is accepted and fits a datagram comes out whole exactly when it fits the
peer's receive buffer too. -/
theorem frame_survives_iff (s : CallState) (frame : Pcm) (accepted : Accepts s frame)
    (fits : 2 * frame.length ≤ udpPayloadLimit) (peer : SocketAddr) (buf : RecvBuf) :
    (forwarded (s.writeFrame (some frame)) peer buf).getLast? = some frame ↔
      2 * frame.length ≤ udpBufBytes := by
  rw [forwarded_accepted accepted fits, List.getLast?_concat, Option.some.injEq]
  constructor
  · intro whole
    have lengths := congrArg List.length whole
    rw [List.length_take] at lengths
    omega
  · intro short
    exact List.take_of_length_le (by omega)

theorem twoSamples_survive :
    (forwarded (CallState.writeFrame ⟨⟨"127.0.0.1", 4000⟩, [], [], []⟩ (some [1, -1])) ⟨"127.0.0.1", 5000⟩
      RecvBuf.zeroed).getLast? = some [1, -1] :=
  (frame_survives_iff ⟨⟨"127.0.0.1", 4000⟩, [], [], []⟩ [1, -1] rfl (by decide) ⟨"127.0.0.1", 5000⟩
    RecvBuf.zeroed).mpr (by decide)

def stereoFrame : Pcm := List.replicate 1920 1

theorem stereoFrame_cut :
    Accepts ⟨⟨"127.0.0.1", 4000⟩, [], [], []⟩ stereoFrame ∧ 2 * stereoFrame.length ≤ udpPayloadLimit ∧
      (forwarded (CallState.writeFrame ⟨⟨"127.0.0.1", 4000⟩, [], [], []⟩ (some stereoFrame))
        ⟨"127.0.0.1", 5000⟩ RecvBuf.zeroed).getLast? ≠ some stereoFrame := by
  have accepted : Accepts ⟨⟨"127.0.0.1", 4000⟩, [], [], []⟩ stereoFrame := rfl
  have size : stereoFrame.length = 1920 := List.length_replicate
  have fits : 2 * stereoFrame.length ≤ udpPayloadLimit := by
    rw [size]
    decide
  refine ⟨accepted, fits, fun whole => ?_⟩
  rw [forwarded_accepted accepted fits, List.getLast?_concat, Option.some.injEq] at whole
  have lengths := congrArg List.length whole
  rw [List.length_take, size] at lengths
  exact absurd lengths (by decide)

end Fswtch.Unicast.Wire
