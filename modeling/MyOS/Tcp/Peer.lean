import MyOS.Base.SeqStream
import MyOS.Tcp.Step

/-!
# A peer that sends one stream

`irs` is the sequence number of its SYN, so byte `i` of the stream has number
`irs + 1 + i` and the FIN the number behind the last byte. The network may
lose, repeat, reorder and re-cut what the peer sends.
-/

namespace MyOS

open SeqStream

/-- `tcp_connect(&g_sock, ...)` and then a SYN+ACK numbered `irs` that opened
the connection. -/
def Opened (irs : UInt32) (k : Kernel) : Prop :=
  ∃ k₀ dstIp dstPort srcPort ipPkt ipLen srcIp ownIp,
    (k₀.sock .gSock).inUse = false ∧ (tcpDecode ipPkt ipLen).seq = irs ∧
    k = tcpOnRx (tcpConnect k₀ .gSock dstIp dstPort srcPort).1 ipPkt ipLen srcIp ownIp ∧
    (k.sock .gSock).state = .established

/-- Right behind the SYN+ACK nothing is buffered and byte 0 is expected. -/
theorem Opened.fresh {irs : UInt32} {k : Kernel} (h : Opened irs k) :
    (k.sock .gSock).rcvNxt = irs + 1 ∧ (k.sock .gSock).rxLen = 0 ∧
      (k.sock .gSock).rxCap = 8192 := by
  obtain ⟨k₀, dstIp, dstPort, srcPort, ipPkt, ipLen, srcIp, ownIp, idle, rfl, rfl, opened⟩ := h
  rw [sock_tcpOnRx, (sock_tcpConnect k₀ .gSock idle).1] at opened ⊢
  split
  · rename_i passes
    rw [if_pos passes] at opened
    rw [(TcpSocket.onSegment_opened rfl opened).2.2]
    exact ⟨rfl, rfl, rfl⟩
  · rename_i dropped
    rw [if_neg dropped] at opened
    cases opened

/-- The data of a segment is a piece of the stream, at the place its number says. -/
def CarriesStream (irs : UInt32) (stream : List UInt8) (th : Segment) : Prop :=
  th.payload ≠ [] → ∃ off, th.seq = seqAt (irs + 1) off ∧ PieceAt stream off th.payload

/-- A FIN stands right behind the last byte of the stream. -/
def CarriesFin (irs : UInt32) (stream : List UInt8) (th : Segment) : Prop :=
  th.fin = true → th.seq + th.payload.length.toUInt32 = seqAt (irs + 1) stream.length

/-- A call of the owner on the open connection, or a segment from the peer. -/
def FromPeer (irs : UInt32) (stream : List UInt8) : TcpEvent → Prop
  | .connect .. => False
  | .rx ipPkt ipLen _ _ => CarriesStream irs stream (tcpDecode ipPkt ipLen)
  | _ => True

/-! A concrete connection to 10.0.2.2:80, opened by a SYN+ACK numbered 7. -/

/-- A segment from the peer of that connection. Our SYN has number
`0x12341000`. -/
def rxAtOpen (flags : UInt8) (seq : UInt32) (payload : List UInt8)
    (ack : UInt32 := 0x12341001) : TcpEvent :=
  .rx (.ofList (peerBytes 80 4000 seq ack flags payload)) (20 + payload.length)
    0x0A000202 0x0A00020F

@[simp] theorem segment_rxAtOpen (flags : UInt8) (seq ack : UInt32) (payload : List UInt8) :
    (rxAtOpen flags seq payload ack).segment = some ⟨80, 4000, seq, ack, flags, payload⟩ :=
  congrArg some (tcpDecode_peerBytes ..)

/-- Such a segment is the peer's when its data is the stream's at that place. -/
theorem fromPeer_rxAtOpen (irs : UInt32) {stream : List UInt8} {off : Nat} (flags : UInt8)
    {payload : List UInt8} (piece : PieceAt stream off payload) :
    FromPeer irs stream (rxAtOpen flags (seqAt (irs + 1) off) payload) := by
  intro _
  rw [tcpDecode_peerBytes]
  exact ⟨off, rfl, piece⟩

def openKernel : Kernel :=
  tcpOnRx (tcpConnect .boot .gSock 0x0A000202 80 4000).1
    (.ofList (peerBytes 80 4000 7 0x12341001 0x12 [])) 20 0x0A000202 0x0A00020F

theorem openKernel_opened : Opened 7 openKernel :=
  ⟨.boot, 0x0A000202, 80, 4000, .ofList (peerBytes 80 4000 7 0x12341001 0x12 []), 20,
    0x0A000202, 0x0A00020F, rfl, by decide +kernel, rfl, by decide +kernel⟩

end MyOS
