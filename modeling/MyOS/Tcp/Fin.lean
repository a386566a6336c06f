import MyOS.Base.Runs
import MyOS.Tcp.Peer

/-!
# When the peer's FIN is counted

The data branch of `TCP_ESTABLISHED` compares the sequence number with
`rcv_nxt`; the FIN branch beside it does not. A FIN behind a lost segment is
therefore counted in place of the first missing byte.
-/

namespace MyOS.Fin

open Runs SeqStream

/-- When the FIN of a segment makes `g_sock` leave `TCP_ESTABLISHED`, the number
the FIN itself has is the one expected, and every byte of the stream has been
accepted. `rcvNxt` afterwards has the FIN counted. -/
def CountedInOrder (irs : UInt32) (stream : List UInt8) (k : Kernel) (e : TcpEvent) : Prop :=
  ∀ th ∈ e.segment,
    let g := k.sock .gSock
    let g' := (tcpStep .gSock k e).sock .gSock
    g.state = .established → g'.state = .finWait1 →
      th.seq + th.payload.length.toUInt32 = g'.rcvNxt - 1 ∧
      (g'.rcvNxt - 1 - (irs + 1)).toNat = stream.length

/-- A delivered FIN starts at the byte expected next or ends there. -/
def FinInPlace (k : Kernel) (e : TcpEvent) : Prop :=
  let g := k.sock .gSock
  ∀ th ∈ e.delivers g, g.state = .established → th.fin = true →
    th.seq = g.rcvNxt ∨ th.seq + th.payload.length.toUInt32 = g.rcvNxt

/-- In `TCP_ESTABLISHED` exactly a FIN without RST leads to `TCP_FIN_WAIT1`. -/
theorem onSegment_finWait1 {g : TcpSocket} {th : Segment} (est : g.state = .established) :
    (g.onSegment th).state = .finWait1 ↔ th.rst = false ∧ th.fin = true := by
  simp only [TcpSocket.onSegment, est]
  cases th.rst <;> cases th.fin <;> simp [TcpSocket.takeFin, est]

theorem onSegment_fin {g : TcpSocket} {th : Segment} (est : g.state = .established)
    (noRst : th.rst = false) (fin : th.fin = true) :
    g.onSegment th = (g.afterData th).takeFin := by
  simp [TcpSocket.onSegment, est, noRst, fin]

/-- The number expected after the data branch is the one behind the segment
exactly when the segment starts or ends at the number expected before. -/
theorem afterData_reaches (g : TcpSocket) (th : Segment) :
    th.seq + th.payload.length.toUInt32 = (g.afterData th).rcvNxt ↔
      th.seq = g.rcvNxt ∨ th.seq + th.payload.length.toUInt32 = g.rcvNxt := by
  unfold TcpSocket.afterData
  by_cases start : th.seq = g.rcvNxt
  · by_cases empty : th.payload = []
    · simp [TcpSocket.inOrder, empty, start]
    · simp [TcpSocket.inOrder, TcpSocket.takeData, empty, start]
  · simp [TcpSocket.inOrder, start]

/-- One delivered FIN: counted in its place exactly when it stands there. -/
theorem fin_counted_iff {g : TcpSocket} {th : Segment} (est : g.state = .established)
    (noRst : th.rst = false) (fin : th.fin = true) :
    th.seq + th.payload.length.toUInt32 = (g.onSegment th).rcvNxt - 1 ↔
      th.seq = g.rcvNxt ∨ th.seq + th.payload.length.toUInt32 = g.rcvNxt := by
  rw [onSegment_fin est noRst fin, ← afterData_reaches]
  simp [TcpSocket.takeFin]

/-- What the environment may do: calls of the owner, and segments of one peer
whose FIN stands behind its last byte. -/
def PeerEvent (irs : UInt32) (stream : List UInt8) (e : TcpEvent) : Prop :=
  FromPeer irs stream e ∧ ∀ th ∈ e.segment, CarriesFin irs stream th

theorem counted_step_iff {irs : UInt32} {stream : List UInt8} (short : stream.length < 2 ^ 32)
    (k : Kernel) (e : TcpEvent) (peer : PeerEvent irs stream e) :
    CountedInOrder irs stream k e ↔ FinInPlace k e := by
  cases e with
  | connect | send | recv | close =>
    simp [CountedInOrder, FinInPlace, TcpEvent.segment, TcpEvent.delivers]
  | rx ipPkt ipLen srcIp dstIp =>
    have behind := peer.2 (tcpDecode ipPkt ipLen) rfl
    simp only [CountedInOrder, FinInPlace, TcpEvent.segment, TcpEvent.delivers, sock_tcpStep,
      Option.mem_some_iff, forall_eq']
    by_cases passes : addressed (k.sock .gSock) ipPkt ipLen srcIp = true
    · simp only [passes, if_true, true_and]
      constructor
      · intro counted th delivered est fin
        split at delivered
        · rename_i noRst
          cases delivered
          have moved := (onSegment_finWait1 est).mpr ⟨noRst, fin⟩
          exact (fin_counted_iff est noRst fin).mp (counted est moved).1
        · cases delivered
      · intro inPlace est moved
        obtain ⟨noRst, fin⟩ := (onSegment_finWait1 est).mp moved
        rw [if_pos noRst] at inPlace
        have expected := (fin_counted_iff est noRst fin).mpr (inPlace _ rfl est fin)
        refine ⟨expected, ?_⟩
        rw [← expected, behind fin, offset_seqAt _ short]
    · simp only [passes]
      constructor
      · intro _ th delivered
        cases delivered
      · intro _ est moved
        rw [if_neg (by simp), est] at moved
        cases moved

/-- Over any run with one peer: FINs are counted only behind the last byte if
and only if none arrives ahead of a byte not yet accepted. -/
theorem fin_counted_in_order_iff (irs : UInt32) (stream : List UInt8)
    (short : stream.length < 2 ^ 32) (k : Kernel) (es : List TcpEvent)
    (peer : ∀ e ∈ es, PeerEvent irs stream e) :
    Steps (tcpStep .gSock) (CountedInOrder irs stream) k es ↔
      Steps (tcpStep .gSock) FinInPlace k es :=
  steps_congr_of_step (fun s e from_peer => counted_step_iff short s e from_peer) peer

instance (irs : UInt32) (stream : List UInt8) (k : Kernel) (e : TcpEvent) :
    Decidable (CountedInOrder irs stream k e) :=
  inferInstanceAs (Decidable (∀ th ∈ e.segment, _ → _ → _))

instance (k : Kernel) (e : TcpEvent) : Decidable (FinInPlace k e) :=
  inferInstanceAs (Decidable (∀ th ∈ e.delivers _, _ → _ → _))

theorem peerEvent_rxAtOpen (irs : UInt32) {stream : List UInt8} {off : Nat} (flags : UInt8)
    {payload : List UInt8} (piece : PieceAt stream off payload)
    (last : flags &&& 0x01 = 0 ∨ off + payload.length = stream.length) :
    PeerEvent irs stream (rxAtOpen flags (seqAt (irs + 1) off) payload) := by
  refine ⟨fromPeer_rxAtOpen irs flags piece, fun th segment fin => ?_⟩
  rw [segment_rxAtOpen] at segment
  cases segment
  rcases last with noFin | atEnd
  · simp [Segment.fin, noFin] at fin
  · rw [← seqAt_add, atEnd]

/-- The stream is three bytes long, all of them are lost, and the FIN behind
them is counted as if it were the first. -/
theorem fin_counted_for_lost_byte :
    (∀ e ∈ [rxAtOpen 0x11 (seqAt 8 3) []], PeerEvent 7 [1, 2, 3] e) ∧
    ¬ Steps (tcpStep .gSock) (CountedInOrder 7 [1, 2, 3]) openKernel
      [rxAtOpen 0x11 (seqAt 8 3) []] := by
  refine ⟨fun e he => ?_, by decide +kernel⟩
  cases List.mem_singleton.mp he
  exact peerEvent_rxAtOpen 7 0x11 ⟨by decide, rfl⟩ (Or.inr rfl)

/-- The same peer without loss: the data segment, then the FIN on its own. -/
theorem fin_counted_after_data :
    Steps (tcpStep .gSock) (CountedInOrder 7 [1, 2, 3]) openKernel
      [rxAtOpen 0x18 (seqAt 8 0) [1, 2, 3], rxAtOpen 0x11 (seqAt 8 3) []] := by
  refine (fin_counted_in_order_iff 7 [1, 2, 3] (by decide) _ _ ?_).mpr (by decide +kernel)
  intro e he
  simp only [List.mem_cons, List.not_mem_nil, or_false] at he
  rcases he with rfl | rfl
  · exact peerEvent_rxAtOpen 7 0x18 ⟨by decide, rfl⟩ (Or.inl rfl)
  · exact peerEvent_rxAtOpen 7 0x11 ⟨by decide, rfl⟩ (Or.inr rfl)

end MyOS.Fin
