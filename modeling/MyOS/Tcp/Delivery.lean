import MyOS.Base.Runs
import MyOS.Tcp.Buffer
import MyOS.Tcp.Handshake
import MyOS.Tcp.Peer

/-!
# What is acknowledged and what is delivered

The reader's bytes and the buffered bytes together are a prefix of the peer's
stream, and `rcv_nxt` says how long it is, for as long as every accepted segment
finds room in the receive buffer.
-/

namespace MyOS.Delivery

open Runs SeqStream

/-- `rx_buf[0..rx_len)` -/
def buffer (k : Kernel) : List UInt8 := k.tcp.rb.load 0 (k.sock .gSock).rxLen.toNat

/-- A step, and the bytes `tcp_recv` has returned up to its end. -/
def readStep (s : Kernel × List UInt8) (e : TcpEvent) : Kernel × List UInt8 :=
  (tcpStep .gSock s.1 e,
    match e with
    | .recv maxlen => s.2 ++ (tcpRecv s.1 .gSock maxlen).2
    | _ => s.2)

/-- What the acknowledgements promise: the first `rcv_nxt - irs - 1` bytes. -/
def Delivered (irs : UInt32) (stream : List UInt8) (s : Kernel × List UInt8) : Prop :=
  (s.1.sock .gSock).state = .established →
    s.2 ++ buffer s.1 = stream.take ((s.1.sock .gSock).rcvNxt - irs - 1).toNat

/-- Data that is accepted on the open connection fits into the buffer. -/
def Fits (s : Kernel × List UInt8) (e : TcpEvent) : Prop :=
  (s.1.sock .gSock).state = .established → ∀ th ∈ e.delivers (s.1.sock .gSock),
    (s.1.sock .gSock).inOrder th → th.fin = false →
      (th.payload.length : Int) ≤ (s.1.sock .gSock).rxCap - (s.1.sock .gSock).rxLen

instance (s : Kernel × List UInt8) (e : TcpEvent) : Decidable (Fits s e) :=
  inferInstanceAs (Decidable (_ → ∀ th ∈ e.delivers _, _ → _ → _))

/-- The reader is at byte `c` of the stream, the buffer included. -/
structure InSync (irs : UInt32) (stream : List UInt8) (k : Kernel) (d : List UInt8) (c : Nat) :
    Prop where
  inside : c ≤ stream.length
  number : (k.sock .gSock).rcvNxt = seqAt (irs + 1) c
  content : d ++ buffer k = stream.take c
  nonneg : 0 ≤ (k.sock .gSock).rxLen
  bounded : (k.sock .gSock).rxLen ≤ (k.sock .gSock).rxCap

/-- The connection is open and in step with the stream, or will not open again. -/
def Inv (irs : UInt32) (stream : List UInt8) (s : Kernel × List UInt8) : Prop :=
  (s.1.sock .gSock).state ≠ .synSent ∧
    ((s.1.sock .gSock).state = .established → ∃ c, InSync irs stream s.1 s.2 c)

/-! ## The buffer under each call -/

section
variable {k : Kernel}

theorem rb_rxDataIntoBuf (nonneg : 0 ≤ (k.sock .gSock).rxLen)
    (bounded : (k.sock .gSock).rxLen ≤ (k.sock .gSock).rxCap) (pl : List UInt8) :
    buffer (rxDataIntoBuf k .gSock pl) =
      buffer k ++ pl.take ((k.sock .gSock).rxCap - (k.sock .gSock).rxLen).toNat :=
  Buffer.content_rxDataIntoBuf ⟨rfl, nonneg, bounded⟩ pl

/-- Accepted data goes behind what is buffered, as far as there is room. -/
theorem buffer_tcpTakeData (nonneg : 0 ≤ (k.sock .gSock).rxLen)
    (bounded : (k.sock .gSock).rxLen ≤ (k.sock .gSock).rxCap) (th : Segment) :
    buffer (tcpTakeData k th) = buffer k ++
      th.payload.take ((k.sock .gSock).rxCap - (k.sock .gSock).rxLen).toNat := by
  rw [← rb_rxDataIntoBuf nonneg bounded]
  simp only [buffer, tcpTakeData, tcpSendSegment_sock, tcpSendSegment_rb, setSock_same, setSock_rb]

/-- What `tcp_recv` returns is what it takes off the front of the buffer. -/
theorem tcpRecv_buffer (maxlen : Nat) :
    (tcpRecv k .gSock maxlen).2 ++ buffer (tcpRecv k .gSock maxlen).1 = buffer k := by
  obtain ⟨out, kept⟩ := Buffer.tcpRecv_content .gSock k maxlen
  change _ ++ Buffer.content .gSock _ = Buffer.content .gSock k
  rw [out, kept]
  exact List.take_append_drop ..

theorem buffer_tcpSend (data : List UInt8) : buffer (tcpSend k .gSock data).1 = buffer k := by
  simp only [tcpSend]
  split
  · rfl
  · split
    · rfl
    · simp [buffer]

end

/-! ## One segment -/

/-- A segment takes the connection out of `TCP_ESTABLISHED` by RST or FIN. -/
theorem onSegment_left {g : TcpSocket} {th : Segment} (past : g.state ≠ .synSent)
    (leaves : th.rst = true ∨ th.fin = true ∨ g.state ≠ .established) :
    (g.onSegment th).state ≠ .synSent ∧ (g.onSegment th).state ≠ .established := by
  cases rst : th.rst with
  | true => simp [TcpSocket.onSegment, rst]
  | false =>
    cases state : g.state with
    | synSent => exact absurd state past
    | established =>
      have fin : th.fin = true := by simpa [rst, state] using leaves
      simp [TcpSocket.onSegment, rst, state, fin, TcpSocket.takeFin]
    | closed | timeWait => simp [TcpSocket.onSegment, rst, state]
    | finWait1 =>
      cases ack : th.hasAck <;> simp [TcpSocket.onSegment, rst, state, ack]
    | finWait2 =>
      cases fin : th.fin <;> simp [TcpSocket.onSegment, rst, state, fin]

/-- The data branch alone. -/
theorem tcpInput_established {k : Kernel} {th : Segment}
    (est : (k.sock .gSock).state = .established) (rst : th.rst = false) (fin : th.fin = false) :
    tcpInput k th = if (k.sock .gSock).inOrder th then tcpTakeData k th else k := by
  simp [tcpInput, est, rst, fin]

variable {irs : UInt32} {stream : List UInt8} {k : Kernel} {d : List UInt8} {c : Nat}

/-- In-order data is the piece of the stream the reader is waiting for. -/
theorem InSync.piece (sync : InSync irs stream k d c) (short : stream.length < 2 ^ 32)
    {th : Segment} (carries : CarriesStream irs stream th)
    (inOrder : (k.sock .gSock).inOrder th) : PieceAt stream c th.payload := by
  obtain ⟨some, expected⟩ := inOrder
  obtain ⟨off, placed, piece⟩ := carries some
  have here : off = c := by
    have same : seqAt (irs + 1) off = seqAt (irs + 1) c := by
      rw [← placed, expected, sync.number]
    have offShort : off < 2 ^ 32 :=
      lt_of_le_of_lt (le_trans (Nat.le_add_right ..) piece.inside) short
    exact seqAt_inj offShort (lt_of_le_of_lt sync.inside short) same
  exact here ▸ piece

/-- The number of bytes acknowledged can be read back from `rcv_nxt`. -/
theorem acknowledged {n : UInt32} (short : c < 2 ^ 32) (number : n = seqAt (irs + 1) c) :
    (n - irs - 1).toNat = c := by
  have : n - irs - 1 = n - (irs + 1) := by grind
  rw [this, number, offset_seqAt _ short]

theorem InSync.delivered {s : Kernel × List UInt8} (sync : InSync irs stream s.1 s.2 c)
    (short : stream.length < 2 ^ 32) : Delivered irs stream s := by
  intro _
  rw [acknowledged (lt_of_le_of_lt sync.inside short) sync.number, sync.content]

theorem sock_takeData_rcvNxt (sync : InSync irs stream k d c) (th : Segment) :
    ((tcpTakeData k th).sock .gSock).rcvNxt = seqAt (irs + 1) (c + th.payload.length) := by
  rw [sock_tcpTakeData, seqAt_add, ← sync.number]
  rfl

/-- With room for all of it, accepted data moves the reader on. -/
theorem InSync.takeData (sync : InSync irs stream k d c) {th : Segment}
    (piece : PieceAt stream c th.payload)
    (fits : (th.payload.length : Int) ≤ (k.sock .gSock).rxCap - (k.sock .gSock).rxLen) :
    InSync irs stream (tcpTakeData k th) d (c + th.payload.length) := by
  have whole : rxRoom (k.sock .gSock) th.payload.length = th.payload.length :=
    if_neg (Int.not_lt.mpr fits)
  have len : ((tcpTakeData k th).sock .gSock).rxLen =
      (k.sock .gSock).rxLen + th.payload.length := by
    rw [sock_tcpTakeData]
    simp [TcpSocket.takeData, TcpSocket.buffered, whole]
  have cap : ((tcpTakeData k th).sock .gSock).rxCap = (k.sock .gSock).rxCap := by
    rw [sock_tcpTakeData]
    rfl
  have number := sock_takeData_rcvNxt sync th
  obtain ⟨_, _, content, nonneg, bounded⟩ := sync
  refine ⟨piece.inside, number, ?_, ?_, ?_⟩
  · rw [buffer_tcpTakeData nonneg bounded, List.take_of_length_le (by omega), ← List.append_assoc]
    rw [content, piece.extends]
  · rw [len]; omega
  · rw [len, cap]; omega

/-- Without it, the number expected next is ahead of what was kept. -/
theorem InSync.takeData_lost (sync : InSync irs stream k d c) (short : stream.length < 2 ^ 32)
    {th : Segment} (piece : PieceAt stream c th.payload)
    (tooLong : (k.sock .gSock).rxCap - (k.sock .gSock).rxLen < (th.payload.length : Int)) :
    d ++ buffer (tcpTakeData k th) ≠
      stream.take (((tcpTakeData k th).sock .gSock).rcvNxt - irs - 1).toNat := by
  have inside := piece.inside
  rw [acknowledged (lt_of_le_of_lt inside short) (sock_takeData_rcvNxt sync th)]
  obtain ⟨_, _, content, nonneg, bounded⟩ := sync
  intro same
  have size := congrArg List.length same
  rw [buffer_tcpTakeData nonneg bounded, ← List.append_assoc, content] at size
  simp only [List.length_append, List.length_take] at size
  omega

/-! ## Whole runs -/

/-- A step that fails `Fits` is an accepted segment that does not fit. -/
theorem fits_or_over (s : Kernel × List UInt8) (e : TcpEvent) (fails : ¬ Fits s e) :
    ∃ ipPkt ipLen srcIp dstIp, e = .rx ipPkt ipLen srcIp dstIp ∧
      (s.1.sock .gSock).state = .established ∧
      tcpOnRx s.1 ipPkt ipLen srcIp dstIp = tcpTakeData s.1 (tcpDecode ipPkt ipLen) ∧
      (s.1.sock .gSock).inOrder (tcpDecode ipPkt ipLen) ∧
      (s.1.sock .gSock).rxCap - (s.1.sock .gSock).rxLen <
        ((tcpDecode ipPkt ipLen).payload.length : Int) := by
  simp only [Fits, Classical.not_forall, Int.not_le] at fails
  obtain ⟨est, th, delivered, inOrder, fin, tooLong⟩ := fails
  cases e with
  | connect | send | recv | close => cases delivered
  | rx ipPkt ipLen srcIp dstIp =>
    simp only [TcpEvent.delivers] at delivered
    split at delivered
    · rename_i passes
      cases delivered
      refine ⟨ipPkt, ipLen, srcIp, dstIp, rfl, est, ?_, inOrder, tooLong⟩
      rw [tcpOnRx, if_pos passes.1, tcpInput_established est passes.2 fin, if_pos inOrder]
    · cases delivered

theorem onRecv_rxLen (g : TcpSocket) (maxlen : Nat) :
    (g.onRecv maxlen).rxLen ≤ g.rxLen ∧ (0 ≤ g.rxLen → 0 ≤ (g.onRecv maxlen).rxLen) := by
  unfold TcpSocket.onRecv
  split
  · exact ⟨le_refl _, id⟩
  · dsimp only
    omega

/-- Nothing but a segment moves `rcv_nxt`; a reader takes bytes off the buffer. -/
theorem Inv.keep (inv : Inv irs stream (k, d)) {k' : Kernel} {d' : List UInt8}
    (state : (k'.sock .gSock).state = (k.sock .gSock).state)
    (number : (k'.sock .gSock).rcvNxt = (k.sock .gSock).rcvNxt)
    (cap : (k'.sock .gSock).rxCap = (k.sock .gSock).rxCap)
    (content : d' ++ buffer k' = d ++ buffer k)
    (nonneg : 0 ≤ (k.sock .gSock).rxLen → 0 ≤ (k'.sock .gSock).rxLen)
    (fewer : (k'.sock .gSock).rxLen ≤ (k.sock .gSock).rxLen) :
    Inv irs stream (k', d') := by
  obtain ⟨past, inSync⟩ := inv
  refine ⟨state.trans_ne past, fun est => ?_⟩
  obtain ⟨c, sync⟩ := inSync (state.symm.trans est)
  exact ⟨c, sync.inside, number.trans sync.number, content.trans sync.content,
    nonneg sync.nonneg, le_trans fewer (cap ▸ sync.bounded)⟩

theorem inv_input (short : stream.length < 2 ^ 32) {th : Segment}
    (carries : CarriesStream irs stream th) (inv : Inv irs stream (k, d))
    (fits : (k.sock .gSock).state = .established → th.rst = false →
      (k.sock .gSock).inOrder th → th.fin = false →
      (th.payload.length : Int) ≤ (k.sock .gSock).rxCap - (k.sock .gSock).rxLen) :
    Inv irs stream (tcpInput k th, d) := by
  obtain ⟨past, inSync⟩ := inv
  by_cases leaves : th.rst = true ∨ th.fin = true ∨ (k.sock .gSock).state ≠ .established
  · obtain ⟨notBack, left⟩ := onSegment_left past leaves
    rw [← sock_tcpInput] at notBack left
    exact ⟨notBack, fun est => absurd est left⟩
  · simp only [not_or, Bool.not_eq_true, not_not] at leaves
    obtain ⟨rst, fin, est⟩ := leaves
    rw [tcpInput_established est rst fin]
    split
    · rename_i inOrder
      obtain ⟨c, sync⟩ := inSync est
      have stays : ((tcpTakeData k th).sock .gSock).state = .established := by
        rw [sock_tcpTakeData]
        exact est
      have moved := sync.takeData (sync.piece short carries inOrder) (fits est rst inOrder fin)
      exact ⟨by simp [stays], fun _ => ⟨_, moved⟩⟩
    · exact ⟨past, inSync⟩

theorem inv_step (short : stream.length < 2 ^ 32) (s : Kernel × List UInt8) (e : TcpEvent)
    (peer : FromPeer irs stream e) (inv : Inv irs stream s) (fits : Fits s e) :
    Inv irs stream (readStep s e) := by
  obtain ⟨k, d⟩ := s
  cases e with
  | connect => exact peer.elim
  | rx ipPkt ipLen srcIp dstIp =>
    simp only [readStep, tcpStep, tcpOnRx]
    split
    · rename_i passes
      refine inv_input short peer inv fun est rst inOrder fin => ?_
      exact fits est _ (by simp [TcpEvent.delivers, passes, rst]) inOrder fin
    · exact inv
  | send data =>
    change Inv irs stream ((tcpSend k .gSock data).1, d)
    have sock := sock_tcpSend k .gSock data
    rw [TcpSocket.onSend_frame] at sock
    refine inv.keep ?_ ?_ ?_ ?_ ?_ ?_
    · rw [sock]
    · rw [sock]
    · rw [sock]
    · rw [buffer_tcpSend]
    · rw [sock]; exact id
    · rw [sock]
  | recv maxlen =>
    change Inv irs stream ((tcpRecv k .gSock maxlen).1, d ++ (tcpRecv k .gSock maxlen).2)
    have sock := sock_tcpRecv k .gSock maxlen
    obtain ⟨fewer, nonneg⟩ := onRecv_rxLen (k.sock .gSock) maxlen
    rw [TcpSocket.onRecv_frame] at sock
    refine inv.keep ?_ ?_ ?_ ?_ ?_ ?_
    · rw [sock]
    · rw [sock]
    · rw [sock]
    · rw [List.append_assoc, tcpRecv_buffer]
    · rw [sock]; exact nonneg
    · rw [sock]; exact fewer
  | close =>
    obtain ⟨past, inSync⟩ := inv
    simp only [readStep, tcpStep, tcpClose]
    split
    · exact ⟨past, inSync⟩
    · split <;> exact ⟨by simp, by simp⟩

theorem over_breaks (short : stream.length < 2 ^ 32) (s : Kernel × List UInt8) (e : TcpEvent)
    (peer : FromPeer irs stream e) (inv : Inv irs stream s) (fails : ¬ Fits s e) :
    ¬ Delivered irs stream (readStep s e) := by
  obtain ⟨ipPkt, ipLen, srcIp, dstIp, rfl, est, taken, inOrder, tooLong⟩ := fits_or_over s e fails
  obtain ⟨c, sync⟩ := inv.2 est
  have stays : ((tcpOnRx s.1 ipPkt ipLen srcIp dstIp).sock .gSock).state = .established := by
    rw [taken, sock_tcpTakeData]
    exact est
  intro delivered
  have same := delivered stays
  simp only [readStep, tcpStep, taken] at same
  exact sync.takeData_lost short (sync.piece short peer inOrder) tooLong same

theorem inv_opened {k : Kernel} (opened : Opened irs k) : Inv irs stream (k, []) := by
  obtain ⟨number, empty, cap⟩ := opened.fresh
  have est : (k.sock .gSock).state = .established := by
    obtain ⟨_, _, _, _, _, _, _, _, _, _, _, est⟩ := opened
    exact est
  refine ⟨by simp [est], fun _ => ⟨0, Nat.zero_le _, ?_, ?_, ?_, ?_⟩⟩
  · rw [number, seqAt_zero]
  · simp [buffer, empty]
  · simp [empty]
  · simp [empty, cap]

/-- What was read and what is buffered are the acknowledged part of the stream
throughout if and only if every accepted segment found room. -/
theorem delivered_along_iff (irs : UInt32) (stream : List UInt8) (k : Kernel)
    (es : List TcpEvent) (opened : Opened irs k) (short : stream.length < 2 ^ 32)
    (peer : ∀ e ∈ es, FromPeer irs stream e) :
    Along readStep (Delivered irs stream) (k, []) es ↔ Steps readStep Fits (k, []) es := by
  have holds (s : Kernel × List UInt8) (inv : Inv irs stream s) : Delivered irs stream s := by
    intro est
    obtain ⟨c, sync⟩ := inv.2 est
    exact sync.delivered short est
  exact along_iff_steps (inv_step short) holds (over_breaks short) peer (inv_opened opened)

/-- Two segments, the second one twice, and a reader in between. -/
theorem delivered_in_pieces :
    Along readStep (Delivered 7 [72, 84, 84, 80]) (openKernel, [])
      [rxAtOpen 0x18 (seqAt 8 0) [72, 84, 84], .recv 2, rxAtOpen 0x18 (seqAt 8 3) [80],
        rxAtOpen 0x18 (seqAt 8 3) [80], .recv 2] := by
  refine (delivered_along_iff 7 _ _ _ openKernel_opened (by decide) ?_).mpr (by decide +kernel)
  have first : FromPeer 7 [72, 84, 84, 80] (rxAtOpen 0x18 (seqAt 8 0) [72, 84, 84]) :=
    fromPeer_rxAtOpen 7 0x18 ⟨by decide, rfl⟩
  have last : FromPeer 7 [72, 84, 84, 80] (rxAtOpen 0x18 (seqAt 8 3) [80]) :=
    fromPeer_rxAtOpen 7 0x18 ⟨by decide, rfl⟩
  intro e he
  simp only [List.mem_cons, List.not_mem_nil, or_false] at he
  rcases he with rfl | rfl | rfl | rfl | rfl
  · exact first
  · trivial
  · exact last
  · exact last
  · trivial

/-- Six full segments that nobody reads. -/
def burst : List TcpEvent :=
  (List.range 6).map fun i => rxAtOpen 0x18 (seqAt 8 (1460 * i)) (List.replicate 1460 65)

theorem fromPeer_burst : ∀ e ∈ burst, FromPeer 7 (List.replicate 8760 65) e := by
  intro e he
  obtain ⟨i, hi, rfl⟩ := List.mem_map.mp he
  have few : i < 6 := List.mem_range.mp hi
  apply fromPeer_rxAtOpen 7 0x18
  constructor
  · rw [List.length_replicate, List.length_replicate]; omega
  · rw [List.drop_replicate, List.take_replicate, List.length_replicate]
    congr 1
    omega

/-- They are 8760 bytes in a buffer of 8192, and all of them are acknowledged. -/
theorem burst_acknowledged_beyond_buffer :
    Opened 7 openKernel ∧ (∀ e ∈ burst, FromPeer 7 (List.replicate 8760 65) e) ∧
    ¬ Along readStep (Delivered 7 (List.replicate 8760 65)) (openKernel, []) burst := by
  refine ⟨openKernel_opened, fromPeer_burst, fun along => ?_⟩
  have last := along_last along
  have final : ((burst.foldl readStep (openKernel, [])).1.sock .gSock).state = .established ∧
      ((burst.foldl readStep (openKernel, [])).1.sock .gSock).rxLen = 8192 ∧
      ((burst.foldl readStep (openKernel, [])).1.sock .gSock).rcvNxt = 8768 ∧
      (burst.foldl readStep (openKernel, [])).2 = [] := by
    decide +kernel
  obtain ⟨est, len, number, read⟩ := final
  have same := congrArg List.length (last est)
  rw [read, List.nil_append, buffer, Mem.length_load, len, number, List.length_take,
    List.length_replicate] at same
  revert same
  decide

end MyOS.Delivery
