import MyOS.Tcp.Step

/-!
# What goes out

Each call hands segments to `net_send_ip`, and which ones depends on the record
of the socket alone. Nothing else of a call reaches the network layer.
-/

namespace MyOS

/-- A call of `tcp_send_segment`, with the record of the socket at that time. -/
structure Outgoing where
  sock : TcpSocket
  flags : UInt8
  payload : List UInt8

namespace Outgoing

/-- The call of `net_send_ip` it makes. -/
def ipSend (o : Outgoing) : IpSend := ⟨o.sock.remoteIp, 6, tcpSegment o.sock o.flags o.payload⟩

/-- The fields it writes. -/
def segment (o : Outgoing) : Segment :=
  ⟨o.sock.localPort, o.sock.remotePort, o.sock.sndNxt, o.sock.rcvNxt, o.flags, o.payload⟩

end Outgoing

def Net.sendAll (n : Net) (ps : List IpSend) : Net :=
  ps.foldl (fun n p => netSendIp n p.dstIp p.proto p.payload) n

/-- From `k` to `k'` exactly `os` went out, in that order. -/
structure Emits (k k' : Kernel) (os : List Outgoing) : Prop where
  sent : k'.tcp.sent = k.tcp.sent ++ os.map Outgoing.ipSend
  net : k'.net = k.net.sendAll (os.map Outgoing.ipSend)

namespace Emits

variable {k k' k'' : Kernel} {os os' : List Outgoing}

theorem refl (k : Kernel) : Emits k k [] := ⟨(List.append_nil _).symm, rfl⟩

theorem trans (first : Emits k k' os) (second : Emits k' k'' os') : Emits k k'' (os ++ os') := by
  constructor
  · rw [second.sent, first.sent, List.map_append, List.append_assoc]
  · rw [second.net, first.net, Net.sendAll, Net.sendAll, Net.sendAll, List.map_append,
      List.foldl_append]

theorem setSock (h : Emits k k' os) (s : SockRef) (v : TcpSocket) : Emits k (k'.setSock s v) os :=
  ⟨h.sent, h.net⟩

theorem rxDataIntoBuf (h : Emits k k' os) (s : SockRef) (pl : List UInt8) :
    Emits k (rxDataIntoBuf k' s pl) os := by
  unfold MyOS.rxDataIntoBuf
  dsimp only
  split
  · exact ⟨h.sent, h.net⟩
  · exact h

theorem segment (h : Emits k k' os) (s : SockRef) (flags : UInt8) (payload : List UInt8) :
    Emits k (tcpSendSegment k' s flags payload) (os ++ [⟨k'.sock s, flags, payload⟩]) :=
  h.trans ⟨rfl, rfl⟩

end Emits

namespace TcpSocket

/-- What a segment that passes the guards of `tcp_on_rx` is answered with. -/
def answers (g : TcpSocket) (th : Segment) : List Outgoing :=
  if th.rst then []
  else match g.state with
    | .synSent => if th.synAck then [⟨{ g with rcvNxt := th.seq + 1 }, 0x10, []⟩] else []
    | .established =>
      let acked := (g.afterData th).rcvNxt + 1
      (if g.inOrder th then [⟨g.takeData th, 0x10, []⟩] else []) ++
        if th.fin then [⟨{ g.afterData th with rcvNxt := acked }, 0x10, []⟩,
          ⟨{ g.afterData th with rcvNxt := acked }, 0x11, []⟩] else []
    | .finWait2 => if th.fin then [⟨{ g with rcvNxt := g.rcvNxt + 1 }, 0x10, []⟩] else []
    | _ => []

def sends (g : TcpSocket) (data : List UInt8) : List Outgoing :=
  if g.state = .established ∧ data ≠ [] then [⟨g, 0x18, data⟩] else []

def closes (g : TcpSocket) : List Outgoing :=
  if g.inUse ∧ g.state = .established then [⟨g, 0x11, []⟩] else []

end TcpSocket

/-! ## What the peer reads -/

theorem length_tcpSegment (g : TcpSocket) (flags : UInt8) (payload : List UInt8) :
    (tcpSegment g flags payload).length = 20 + payload.length := by
  simp only [tcpSegment, List.length_append, Nat.add_right_cancel_iff]
  rfl

/-- The bytes of a segment decode to the fields written, whatever stands behind them. -/
theorem tcpDecode_segment {m : Mem} {g : TcpSocket} {flags : UInt8} {payload : List UInt8}
    (holds : m.Holds 0 (tcpSegment g flags payload)) :
    tcpHdrLen m = 20 ∧
      tcpDecode m (20 + payload.length) = Outgoing.segment ⟨g, flags, payload⟩ := by
  simp only [tcpSegment, tcpHeader, Mem.holds_append, Mem.holds_cons] at holds
  obtain ⟨⟨⟨⟨⟨⟨⟨⟨sport, dport⟩, seq⟩, ack⟩, off, flagged, -⟩, -⟩, -⟩, -⟩, data⟩ := holds
  have hdr : tcpHdrLen m = 20 := by
    have off_res : m 12 = 0x50 := off
    rw [tcpHdrLen, off_res]
    rfl
  have port : m.load16 0 = htons g.localPort := load16_bytes16 sport
  have ownPort : m.load16 2 = htons g.remotePort := load16_bytes16 dport
  have number : m.load32 4 = htonl g.sndNxt := load32_bytes32 seq
  have acked : m.load32 8 = htonl g.rcvNxt := load32_bytes32 ack
  have kind : m 13 = flags := flagged
  have carried : m.load 20 payload.length = payload := data
  have len : (20 + (payload.length : Int) - (20 : Nat)).toNat = payload.length := by omega
  refine ⟨hdr, ?_⟩
  rw [tcpDecode, hdr, len, port, ownPort, number, acked, kind, carried]
  simp only [ntohs_htons, ntohl_htonl]
  rfl

theorem tcpTakeData_emits (k : Kernel) (th : Segment) :
    Emits k (tcpTakeData k th) [⟨(k.sock .gSock).takeData th, 0x10, []⟩] := by
  have buffered := (Emits.refl k).rxDataIntoBuf .gSock th.payload
  have record := sock_rxDataIntoBuf k .gSock th.payload
  unfold tcpTakeData
  generalize rxDataIntoBuf k .gSock th.payload = b at buffered record
  have emitted := (buffered.setSock .gSock
    { b.sock .gSock with rcvNxt := (b.sock .gSock).rcvNxt + th.payload.length.toUInt32 }).segment
      .gSock 0x10 []
  rw [setSock_same, record] at emitted
  dsimp only
  rw [record]
  exact emitted

theorem tcpTakeFin_emits (k : Kernel) : Emits k (tcpTakeFin k)
    [⟨{ k.sock .gSock with rcvNxt := (k.sock .gSock).rcvNxt + 1 }, 0x10, []⟩,
      ⟨{ k.sock .gSock with rcvNxt := (k.sock .gSock).rcvNxt + 1 }, 0x11, []⟩] := by
  have first := ((Emits.refl k).setSock .gSock
    { k.sock .gSock with rcvNxt := (k.sock .gSock).rcvNxt + 1 }).segment .gSock 0x10 []
  have second := first.segment .gSock 0x11 []
  rw [tcpSendSegment_sock, setSock_same] at second
  exact second.setSock ..

/-- An ACK of the record `g` goes out once `g` has been written. -/
theorem ack_emits (k : Kernel) (g : TcpSocket) :
    Emits k (tcpSendSegment (k.setSock .gSock g) .gSock 0x10 []) [⟨g, 0x10, []⟩] := by
  have acked := ((Emits.refl k).setSock .gSock g).segment .gSock 0x10 []
  rw [setSock_same] at acked
  exact acked

theorem tcpInput_emits (k : Kernel) (th : Segment) :
    Emits k (tcpInput k th) ((k.sock .gSock).answers th) := by
  simp only [tcpInput, TcpSocket.answers]
  split
  · exact (Emits.refl k).setSock ..
  · cases (k.sock .gSock).state with
    | closed | timeWait => exact .refl k
    | synSent =>
      dsimp only
      split
      · exact (ack_emits ..).setSock ..
      · exact .refl k
    | established =>
      dsimp only
      by_cases data : (k.sock .gSock).inOrder th
      · have first := tcpTakeData_emits k th
        have record : (k.sock .gSock).afterData th = (tcpTakeData k th).sock .gSock := by
          rw [sock_tcpTakeData, TcpSocket.afterData, if_pos data]
        rw [if_pos data, if_pos data, record]
        split
        · exact first.trans (tcpTakeFin_emits _)
        · exact first
      · have record : (k.sock .gSock).afterData th = k.sock .gSock := if_neg data
        rw [if_neg data, if_neg data, record]
        split
        · exact tcpTakeFin_emits k
        · exact .refl k
    | finWait1 =>
      dsimp only
      split
      · exact (Emits.refl k).setSock ..
      · exact .refl k
    | finWait2 =>
      dsimp only
      split
      · exact (ack_emits ..).setSock ..
      · exact .refl k

theorem tcpOnRx_emits (k : Kernel) (ipPkt : Mem) (ipLen : Int) (srcIp dstIp : UInt32) :
    Emits k (tcpOnRx k ipPkt ipLen srcIp dstIp)
      (if addressed (k.sock .gSock) ipPkt ipLen srcIp then
        (k.sock .gSock).answers (tcpDecode ipPkt ipLen) else []) := by
  unfold tcpOnRx
  split
  · exact tcpInput_emits ..
  · exact .refl k

theorem tcpSend_emits (k : Kernel) (s : SockRef) (data : List UInt8) :
    Emits k (tcpSend k s data).1 ((k.sock s).sends data) := by
  unfold tcpSend TcpSocket.sends
  by_cases est : (k.sock s).state = .established
  · by_cases empty : data = []
    · simpa [est, empty] using Emits.refl k
    · simpa [est, empty] using ((Emits.refl k).segment s 0x18 data).setSock ..
  · simpa [est] using Emits.refl k

theorem tcpRecv_emits (k : Kernel) (s : SockRef) (maxlen : Nat) :
    Emits k (tcpRecv k s maxlen).1 [] := by
  unfold tcpRecv
  dsimp only
  split
  · exact .refl k
  · exact ⟨(List.append_nil _).symm, rfl⟩

theorem tcpClose_emits (k : Kernel) (s : SockRef) :
    Emits k (tcpClose k s).1 (k.sock s).closes := by
  unfold tcpClose TcpSocket.closes
  by_cases used : (k.sock s).inUse = false
  · simpa [used] using Emits.refl k
  · by_cases est : (k.sock s).state = .established
    · simpa [used, est] using ((Emits.refl k).segment s 0x11 []).setSock ..
    · simpa [used, est] using (Emits.refl k).setSock ..

theorem tcpConnect_emits (k : Kernel) (s : SockRef) {dstIp : UInt32} {dstPort srcPort : UInt16}
    (idle : (k.sock .gSock).inUse = false) :
    Emits k (tcpConnect k s dstIp dstPort srcPort).1
      [⟨freshSocket k dstIp dstPort srcPort, 0x02, []⟩] := by
  have counted : Emits k { k with tcp := { k.tcp with
      ephemeral := if srcPort ≠ 0 then k.tcp.ephemeral else k.tcp.ephemeral + 1
      isn := k.tcp.isn + 0x1000 } } [] := ⟨(List.append_nil _).symm, rfl⟩
  have syn := (counted.setSock s (freshSocket k dstIp dstPort srcPort)).segment s 0x02 []
  rw [setSock_same] at syn
  simp only [tcpConnect, idle, Bool.false_eq_true, ↓reduceIte]
  exact (syn.setSock ..).setSock ..

theorem Net.sendAll_arpCache (n : Net) (ps : List IpSend) :
    (n.sendAll ps).arpCache = n.arpCache := by
  induction ps generalizing n with
  | nil => rfl
  | cons p ps ih => exact (ih _).trans (netSendIp_arpCache ..)

end MyOS
