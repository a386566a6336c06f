import MyOS.Http.Get
import MyOS.Net.RoundTrip
import MyOS.Net.Headers
import MyOS.Tcp.Delivery

/-!
# What a poll does to the connection

A frame is a segment for the open connection or it is nothing to it. While the
connection is open the segments in order fill the buffer; once the FIN has been
taken the buffer stays as it is until it is read.
-/

namespace MyOS.Polls

open Headers SeqStream
open Delivery (buffer buffer_tcpTakeData tcpRecv_buffer)

/-! ## One frame -/

/-- `net_rx` hands the segment `th` to `tcp_on_rx`, and it is for this connection. -/
structure Accepted (g : TcpSocket) (f : Mem × Int) (th : Segment) : Prop where
  reached : Reaches f.1 f.2
  tcp : f.1 23 = 6
  passes : addressed g (segmentOf f.1) (segmentLen f.1) (ntohl (f.1.load32 26)) = true
  decoded : tcpDecode (segmentOf f.1) (segmentLen f.1) = th

section
variable {k : Kernel} {f : Mem × Int} {th : Segment}

theorem netRx_accepted (accepted : Accepted (k.sock .gSock) f th) :
    netRx k f.1 f.2 = tcpInput k th := by
  rw [netRx_segment accepted.reached accepted.tcp, tcpOnRx, if_pos accepted.passes,
    accepted.decoded]

theorem netRx_unaccepted (none : ∀ th, ¬ Accepted (k.sock .gSock) f th) :
    (netRx k f.1 f.2).tcp = k.tcp := by
  by_cases segment : Reaches f.1 f.2 ∧ f.1 23 = 6
  · rw [netRx_segment segment.1 segment.2, tcpOnRx, if_neg]
    intro passes
    exact none _ ⟨segment.1, segment.2, passes, rfl⟩
  · exact netRx_tcp segment

/-- Whatever holds of the record and survives a segment survives a poll. -/
theorem pollFrames_keep {P : TcpSocket → Prop} (step : ∀ g th, P g → P (g.onSegment th))
    (holds : P (k.sock .gSock)) (fs : List (Mem × Int)) : P ((pollFrames k fs).sock .gSock) := by
  induction fs generalizing k with
  | nil => exact holds
  | cons f fs ih =>
    apply ih
    change P ((netRx k f.1 f.2).sock .gSock)
    by_cases some : ∃ th, Accepted (k.sock .gSock) f th
    · obtain ⟨th, accepted⟩ := some
      rw [netRx_accepted accepted, sock_tcpInput]
      exact step _ th holds
    · have same := netRx_unaccepted (not_exists.mp some)
      rw [Kernel.sock, same]
      exact holds

end

/-! ## From the connect to the request -/

section
variable {k : Kernel} {polls : Nat → List (Mem × Int)} {P : TcpSocket → Prop}

theorem sock_connecting (k : Kernel) (ip : UInt32) (port : UInt16) :
    (tcpConnect (tcpInit k) .gSock ip port 0).1.sock .gSock = connected (tcpInit k) ip port 0 := by
  apply (sock_tcpConnect (tcpInit k) .gSock _).1
  rw [tcpInit, setSock_same]
  rfl

theorem httpWait_keep (step : ∀ g th, P g → P (g.onSegment th))
    (polls : Nat → List (Mem × Int)) (waits n : Nat) (holds : P (k.sock .gSock)) :
    P ((httpWait polls waits n k).2.sock .gSock) := by
  induction waits generalizing n k with
  | zero => exact holds
  | succ waits ih =>
    rw [httpWait]
    split
    · exact ih (n + 1) (pollFrames_keep step holds (polls n))
    · exact holds

/-- When the request goes out the connection is established, and what holds of
every new connection still does. -/
theorem httpOpen_keep {k' : Kernel} {n : Nat} {ip : UInt32} {port : UInt16}
    {hostbuf pathbuf : List UInt8} (step : ∀ g th, P g → P (g.onSegment th))
    (sends : ∀ g sndNxt, P g → P { g with sndNxt }) (start : P (connected (tcpInit k) ip port 0))
    (opened : httpOpen polls k ip port hostbuf pathbuf = .ok (n, k')) :
    (k'.sock .gSock).state = .established ∧ P (k'.sock .gSock) := by
  rw [← sock_connecting] at start
  have holds := httpWait_keep step polls 300000 0 start
  rcases waits : httpWait polls 300000 0 (tcpConnect (tcpInit k) .gSock ip port 0).1 with ⟨n₁, k₁⟩
  rw [waits] at holds
  rw [httpOpen_eq waits] at opened
  split at opened
  · cases opened
  · rename_i est
    obtain ⟨-, rfl⟩ := Prod.mk.inj (Except.ok.inj opened)
    rw [sock_tcpSend, TcpSocket.onSend_frame]
    exact ⟨not_not.mp est, sends _ _ holds⟩

end

/-! ## The connection and its buffer -/

/-- The connection set up as `g` has come to this state and expects `seq` next;
`held` is what waits to be read. -/
structure Reading (g : TcpSocket) (k : Kernel) (state : TcpState) (seq : UInt32)
    (held : List UInt8) : Prop where
  record : ∃ sndNxt, k.sock .gSock =
    { g with state := state, sndNxt := sndNxt, rcvNxt := seq, rxLen := held.length }
  content : buffer k = held

namespace Reading

variable {g : TcpSocket} {k : Kernel} {state : TcpState} {seq : UInt32} {held : List UInt8}
  {f : Mem × Int} {th : Segment}

theorem state_eq (reading : Reading g k state seq held) : (k.sock .gSock).state = state := by
  obtain ⟨_, record⟩ := reading.record
  rw [record]

theorem rxLen_eq (reading : Reading g k state seq held) :
    (k.sock .gSock).rxLen = held.length := by
  obtain ⟨_, record⟩ := reading.record
  rw [record]

theorem rcvNxt_eq (reading : Reading g k state seq held) : (k.sock .gSock).rcvNxt = seq := by
  obtain ⟨_, record⟩ := reading.record
  rw [record]

/-- A new connection starts here. -/
theorem start (empty : (k.sock .gSock).rxLen = 0) :
    Reading (k.sock .gSock) k (k.sock .gSock).state (k.sock .gSock).rcvNxt [] where
  record := ⟨(k.sock .gSock).sndNxt, by rw [List.length_nil, Int.natCast_zero, ← empty]⟩
  content := by simp [buffer, empty]

/-- Which segments are for a connection is settled when it is set up. -/
theorem accepted_iff (reading : Reading g k state seq held) :
    Accepted (k.sock .gSock) f th ↔ Accepted g f th := by
  obtain ⟨_, record⟩ := reading.record
  constructor
  · rintro ⟨reached, tcp, passes, decoded⟩
    rw [record] at passes
    exact ⟨reached, tcp, passes, decoded⟩
  · rintro ⟨reached, tcp, passes, decoded⟩
    refine ⟨reached, tcp, ?_, decoded⟩
    rw [record]
    exact passes

theorem of_tcp (reading : Reading g k state seq held) {k' : Kernel} (same : k'.tcp = k.tcp) :
    Reading g k' state seq held := by
  constructor
  · rw [Kernel.sock, same]
    exact reading.record
  · rw [buffer, Kernel.sock, same]
    exact reading.content

/-- A frame that is no segment for the connection, or one it has no use for. -/
theorem skip (reading : Reading g k state seq held)
    (ignored : ∀ th, Accepted g f th → Ignores (k.sock .gSock) th) :
    Reading g (netRx k f.1 f.2) state seq held := by
  by_cases some : ∃ th, Accepted g f th
  · obtain ⟨th, accepted⟩ := some
    rw [netRx_accepted (reading.accepted_iff.mpr accepted), tcpInput_ignores (ignored th accepted)]
    exact reading
  · refine reading.of_tcp (netRx_unaccepted fun th accepted => some ⟨th, ?_⟩)
    exact reading.accepted_iff.mp accepted

/-- The next piece of the stream, with room for it. -/
theorem take (reading : Reading g k .established seq held) (some : th.payload ≠ [])
    (next : th.seq = seq) (fits : (held.length : Int) + th.payload.length ≤ g.rxCap) :
    (k.sock .gSock).inOrder th ∧ Reading g (tcpTakeData k th) .established
      (seqAt seq th.payload.length) (held ++ th.payload) := by
  obtain ⟨sndNxt, record⟩ := reading.record
  have cap : (k.sock .gSock).rxCap = g.rxCap := by rw [record]
  have len := reading.rxLen_eq
  have whole : rxRoom (k.sock .gSock) th.payload.length = th.payload.length := by
    apply if_neg
    omega
  refine ⟨⟨some, by rw [next, record]⟩, ⟨sndNxt, ?_⟩, ?_⟩
  · rw [sock_tcpTakeData, TcpSocket.takeData, TcpSocket.buffered, whole, record,
      List.length_append]
    simp only [max_eq_right (Int.natCast_nonneg _), Int.natCast_add]
    rfl
  · have roomy : th.payload.length ≤ ((k.sock .gSock).rxCap - (k.sock .gSock).rxLen).toNat := by
      omega
    rw [buffer_tcpTakeData (by omega) (by omega), reading.content, List.take_of_length_le roomy]

theorem data (reading : Reading g k .established seq held) (accepted : Accepted g f th)
    (rst : th.rst = false) (fin : th.fin = false) (some : th.payload ≠ []) (next : th.seq = seq)
    (fits : (held.length : Int) + th.payload.length ≤ g.rxCap) :
    Reading g (netRx k f.1 f.2) .established (seqAt seq th.payload.length)
      (held ++ th.payload) := by
  obtain ⟨inOrder, taken⟩ := reading.take some next fits
  rw [netRx_accepted (reading.accepted_iff.mpr accepted),
    Delivery.tcpInput_established reading.state_eq rst fin, if_pos inOrder]
  exact taken

theorem buffer_tcpTakeFin (k : Kernel) : buffer (tcpTakeFin k) = buffer k := by
  have len : ((tcpTakeFin k).sock .gSock).rxLen = (k.sock .gSock).rxLen := by
    rw [sock_tcpTakeFin]
    rfl
  have rb : (tcpTakeFin k).tcp.rb = k.tcp.rb := by
    simp only [tcpTakeFin, setSock_rb, tcpSendSegment_rb]
  rw [buffer, len, rb, buffer]

theorem takeFin (reading : Reading g k .established seq held) :
    Reading g (tcpTakeFin k) .finWait1 (seq + 1) held := by
  obtain ⟨sndNxt, record⟩ := reading.record
  refine ⟨⟨sndNxt + 1, ?_⟩, ?_⟩
  · rw [sock_tcpTakeFin, record]
    rfl
  · rw [buffer_tcpTakeFin, reading.content]

/-- The FIN, with the last piece of the stream or without one. -/
theorem fin (reading : Reading g k .established seq held) (accepted : Accepted g f th)
    (rst : th.rst = false) (fin : th.fin = true) (next : th.seq = seq)
    (fits : (held.length : Int) + th.payload.length ≤ g.rxCap) :
    ∃ seq', Reading g (netRx k f.1 f.2) .finWait1 seq' (held ++ th.payload) := by
  rw [netRx_accepted (reading.accepted_iff.mpr accepted)]
  simp only [tcpInput, rst, reading.state_eq, fin, Bool.false_eq_true, ↓reduceIte]
  by_cases some : th.payload = []
  · rw [if_neg (fun h => h.1 some), some, List.append_nil]
    exact ⟨_, reading.takeFin⟩
  · obtain ⟨inOrder, taken⟩ := reading.take some next fits
    rw [if_pos inOrder]
    exact ⟨_, taken.takeFin⟩

theorem setState (reading : Reading g k state seq held) (state' : TcpState) :
    Reading g (k.setSock .gSock { k.sock .gSock with state := state' }) state' seq held := by
  obtain ⟨sndNxt, record⟩ := reading.record
  refine ⟨⟨sndNxt, ?_⟩, ?_⟩
  · rw [setSock_same, record]
  · rw [buffer, setSock_same]
    exact reading.content

/-- `TCP_FIN_WAIT2` to `TCP_TIME_WAIT` -/
theorem ackFin (reading : Reading g k state seq held) :
    Reading g (tcpSendSegment (k.setSock .gSock { k.sock .gSock with
      rcvNxt := (k.sock .gSock).rcvNxt + 1 }) .gSock 0x10 []) state (seq + 1) held := by
  obtain ⟨sndNxt, record⟩ := reading.record
  refine ⟨⟨sndNxt, ?_⟩, ?_⟩
  · rw [tcpSendSegment_sock, setSock_same, record]
  · rw [buffer, tcpSendSegment_sock, tcpSendSegment_rb, setSock_same]
    exact reading.content

/-- Behind the FIN the connection stays in the closing states. -/
theorem closing (reading : Reading g k state seq held) (closing : httpClosing state = true)
    (noReset : ∀ th, Accepted g f th → th.rst = false) :
    ∃ state' seq', httpClosing state' = true ∧ Reading g (netRx k f.1 f.2) state' seq' held := by
  by_cases some : ∃ th, Accepted g f th
  · obtain ⟨th, accepted⟩ := some
    rw [netRx_accepted (reading.accepted_iff.mpr accepted)]
    simp only [tcpInput, noReset th accepted, reading.state_eq, Bool.false_eq_true, ↓reduceIte]
    cases state with
    | closed | synSent | established => cases closing
    | timeWait => exact ⟨_, _, rfl, reading⟩
    | finWait1 =>
      dsimp only
      split
      · exact ⟨_, _, rfl, reading.setState .finWait2⟩
      · exact ⟨_, _, rfl, reading⟩
    | finWait2 =>
      dsimp only
      split
      · have ended := reading.ackFin.setState .timeWait
        simp only [reading.state_eq] at ended
        exact ⟨_, _, rfl, ended⟩
      · exact ⟨_, _, rfl, reading⟩
  · refine ⟨state, seq, closing, reading.of_tcp (netRx_unaccepted fun th accepted => ?_)⟩
    exact some ⟨th, reading.accepted_iff.mp accepted⟩

/-- The reader takes what it asks for from the front. -/
theorem recv (reading : Reading g k state seq held) (maxlen : Nat) :
    (tcpRecv k .gSock maxlen).2 = held.take maxlen ∧
      Reading g (tcpRecv k .gSock maxlen).1 state seq (held.drop maxlen) := by
  obtain ⟨sndNxt, record⟩ := reading.record
  have all := tcpRecv_buffer (k := k) maxlen
  rw [reading.content] at all
  have rest : ((tcpRecv k .gSock maxlen).1.sock .gSock).rxLen = (held.drop maxlen).length := by
    rw [sock_tcpRecv, TcpSocket.onRecv, reading.rxLen_eq, List.length_drop]
    split
    · rw [reading.rxLen_eq]
      omega
    · dsimp only
      omega
  have size : (buffer (tcpRecv k .gSock maxlen).1).length = (held.drop maxlen).length := by
    rw [buffer, Mem.length_load, rest, Int.toNat_natCast]
  rw [← List.take_append_drop maxlen held] at all
  obtain ⟨taken, left⟩ := List.append_inj' all size
  refine ⟨taken, ⟨sndNxt, ?_⟩, left⟩
  rw [sock_tcpRecv, TcpSocket.onRecv_frame, ← sock_tcpRecv, rest, record]

end Reading

/-! ## A server that runs the same code -/

/-- The frame in which `net_send_ip` of the host `server` sends a segment. -/
def frameOf (server : NetIf) (o : Outgoing) : Mem × Int :=
  let frame := ipFrame server (Vector.replicate 6 0x52) o.sock.remoteIp 6
    (tcpSegment o.sock o.flags o.payload)
  (.ofList frame, frame.length)

theorem accepted_frameOf {g : TcpSocket} {server : NetIf} {o : Outgoing} (used : g.inUse = true)
    (host : server.ip = g.remoteIp) (sport : o.sock.localPort = g.remotePort)
    (dport : o.sock.remotePort = g.localPort) (fits : o.payload.length ≤ 1460) :
    Accepted g (frameOf server o) o.segment := by
  have size := length_tcpSegment o.sock o.flags o.payload
  have fields : RoundTrip.Fields (frameOf server o).1 server o.sock.remoteIp 6
      (tcpSegment o.sock o.flags o.payload) := by
    have holds := Mem.holds_ofList (ipFrame server (Vector.replicate 6 0x52) o.sock.remoteIp 6
      (tcpSegment o.sock o.flags o.payload)) []
    rw [List.append_nil] at holds
    exact RoundTrip.ipFrame_fields holds
  obtain ⟨hdr, decoded⟩ := tcpDecode_segment ((Mem.holds_advance _ 0 _ 34).mpr fields.payload)
  have hdrLen : ipHdrLen (frameOf server o).1 = 20 := by rw [ipHdrLen, fields.verIhl]; rfl
  have total : ipTotLen (frameOf server o).1 = 40 + o.payload.length := by
    rw [ipTotLen, fields.totLen, ntohs_htons, RoundTrip.toNat_length (by omega), size]
    omega
  have segment : segmentOf (frameOf server o).1 = (frameOf server o).1.advance 34 := by
    rw [segmentOf, hdrLen]
  have len : segmentLen (frameOf server o).1 = 20 + o.payload.length := by
    rw [segmentLen, hdrLen, total]
    omega
  have long : (frameOf server o).2 = 54 + o.payload.length := by
    simp only [frameOf, RoundTrip.length_ipFrame, size]
    omega
  refine ⟨⟨fields.type, by omega, ?_, by omega, Or.inr ⟨fields.proto, by omega⟩⟩,
    fields.proto, ?_, ?_⟩
  · rw [fields.verIhl]
    rfl
  · simp only [addressed, segment, len, decoded, hdr, fields.src, Outgoing.segment, used, host,
      sport, dport, beq_self_eq_true, Bool.and_true, Bool.true_and, Bool.and_eq_true,
      decide_eq_true_eq]
    omega
  · rw [segment, len, decoded]

/-- 10.0.2.2 -/
def server : NetIf := ⟨Vector.replicate 6 0x35, 0x0A000202, 0x0A000202, 0xFFFFFF00⟩

/-- What it sends from port 80 over the connection to port 40000. -/
def sends (flags : UInt8) (seq : UInt32) (payload : List UInt8) : Outgoing :=
  ⟨{ TcpSocket.zero with
      localPort := 80, remotePort := 40000, remoteIp := 0x0A00020F, sndNxt := seq }, flags, payload⟩

/-- The connection it answers on. -/
structure Served (g : TcpSocket) : Prop where
  used : g.inUse = true
  host : g.remoteIp = server.ip
  dport : g.localPort = 40000
  sport : g.remotePort = 80

theorem Served.accepts {g : TcpSocket} (served : Served g) (flags : UInt8) (seq : UInt32)
    {payload : List UInt8} (fits : payload.length ≤ 1460) :
    Accepted g (frameOf server (sends flags seq payload))
      ⟨80, 40000, seq, 0, flags, payload⟩ :=
  accepted_frameOf served.used served.host.symm served.sport.symm served.dport.symm fits

theorem httpWait_once {polls : Nat → List (Mem × Int)} {k : Kernel} (waits n : Nat)
    (waiting : (k.sock .gSock).state ≠ .established)
    (opens : ((pollFrames k (polls n)).sock .gSock).state = .established) :
    httpWait polls (waits + 2) n k = (n + 1, pollFrames k (polls n)) := by
  rw [httpWait, if_pos waiting, httpWait, if_neg (not_not.mpr opens)]

/-! The same server, over the connection to any port. -/

def sendsTo (port : UInt16) (flags : UInt8) (seq : UInt32) (payload : List UInt8) : Outgoing :=
  ⟨{ TcpSocket.zero with
      localPort := 80, remotePort := port, remoteIp := 0x0A00020F, sndNxt := seq }, flags, payload⟩

structure ServedAt (port : UInt16) (g : TcpSocket) : Prop where
  used : g.inUse = true
  host : g.remoteIp = server.ip
  dport : g.localPort = port
  sport : g.remotePort = 80

theorem ServedAt.accepts {port : UInt16} {g : TcpSocket} (served : ServedAt port g) (flags : UInt8)
    (seq : UInt32) {payload : List UInt8} (fits : payload.length ≤ 1460) :
    Accepted g (frameOf server (sendsTo port flags seq payload))
      ⟨80, port, seq, 0, flags, payload⟩ :=
  accepted_frameOf served.used served.host.symm served.sport.symm served.dport.symm fits

theorem ServedAt.first {port : UInt16} {g : TcpSocket} (served : ServedAt port g)
    (first : port = 40000) :
    Served g := ⟨served.used, served.host, served.dport.trans first, served.sport⟩

theorem onSegment_synAck {g : TcpSocket} {th : Segment} (waiting : g.state = .synSent)
    (rst : th.rst = false) (synAck : th.synAck = true) :
    g.onSegment th = { g with rcvNxt := th.seq + 1, state := .established } := by
  simp only [TcpSocket.onSegment, waiting, rst, synAck, Bool.false_eq_true, ↓reduceIte]

/-- It answers the SYN in the first poll; its own has number 7. -/
theorem httpOpen_at (k₁ : Kernel) {polls : Nat → List (Mem × Int)}
    (synAck : polls 0 = [frameOf server (sendsTo k₁.tcp.ephemeral 0x12 7 [])])
    (hostbuf pathbuf : List UInt8) :
    ∃ k, httpOpen polls k₁ server.ip 80 hostbuf pathbuf = .ok (1, k) ∧
      ServedAt k₁.tcp.ephemeral (k.sock .gSock) ∧ (k.sock .gSock).rxCap = 8192 ∧
      Reading (k.sock .gSock) k .established 8 [] := by
  let k₀ := (tcpConnect (tcpInit k₁) .gSock server.ip 80 0).1
  have fresh : k₀.sock .gSock = connected (tcpInit k₁) server.ip 80 0 :=
    sock_connecting k₁ server.ip 80
  have served : ServedAt k₁.tcp.ephemeral (k₀.sock .gSock) := by
    rw [fresh]
    exact ⟨rfl, rfl, rfl, rfl⟩
  let syn : Segment := ⟨80, k₁.tcp.ephemeral, 7, 0, 0x12, []⟩
  have rst : syn.rst = false := (by decide : ((0x12 : UInt8) &&& 0x04 != 0) = false)
  have answer : syn.synAck = true := (by decide : ((0x12 : UInt8) &&& 0x12 == 0x12) = true)
  have waits : (k₀.sock .gSock).state = .synSent := by rw [fresh]; rfl
  have opened : (pollFrames k₀ (polls 0)).sock .gSock =
      { k₀.sock .gSock with state := .established, rcvNxt := 8 } := by
    rw [synAck]
    change (netRx k₀ _ _).sock .gSock = _
    rw [netRx_accepted (served.accepts 0x12 7 (Nat.zero_le _)), sock_tcpInput,
      onSegment_synAck waits rst answer]
    rfl
  have closed : (k₀.sock .gSock).state ≠ .established := by
    rw [waits]
    exact fun est => by cases est
  have opening := httpOpen_eq (httpWait_once 299998 0 closed (by rw [opened])) hostbuf pathbuf
  rw [if_neg (by rw [opened]; exact not_not.mpr rfl)] at opening
  have requested := sock_tcpSend (pollFrames k₀ (polls 0)) .gSock (httpRequest pathbuf hostbuf)
  rw [TcpSocket.onSend_frame, opened, fresh] at requested
  generalize httpRequest pathbuf hostbuf = req at opening requested
  generalize (tcpSend (pollFrames k₀ (polls 0)) .gSock req).1 = k at opening requested
  have state : (k.sock .gSock).state = .established := by rw [requested]
  have next : (k.sock .gSock).rcvNxt = 8 := by rw [requested]
  have reading := Reading.start (k := k) (by rw [requested]; rfl)
  rw [state, next] at reading
  refine ⟨k, opening, ?_, ?_, reading⟩
  · rw [requested]
    exact ⟨rfl, rfl, rfl, rfl⟩
  · rw [requested]
    rfl

theorem httpOpen_served (polls : Nat → List (Mem × Int))
    (synAck : polls 0 = [frameOf server (sends 0x12 7 [])]) (hostbuf pathbuf : List UInt8) :
    ∃ k, httpOpen polls Pending.configured server.ip 80 hostbuf pathbuf = .ok (1, k) ∧
      Served (k.sock .gSock) ∧ (k.sock .gSock).rxCap = 8192 ∧
      Reading (k.sock .gSock) k .established 8 [] := by
  obtain ⟨k, opened, served, cap, reading⟩ := httpOpen_at Pending.configured synAck hostbuf pathbuf
  exact ⟨k, opened, served.first rfl, cap, reading⟩

end MyOS.Polls
