import MyOS.Tcp.Socket

/-!
# What one call does to a socket

Each call of tcp.c touches at most one socket record. The record after the
call is a function of the record before it; buffer, ARP traffic and the record
of sent segments do not enter.
-/

namespace MyOS

section
variable (k : Kernel) (s r : SockRef) (v : TcpSocket) (flags : UInt8) (payload : List UInt8)

@[simp] theorem setSock_same : (k.setSock s v).sock s = v := Function.update_self ..

theorem setSock_of_ne {r s : SockRef} (h : r ≠ s) : (k.setSock s v).sock r = k.sock r :=
  Function.update_of_ne h ..

@[simp] theorem setSock_rb : (k.setSock s v).tcp.rb = k.tcp.rb := rfl

@[simp] theorem tcpSendSegment_sock : (tcpSendSegment k s flags payload).sock r = k.sock r := by
  rw [tcpSendSegment]
  rfl

@[simp] theorem tcpSendSegment_rb : (tcpSendSegment k s flags payload).tcp.rb = k.tcp.rb := by
  rw [tcpSendSegment]

end

namespace TcpSocket

/-- The bytes of a segment that find room count, the rest is dropped. -/
def buffered (g : TcpSocket) (len : Int) : TcpSocket :=
  { g with rxLen := g.rxLen + max 0 (rxRoom g len) }

def takeData (g : TcpSocket) (th : Segment) : TcpSocket :=
  { g.buffered th.payload.length with rcvNxt := g.rcvNxt + th.payload.length.toUInt32 }

def takeFin (g : TcpSocket) : TcpSocket :=
  { g with rcvNxt := g.rcvNxt + 1, sndNxt := g.sndNxt + 1, state := .finWait1 }

/-- The in-order test of the data branch. -/
abbrev inOrder (g : TcpSocket) (th : Segment) : Prop := th.payload ≠ [] ∧ th.seq = g.rcvNxt

/-- The socket after the data branch of `TCP_ESTABLISHED`. -/
def afterData (g : TcpSocket) (th : Segment) : TcpSocket :=
  if g.inOrder th then g.takeData th else g

/-- The receive path as a function of the socket record alone. -/
def onSegment (g : TcpSocket) (th : Segment) : TcpSocket :=
  if th.rst then { g with state := .closed, inUse := false }
  else match g.state with
    | .synSent => if th.synAck then { g with rcvNxt := th.seq + 1, state := .established } else g
    | .established => if th.fin then (g.afterData th).takeFin else g.afterData th
    | .finWait1 => if th.hasAck then { g with state := .finWait2 } else g
    | .finWait2 => if th.fin then { g with rcvNxt := g.rcvNxt + 1, state := .timeWait } else g
    | _ => g

def onSend (g : TcpSocket) (data : List UInt8) : TcpSocket :=
  if g.state = .established then { g with sndNxt := g.sndNxt + data.length.toUInt32 } else g

def onRecv (g : TcpSocket) (maxlen : Nat) : TcpSocket :=
  if g.rxLen ≤ 0 then g else { g with rxLen := g.rxLen - min (maxlen : Int) g.rxLen }

def onClose (g : TcpSocket) : TcpSocket :=
  if g.inUse = false then g
  else if g.state = .established then { g with sndNxt := g.sndNxt + 1, state := .finWait1 }
  else { g with inUse := false, state := .closed }

theorem onSend_frame (g : TcpSocket) (data : List UInt8) :
    g.onSend data = { g with sndNxt := (g.onSend data).sndNxt } := by
  unfold onSend; split <;> rfl

theorem onRecv_frame (g : TcpSocket) (maxlen : Nat) :
    g.onRecv maxlen = { g with rxLen := (g.onRecv maxlen).rxLen } := by
  unfold onRecv; split <;> rfl

theorem afterData_frame (g : TcpSocket) (th : Segment) :
    g.afterData th = { g with
      rxLen := (g.afterData th).rxLen, rcvNxt := (g.afterData th).rcvNxt } := by
  unfold afterData; split <;> rfl

@[simp] theorem afterData_state (g : TcpSocket) (th : Segment) :
    (g.afterData th).state = g.state := by rw [afterData_frame]

@[simp] theorem afterData_inUse (g : TcpSocket) (th : Segment) :
    (g.afterData th).inUse = g.inUse := by rw [afterData_frame]

/-- The only way from `TCP_SYN_SENT` to `TCP_ESTABLISHED`. -/
theorem onSegment_opened {g : TcpSocket} {th : Segment} (waiting : g.state = .synSent)
    (opened : (g.onSegment th).state = .established) :
    th.rst = false ∧ th.synAck = true ∧
      g.onSegment th = { g with rcvNxt := th.seq + 1, state := .established } := by
  simp only [onSegment, waiting] at opened ⊢
  cases rst : th.rst <;> cases syn : th.synAck <;> simp [rst, syn, waiting] at opened ⊢

end TcpSocket

/-! ## The code follows these functions -/

variable (k : Kernel) (s : SockRef)

theorem sock_rxDataIntoBuf (pl : List UInt8) :
    (rxDataIntoBuf k s pl).sock s = (k.sock s).buffered pl.length := by
  simp only [rxDataIntoBuf, TcpSocket.buffered]
  split
  · rename_i fits
    rw [setSock_same, max_eq_right (Int.le_of_lt fits)]
  · rename_i nothing
    rw [max_eq_left (Int.not_lt.mp nothing), Int.add_zero]

theorem sock_tcpTakeData (th : Segment) :
    (tcpTakeData k th).sock .gSock = (k.sock .gSock).takeData th := by
  simp only [tcpTakeData, tcpSendSegment_sock, setSock_same, sock_rxDataIntoBuf]
  rfl

theorem sock_tcpTakeFin : (tcpTakeFin k).sock .gSock = (k.sock .gSock).takeFin := by
  simp only [tcpTakeFin, tcpSendSegment_sock, setSock_same]
  rfl

theorem sock_tcpInput (th : Segment) :
    (tcpInput k th).sock .gSock = (k.sock .gSock).onSegment th := by
  simp only [tcpInput, TcpSocket.onSegment]
  split
  · exact setSock_same ..
  · cases (k.sock .gSock).state with
    | closed | timeWait => rfl
    | synSent => dsimp only; split <;> simp
    | established =>
      dsimp only [TcpSocket.afterData]
      split <;> split <;> simp only [sock_tcpTakeFin, sock_tcpTakeData]
    | finWait1 => dsimp only; split <;> simp
    | finWait2 => dsimp only; split <;> simp

/-- A segment that fails a guard changes nothing; any other moves `g_sock`. -/
theorem sock_tcpOnRx (ipPkt : Mem) (ipLen : Int) (srcIp dstIp : UInt32) :
    (tcpOnRx k ipPkt ipLen srcIp dstIp).sock .gSock =
      if addressed (k.sock .gSock) ipPkt ipLen srcIp then
        (k.sock .gSock).onSegment (tcpDecode ipPkt ipLen)
      else k.sock .gSock := by
  unfold tcpOnRx
  split
  · exact sock_tcpInput ..
  · rfl

/-- The receive path writes no socket but `g_sock`. -/
theorem sock_tcpOnRx_of_ne (ipPkt : Mem) (ipLen : Int) (srcIp dstIp : UInt32)
    {r : SockRef} (other : r ≠ .gSock) :
    (tcpOnRx k ipPkt ipLen srcIp dstIp).sock r = k.sock r := by
  have buffer (k : Kernel) (pl : List UInt8) : (rxDataIntoBuf k .gSock pl).sock r = k.sock r := by
    unfold rxDataIntoBuf
    dsimp only
    split
    · exact setSock_of_ne _ _ other
    · rfl
  have data (k : Kernel) (th : Segment) : (tcpTakeData k th).sock r = k.sock r := by
    simp only [tcpTakeData, tcpSendSegment_sock, setSock_of_ne _ _ other, buffer]
  have fin (k : Kernel) : (tcpTakeFin k).sock r = k.sock r := by
    simp only [tcpTakeFin, tcpSendSegment_sock, setSock_of_ne _ _ other]
  unfold tcpOnRx
  split
  · generalize tcpDecode ipPkt ipLen = th
    simp only [tcpInput]
    split
    · exact setSock_of_ne _ _ other
    · split
      · split
        · simp only [setSock_of_ne _ _ other, tcpSendSegment_sock]
        · rfl
      · split <;> split <;> simp only [fin, data]
      · split
        · exact setSock_of_ne _ _ other
        · rfl
      · split
        · simp only [setSock_of_ne _ _ other, tcpSendSegment_sock]
        · rfl
      · rfl
  · rfl

theorem sock_tcpSend (data : List UInt8) :
    (tcpSend k s data).1.sock s = (k.sock s).onSend data := by
  simp only [tcpSend, TcpSocket.onSend]
  by_cases est : (k.sock s).state = .established
  · by_cases empty : data = []
    · rw [if_neg (not_not.mpr est), if_pos empty, if_pos est, empty]
      simp
    · simp [est, empty]
  · simp [est]

theorem sock_tcpRecv (maxlen : Nat) :
    (tcpRecv k s maxlen).1.sock s = (k.sock s).onRecv maxlen := by
  simp only [tcpRecv, TcpSocket.onRecv]
  split
  · rfl
  · rename_i some
    rw [setSock_same]
    split
    · congr 1; omega
    · congr 1; omega

theorem sock_tcpClose : (tcpClose k s).1.sock s = (k.sock s).onClose := by
  unfold tcpClose TcpSocket.onClose
  split
  · rfl
  · split <;> simp

/-! The calls of an owner leave every socket but its own alone. -/

section
variable {k : Kernel} {s r : SockRef}

theorem sock_tcpSend_of_ne (other : r ≠ s) (data : List UInt8) :
    (tcpSend k s data).1.sock r = k.sock r := by
  unfold tcpSend
  split
  · rfl
  · split
    · rfl
    · simp only [setSock_of_ne _ _ other, tcpSendSegment_sock]

theorem sock_tcpRecv_of_ne (other : r ≠ s) (maxlen : Nat) :
    (tcpRecv k s maxlen).1.sock r = k.sock r := by
  unfold tcpRecv
  dsimp only
  split
  · rfl
  · exact setSock_of_ne _ _ other

theorem sock_tcpClose_of_ne (other : r ≠ s) : (tcpClose k s).1.sock r = k.sock r := by
  unfold tcpClose
  split
  · rfl
  · split
    · simp only [setSock_of_ne _ _ other, tcpSendSegment_sock]
    · exact setSock_of_ne _ _ other

end

/-! ## Sequences of calls -/

/-- One call, by the owner of the socket `s` or by the receive path. -/
inductive TcpEvent
  | connect (dstIp : UInt32) (dstPort srcPort : UInt16)
  | rx (ipPkt : Mem) (ipLen : Int) (srcIp dstIp : UInt32)
  | send (data : List UInt8)
  | recv (maxlen : Nat)
  | close

/-- What `tcp_on_rx` decodes, for the events that are calls of it. -/
def TcpEvent.segment : TcpEvent → Option Segment
  | .rx ipPkt ipLen _ _ => some (tcpDecode ipPkt ipLen)
  | _ => none

/-- The event is a segment that passes every guard and does not reset the
connection. -/
def TcpEvent.delivers (g : TcpSocket) : TcpEvent → Option Segment
  | .rx ipPkt ipLen srcIp _ =>
    if addressed g ipPkt ipLen srcIp ∧ (tcpDecode ipPkt ipLen).rst = false then
      some (tcpDecode ipPkt ipLen)
    else none
  | _ => none

def tcpStep (s : SockRef) (k : Kernel) : TcpEvent → Kernel
  | .connect dstIp dstPort srcPort => (tcpConnect k s dstIp dstPort srcPort).1
  | .rx ipPkt ipLen srcIp dstIp => tcpOnRx k ipPkt ipLen srcIp dstIp
  | .send data => (tcpSend k s data).1
  | .recv maxlen => (tcpRecv k s maxlen).1
  | .close => (tcpClose k s).1

/-- The record a successful `tcp_connect` leaves in both sockets. -/
def connected (dstIp : UInt32) (dstPort srcPort : UInt16) : TcpSocket :=
  let fresh := freshSocket k dstIp dstPort srcPort
  { fresh with sndNxt := fresh.sndNxt + 1 }

theorem sock_tcpConnect {dstIp : UInt32} {dstPort srcPort : UInt16}
    (idle : (k.sock .gSock).inUse = false) :
    (tcpConnect k s dstIp dstPort srcPort).1.sock .gSock = connected k dstIp dstPort srcPort ∧
    (tcpConnect k s dstIp dstPort srcPort).1.sock s = connected k dstIp dstPort srcPort := by
  simp only [tcpConnect, idle, Bool.false_eq_true, ↓reduceIte, setSock_same, tcpSendSegment_sock]
  refine ⟨rfl, ?_⟩
  by_cases h : s = .gSock
  · subst h; rw [setSock_same]; rfl
  · rw [setSock_of_ne _ _ h, setSock_same]; rfl

theorem tcpConnect_busy {dstIp : UInt32} {dstPort srcPort : UInt16}
    (busy : (k.sock .gSock).inUse = true) :
    (tcpConnect k s dstIp dstPort srcPort).1 = k := by
  simp [tcpConnect, busy]

/-- Every event on `g_sock` itself, as a change of its record. -/
theorem sock_tcpStep (e : TcpEvent) :
    (tcpStep .gSock k e).sock .gSock =
      match e with
      | .connect dstIp dstPort srcPort =>
        if (k.sock .gSock).inUse then k.sock .gSock else connected k dstIp dstPort srcPort
      | .rx ipPkt ipLen srcIp _ =>
        if addressed (k.sock .gSock) ipPkt ipLen srcIp then
          (k.sock .gSock).onSegment (tcpDecode ipPkt ipLen)
        else k.sock .gSock
      | .send data => (k.sock .gSock).onSend data
      | .recv maxlen => (k.sock .gSock).onRecv maxlen
      | .close => (k.sock .gSock).onClose := by
  cases e with
  | connect dstIp dstPort srcPort =>
    cases busy : (k.sock .gSock).inUse with
    | true => simp [tcpStep, tcpConnect_busy k _ busy]
    | false => simpa [tcpStep] using (sock_tcpConnect k _ busy).1
  | rx ipPkt ipLen srcIp dstIp => exact sock_tcpOnRx k ipPkt ipLen srcIp dstIp
  | send data => exact sock_tcpSend ..
  | recv maxlen => exact sock_tcpRecv ..
  | close => exact sock_tcpClose ..

/-- The bytes of a segment a peer sends. The receive path checks no checksum. -/
def peerBytes (sport dport : UInt16) (seq ack : UInt32) (flags : UInt8)
    (payload : List UInt8) : List UInt8 :=
  bytes16 (htons sport) ++ bytes16 (htons dport) ++ bytes32 (htonl seq) ++ bytes32 (htonl ack) ++
    [0x50, flags] ++ bytes16 (htons 4096) ++ bytes16 0 ++ bytes16 0 ++ payload

theorem tcpHdrLen_peerBytes (sport dport : UInt16) (seq ack : UInt32) (flags : UInt8)
    (payload : List UInt8) :
    tcpHdrLen (.ofList (peerBytes sport dport seq ack flags payload)) = 20 := by
  have off_res : Mem.ofList (peerBytes sport dport seq ack flags payload) 12 = 0x50 := rfl
  rw [tcpHdrLen, off_res]
  rfl

/-- They decode to what the peer meant. -/
theorem tcpDecode_peerBytes (sport dport : UInt16) (seq ack : UInt32) (flags : UInt8)
    (payload : List UInt8) :
    tcpDecode (.ofList (peerBytes sport dport seq ack flags payload)) (20 + payload.length) =
      ⟨sport, dport, seq, ack, flags, payload⟩ := by
  let m := Mem.ofList (peerBytes sport dport seq ack flags payload)
  have hdr : tcpHdrLen m = 20 := tcpHdrLen_peerBytes ..
  have port : m.load16 0 = htons sport := load16_bytes16 rfl
  have ownPort : m.load16 2 = htons dport := load16_bytes16 rfl
  have number : m.load32 4 = htonl seq := load32_bytes32 rfl
  have acked : m.load32 8 = htonl ack := load32_bytes32 rfl
  have data : m.load 20 payload.length = payload := by
    rw [Mem.load_ofList _ (by simp [peerBytes]; omega)]
    simp [peerBytes, bytes16, bytes32]
  have len : (20 + (payload.length : Int) - (20 : Nat)).toNat = payload.length := by omega
  change tcpDecode m _ = _
  rw [tcpDecode, hdr, len, port, ownPort, number, acked, data]
  simp only [ntohs_htons, ntohl_htonl]
  rfl

end MyOS
