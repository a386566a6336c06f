import MyOS.StringC
import MyOS.Net.Send

/-!
tcp.c: one connection, kept in `g_sock`. `connect`, `send`, `recv` and `close`
work on the socket they are handed; the receive path works on `g_sock` only.
-/

namespace MyOS

/-- What `tcp_on_rx` takes from a TCP header, and the bytes behind it. -/
structure Segment where
  sport : UInt16
  dport : UInt16
  seq : UInt32
  ack : UInt32
  flags : UInt8
  payload : List UInt8
  deriving DecidableEq

namespace Segment

def fin (th : Segment) : Bool := th.flags &&& 0x01 != 0
def rst (th : Segment) : Bool := th.flags &&& 0x04 != 0
def hasAck (th : Segment) : Bool := th.flags &&& 0x10 != 0
def synAck (th : Segment) : Bool := th.flags &&& 0x12 == 0x12

end Segment

/-- `(th->off_res >> 4) * 4` -/
def tcpHdrLen (ipPkt : Mem) : Nat := (ipPkt 12 >>> 4).toNat * 4

def tcpDecode (ipPkt : Mem) (ipLen : Int) : Segment :=
  { sport := ntohs (ipPkt.load16 0)
    dport := ntohs (ipPkt.load16 2)
    seq := ntohl (ipPkt.load32 4)
    ack := ntohl (ipPkt.load32 8)
    flags := ipPkt 13
    payload := ipPkt.load (tcpHdrLen ipPkt) (ipLen - tcpHdrLen ipPkt).toNat }

namespace Kernel

def sock (k : Kernel) (s : SockRef) : TcpSocket := k.tcp.socks s

def setSock (k : Kernel) (s : SockRef) (v : TcpSocket) : Kernel :=
  { k with tcp := { k.tcp with socks := Function.update k.tcp.socks s v } }

end Kernel

/-! ## Sending -/

def csum16 (data : List UInt8) : UInt16 := onesComplementSum data

def tcpHeader (s : TcpSocket) (flags : UInt8) (chksum : UInt16) : List UInt8 :=
  bytes16 (htons s.localPort) ++ bytes16 (htons s.remotePort) ++
    bytes32 (htonl s.sndNxt) ++ bytes32 (htonl s.rcvNxt) ++ [0x50, flags] ++
    bytes16 (htons 4096) ++ bytes16 chksum ++ bytes16 0

def pseudoHeader (s : TcpSocket) (plen : Nat) : List UInt8 :=
  bytes32 (htonl s.localIp) ++ bytes32 (htonl s.remoteIp) ++ [0, 6] ++
    bytes16 (htons (20 + plen).toUInt16)

/-- Header and payload as handed to `net_send_ip`. -/
def tcpSegment (s : TcpSocket) (flags : UInt8) (payload : List UInt8) : List UInt8 :=
  tcpHeader s flags
    (csum16 (pseudoHeader s payload.length ++ tcpHeader s flags 0 ++ payload)) ++ payload

def tcpSendSegment (k : Kernel) (s : SockRef) (flags : UInt8) (payload : List UInt8) : Kernel :=
  let seg := tcpSegment (k.sock s) flags payload
  { k with
    net := netSendIp k.net (k.sock s).remoteIp 6 seg
    tcp := { k.tcp with sent := k.tcp.sent ++ [⟨(k.sock s).remoteIp, 6, seg⟩] } }

/-! ## Connecting -/

def tcpInit (k : Kernel) : Kernel := k.setSock .gSock .zero

/-- The socket `tcp_connect` fills in before the SYN goes out. -/
def freshSocket (k : Kernel) (dstIp : UInt32) (dstPort srcPort : UInt16) : TcpSocket :=
  { inUse := true
    state := .synSent
    localPort := if srcPort ≠ 0 then srcPort else k.tcp.ephemeral
    remotePort := dstPort
    localIp := netGetIp k.net
    remoteIp := dstIp
    sndIss := k.tcp.isn + 0x1000
    sndNxt := k.tcp.isn + 0x1000
    rcvNxt := 0
    rxCap := 8192
    rxLen := 0 }

def tcpConnect (k : Kernel) (s : SockRef) (dstIp : UInt32) (dstPort srcPort : UInt16) :
    Kernel × Int :=
  if (k.sock .gSock).inUse then (k, -1)
  else
    let fresh := freshSocket k dstIp dstPort srcPort
    let ephemeral := if srcPort ≠ 0 then k.tcp.ephemeral else k.tcp.ephemeral + 1
    let k := { k with tcp := { k.tcp with ephemeral, isn := k.tcp.isn + 0x1000 } }
    let k := tcpSendSegment (k.setSock s fresh) s 0x02 []
    let k := k.setSock s { k.sock s with sndNxt := (k.sock s).sndNxt + 1 }
    (k.setSock .gSock (k.sock s), 0)

/-! ## Receiving -/

/-- How many of `len` bytes fit behind those already buffered. -/
def rxRoom (s : TcpSocket) (len : Int) : Int :=
  if len > s.rxCap - s.rxLen then s.rxCap - s.rxLen else len

def rxDataIntoBuf (k : Kernel) (s : SockRef) (pl : List UInt8) : Kernel :=
  let len := rxRoom (k.sock s) pl.length
  if 0 < len then
    let rb := memcpy k.tcp.rb (k.sock s).rxLen.toNat (.ofList pl) 0 len.toNat
    { k with tcp := { k.tcp with rb } }.setSock s
      { k.sock s with rxLen := (k.sock s).rxLen + len }
  else k

/-- The guards of `tcp_on_rx` before it looks at flags and state. -/
def addressed (g : TcpSocket) (ipPkt : Mem) (ipLen : Int) (srcIp : UInt32) : Bool :=
  g.inUse && srcIp == g.remoteIp && decide (20 ≤ ipLen) &&
    (tcpDecode ipPkt ipLen).dport == g.localPort &&
    (tcpDecode ipPkt ipLen).sport == g.remotePort && decide (tcpHdrLen ipPkt ≤ ipLen)

/-- The in-order part of a segment in `TCP_ESTABLISHED`. The number expected
next moves by the whole payload, however much of it fitted. -/
def tcpTakeData (k : Kernel) (th : Segment) : Kernel :=
  let k := rxDataIntoBuf k .gSock th.payload
  let k := k.setSock .gSock
    { k.sock .gSock with rcvNxt := (k.sock .gSock).rcvNxt + th.payload.length.toUInt32 }
  tcpSendSegment k .gSock 0x10 []

/-- The FIN part of a segment in `TCP_ESTABLISHED`: acknowledge, send our own. -/
def tcpTakeFin (k : Kernel) : Kernel :=
  let k := k.setSock .gSock { k.sock .gSock with rcvNxt := (k.sock .gSock).rcvNxt + 1 }
  let k := tcpSendSegment (tcpSendSegment k .gSock 0x10 []) .gSock 0x11 []
  k.setSock .gSock
    { k.sock .gSock with sndNxt := (k.sock .gSock).sndNxt + 1, state := .finWait1 }

/-- The RST test and the switch of `tcp_on_rx`. -/
def tcpInput (k : Kernel) (th : Segment) : Kernel :=
  let g := k.sock .gSock
  if th.rst then k.setSock .gSock { g with state := .closed, inUse := false }
  else match g.state with
    | .synSent =>
      if th.synAck then
        let k := tcpSendSegment (k.setSock .gSock { g with rcvNxt := th.seq + 1 }) .gSock 0x10 []
        k.setSock .gSock { k.sock .gSock with state := .established }
      else k
    | .established =>
      let k := if th.payload ≠ [] ∧ th.seq = g.rcvNxt then tcpTakeData k th else k
      if th.fin then tcpTakeFin k else k
    | .finWait1 => if th.hasAck then k.setSock .gSock { g with state := .finWait2 } else k
    | .finWait2 =>
      if th.fin then
        let k := tcpSendSegment (k.setSock .gSock { g with rcvNxt := g.rcvNxt + 1 }) .gSock 0x10 []
        k.setSock .gSock { k.sock .gSock with state := .timeWait }
      else k
    | _ => k

def tcpOnRx (k : Kernel) (ipPkt : Mem) (ipLen : Int) (srcIp _dstIp : UInt32) : Kernel :=
  if addressed (k.sock .gSock) ipPkt ipLen srcIp then tcpInput k (tcpDecode ipPkt ipLen) else k

/-! ## The calls of the owner -/

/-- `data` are the `len` bytes at the pointer, none when `len <= 0`. -/
def tcpSend (k : Kernel) (s : SockRef) (data : List UInt8) : Kernel × Int :=
  if (k.sock s).state ≠ .established then (k, -1)
  else if data = [] then (k, 0)
  else
    let k := tcpSendSegment k s 0x18 data
    (k.setSock s { k.sock s with sndNxt := (k.sock s).sndNxt + data.length.toUInt32 },
      data.length)

/-- The bytes copied to `out`; their number is the value returned. -/
def tcpRecv (k : Kernel) (s : SockRef) (maxlen : Nat) : Kernel × List UInt8 :=
  let rxLen := (k.sock s).rxLen
  if rxLen ≤ 0 then (k, [])
  else
    let maxlen := if (maxlen : Int) > rxLen then rxLen.toNat else maxlen
    let out := k.tcp.rb.load 0 maxlen
    let rb := memmove k.tcp.rb 0 maxlen (rxLen - maxlen).toNat
    ({ k with tcp := { k.tcp with rb } }.setSock s { k.sock s with rxLen := rxLen - maxlen }, out)

def tcpClose (k : Kernel) (s : SockRef) : Kernel × Int :=
  if (k.sock s).inUse = false then (k, 0)
  else if (k.sock s).state = .established then
    let k := tcpSendSegment k s 0x11 []
    (k.setSock s { k.sock s with sndNxt := (k.sock s).sndNxt + 1, state := .finWait1 }, 0)
  else (k.setSock s { k.sock s with inUse := false, state := .closed }, 0)

end MyOS
