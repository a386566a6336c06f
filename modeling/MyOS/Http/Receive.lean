import MyOS.Net.Receive
import MyOS.Tcp.Socket

/-!
# The two readers of a connection

The receive loop of `http_get_by_ip_port` in http.c, and `net_recv`, through
which the TLS library of tls_mbedtls.c reads. Both live on `tcp_recv`, which
returns 0 for "nothing yet" and for "nothing ever again".
-/

namespace MyOS

/-- `RAW_CAP` -/
def rawCap : Nat := 32768

/-- One call of `rtl8139_poll`, which hands these frames to `net_rx`. -/
def pollFrames (k : Kernel) (frames : List (Mem × Int)) : Kernel :=
  frames.foldl (fun k f => netRx k f.1 f.2) k

/-- The states in which the loop breaks when nothing was received. -/
def httpClosing (t : TcpState) : Bool := t == .finWait1 || t == .finWait2 || t == .timeWait

/-- The body of the loop behind the poll, with the bytes in `raw` so far. The
flag says that the loop breaks. -/
def httpCheck (k : Kernel) (raw : List UInt8) : Kernel × List UInt8 × Bool :=
  let (k, got) := tcpRecv k .gSock (rawCap - 1 - raw.length)
  if 0 < got.length then (k, raw ++ got, false)
  else (k, raw, httpClosing (k.sock .gSock).state)

/-- The loop from its `n`-th check on, for at most `fuel` rounds; `none` when it
is still running then. `polls n` are the frames the `n`-th poll brings. -/
def httpReceive (polls : Nat → List (Mem × Int)) :
    Nat → Nat → Kernel → List UInt8 → Option (Kernel × List UInt8)
  | 0, _, _, _ => none
  | fuel + 1, n, k, raw =>
    if raw.length < rawCap - 1 then
      let (k, raw, leaves) := httpCheck (pollFrames k (polls n)) raw
      if leaves then some (k, raw) else httpReceive polls fuel (n + 1) k raw
    else some (k, raw)

/-- What `net_recv` returns: `MBEDTLS_ERR_SSL_WANT_READ`,
`MBEDTLS_ERR_NET_RECV_FAILED`, or the bytes read. -/
inductive NetRecv
  | wantRead
  | recvFailed
  | bytes (buf : List UInt8)
  deriving DecidableEq

def netRecv (k : Kernel) (s : SockRef) (len : Nat) : Kernel × NetRecv :=
  let (k, buf) := tcpRecv k s len
  let ret : Int := buf.length
  if ret = 0 then (k, .wantRead)
  else if ret < 0 then (k, .recvFailed)
  else (k, .bytes buf)

section
variable {k : Kernel}

theorem tcpRecv_empty {s : SockRef} (empty : (k.sock s).rxLen ≤ 0) (maxlen : Nat) :
    tcpRecv k s maxlen = (k, []) := by simp [tcpRecv, empty]

theorem length_tcpRecv (maxlen : Nat) : (tcpRecv k .gSock maxlen).2.length =
    min maxlen (k.sock .gSock).rxLen.toNat := by
  unfold tcpRecv
  dsimp only
  split
  · rw [List.length_nil]
    omega
  · rw [Mem.length_load]
    split <;> omega

/-- With something buffered the loop reads and goes on. -/
theorem httpCheck_some (some : 0 < (k.sock .gSock).rxLen.toNat) {raw : List UInt8}
    (room : raw.length < rawCap - 1) :
    httpCheck k raw = ((tcpRecv k .gSock (rawCap - 1 - raw.length)).1,
      raw ++ (tcpRecv k .gSock (rawCap - 1 - raw.length)).2, false) := by
  have got := length_tcpRecv (k := k) (rawCap - 1 - raw.length)
  rw [httpCheck]
  dsimp only
  rw [if_pos (by omega)]

/-- With nothing buffered the loop breaks or goes on by the state alone. -/
theorem httpCheck_empty (empty : (k.sock .gSock).rxLen ≤ 0) (raw : List UInt8) :
    httpCheck k raw = (k, raw, httpClosing (k.sock .gSock).state) := by
  simp [httpCheck, tcpRecv_empty empty]

theorem httpReceive_full (polls : Nat → List (Mem × Int)) (fuel n : Nat) {raw : List UInt8}
    (full : rawCap - 1 ≤ raw.length) :
    httpReceive polls (fuel + 1) n k raw = some (k, raw) := by
  rw [httpReceive, if_neg (by omega)]

/-- `net_recv` has no other answer for an empty buffer. -/
theorem netRecv_empty {s : SockRef} (empty : (k.sock s).rxLen ≤ 0) (len : Nat) :
    netRecv k s len = (k, .wantRead) := by
  simp [netRecv, tcpRecv_empty empty]

/-! A connection that is not in use takes nothing from the network. -/

theorem netRx_idle (idle : (k.sock .gSock).inUse = false) (frame : Mem) (len : Int) :
    (netRx k frame len).tcp = k.tcp := by
  unfold netRx
  generalize (netRxDemux frame len).val = handoffs
  induction handoffs generalizing k with
  | nil => rfl
  | cons h hs ih =>
    have same : (deliver frame k h).tcp = k.tcp := by
      cases h with
      | arp => rw [deliver]
      | dnsOnResponse => rw [deliver]
      | udpOnDatagram => rw [deliver]
      | tcpOnRx srcIp dstIp start length =>
        rw [deliver, tcpOnRx, if_neg (by simp [addressed, idle])]
    have still : ((deliver frame k h).sock .gSock).inUse = false := by
      rw [Kernel.sock, same]
      exact idle
    exact (ih still).trans same

theorem pollFrames_idle (idle : (k.sock .gSock).inUse = false) (frames : List (Mem × Int)) :
    (pollFrames k frames).tcp = k.tcp := by
  induction frames generalizing k with
  | nil => rfl
  | cons f fs ih =>
    have same := netRx_idle idle f.1 f.2
    have still : ((netRx k f.1 f.2).sock .gSock).inUse = false := by
      rw [Kernel.sock, same]
      exact idle
    exact (ih still).trans same

/-- After a reset with nothing left to read the loop never ends, whatever the
network brings. -/
theorem httpReceive_forever (idle : (k.sock .gSock).inUse = false)
    (closed : (k.sock .gSock).state = .closed) (empty : (k.sock .gSock).rxLen ≤ 0)
    (polls : Nat → List (Mem × Int)) (fuel n : Nat) {raw : List UInt8}
    (room : raw.length < rawCap - 1) : httpReceive polls fuel n k raw = none := by
  induction fuel generalizing n k with
  | zero => rfl
  | succ fuel ih =>
    have same := pollFrames_idle idle (polls n)
    have sock : (pollFrames k (polls n)).sock .gSock = k.sock .gSock := by
      rw [Kernel.sock, same]
      rfl
    rw [← sock] at idle closed empty
    have goesOn : httpCheck (pollFrames k (polls n)) raw =
        (pollFrames k (polls n), raw, false) := by
      rw [httpCheck_empty empty, closed]
      rfl
    simp only [httpReceive, if_pos room, goesOn]
    exact ih idle closed empty (n + 1)

end

end MyOS
