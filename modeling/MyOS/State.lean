import MyOS.Base.Memory

/-!
# Data

The structures and file-scope variables of net.c, tcp.c and dns.c. Names are
the bytes of a C string before its NUL. `tx`, `sent` and `stored` are records
of what was done, kept for the statements; no code reads them.
-/

namespace MyOS

/-- `uint8_t mac[6]` -/
abbrev MacAddr := Vector UInt8 6

structure NetIf where
  mac : MacAddr
  ip : UInt32
  gwIp : UInt32
  netmask : UInt32
  deriving DecidableEq

structure ArpCacheEntry where
  ip : UInt32
  mac : MacAddr
  deriving DecidableEq

/-- A slot is free when `dstIp` is 0. The payload carries its length. -/
structure PendingPkt where
  dstIp : UInt32
  proto : UInt8
  payload : List UInt8
  deriving DecidableEq

/-- net.c, with the frames passed to `nic_tx`, oldest first. -/
structure Net where
  netif : NetIf
  arpCache : Fin 8 → ArpCacheEntry
  pending : Fin 8 → PendingPkt
  tx : List (List UInt8)

inductive TcpState
  | closed | synSent | established | finWait1 | finWait2 | timeWait
  deriving DecidableEq, Repr

/-- `rx_buf` is left out: it points at the one static buffer whenever
`rxCap` is not 0, and is not followed otherwise. -/
structure TcpSocket where
  inUse : Bool
  state : TcpState
  localPort : UInt16
  remotePort : UInt16
  localIp : UInt32
  remoteIp : UInt32
  sndIss : UInt32
  sndNxt : UInt32
  rcvNxt : UInt32
  rxCap : Int
  rxLen : Int
  deriving DecidableEq

/-- `memset(s, 0, sizeof(*s))` -/
def TcpSocket.zero : TcpSocket := ⟨false, .closed, 0, 0, 0, 0, 0, 0, 0, 0, 0⟩

/-- A `tcp_socket_t *`: the global socket or one the caller allocated. -/
inductive SockRef
  | gSock
  | heap (addr : UInt32)
  deriving DecidableEq

/-- The arguments of one call of `net_send_ip`. -/
structure IpSend where
  dstIp : UInt32
  proto : UInt8
  payload : List UInt8
  deriving DecidableEq

/-- tcp.c. `rb` is the receive buffer every socket shares, `ephemeral` and
`isn` are the counters of `pick_ephemeral` and `iss`. -/
structure Tcp where
  socks : SockRef → TcpSocket
  rb : Mem
  ephemeral : UInt16
  isn : UInt32
  sent : List IpSend

abbrev Name := List UInt8

/-- An entry is empty when `ip` is 0. -/
structure DnsCacheEntry where
  name : Name
  ip : UInt32
  deriving DecidableEq

/-- A slot is free when `qid` is 0. -/
structure QTrack where
  qid : UInt16
  name : Name
  deriving DecidableEq

/-- dns.c. `stored` lists the entries written to the cache, oldest first. -/
structure Dns where
  cache : Fin 8 → DnsCacheEntry
  qtracks : Fin 8 → QTrack
  qidCounter : UInt16
  stored : List DnsCacheEntry

structure Kernel where
  net : Net
  tcp : Tcp
  dns : Dns

/-! Values before any code has run. -/

def Net.boot : Net :=
  { netif := ⟨Vector.replicate 6 0, 0, 0, 0⟩
    arpCache := fun _ => ⟨0, Vector.replicate 6 0⟩
    pending := fun _ => ⟨0, 0, []⟩
    tx := [] }

def Tcp.boot : Tcp :=
  { socks := fun _ => .zero
    rb := fun _ => 0
    ephemeral := 40000
    isn := 0x12340000
    sent := [] }

def Dns.boot : Dns :=
  { cache := fun _ => ⟨[], 0⟩
    qtracks := fun _ => ⟨0, []⟩
    qidCounter := 0x4000
    stored := [] }

def Kernel.boot : Kernel := ⟨.boot, .boot, .boot⟩

end MyOS
