import MyOS.Base.Slots
import MyOS.Endian
import MyOS.State

/-! net.c: the ARP cache, the packets waiting for it, and sending. -/

namespace MyOS

def bcast : MacAddr := Vector.replicate 6 0xFF

/-- The NIC driver's entry point; what it does with the frame is its own matter. -/
def nicTx (n : Net) (frame : List UInt8) : Net := { n with tx := n.tx ++ [frame] }

def arpLookup (n : Net) (ip : UInt32) : Option MacAddr :=
  (Slots.first n.arpCache fun e => e.ip == ip).map fun i => (n.arpCache i).mac

def arpStore (n : Net) (ip : UInt32) (mac : MacAddr) : Net :=
  match Slots.first n.arpCache fun e => e.ip == ip with
  | some i => { n with arpCache := Function.update n.arpCache i { n.arpCache i with mac } }
  | none =>
    let i := Slots.claim n.arpCache fun e => e.ip == 0
    { n with arpCache := Function.update n.arpCache i ⟨ip, mac⟩ }

def netInit (n : Net) (mac : MacAddr) : Net :=
  { n with
    netif := ⟨mac, 0, 0, 0⟩
    arpCache := fun i => { n.arpCache i with ip := 0 } }

def netSetIpv4 (n : Net) (ip netmask gw : UInt32) : Net :=
  { n with netif := { n.netif with ip, netmask, gwIp := gw } }

def netGetIp (n : Net) : UInt32 := n.netif.ip

def sendArpRequest (n : Net) (targetIp : UInt32) : Net :=
  nicTx n <|
    bcast.toList ++ n.netif.mac.toList ++ bytes16 (htons 0x0806) ++
    bytes16 (htons 1) ++ bytes16 (htons 0x0800) ++ [6, 4] ++ bytes16 (htons 1) ++
    n.netif.mac.toList ++ bytes32 (htonl n.netif.ip) ++
    List.replicate 6 0 ++ bytes32 (htonl targetIp)

/-- Where `net_send_ip` sends a packet first: the destination when it is on the
subnet, otherwise the gateway. -/
def nextHop (netif : NetIf) (dstIp : UInt32) : UInt32 :=
  if (dstIp ^^^ netif.ip) &&& netif.netmask ≠ 0 then netif.gwIp else dstIp

/-- The 20 header bytes with `chksum` in the checksum field. -/
def ipHeader (netif : NetIf) (dstIp : UInt32) (proto : UInt8) (payloadLen : Nat)
    (chksum : UInt16) : List UInt8 :=
  [0x45, 0] ++ bytes16 (htons (20 + payloadLen).toUInt16) ++ bytes16 (htons 1) ++ bytes16 0 ++
    [64, proto] ++ bytes16 chksum ++ bytes32 (htonl netif.ip) ++ bytes32 (htonl dstIp)

/-- The Ethernet frame around an IPv4 packet. -/
def ipFrame (netif : NetIf) (dstMac : MacAddr) (dstIp : UInt32) (proto : UInt8)
    (payload : List UInt8) : List UInt8 :=
  dstMac.toList ++ netif.mac.toList ++ bytes16 (htons 0x0800) ++
    ipHeader netif dstIp proto payload.length
      (ipChecksum (ipHeader netif dstIp proto payload.length 0)) ++ payload

/-- The payload goes into the first free slot of `pending`, cut to 1500 bytes,
or nowhere when all slots are taken. -/
def enqueuePending (n : Net) (dstIp : UInt32) (proto : UInt8) (payload : List UInt8) : Net :=
  match Slots.first n.pending fun p => p.dstIp == 0 with
  | some i =>
    { n with pending := Function.update n.pending i ⟨dstIp, proto, payload.take 1500⟩ }
  | none => n

def netSendIp (n : Net) (dstIp : UInt32) (proto : UInt8) (payload : List UInt8) : Net :=
  match arpLookup n (nextHop n.netif dstIp) with
  | none => sendArpRequest (enqueuePending n dstIp proto payload) (nextHop n.netif dstIp)
  | some dstMac => nicTx n (ipFrame n.netif dstMac dstIp proto payload)

def netSendUdpIpv4 (n : Net) (dstIp : UInt32) (dstPort srcPort : UInt16)
    (payload : List UInt8) : Net :=
  netSendIp n dstIp 17 <|
    bytes16 (htons srcPort) ++ bytes16 (htons dstPort) ++
    bytes16 (htons (8 + payload.length).toUInt16) ++ bytes16 0 ++ payload

/-- One turn of the flush loop. The slot is cleared whatever the send did. -/
def flushSlot (ip : UInt32) (n : Net) (i : Fin 8) : Net :=
  if (n.pending i).dstIp = ip then
    let sent := netSendIp n (n.pending i).dstIp (n.pending i).proto (n.pending i).payload
    { sent with
      pending := Function.update sent.pending i { sent.pending i with dstIp := 0, payload := [] } }
  else n

def flushPendingForIp (n : Net) (ip : UInt32) : Net := (List.finRange 8).foldl (flushSlot ip) n

/-! ## What each operation leaves alone -/

section
variable (n : Net) (ip dstIp : UInt32) (mac : MacAddr) (proto : UInt8) (payload frame : List UInt8)

@[simp] theorem nicTx_netif : (nicTx n frame).netif = n.netif := rfl
@[simp] theorem nicTx_arpCache : (nicTx n frame).arpCache = n.arpCache := rfl
@[simp] theorem nicTx_pending : (nicTx n frame).pending = n.pending := rfl
@[simp] theorem nicTx_tx : (nicTx n frame).tx = n.tx ++ [frame] := rfl

@[simp] theorem arpStore_netif : (arpStore n ip mac).netif = n.netif := by
  unfold arpStore; split <;> rfl

@[simp] theorem arpStore_pending : (arpStore n ip mac).pending = n.pending := by
  unfold arpStore; split <;> rfl

@[simp] theorem arpStore_tx : (arpStore n ip mac).tx = n.tx := by
  unfold arpStore; split <;> rfl

@[simp] theorem netSendIp_netif : (netSendIp n dstIp proto payload).netif = n.netif := by
  unfold netSendIp enqueuePending
  split
  · split <;> rfl
  · rfl

@[simp] theorem netSendIp_arpCache : (netSendIp n dstIp proto payload).arpCache = n.arpCache := by
  unfold netSendIp enqueuePending
  split
  · split <;> rfl
  · rfl

end

/-- With the address resolved, a packet leaves at once and nothing else changes. -/
theorem netSendIp_resolved {n : Net} {dstIp : UInt32} {mac : MacAddr} (proto : UInt8)
    (payload : List UInt8) (known : arpLookup n (nextHop n.netif dstIp) = some mac) :
    netSendIp n dstIp proto payload = nicTx n (ipFrame n.netif mac dstIp proto payload) := by
  unfold netSendIp
  rw [known]

/-- Otherwise it takes the first free slot, and the next hop is asked for. -/
theorem netSendIp_queued {n : Net} {dstIp : UInt32} {i : Fin 8} (proto : UInt8)
    (payload : List UInt8) (unknown : arpLookup n (nextHop n.netif dstIp) = none)
    (slot : Slots.first n.pending (fun p => p.dstIp == 0) = some i) :
    netSendIp n dstIp proto payload = sendArpRequest
      { n with pending := Function.update n.pending i ⟨dstIp, proto, payload.take 1500⟩ }
      (nextHop n.netif dstIp) := by
  unfold netSendIp enqueuePending
  rw [unknown, slot]

/-- What was stored is what the next lookup of that address finds, whichever
slot it went to. -/
theorem arpLookup_arpStore (n : Net) (ip : UInt32) (mac : MacAddr) :
    arpLookup (arpStore n ip mac) ip = some mac := by
  unfold arpStore
  cases found : Slots.first n.arpCache fun e => e.ip == ip with
  | some i =>
    have hit := Slots.first_holds found
    have at_i := Slots.first_update_hit (t := n.arpCache) (i := i)
      (p := fun e => e.ip == ip) (a := { n.arpCache i with mac }) hit
        (Slots.first_eq_some.mp found).2
    simp [arpLookup, at_i]
  | none =>
    have none_before := Slots.first_eq_none.mp found
    have at_i := Slots.first_update_hit (t := n.arpCache)
      (i := Slots.claim n.arpCache fun e => e.ip == 0) (p := fun e => e.ip == ip)
      (a := ⟨ip, mac⟩) (by simp) (fun j _ => none_before j)
    simp [arpLookup, at_i]

theorem flushSlot_netif (ip : UInt32) (n : Net) (i : Fin 8) :
    (flushSlot ip n i).netif = n.netif := by
  unfold flushSlot
  split
  · exact netSendIp_netif ..
  · rfl

@[simp] theorem flushPendingForIp_netif (n : Net) (ip : UInt32) :
    (flushPendingForIp n ip).netif = n.netif := by
  unfold flushPendingForIp
  induction List.finRange 8 generalizing n with
  | nil => rfl
  | cons i is ih => rw [List.foldl_cons, ih, flushSlot_netif]

end MyOS
