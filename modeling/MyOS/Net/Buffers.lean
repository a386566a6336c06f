import MyOS.Net.RoundTrip
import MyOS.Tcp.Peer

/-!
# The buffers on the way down

Each layer copies what it was given behind its own header, into a buffer of its
own size and without a test. The sizes agree for one full Ethernet frame.
-/

namespace MyOS.Buffers

inductive Buffer
  | tcpBuf | csumblk | udpSeg | pendingPayload | frameBuf
  deriving DecidableEq

def Buffer.size : Buffer → Nat
  | .tcpBuf => 60 + 1460
  | .csumblk => 12 + 20 + 1460
  | .udpSeg => 8 + 1472
  | .pendingPayload => 1500
  | .frameBuf => 1514

/-- `len` bytes written to a buffer from `off` on. -/
structure Write where
  buf : Buffer
  off : Nat
  len : Nat

def Write.Inside (w : Write) : Prop := w.off + w.len ≤ w.buf.size

def AllInside (ws : List Write) : Prop := ∀ w ∈ ws, w.Inside

/-! ## What each function writes -/

/-- `net_send_ip`, for a payload of `len` bytes. -/
def netSendIpWrites (n : Net) (dstIp : UInt32) (len : Nat) : List Write :=
  match arpLookup n (nextHop n.netif dstIp) with
  | some _ => [⟨.frameBuf, 0, 14⟩, ⟨.frameBuf, 14, 20⟩, ⟨.frameBuf, 34, len⟩]
  | none =>
    match Slots.first n.pending fun p => p.dstIp == 0 with
    | some _ => [⟨.pendingPayload, 0, if len > 1500 then 1500 else len⟩]
    | none => []

def netSendUdpWrites (n : Net) (dstIp : UInt32) (len : Nat) : List Write :=
  [⟨.udpSeg, 0, 8⟩, ⟨.udpSeg, 8, len⟩] ++ netSendIpWrites n dstIp (8 + len)

def tcpSendSegmentWrites (k : Kernel) (s : SockRef) (plen : Nat) : List Write :=
  [⟨.tcpBuf, 0, 20⟩, ⟨.tcpBuf, 20, plen⟩, ⟨.csumblk, 0, 12⟩, ⟨.csumblk, 12, 20 + plen⟩] ++
    netSendIpWrites k.net (k.sock s).remoteIp (20 + plen)

/-! ## One send -/

/-- The last frame sent from `n` to `n'` ends with all of `payload`. -/
def Emitted (n n' : Net) (payload : List UInt8) : Prop :=
  ∃ frame, n'.tx = n.tx ++ [frame] ∧ frame.drop 34 = payload

/-- The packet in slot `i` is flushed at any later time: nothing is overrun and
all of `payload` goes out. -/
def FlushedWhole (queued : Net) (i : Fin 8) (payload : List UInt8) : Prop :=
  ∀ later mac, later.pending i = queued.pending i →
    arpLookup later (nextHop later.netif (later.pending i).dstIp) = some mac →
    AllInside (netSendIpWrites later (later.pending i).dstIp (later.pending i).payload.length) ∧
      Emitted later (flushSlot (later.pending i).dstIp later i) payload

/-- What `net_send_ip` takes stays within the buffers and comes out whole, now
or when the packet is flushed. -/
structure Carried (n : Net) (dstIp : UInt32) (proto : UInt8) (payload : List UInt8) : Prop where
  inside : AllInside (netSendIpWrites n dstIp payload.length)
  direct : (arpLookup n (nextHop n.netif dstIp)).isSome →
    Emitted n (netSendIp n dstIp proto payload) payload
  queued : arpLookup n (nextHop n.netif dstIp) = none →
    ∀ i, Slots.first n.pending (fun p => p.dstIp == 0) = some i →
      FlushedWhole (netSendIp n dstIp proto payload) i payload

/-- The packet has nowhere to wait and is forgotten. -/
def Dropped (n : Net) (dstIp : UInt32) : Prop :=
  arpLookup n (nextHop n.netif dstIp) = none ∧
    Slots.first n.pending (fun p => p.dstIp == 0) = none

/-- The datagram `net_send_udp_ipv4` hands to `net_send_ip`. -/
def udpDatagram (dstPort srcPort : UInt16) (payload : List UInt8) : List UInt8 :=
  bytes16 (htons srcPort) ++ bytes16 (htons dstPort) ++
    bytes16 (htons (8 + payload.length).toUInt16) ++ bytes16 0 ++ payload

structure UdpCarried (n : Net) (dstIp : UInt32) (dstPort srcPort : UInt16)
    (payload : List UInt8) : Prop where
  inside : AllInside (netSendUdpWrites n dstIp payload.length)
  carried : Carried n dstIp 17 (udpDatagram dstPort srcPort payload)

structure TcpCarried (k : Kernel) (s : SockRef) (data : List UInt8) : Prop where
  inside : AllInside (tcpSendSegmentWrites k s data.length)
  carried : Carried k.net (k.sock s).remoteIp 6 (tcpSegment (k.sock s) 0x18 data)

section
variable {n : Net} {dstIp : UInt32} {proto : UInt8} {payload : List UInt8}

theorem emitted_resolved (proto : UInt8) (payload : List UInt8) {mac : MacAddr}
    (known : arpLookup n (nextHop n.netif dstIp) = some mac) :
    Emitted n (netSendIp n dstIp proto payload) payload := by
  refine ⟨ipFrame n.netif mac dstIp proto payload, ?_, ?_⟩
  · rw [netSendIp_resolved proto payload known, nicTx_tx]
  · apply List.drop_left'
    simp only [ipHeader, List.length_append, List.length_cons, List.length_nil, length_bytes16,
      length_bytes32, Vector.length_toList, Nat.reduceAdd]

theorem netSendIpWrites_resolved {mac : MacAddr}
    (known : arpLookup n (nextHop n.netif dstIp) = some mac) (len : Nat) :
    netSendIpWrites n dstIp len =
      [⟨.frameBuf, 0, 14⟩, ⟨.frameBuf, 14, 20⟩, ⟨.frameBuf, 34, len⟩] := by
  unfold netSendIpWrites
  rw [known]

theorem netSendIpWrites_unresolved (unknown : arpLookup n (nextHop n.netif dstIp) = none)
    (len : Nat) : netSendIpWrites n dstIp len =
      match Slots.first n.pending fun p => p.dstIp == 0 with
      | some _ => [⟨.pendingPayload, 0, if len > 1500 then 1500 else len⟩]
      | none => [] := by
  unfold netSendIpWrites
  rw [unknown]

theorem writes_resolved {mac : MacAddr} (known : arpLookup n (nextHop n.netif dstIp) = some mac)
    (len : Nat) : AllInside (netSendIpWrites n dstIp len) ↔ len ≤ 1480 := by
  simp only [netSendIpWrites_resolved known, AllInside, Write.Inside, Buffer.size,
    List.forall_mem_cons, List.not_mem_nil, false_implies, implies_true, and_true]
  omega

/-- A packet that finds a free slot waits there. -/
theorem pending_queued (proto : UInt8) (payload : List UInt8) {i : Fin 8}
    (unknown : arpLookup n (nextHop n.netif dstIp) = none)
    (slot : Slots.first n.pending (fun p => p.dstIp == 0) = some i) :
    (netSendIp n dstIp proto payload).pending i = ⟨dstIp, proto, payload.take 1500⟩ := by
  rw [netSendIp_queued proto payload unknown slot]
  exact Function.update_self ..

theorem flushedWhole_of_short {i : Fin 8} {queued : Net} (short : payload.length ≤ 1480)
    (waits : queued.pending i = ⟨dstIp, proto, payload.take 1500⟩) :
    FlushedWhole queued i payload := by
  have whole : payload.take 1500 = payload := List.take_of_length_le (by omega)
  rw [whole] at waits
  intro later mac same known
  rw [same, waits] at known ⊢
  refine ⟨(writes_resolved known _).mpr short, ?_⟩
  obtain ⟨frame, sent, ends⟩ := emitted_resolved proto payload known
  refine ⟨frame, ?_, ends⟩
  rw [flushSlot, if_pos (by rw [same, waits]), same, waits]
  exact sent

/-- A packet of more than 1480 bytes is not, once it waits. -/
theorem not_flushedWhole {i : Fin 8} {queued : Net} (long : 1480 < payload.length)
    (waits : queued.pending i = ⟨dstIp, proto, payload.take 1500⟩) :
    ¬ FlushedWhole queued i payload := by
  intro flushed
  let later := arpStore queued (nextHop queued.netif dstIp) bcast
  have same : later.pending i = queued.pending i := by rw [arpStore_pending]
  have known : arpLookup later (nextHop later.netif (later.pending i).dstIp) = some bcast := by
    rw [same, waits, arpStore_netif]
    exact arpLookup_arpStore ..
  have inside := (writes_resolved known _).mp (flushed later bcast same known).1
  rw [same, waits, List.length_take] at inside
  omega

/-! The three ways of `net_send_ip`. -/

theorem carried_resolved {mac : MacAddr} (proto : UInt8) (payload : List UInt8)
    (known : arpLookup n (nextHop n.netif dstIp) = some mac) :
    Carried n dstIp proto payload ↔ payload.length ≤ 1480 := by
  constructor
  · intro carried
    exact (writes_resolved known _).mp carried.inside
  · intro fits
    constructor
    · exact (writes_resolved known _).mpr fits
    · intro _
      exact emitted_resolved proto payload known
    · intro unknown
      rw [known] at unknown
      cases unknown

theorem carried_queued (proto : UInt8) (payload : List UInt8) {i : Fin 8}
    (unknown : arpLookup n (nextHop n.netif dstIp) = none)
    (slot : Slots.first n.pending (fun p => p.dstIp == 0) = some i) :
    Carried n dstIp proto payload ↔ payload.length ≤ 1480 := by
  have waits := pending_queued proto payload unknown slot
  constructor
  · intro carried
    by_contra long
    exact not_flushedWhole (not_le.mp long) waits (carried.queued unknown i slot)
  · intro fits
    constructor
    · have cut : ¬ payload.length > 1500 := by omega
      simp only [netSendIpWrites_unresolved unknown, slot, AllInside, Write.Inside, Buffer.size,
        List.forall_mem_singleton, if_neg cut]
      omega
    · intro resolved
      rw [unknown] at resolved
      cases resolved
    · intro _ j free
      rw [slot] at free
      cases free
      exact flushedWhole_of_short fits waits

theorem carried_dropped (proto : UInt8) (payload : List UInt8) (dropped : Dropped n dstIp) :
    Carried n dstIp proto payload := by
  obtain ⟨unknown, full⟩ := dropped
  constructor
  · simp [netSendIpWrites_unresolved unknown, full, AllInside]
  · intro resolved
    rw [unknown] at resolved
    cases resolved
  · intro _ i free
    rw [full] at free
    cases free

/-- `net_send_ip` carries its payload if and only if it has 1480 bytes at most,
or is dropped at once. -/
theorem carried_iff (n : Net) (dstIp : UInt32) (proto : UInt8) (payload : List UInt8) :
    Carried n dstIp proto payload ↔ payload.length ≤ 1480 ∨ Dropped n dstIp := by
  cases known : arpLookup n (nextHop n.netif dstIp) with
  | some mac =>
    have kept : ¬ Dropped n dstIp := by
      rintro ⟨unknown, -⟩
      rw [known] at unknown
      cases unknown
    rw [carried_resolved proto payload known, or_iff_left kept]
  | none =>
    cases slot : Slots.first n.pending fun p => p.dstIp == 0 with
    | none => exact iff_of_true (carried_dropped proto payload ⟨known, slot⟩) (.inr ⟨known, slot⟩)
    | some i =>
      have kept : ¬ Dropped n dstIp := by
        rintro ⟨-, full⟩
        rw [slot] at full
        cases full
      rw [carried_queued proto payload known slot, or_iff_left kept]

end

theorem AllInside.append {ws vs : List Write} :
    AllInside (ws ++ vs) ↔ AllInside ws ∧ AllInside vs := List.forall_mem_append

/-- What a caller writes itself, and then hands to `net_send_ip`. -/
theorem carried_behind {own : List Write} (inside : AllInside own) {n : Net} {dstIp : UInt32}
    {proto : UInt8} {segment : List UInt8} {len : Nat} (size : segment.length = len)
    (short : len ≤ 1480) :
    AllInside (own ++ netSendIpWrites n dstIp len) ∧ Carried n dstIp proto segment := by
  have carried : Carried n dstIp proto segment :=
    (carried_iff ..).mpr (.inl (size.trans_le short))
  exact ⟨AllInside.append.mpr ⟨inside, size ▸ carried.inside⟩, carried⟩

theorem length_udpDatagram (dstPort srcPort : UInt16) (payload : List UInt8) :
    (udpDatagram dstPort srcPort payload).length = 8 + payload.length := by
  simp only [udpDatagram, List.length_append, length_bytes16, Nat.reduceAdd]

theorem udpCarried_iff (n : Net) (dstIp : UInt32) (dstPort srcPort : UInt16)
    (payload : List UInt8) :
    UdpCarried n dstIp dstPort srcPort payload ↔ payload.length ≤ 1472 := by
  have own : AllInside [⟨.udpSeg, 0, 8⟩, ⟨.udpSeg, 8, payload.length⟩] ↔
      payload.length ≤ 1472 := by
    simp only [AllInside, Write.Inside, Buffer.size, List.forall_mem_cons, List.not_mem_nil,
      false_implies, implies_true, and_true]
    omega
  constructor
  · intro carried
    exact own.mp (AllInside.append.mp carried.inside).1
  · intro short
    have fits : 8 + payload.length ≤ 1480 := by omega
    obtain ⟨inside, carried⟩ := carried_behind (own.mpr short) (length_udpDatagram ..) fits
    exact ⟨inside, carried⟩

theorem tcpCarried_iff (k : Kernel) (s : SockRef) (data : List UInt8) :
    TcpCarried k s data ↔ data.length ≤ 1460 := by
  have own : AllInside [⟨.tcpBuf, 0, 20⟩, ⟨.tcpBuf, 20, data.length⟩, ⟨.csumblk, 0, 12⟩,
      ⟨.csumblk, 12, 20 + data.length⟩] ↔ data.length ≤ 1460 := by
    simp only [AllInside, Write.Inside, Buffer.size, List.forall_mem_cons, List.not_mem_nil,
      false_implies, implies_true, and_true]
    omega
  constructor
  · intro carried
    exact own.mp (AllInside.append.mp carried.inside).1
  · intro short
    have fits : 20 + data.length ≤ 1480 := by omega
    obtain ⟨inside, carried⟩ := carried_behind (own.mpr short) (length_tcpSegment ..) fits
    exact ⟨inside, carried⟩

/-- In `TCP_ESTABLISHED` all of `data` goes to `net_send_ip` in one segment. -/
theorem tcpSend_net {k : Kernel} {s : SockRef} {data : List UInt8}
    (est : (k.sock s).state = .established) (some : data ≠ []) :
    (tcpSend k s data).2 = data.length ∧ (tcpSend k s data).1.net =
      netSendIp k.net (k.sock s).remoteIp 6 (tcpSegment (k.sock s) 0x18 data) := by
  rw [tcpSend, if_neg (not_not.mpr est), if_neg some]
  exact ⟨rfl, rfl⟩

/-- Each of the three public send functions has its own limit, and none of them
tests for it. -/
theorem sends_carried_iff (k : Kernel) (s : SockRef) (dstIp : UInt32) (proto : UInt8)
    (dstPort srcPort : UInt16) (payload : List UInt8) :
    (Carried k.net dstIp proto payload ↔ payload.length ≤ 1480 ∨ Dropped k.net dstIp) ∧
    (netSendUdpIpv4 k.net dstIp dstPort srcPort payload =
        netSendIp k.net dstIp 17 (udpDatagram dstPort srcPort payload) ∧
      (UdpCarried k.net dstIp dstPort srcPort payload ↔ payload.length ≤ 1472)) ∧
    ((k.sock s).state = .established → payload ≠ [] →
      ((tcpSend k s payload).2 = payload.length ∧ (tcpSend k s payload).1.net =
        netSendIp k.net (k.sock s).remoteIp 6 (tcpSegment (k.sock s) 0x18 payload)) ∧
      (TcpCarried k s payload ↔ payload.length ≤ 1460)) := by
  refine ⟨carried_iff .., ⟨rfl, udpCarried_iff ..⟩, ?_⟩
  intro est some
  exact ⟨tcpSend_net est some, tcpCarried_iff ..⟩

theorem openKernel_established : (openKernel.sock .gSock).state = .established := by
  decide +kernel

theorem sends_carried_iff_small : TcpCarried openKernel .gSock [1, 2] := by
  have limits := (sends_carried_iff openKernel .gSock 0 0 0 0 [1, 2]).2.2
  have sent := limits openKernel_established (List.cons_ne_nil 1 [2])
  exact sent.2.mpr (Nat.le_of_ble_eq_true rfl)

/-- A record of 1461 bytes on the open connection is accepted, and one byte of it
is written behind the block the checksum is computed from. -/
theorem tcp_record_overruns :
    (tcpSend openKernel .gSock (List.replicate 1461 0)).2 = 1461 ∧
      ¬ TcpCarried openKernel .gSock (List.replicate 1461 0) := by
  constructor
  · have some : List.replicate 1461 (0 : UInt8) ≠ [] := List.replicate_succ_ne_nil
    rw [(tcpSend_net openKernel_established some).1, List.length_replicate]
    rfl
  · intro carried
    have inside := carried.inside ⟨.csumblk, 12, 20 + 1461⟩
    rw [List.length_replicate] at inside
    have overrun : Write.Inside ⟨.csumblk, 12, 20 + 1461⟩ := by
      apply inside
      simp [tcpSendSegmentWrites]
    exact absurd overrun (by simp [Write.Inside, Buffer.size])

end MyOS.Buffers
