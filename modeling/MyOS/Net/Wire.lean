import MyOS.Net.ArpCache
import MyOS.Net.RoundTrip

/-!
# Kernels on one wire

Any number of kernels share an Ethernet. A frame that one of them has given to its NIC
may reach any other at any later time, with anything behind it, several times or never.
-/

namespace MyOS.Wire

open Traced ArpCache RoundTrip

/-- The arguments of one call of `net_send_udp_ipv4`. -/
structure Datagram where
  dstIp : UInt32
  dstPort : UInt16
  srcPort : UInt16
  payload : List UInt8
  deriving DecidableEq

def Datagram.segment (d : Datagram) : List UInt8 :=
  bytes16 (htons d.srcPort) ++ bytes16 (htons d.dstPort) ++
    bytes16 (htons (8 + d.payload.length).toUInt16) ++ bytes16 0 ++ d.payload

def Datagram.ipSend (d : Datagram) : IpSend := ⟨d.dstIp, 17, d.segment⟩

def sendUdp (k : Kernel) (d : Datagram) : Kernel :=
  { k with net := netSendUdpIpv4 k.net d.dstIp d.dstPort d.srcPort d.payload }

variable {Host : Type}

/-- The kernels, and the datagrams that each of them has been asked to send. -/
structure World (Host : Type) where
  kernel : Host → Kernel
  sent : Host → List Datagram

/-- One step, where only the kernels in `asked` have something to send. `receive` is
also a frame that comes late, again or in another order. -/
inductive Step [DecidableEq Host] (asked : Host → Prop) (w : World Host) : World Host → Prop
  | udp (h : Host) (d : Datagram) (may : asked h) (fits : d.payload.length ≤ 1472) :
      Step asked w ⟨Function.update w.kernel h (sendUdp (w.kernel h) d),
        Function.update w.sent h (w.sent h ++ [d])⟩
  | tcp (h : Host) (k : Kernel) (os : List Outgoing) (may : asked h)
      (emits : Emits (w.kernel h) k os) (fits : ∀ o ∈ os, o.payload.length ≤ 1460) :
      Step asked w { w with kernel := Function.update w.kernel h k }
  | receive (h h' : Host) (frame padding : List UInt8) (other : h' ≠ h)
      (wired : frame ∈ (w.kernel h).net.tx) :
      Step asked w { w with
        kernel := Function.update w.kernel h'
          (netRx (w.kernel h') (.ofList (frame ++ padding)) (frame ++ padding).length) }

inductive Run [DecidableEq Host] (asked : Host → Prop) (start : World Host) : World Host → Prop
  | start : Run asked start start
  | step {w w' : World Host} (before : Run asked start w) (step : Step asked w w') :
      Run asked start w'

/-- After `net_init` and `net_set_ipv4`. -/
structure Fresh (w : World Host) : Prop where
  cache : ∀ h i, ((w.kernel h).net.arpCache i).ip = 0
  pending : ∀ h i, ((w.kernel h).net.pending i).dstIp = 0
  tx : ∀ h, (w.kernel h).net.tx = []
  segments : ∀ h, (w.kernel h).tcp.sent = []
  datagrams : ∀ h, w.sent h = []

/-! ## What a kernel puts on the wire -/

/-- The frame of `send_arp_request`. -/
def arpRequest (netif : NetIf) (targetIp : UInt32) : List UInt8 :=
  bcast.toList ++ netif.mac.toList ++ bytes16 (htons 0x0806) ++
    bytes16 (htons 1) ++ bytes16 (htons 0x0800) ++ [6, 4] ++ bytes16 (htons 1) ++
    netif.mac.toList ++ bytes32 (htonl netif.ip) ++ List.replicate 6 0 ++ bytes32 (htonl targetIp)

/-- A kernel has this pair of addresses. -/
def Owned (ifs : Host → NetIf) (ip : UInt32) (mac : MacAddr) : Prop :=
  ∃ h, (ifs h).ip = ip ∧ (ifs h).mac = mac

/-- A question for an address, or a packet that was to be sent, for the next hop. -/
inductive Carries (ifs : Host → NetIf) (offered : IpSend → Prop) (netif : NetIf) : List UInt8 → Prop
  | request (targetIp : UInt32) : Carries ifs offered netif (arpRequest netif targetIp)
  | packet {p : IpSend} {mac : MacAddr} (given : offered p)
      (hop : nextHop netif p.dstIp ≠ 0 → Owned ifs (nextHop netif p.dstIp) mac) :
      Carries ifs offered netif (ipFrame netif mac p.dstIp p.proto p.payload)

structure Honest (ifs : Host → NetIf) (offered : IpSend → Prop) (netif : NetIf) (n : Net) :
    Prop where
  own : n.netif = netif
  cache : ∀ i, (n.arpCache i).ip ≠ 0 → Owned ifs (n.arpCache i).ip (n.arpCache i).mac
  pending : ∀ i, (n.pending i).dstIp ≠ 0 →
    offered ⟨(n.pending i).dstIp, (n.pending i).proto, (n.pending i).payload⟩
  tx : ∀ f ∈ n.tx, Carries ifs offered netif f

section
variable {ifs : Host → NetIf} {offered offered' : IpSend → Prop} {netif : NetIf} {n : Net}
  {p : IpSend}

theorem arpLookup_entry {ip : UInt32} {mac : MacAddr} (found : arpLookup n ip = some mac) :
    ∃ i, (n.arpCache i).ip = ip ∧ (n.arpCache i).mac = mac := by
  obtain ⟨i, first, rfl⟩ := Option.map_eq_some_iff.mp found
  exact ⟨i, by simpa using Slots.first_holds first, rfl⟩

theorem deliver_arp (frame : Mem) (k : Kernel) (spa : UInt32) (sha : MacAddr) :
    deliver frame k (.arp spa sha) =
      { k with net := flushPendingForIp (arpStore k.net spa sha) spa } := rfl

/-- A packet for an unknown next hop is a request on the wire. -/
theorem netSendIp_unknown {dstIp : UInt32} {proto : UInt8} {payload : List UInt8}
    (unknown : arpLookup n (nextHop n.netif dstIp) = none) :
    (netSendIp n dstIp proto payload).tx =
      n.tx ++ [arpRequest n.netif (nextHop n.netif dstIp)] := by
  unfold netSendIp enqueuePending
  rw [unknown]
  dsimp only
  split <;> rfl

theorem arpStore_entry (n : Net) (ip : UInt32) (mac : MacAddr) (i : Fin 8) :
    (arpStore n ip mac).arpCache i = n.arpCache i ∨ (arpStore n ip mac).arpCache i = ⟨ip, mac⟩ := by
  unfold arpStore
  cases found : Slots.first n.arpCache fun e => e.ip == ip with
  | none =>
    by_cases here : i = Slots.claim n.arpCache fun e => e.ip == 0
    · subst here
      exact .inr (Function.update_self ..)
    · exact .inl (Function.update_of_ne here ..)
  | some j =>
    have hit : (n.arpCache j).ip = ip := by simpa using Slots.first_holds found
    by_cases here : i = j
    · subst here
      refine .inr ((Function.update_self ..).trans ?_)
      rw [← hit]
    · exact .inl (Function.update_of_ne here ..)

theorem Carries.mono {f : List UInt8} (carries : Carries ifs offered netif f)
    (more : ∀ p, offered p → offered' p) : Carries ifs offered' netif f := by
  cases carries with
  | request targetIp => exact .request targetIp
  | packet given hop => exact .packet (more _ given) hop

namespace Honest

theorem mono (honest : Honest ifs offered netif n) (more : ∀ p, offered p → offered' p) :
    Honest ifs offered' netif n where
  own := honest.own
  cache := honest.cache
  pending i waits := more _ (honest.pending i waits)
  tx f mem := (honest.tx f mem).mono more

theorem nicTx (honest : Honest ifs offered netif n) {f : List UInt8}
    (carries : Carries ifs offered netif f) :
    Honest ifs offered netif (nicTx n f) :=
  { honest with
    tx := fun g mem => by
      rcases List.mem_append.mp mem with old | new
      · exact honest.tx g old
      · rwa [List.mem_singleton.mp new] }

theorem enqueue (honest : Honest ifs offered netif n) (given : offered p)
    (short : p.payload.length ≤ 1480) :
    Honest ifs offered netif (enqueuePending n p.dstIp p.proto p.payload) := by
  unfold enqueuePending
  split
  · rename_i i free
    refine { honest with pending := fun j waits => ?_ }
    by_cases here : j = i
    · subst here
      have whole : p.payload.take 1500 = p.payload := List.take_of_length_le (by omega)
      simp only [Function.update_self, whole] at waits ⊢
      exact given
    · simp only [Function.update_of_ne here] at waits ⊢
      exact honest.pending j waits
  · exact honest

theorem send (honest : Honest ifs offered netif n) (given : offered p)
    (short : p.payload.length ≤ 1480) :
    Honest ifs offered netif (netSendIp n p.dstIp p.proto p.payload) := by
  unfold netSendIp
  cases known : arpLookup n (nextHop n.netif p.dstIp) with
  | none =>
    have queued := honest.enqueue given short
    have asked := queued.nicTx (.request (nextHop n.netif p.dstIp))
    rw [← queued.own] at asked
    rw [← queued.own]
    exact asked
  | some mac =>
    obtain ⟨i, ip, rfl⟩ := arpLookup_entry known
    rw [honest.own] at ip ⊢
    refine honest.nicTx (.packet given fun nonzero => ?_)
    rw [← ip] at nonzero ⊢
    exact honest.cache i nonzero

theorem learn (honest : Honest ifs offered netif n) {ip : UInt32} {mac : MacAddr}
    (owned : Owned ifs ip mac) :
    Honest ifs offered netif (arpStore n ip mac) where
  own := (arpStore_netif ..).trans honest.own
  cache i live := by
    rcases arpStore_entry n ip mac i with same | new
    · rw [same] at live ⊢
      exact honest.cache i live
    · rwa [new]
  pending := by
    rw [arpStore_pending]
    exact honest.pending
  tx := by
    rw [arpStore_tx]
    exact honest.tx

theorem clear (honest : Honest ifs offered netif n) (i : Fin 8) : Honest ifs offered netif
    { n with
      pending := Function.update n.pending i { n.pending i with dstIp := 0, payload := [] } } := by
  refine { honest with pending := fun j waits => ?_ }
  by_cases here : j = i
  · subst here
    simp only [Function.update_self] at waits
    exact absurd rfl waits
  · simp only [Function.update_of_ne here] at waits ⊢
    exact honest.pending j waits

/-- A flush sends only what was to be sent. -/
theorem flush (honest : Honest ifs offered netif n)
    (short : ∀ p, offered p → p.payload.length ≤ 1480) {ip : UInt32} (nonzero : ip ≠ 0) :
    Honest ifs offered netif (flushPendingForIp n ip) := by
  have slot {n : Net} (honest : Honest ifs offered netif n) (i : Fin 8) :
      Honest ifs offered netif (flushSlot ip n i) := by
    unfold flushSlot
    by_cases mine : (n.pending i).dstIp = ip
    · have given := honest.pending i (mine ▸ nonzero)
      rw [if_pos mine]
      exact (honest.send given (short _ given)).clear i
    · rwa [if_neg mine]
  unfold flushPendingForIp
  induction List.finRange 8 generalizing n with
  | nil => exact honest
  | cons i is ih => exact ih (slot honest i)

theorem sendAll (honest : Honest ifs offered netif n) {ps : List IpSend}
    (given : ∀ p ∈ ps, offered p) (short : ∀ p, offered p → p.payload.length ≤ 1480) :
    Honest ifs offered netif (n.sendAll ps) := by
  induction ps generalizing n with
  | nil => exact honest
  | cons p ps ih =>
    have first := given p (.head _)
    exact ih (honest.send first (short p first)) fun q mem => given q (.tail _ mem)

end Honest

end

/-! ## One kernel -/

/-- What a kernel has been asked to send: datagrams, and the segments of its sockets. -/
def Offered (k : Kernel) (ds : List Datagram) (p : IpSend) : Prop :=
  (∃ d ∈ ds, d.ipSend = p) ∨ p ∈ k.tcp.sent

structure Good (ifs : Host → NetIf) (netif : NetIf) (k : Kernel) (ds : List Datagram) : Prop where
  honest : Honest ifs (Offered k ds) netif k.net
  datagrams : ∀ d ∈ ds, d.payload.length ≤ 1472
  segments : ∀ p ∈ k.tcp.sent, p.proto = 6 ∧ p.payload.length ≤ 1480

theorem length_segment (d : Datagram) : d.segment.length = 8 + d.payload.length := by
  simp only [Datagram.segment, List.length_append, length_bytes16, Nat.reduceAdd]

/-- The answers of `tcp_on_rx` carry no data. -/
theorem answers_empty (g : TcpSocket) (th : Segment) : ∀ o ∈ g.answers th, o.payload = [] := by
  intro o mem
  simp only [TcpSocket.answers] at mem
  split at mem
  · cases mem
  · split at mem
    · split at mem
      · rw [List.mem_singleton.mp mem]
      · cases mem
    · rcases List.mem_append.mp mem with data | fin
      · split at data
        · rw [List.mem_singleton.mp data]
        · cases data
      · split at fin
        · rcases List.mem_cons.mp fin with rfl | fin
          · rfl
          · rw [List.mem_singleton.mp fin]
        · cases fin
    · split at mem
      · rw [List.mem_singleton.mp mem]
      · cases mem
    · cases mem

section
variable {ifs : Host → NetIf} {netif : NetIf} {k k' : Kernel} {ds : List Datagram}

namespace Good

theorem short (good : Good ifs netif k ds) (p : IpSend) (given : Offered k ds p) :
    p.payload.length ≤ 1480 := by
  rcases given with ⟨d, mem, rfl⟩ | sent
  · have fits := good.datagrams d mem
    rw [Datagram.ipSend, length_segment]
    omega
  · exact (good.segments p sent).2

theorem emits (good : Good ifs netif k ds) {os : List Outgoing} (emits : Emits k k' os)
    (fits : ∀ o ∈ os, o.payload.length ≤ 1460) : Good ifs netif k' ds := by
  have segments : ∀ p ∈ k'.tcp.sent, p.proto = 6 ∧ p.payload.length ≤ 1480 := by
    intro p mem
    rw [emits.sent] at mem
    rcases List.mem_append.mp mem with old | new
    · exact good.segments p old
    · obtain ⟨o, here, rfl⟩ := List.mem_map.mp new
      have length := length_tcpSegment o.sock o.flags o.payload
      have short := fits o here
      exact ⟨rfl, by simp only [Outgoing.ipSend]; omega⟩
  have more : ∀ p, Offered k ds p → Offered k' ds p := by
    rintro p (datagram | sent)
    · exact .inl datagram
    · exact .inr (emits.sent ▸ List.mem_append_left _ sent)
  have short : ∀ p, Offered k' ds p → p.payload.length ≤ 1480 := by
    rintro p (datagram | sent)
    · exact good.short p (.inl datagram)
    · exact (segments p sent).2
  refine ⟨?_, good.datagrams, segments⟩
  rw [emits.net]
  refine (good.honest.mono more).sendAll (fun p mem => .inr ?_) short
  rw [emits.sent]
  exact List.mem_append_right _ mem

theorem udp (good : Good ifs netif k ds) {d : Datagram} (fits : d.payload.length ≤ 1472) :
    Good ifs netif (sendUdp k d) (ds ++ [d]) := by
  have more : ∀ p, Offered k ds p → Offered (sendUdp k d) (ds ++ [d]) p := by
    rintro p (⟨e, mem, same⟩ | sent)
    · exact .inl ⟨e, List.mem_append_left _ mem, same⟩
    · exact .inr sent
  have given : Offered (sendUdp k d) (ds ++ [d]) d.ipSend := .inl ⟨d, by simp, rfl⟩
  have short : d.ipSend.payload.length ≤ 1480 := by
    rw [Datagram.ipSend, length_segment]
    omega
  have net : (sendUdp k d).net = netSendIp k.net d.ipSend.dstIp d.ipSend.proto d.ipSend.payload :=
    rfl
  refine ⟨?_, ?_, good.segments⟩
  · rw [net]
    exact (good.honest.mono more).send given short
  · intro e mem
    rcases List.mem_append.mp mem with old | new
    · exact good.datagrams e old
    · rwa [List.mem_singleton.mp new]

theorem withNet (good : Good ifs netif k ds) {n : Net}
    (honest : Honest ifs (Offered k ds) netif n) :
    Good ifs netif { k with net := n } ds :=
  ⟨honest.mono fun _ given => given, good.datagrams, good.segments⟩

/-- Nothing else of a kernel matters. -/
theorem congr (good : Good ifs netif k ds) (net : k'.net = k.net) (tcp : k'.tcp = k.tcp) :
    Good ifs netif k' ds := by
  refine ⟨?_, good.datagrams, ?_⟩
  · rw [net]
    refine good.honest.mono fun p given => ?_
    rwa [Offered, tcp]
  · rw [tcp]
    exact good.segments

theorem delivered (good : Good ifs netif k ds) (frame : Mem) {x : Handoff}
    (told : ∀ spa sha, x = .arp spa sha → spa ≠ 0 ∧ Owned ifs spa sha) :
    Good ifs netif (deliver frame k x) ds := by
  cases x with
  | arp spa sha =>
    obtain ⟨nonzero, owned⟩ := told spa sha rfl
    have learned := (good.honest.learn owned).flush good.short nonzero
    rw [deliver_arp]
    exact good.withNet learned
  | dnsOnResponse => exact good.congr rfl rfl
  | udpOnDatagram => exact good
  | tcpOnRx srcIp dstIp start length =>
    refine good.emits (tcpOnRx_emits k (frame.advance start) length srcIp dstIp) ?_
    intro o mem
    split at mem
    · rw [answers_empty _ _ o mem]
      exact Nat.zero_le _
    · cases mem

theorem received (good : Good ifs netif k ds) (frame : Mem) (len : Int)
    (told : ∀ spa sha, .arp spa sha ∈ (netRxDemux frame len).val → spa ≠ 0 ∧ Owned ifs spa sha) :
    Good ifs netif (netRx k frame len) ds := by
  unfold netRx
  generalize (netRxDemux frame len).val = xs at told
  induction xs generalizing k with
  | nil => exact good
  | cons x xs ih =>
    refine ih (good.delivered frame ?_) fun spa sha mem => told spa sha (.tail _ mem)
    rintro spa sha rfl
    exact told spa sha (.head _)

end Good

end

/-! ## What a kernel reads off the wire -/

/-- A handoff is of what the kernel with these addresses has been asked to send. -/
def Explains (netif : NetIf) (k : Kernel) (ds : List Datagram) (rx : Mem) : Handoff → Prop
  | .arp spa sha => spa = netif.ip ∧ sha = netif.mac
  | .dnsOnResponse srcIp start len => srcIp = netif.ip ∧
      ∃ d ∈ ds, d.srcPort = 53 ∧ len = d.payload.length ∧ rx.Holds start d.payload
  | .udpOnDatagram srcIp srcPort start len => srcIp = netif.ip ∧
      ∃ d ∈ ds, d.srcPort = srcPort ∧ len = d.payload.length ∧ rx.Holds start d.payload
  | .tcpOnRx srcIp dstIp start len => srcIp = netif.ip ∧
      ∃ p ∈ k.tcp.sent, p.dstIp = dstIp ∧ len = p.payload.length ∧ rx.Holds start p.payload

section
variable {rx : Mem} {netif : NetIf} {k : Kernel} {ds : List Datagram}

theorem macAt_toList {off : Nat} {mac : MacAddr} (holds : rx.Holds off mac.toList) :
    macAt rx off = mac := by
  apply Vector.toList_inj.mp
  rw [Mem.Holds, Vector.length_toList] at holds
  rw [← holds, macAt, Vector.toList_ofFn]
  rfl

/-- An ARP request tells the addresses of its sender, and nothing else. -/
theorem request_handoff {targetIp : UInt32} (holds : rx.Holds 0 (arpRequest netif targetIp))
    {len : Int} {x : Handoff} (handed : x ∈ (netRxDemux rx len).val) :
    x = .arp netif.ip netif.mac ∧ netif.ip ≠ 0 := by
  simp only [arpRequest, bcast, Mem.holds_append, List.length_append, List.length_cons,
    List.length_nil, length_bytes16, length_bytes32, Vector.length_toList, Nat.reduceAdd] at holds
  obtain ⟨⟨⟨⟨⟨⟨⟨⟨⟨⟨-, -⟩, type⟩, -⟩, -⟩, -⟩, -⟩, sha⟩, spa⟩, -⟩, -⟩ := holds
  have typed : etherType rx = 0x0806 := by rw [etherType, load16_bytes16 type, ntohs_htons]
  have other {r : Nat × Int} (range : r ∈ x.range) : False := by
    have ip := (netRxDemux_range handed range).1
    rw [typed] at ip
    cases ip
  cases x with
  | arp spa' sha' =>
    have valid := arpFrom_of_mem handed
    have ip : spa' = netif.ip := by rw [← valid.sender, load32_bytes32 spa, ntohl_htonl]
    have mac : sha' = netif.mac := by rw [← valid.hardware, macAt_toList sha]
    exact ⟨by rw [ip, mac], ip ▸ valid.nonzero⟩
  | dnsOnResponse => exact (other rfl).elim
  | udpOnDatagram => exact (other rfl).elim
  | tcpOnRx => exact (other rfl).elim

theorem datagram_explains {d : Datagram} (mem : d ∈ ds)
    (fields : Fields rx netif d.dstIp 17 d.segment) {x : Handoff}
    (handed : x ∈ (udpDemux rx 34 d.segment.length).val) : Explains netif k ds rx x := by
  obtain ⟨data, datagram⟩ := udpDemux_datagram fields.payload
  rw [length_segment, datagram, fields.src] at handed
  rcases List.mem_append.mp handed with response | callback
  · split at response
    · rename_i port
      rw [List.mem_singleton.mp response]
      exact ⟨rfl, d, mem, port, rfl, data⟩
    · cases response
  · rw [List.mem_singleton.mp callback]
    exact ⟨rfl, d, mem, rfl, rfl, data⟩

theorem segment_explains {p : IpSend} (mem : p ∈ k.tcp.sent)
    (fields : Fields rx netif p.dstIp 6 p.payload) {x : Handoff}
    (handed : x ∈ (tcpDemux rx 34 p.payload.length).val) : Explains netif k ds rx x := by
  simp only [tcpDemux, val_ite, val_bind, val_pure, val_u32, fields.src, fields.dst] at handed
  split at handed
  · cases handed
  · rw [List.mem_singleton.mp handed]
    exact ⟨rfl, p, mem, rfl, rfl, fields.payload⟩

/-- Whatever a frame of a kernel is taken for, with anything behind it. -/
theorem Good.explains {ifs : Host → NetIf} (good : Good ifs netif k ds) {frame : List UInt8}
    (wired : frame ∈ k.net.tx) (padding : List UInt8) {x : Handoff}
    (handed : x ∈ (netRxDemux (.ofList (frame ++ padding)) (frame ++ padding).length).val) :
    Explains netif k ds (.ofList (frame ++ padding)) x := by
  cases good.honest.tx frame wired with
  | request targetIp =>
    obtain ⟨rfl, -⟩ := request_handoff (Mem.holds_ofList _ padding) handed
    exact ⟨rfl, rfl⟩
  | @packet p mac given hop =>
    have short := good.short p given
    obtain ⟨fields, demux⟩ := ipFrame_demux netif mac p.dstIp p.proto p.payload (by omega) padding
    rw [demux] at handed
    rcases given with ⟨d, mem, rfl⟩ | sent
    · exact datagram_explains mem fields handed
    · obtain ⟨dstIp, proto, payload⟩ := p
      obtain rfl : proto = 6 := (good.segments _ sent).1
      have other : (6 : UInt8) ≠ 17 := by decide
      rw [if_neg (by exact other), if_pos rfl] at handed
      exact segment_explains sent fields handed

end

/-! ## The wire -/

/-- The interfaces are set up once. -/
def World.ifs (w : World Host) (h : Host) : NetIf := (w.kernel h).net.netif

def Sound (ifs : Host → NetIf) (w : World Host) : Prop :=
  ∀ h, Good ifs (ifs h) (w.kernel h) (w.sent h)

theorem fresh_sound {start : World Host} (fresh : Fresh start) : Sound start.ifs start := by
  intro h
  have segments := fresh.segments h
  have datagrams := fresh.datagrams h
  refine ⟨⟨rfl, fun i live => absurd (fresh.cache h i) live,
    fun i waits => absurd (fresh.pending h i) waits, ?_⟩, ?_, ?_⟩
  · rw [fresh.tx h]
    exact fun f mem => absurd mem List.not_mem_nil
  · rw [datagrams]
    exact fun d mem => absurd mem List.not_mem_nil
  · rw [segments]
    exact fun p mem => absurd mem List.not_mem_nil

section
variable [DecidableEq Host] {asked : Host → Prop} {start w w' : World Host}

/-- The calls of tcp.c are steps. -/
theorem call_steps (h : Host) (may : asked h) (s : SockRef) :
    (∀ data : List UInt8, data.length ≤ 1460 →
      Step asked w
        { w with kernel := Function.update w.kernel h (tcpSend (w.kernel h) s data).1 }) ∧
    (∀ maxlen, Step asked w
      { w with kernel := Function.update w.kernel h (tcpRecv (w.kernel h) s maxlen).1 }) ∧
    Step asked w { w with kernel := Function.update w.kernel h (tcpClose (w.kernel h) s).1 } ∧
    (((w.kernel h).sock .gSock).inUse = false → ∀ dstIp dstPort srcPort, Step asked w { w with
      kernel := Function.update w.kernel h
        (tcpConnect (w.kernel h) s dstIp dstPort srcPort).1 }) := by
  refine ⟨fun data fits => ?_, fun maxlen => ?_, ?_, fun idle dstIp dstPort srcPort => ?_⟩
  · refine .tcp h _ _ may (tcpSend_emits _ s data) fun o mem => ?_
    simp only [TcpSocket.sends] at mem
    split at mem
    · rwa [List.mem_singleton.mp mem]
    · cases mem
  · exact .tcp h _ _ may (tcpRecv_emits _ s maxlen) fun o mem => absurd mem List.not_mem_nil
  · refine .tcp h _ _ may (tcpClose_emits _ s) fun o mem => ?_
    simp only [TcpSocket.closes] at mem
    split at mem
    · rw [List.mem_singleton.mp mem]
      exact Nat.zero_le _
    · cases mem
  · refine .tcp h _ _ may (tcpConnect_emits _ s idle) fun o mem => ?_
    rw [List.mem_singleton.mp mem]
    exact Nat.zero_le _

theorem step_sound {ifs : Host → NetIf} (sound : Sound ifs w) (step : Step asked w w') :
    Sound ifs w' := by
  intro j
  cases step with
  | udp h d may fits =>
    by_cases here : j = h
    · subst here
      simp only [Function.update_self]
      exact (sound j).udp fits
    · simp only [Function.update_of_ne here]
      exact sound j
  | tcp h k os may emits fits =>
    by_cases here : j = h
    · subst here
      simp only [Function.update_self]
      exact (sound j).emits emits fits
    · simp only [Function.update_of_ne here]
      exact sound j
  | receive h h' frame padding other wired =>
    by_cases here : j = h'
    · subst here
      simp only [Function.update_self]
      refine (sound j).received _ _ fun spa sha handed => ?_
      obtain ⟨rfl, rfl⟩ := (sound h).explains wired padding handed
      exact ⟨(arpFrom_of_mem handed).nonzero, h, rfl, rfl⟩
    · simp only [Function.update_of_ne here]
      exact sound j

theorem run_sound (fresh : Fresh start) (run : Run asked start w) : Sound start.ifs w := by
  induction run with
  | start => exact fresh_sound fresh
  | step _ step ih => exact step_sound ih step

/-- Whatever is lost, repeated or overtaken on the wire: an ARP cache says of an address
only what is true, a packet leaves only as it was to be sent and for the station of its
next hop (if that is not 0), and what a kernel hands on of a frame is what the sender was
to send. -/
theorem run_safe (fresh : Fresh start) (run : Run asked start w) (h : Host) :
    (∀ ip mac, ip ≠ 0 → arpLookup (w.kernel h).net ip = some mac → Owned start.ifs ip mac) ∧
    ∀ frame ∈ (w.kernel h).net.tx,
      Carries start.ifs (Offered (w.kernel h) (w.sent h)) (start.ifs h) frame ∧
      ∀ padding, ∀ x ∈ (netRxDemux (.ofList (frame ++ padding)) (frame ++ padding).length).val,
        Explains (start.ifs h) (w.kernel h) (w.sent h) (.ofList (frame ++ padding)) x := by
  have good := run_sound fresh run h
  refine ⟨fun ip mac nonzero found => ?_, fun frame wired => ⟨good.honest.tx frame wired, ?_⟩⟩
  · obtain ⟨i, rfl, rfl⟩ := arpLookup_entry found
    exact good.honest.cache i nonzero
  · exact fun padding x handed => good.explains wired padding handed

/-- 10.0.2.15 and 10.0.2.2. -/
def pair : World Bool where
  kernel h := { Kernel.boot with
    net := netSetIpv4 (netInit .boot (Vector.replicate 6 (if h then 0x35 else 0x52)))
      (if h then 0x0A000202 else 0x0A00020F) 0xFFFFFF00 0x0A000202 }
  sent _ := []

theorem fresh_pair : Fresh pair where
  cache _ _ := rfl
  pending _ _ := rfl
  tx _ := rfl
  segments _ := rfl
  datagrams _ := rfl

def greeting : Datagram := ⟨0x0A000202, 7, 50000, [1, 2, 3]⟩

def question : List UInt8 := arpRequest (pair.ifs false) 0x0A000202

/-- The one has something to send, and its request tells the other its address. -/
theorem run_safe_pair : ∃ w, Run (fun _ => True) pair w ∧
    arpLookup (w.kernel true).net 0x0A00020F = some (Vector.replicate 6 0x52) ∧
    Owned pair.ifs 0x0A00020F (Vector.replicate 6 0x52) := by
  have asks : Run (fun _ => True) pair _ := .step .start (.udp false greeting trivial (by decide))
  have told := asks.step (.receive false true question [] (by decide) (by decide +kernel))
  have known :
      arpLookup (netRx (pair.kernel true) (.ofList (question ++ [])) (question ++ []).length).net
      0x0A00020F = some (Vector.replicate 6 0x52) := by decide +kernel
  exact ⟨_, told, known, (run_safe fresh_pair told true).1 _ _ (by decide) known⟩

/-! ## A kernel that is not answered -/

/-- Nothing waits, and nothing has been sent. -/
structure Silent (n : Net) : Prop where
  pending : ∀ i, (n.pending i).dstIp = 0
  tx : n.tx = []

/-- Its cache is empty, and all it has sent are requests. -/
structure Asking (netif : NetIf) (n : Net) : Prop where
  own : n.netif = netif
  cache : ∀ i, (n.arpCache i).ip = 0
  tx : ∀ f ∈ n.tx, ∃ targetIp, f = arpRequest netif targetIp

theorem flush_silent {n : Net} (silent : Silent n) {ip : UInt32} (nonzero : ip ≠ 0) :
    flushPendingForIp n ip = n := by
  have slot (i : Fin 8) : flushSlot ip n i = n := by
    have other : (n.pending i).dstIp ≠ ip :=
      fun same => nonzero (same.symm.trans (silent.pending i))
    rw [flushSlot, if_neg other]
  unfold flushPendingForIp
  induction List.finRange 8 with
  | nil => rfl
  | cons i is ih => rw [List.foldl_cons, slot, ih]

/-- Told of an address, a kernel with nothing to send stays silent. -/
theorem Silent.received {k : Kernel} (silent : Silent k.net) {frame : Mem} {len : Int}
    (told : ∀ x ∈ (netRxDemux frame len).val, ∃ ip mac, x = .arp ip mac ∧ ip ≠ 0) :
    Silent (netRx k frame len).net := by
  unfold netRx
  generalize (netRxDemux frame len).val = xs at told
  induction xs generalizing k with
  | nil => exact silent
  | cons x xs ih =>
    obtain ⟨ip, mac, rfl, nonzero⟩ := told x (.head _)
    have stored : Silent (arpStore k.net ip mac) :=
      ⟨by rw [arpStore_pending]; exact silent.pending, by rw [arpStore_tx]; exact silent.tx⟩
    rw [List.foldl_cons, deliver_arp, flush_silent stored nonzero]
    exact @ih { k with net := arpStore k.net ip mac } stored fun y mem => told y (.tail _ mem)

/-- A next hop is never 0 where the gateway and the subnet are set. -/
structure Configured (netif : NetIf) : Prop where
  gateway : netif.gwIp ≠ 0
  subnet : netif.ip &&& netif.netmask ≠ 0

theorem Configured.nextHop {netif : NetIf} (configured : Configured netif) (dstIp : UInt32) :
    nextHop netif dstIp ≠ 0 := by
  unfold MyOS.nextHop
  split
  · exact configured.gateway
  · rename_i onSubnet
    rintro rfl
    rw [UInt32.zero_xor] at onSubnet
    exact onSubnet configured.subnet

theorem Asking.send {netif : NetIf} {n : Net} (asking : Asking netif n)
    (configured : Configured netif) (p : IpSend) :
    Asking netif (netSendIp n p.dstIp p.proto p.payload) := by
  have unknown : arpLookup n (nextHop n.netif p.dstIp) = none := by
    cases found : arpLookup n (nextHop n.netif p.dstIp) with
    | none => rfl
    | some mac =>
      obtain ⟨i, ip, -⟩ := arpLookup_entry found
      rw [asking.own, asking.cache i] at ip
      exact absurd ip.symm (configured.nextHop p.dstIp)
  refine ⟨(netSendIp_netif ..).trans asking.own, ?_, ?_⟩
  · rw [netSendIp_arpCache]
    exact asking.cache
  · rw [netSendIp_unknown unknown, asking.own]
    intro f mem
    rcases List.mem_append.mp mem with old | new
    · exact asking.tx f old
    · exact ⟨_, List.mem_singleton.mp new⟩

theorem Asking.sendAll {netif : NetIf} {n : Net} (asking : Asking netif n)
    (configured : Configured netif) (ps : List IpSend) :
    Asking netif (n.sendAll ps) := by
  induction ps generalizing n with
  | nil => exact asking
  | cons p ps ih => exact ih (asking.send configured p)

/-- Where one kernel alone has something to send. -/
def Alone (a : Host) (netif : NetIf) (w : World Host) : Prop :=
  Asking netif (w.kernel a).net ∧ ∀ h, h ≠ a → Silent (w.kernel h).net

theorem step_alone {a : Host} {netif : NetIf} (configured : Configured netif)
    (alone : Alone a netif w) (step : Step (· = a) w w') :
    Alone a netif w' := by
  obtain ⟨asking, silent⟩ := alone
  have others {k : Kernel} (h : Host) (other : h ≠ a) :
      Silent ((Function.update w.kernel a k h).net) := by
    rw [Function.update_of_ne other]
    exact silent h other
  cases step with
  | udp h d may fits =>
    subst may
    refine ⟨?_, others⟩
    have net : (sendUdp (w.kernel h) d).net =
        netSendIp (w.kernel h).net d.ipSend.dstIp d.ipSend.proto d.ipSend.payload := rfl
    simp only [Function.update_self]
    rw [net]
    exact asking.send configured d.ipSend
  | tcp h k os may emits fits =>
    subst may
    refine ⟨?_, others⟩
    simp only [Function.update_self]
    rw [emits.net]
    exact asking.sendAll configured _
  | receive h h' frame padding other wired =>
    by_cases sender : h = a
    · subst sender
      obtain ⟨targetIp, rfl⟩ := asking.tx frame wired
      refine ⟨?_, fun j apart => ?_⟩
      · simp only [Function.update_of_ne (Ne.symm other)]
        exact asking
      · by_cases here : j = h'
        · subst here
          simp only [Function.update_self]
          refine (silent j apart).received fun x handed => ?_
          exact ⟨_, _, request_handoff (Mem.holds_ofList _ padding) handed⟩
        · simp only [Function.update_of_ne here]
          exact silent j apart
    · rw [(silent h sender).tx] at wired
      exact absurd wired List.not_mem_nil

/-- No kernel answers an ARP request: as long as its peers have nothing to send
themselves, a kernel with a gateway and a subnet sends nothing but requests, whatever it
has been asked to send. -/
theorem unanswered {a : Host} (fresh : Fresh start) (configured : Configured (start.ifs a))
    (run : Run (· = a) start w) :
    (∀ f ∈ (w.kernel a).net.tx, ∃ targetIp, f = arpRequest (start.ifs a) targetIp) ∧
    ∀ h, h ≠ a → (w.kernel h).net.tx = [] := by
  have alone : Alone a (start.ifs a) w := by
    induction run with
    | start =>
      refine ⟨⟨rfl, fresh.cache a, ?_⟩, fun h _ => ⟨fresh.pending h, fresh.tx h⟩⟩
      rw [fresh.tx a]
      exact fun f mem => absurd mem List.not_mem_nil
    | step _ step ih => exact step_alone configured ih step
  exact ⟨alone.1.tx, fun h other => (alone.2 h other).tx⟩

theorem unanswered_pair : ∃ w, Run (· = false) pair w ∧ (w.kernel false).net.tx = [question] ∧
    (w.kernel true).net.tx = [] := by
  have asks : Run (· = false) pair _ := .step .start (.udp false greeting rfl (by decide))
  have told := asks.step (.receive false true question [] (by decide) (by decide +kernel))
  have configured : Configured (pair.ifs false) := ⟨by decide, by decide⟩
  exact ⟨_, told, by decide +kernel, (unanswered fresh_pair configured told).2 true (by decide)⟩

end

end MyOS.Wire
