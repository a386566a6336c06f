import MyOS.Net.Pending
import MyOS.Tcp.Sends

/-!
# From the sender to the receiver

The frames of `net_send_ip` read by `net_rx`, through all four headers. What
stands behind the packet in a frame is never taken for a part of it.
-/

namespace MyOS.RoundTrip

open Traced

/-! ## The frame of `net_send_ip` -/

section
variable {m : Mem} {netif : NetIf} {mac : MacAddr} {dstIp : UInt32} {proto : UInt8}
  {payload : List UInt8}

/-- What `net_rx` looks at. -/
structure Fields (m : Mem) (netif : NetIf) (dstIp : UInt32) (proto : UInt8)
    (payload : List UInt8) : Prop where
  type : etherType m = 0x0800
  verIhl : m 14 = 0x45
  totLen : m.load16 16 = htons (20 + payload.length).toUInt16
  proto : m 23 = proto
  src : ntohl (m.load32 26) = netif.ip
  dst : ntohl (m.load32 30) = dstIp
  payload : m.Holds 34 payload

theorem ipFrame_fields (holds : m.Holds 0 (ipFrame netif mac dstIp proto payload)) :
    Fields m netif dstIp proto payload := by
  simp only [ipFrame, ipHeader, Mem.holds_append, Mem.holds_cons, List.length_append,
    List.length_cons, List.length_nil, length_bytes16, length_bytes32, Vector.length_toList,
    Nat.reduceAdd] at holds
  obtain ⟨⟨⟨⟨-, -⟩, type⟩, header⟩, data⟩ := holds
  obtain ⟨⟨⟨⟨⟨⟨⟨⟨verIhl, -⟩, totLen⟩, -⟩, -⟩, -, kind, -⟩, -⟩, src⟩, dst⟩ := header
  have typed : m.load16 12 = htons 0x0800 := load16_bytes16 type
  have sender : m.load32 26 = htonl netif.ip := load32_bytes32 src
  have receiver : m.load32 30 = htonl dstIp := load32_bytes32 dst
  constructor
  · rw [etherType, typed, ntohs_htons]
  · exact verIhl
  · exact load16_bytes16 totLen
  · exact kind
  · rw [sender, ntohl_htonl]
  · rw [receiver, ntohl_htonl]
  · exact data

theorem toNat_length {n : Nat} (fits : n < 65536) : (n.toUInt16).toNat = n :=
  UInt16.toNat_ofNat_of_lt' fits

/-- The payload is handed on by its protocol, as long as it was. -/
theorem Fields.demux (h : Fields m netif dstIp proto payload) (fits : 20 + payload.length < 65536)
    {len : Int} (whole : 34 ≤ len) :
    (netRxDemux m len).val =
      if proto = 17 then (udpDemux m 34 payload.length).val
      else if proto = 6 then (tcpDemux m 34 payload.length).val else [] := by
  have hdrLen : ihlBytes (m 14) = 20 := by rw [h.verIhl]; rfl
  have version : m 14 >>> 4 = 4 := by rw [h.verIhl]; rfl
  have total : (ntohs (m.load16 16)).toNat = 20 + payload.length := by
    rw [h.totLen, ntohs_htons, toNat_length fits]
  have kind : m 23 = proto := h.proto
  have room : (((20 + payload.length : Nat) : Int) - (20 : Nat)) = payload.length := by omega
  rw [netRxDemux_ip (by omega) h.type]
  simp only [ipDemux, val_ite, val_bind, val_pure, val_u8, val_u16, hdrLen, version, total, kind]
  rw [if_neg (by omega), if_neg (by simp), if_neg (by omega), room, if_neg (by omega)]

end

/-! ## Both protocols -/

/-- The peer is given the frame, with anything behind it, and hands `payload`
to `udp_on_datagram`, and to the resolver when it comes from port 53. -/
def GivesDatagram (frame : List UInt8) (srcIp : UInt32) (srcPort : UInt16)
    (payload : List UInt8) : Prop :=
  ∀ padding, let rx := Mem.ofList (frame ++ padding)
    (netRxDemux rx (frame ++ padding).length).val =
      (if srcPort = 53 then [.dnsOnResponse srcIp 42 payload.length] else []) ++
        [.udpOnDatagram srcIp srcPort 42 payload.length] ∧
      rx.load 42 payload.length = payload

/-- It hands the segment `th` to `tcp_on_rx`. -/
def GivesSegment (frame : List UInt8) (srcIp dstIp : UInt32) (th : Segment) : Prop :=
  ∀ padding, let rx := Mem.ofList (frame ++ padding)
    let ipLen : Int := 20 + th.payload.length
    (netRxDemux rx (frame ++ padding).length).val = [.tcpOnRx srcIp dstIp 34 ipLen] ∧
      tcpDecode (rx.advance 34) ipLen = th

theorem length_ipFrame (netif : NetIf) (mac : MacAddr) (dstIp : UInt32) (proto : UInt8)
    (payload : List UInt8) :
    (ipFrame netif mac dstIp proto payload).length = 34 + payload.length := by
  simp only [ipFrame, ipHeader, List.length_append, List.length_cons, List.length_nil,
    length_bytes16, length_bytes32, Vector.length_toList, Nat.reduceAdd]

theorem ipFrame_demux (netif : NetIf) (mac : MacAddr) (dstIp : UInt32) (proto : UInt8)
    (payload : List UInt8) (fits : 20 + payload.length < 65536) (padding : List UInt8) :
    let frame := ipFrame netif mac dstIp proto payload ++ padding
    Fields (.ofList frame) netif dstIp proto payload ∧
      (netRxDemux (.ofList frame) frame.length).val =
        if proto = 17 then (udpDemux (.ofList frame) 34 payload.length).val
        else if proto = 6 then (tcpDemux (.ofList frame) 34 payload.length).val else [] := by
  intro frame
  have fields : Fields (.ofList frame) netif dstIp proto payload :=
    ipFrame_fields (Mem.holds_ofList _ padding)
  refine ⟨fields, fields.demux fits ?_⟩
  rw [List.length_append, length_ipFrame]
  omega

theorem udpDemux_datagram {m : Mem} {srcPort dstPort : UInt16} {payload : List UInt8}
    (holds : m.Holds 34 (bytes16 (htons srcPort) ++ bytes16 (htons dstPort) ++
      bytes16 (htons (8 + payload.length).toUInt16) ++ bytes16 0 ++ payload)) :
    m.Holds 42 payload ∧ (udpDemux m 34 (8 + payload.length : Nat)).val =
      (if srcPort = 53 then [.dnsOnResponse (ntohl (m.load32 26)) 42 payload.length] else []) ++
        [.udpOnDatagram (ntohl (m.load32 26)) srcPort 42 payload.length] := by
  simp only [Mem.holds_append, List.length_append, length_bytes16, Nat.reduceAdd] at holds
  obtain ⟨⟨⟨⟨src, -⟩, -⟩, -⟩, data⟩ := holds
  have port : (u16 m 34).val = htons srcPort := load16_bytes16 src
  have room : ((8 + payload.length : Nat) : Int) - 8 = payload.length := by omega
  refine ⟨data, ?_⟩
  simp only [udpDemux, val_ite, val_bind, val_pure, val_u32, port, ntohs_htons, room]
  rw [if_neg (by omega)]
  split <;> rfl

theorem udp_arrives {n : Net} {dstIp : UInt32} {mac : MacAddr} (dstPort srcPort : UInt16)
    {payload : List UInt8} (known : arpLookup n (nextHop n.netif dstIp) = some mac)
    (fits : payload.length ≤ 1472) :
    ∃ frame, (netSendUdpIpv4 n dstIp dstPort srcPort payload).tx = n.tx ++ [frame] ∧
      GivesDatagram frame n.netif.ip srcPort payload := by
  let seg := bytes16 (htons srcPort) ++ bytes16 (htons dstPort) ++
    bytes16 (htons (8 + payload.length).toUInt16) ++ bytes16 0 ++ payload
  have size : seg.length = 8 + payload.length := by
    simp only [seg, List.length_append, length_bytes16, Nat.reduceAdd]
  refine ⟨ipFrame n.netif mac dstIp 17 seg, ?_, ?_⟩
  · rw [netSendUdpIpv4, netSendIp_resolved _ _ known, nicTx_tx]
  · intro padding
    obtain ⟨fields, demux⟩ := ipFrame_demux n.netif mac dstIp 17 seg (by omega) padding
    obtain ⟨data, datagram⟩ := udpDemux_datagram fields.payload
    refine ⟨?_, data⟩
    rw [demux, if_pos rfl, size, datagram, fields.src]

theorem segment_arrives {k : Kernel} {s : SockRef} {mac : MacAddr} (flags : UInt8)
    {payload : List UInt8}
    (known : arpLookup k.net (nextHop k.net.netif (k.sock s).remoteIp) = some mac)
    (fits : payload.length ≤ 1460) :
    ∃ frame, (tcpSendSegment k s flags payload).net.tx = k.net.tx ++ [frame] ∧
      GivesSegment frame k.net.netif.ip (k.sock s).remoteIp
        (Outgoing.segment ⟨k.sock s, flags, payload⟩) := by
  have size := length_tcpSegment (k.sock s) flags payload
  refine ⟨ipFrame k.net.netif mac (k.sock s).remoteIp 6 (tcpSegment (k.sock s) flags payload),
    ?_, ?_⟩
  · rw [tcpSendSegment, netSendIp_resolved _ _ known, nicTx_tx]
  · intro padding
    obtain ⟨fields, demux⟩ := ipFrame_demux k.net.netif mac (k.sock s).remoteIp 6
      (tcpSegment (k.sock s) flags payload) (by omega) padding
    have segment := (tcpDecode_segment ((Mem.holds_advance _ 0 _ 34).mpr fields.payload)).2
    refine ⟨?_, segment⟩
    rw [demux, if_neg (by decide), if_pos rfl, size]
    simp only [tcpDemux, val_ite, val_bind, val_pure, val_u32, fields.src, fields.dst]
    rw [if_neg (by omega)]
    rfl

/-- What is sent over a resolved next hop arrives as it was sent, whatever the
link puts behind it. -/
theorem sent_arrives :
    (∀ n dstIp mac dstPort srcPort (payload : List UInt8),
      arpLookup n (nextHop n.netif dstIp) = some mac → payload.length ≤ 1472 →
      ∃ frame, (netSendUdpIpv4 n dstIp dstPort srcPort payload).tx = n.tx ++ [frame] ∧
        GivesDatagram frame n.netif.ip srcPort payload) ∧
    (∀ (k : Kernel) (s : SockRef) mac flags (payload : List UInt8),
      arpLookup k.net (nextHop k.net.netif (k.sock s).remoteIp) = some mac →
      payload.length ≤ 1460 →
      ∃ frame, (tcpSendSegment k s flags payload).net.tx = k.net.tx ++ [frame] ∧
        GivesSegment frame k.net.netif.ip (k.sock s).remoteIp
          ⟨(k.sock s).localPort, (k.sock s).remotePort, (k.sock s).sndNxt, (k.sock s).rcvNxt,
            flags, payload⟩) :=
  ⟨fun _ _ _ dstPort srcPort _ known fits => udp_arrives dstPort srcPort known fits,
    fun _ _ _ flags _ known fits => segment_arrives flags known fits⟩

/-- The gateway is known, and a query to the resolver goes out through it. -/
def linked : Net := arpStore Pending.configured.net 0x0A000202 (Vector.replicate 6 0x35)

theorem sent_arrives_query :
    ∃ frame, (netSendUdpIpv4 linked 0x08080808 53 50000 [1, 2, 3]).tx = linked.tx ++ [frame] ∧
      GivesDatagram frame linked.netif.ip 50000 [1, 2, 3] := by
  have known : arpLookup linked (nextHop linked.netif 0x08080808) =
      some (Vector.replicate 6 0x35) := by decide +kernel
  exact sent_arrives.1 linked 0x08080808 _ 53 50000 [1, 2, 3] known (Nat.le_of_ble_eq_true rfl)

end MyOS.RoundTrip
