import MyOS.Base.Traced
import MyOS.Dns.Table
import MyOS.Net.Send
import MyOS.Tcp.Socket

/-!
# Receiving

`net_rx` decides from a frame alone what goes to whom. `netRxDemux` is that
decision, with the offsets it reads; `netRx` hands the results on.
-/

namespace MyOS

/-- A call `net_rx` makes. The payloads are the bytes of the frame from `start`
on, `length` of them. -/
inductive Handoff
  | arp (spa : UInt32) (sha : MacAddr)
  | dnsOnResponse (srcIp : UInt32) (start : Nat) (length : Int)
  | udpOnDatagram (srcIp : UInt32) (srcPort : UInt16) (start : Nat) (length : Int)
  | tcpOnRx (srcIp dstIp : UInt32) (start : Nat) (length : Int)
  deriving DecidableEq

/-- The payload handed on, if any. -/
def Handoff.range : Handoff → Option (Nat × Int)
  | .arp .. => none
  | .dnsOnResponse _ start length => some (start, length)
  | .udpOnDatagram _ _ start length => some (start, length)
  | .tcpOnRx _ _ start length => some (start, length)

open Traced

def macAt (frame : Mem) (off : Nat) : MacAddr := Vector.ofFn fun i => frame (off + i)

/-- The branch for `ETH_TYPE_ARP`. -/
def arpDemux (frame : Mem) (len : Int) : Traced (List Handoff) :=
  if len < 14 + 28 then pure []
  else do
    let htype ← u16 frame 14
    if ntohs htype ≠ 1 then pure [] else
    let ptype ← u16 frame 16
    if ntohs ptype ≠ 0x0800 then pure [] else
    let hlen ← u8 frame 18
    if hlen ≠ 6 then pure [] else
    let plen ← u8 frame 19
    if plen ≠ 4 then pure [] else
    let spa ← u32 frame 28
    let _tpa ← u32 frame 38
    if ntohl spa = 0 then pure [] else
    let sha ← read 22 6 (macAt frame 22)
    pure [.arp (ntohl spa) sha]

/-- The branch for `IP_PROTO_UDP`; `pl` is the offset of the datagram. -/
def udpDemux (frame : Mem) (pl : Nat) (plLen : Int) : Traced (List Handoff) :=
  if plLen < 8 then pure []
  else do
    let src ← u16 frame pl
    let _dst ← u16 frame (pl + 2)
    let srcIp ← u32 frame 26
    let datagram := .udpOnDatagram (ntohl srcIp) (ntohs src) (pl + 8) (plLen - 8)
    if ntohs src = 53 then pure [.dnsOnResponse (ntohl srcIp) (pl + 8) (plLen - 8), datagram]
    else pure [datagram]

/-- The branch for `IP_PROTO_TCP`. -/
def tcpDemux (frame : Mem) (pl : Nat) (plLen : Int) : Traced (List Handoff) :=
  if plLen < 20 then pure []
  else do
    let srcIp ← u32 frame 26
    let dstIp ← u32 frame 30
    pure [.tcpOnRx (ntohl srcIp) (ntohl dstIp) pl plLen]

/-- `(ver_ihl & 0xF) * 4` -/
def ihlBytes (verIhl : UInt8) : Nat := (verIhl &&& 0xF).toNat * 4

/-- The branch for `ETH_TYPE_IP`. -/
def ipDemux (frame : Mem) (len : Int) : Traced (List Handoff) :=
  if len < 14 + 20 then pure []
  else do
    let verIhl ← u8 frame 14
    if verIhl >>> 4 ≠ 4 then pure [] else
    let ihl := ihlBytes verIhl
    if len < 14 + ihl then pure [] else
    let totLen ← u16 frame 16
    let plLen : Int := (ntohs totLen).toNat - ihl
    if plLen < 0 then pure [] else
    let proto ← u8 frame 23
    if proto = 17 then udpDemux frame (14 + ihl) plLen
    else if proto = 6 then tcpDemux frame (14 + ihl) plLen
    else pure []

def netRxDemux (frame : Mem) (len : Int) : Traced (List Handoff) :=
  if len < 14 then pure []
  else do
    let type ← u16 frame 12
    if ntohs type = 0x0806 then arpDemux frame len
    else if ntohs type = 0x0800 then ipDemux frame len
    else pure []

/-- `udp_on_datagram` only draws text. -/
def deliver (frame : Mem) (k : Kernel) : Handoff → Kernel
  | .arp spa sha => { k with net := flushPendingForIp (arpStore k.net spa sha) spa }
  | .dnsOnResponse srcIp start length =>
    { k with dns := dnsOnResponse k.dns srcIp (frame.advance start) length }
  | .udpOnDatagram .. => k
  | .tcpOnRx srcIp dstIp start length => tcpOnRx k (frame.advance start) length srcIp dstIp

def netRx (k : Kernel) (frame : Mem) (len : Int) : Kernel :=
  (netRxDemux frame len).val.foldl (deliver frame) k

/-! ## Bounds -/

/-- Every field read and every payload handed on lies within the frame. -/
structure InFrame (frame : Mem) (len : Int) : Prop where
  fields : Within (fun i => (i : Int) < len) (netRxDemux frame len)
  payloads : ∀ h ∈ (netRxDemux frame len).val, ∀ r ∈ h.range, (r.1 : Int) + r.2 ≤ len

def etherType (frame : Mem) : UInt16 := ntohs (frame.load16 12)
def ipHdrLen (frame : Mem) : Nat := ihlBytes (frame 14)
def ipTotLen (frame : Mem) : Nat := (ntohs (frame.load16 16)).toNat

/-- An IPv4 packet whose lengths pass every test before a UDP or TCP payload is
handed on. -/
structure HandsUp (frame : Mem) (len : Int) : Prop where
  header : 34 ≤ len
  version : frame 14 >>> 4 = 4
  options : 14 + (ipHdrLen frame : Int) ≤ len
  proto : (frame 23 = 17 ∧ ipHdrLen frame + 8 ≤ ipTotLen frame) ∨
    (frame 23 = 6 ∧ ipHdrLen frame + 20 ≤ ipTotLen frame)

section
variable {P : Nat → Prop} {frame : Mem} {len : Int}

/-- The ARP branch reads the first 42 bytes at most. -/
theorem arpDemux_within (inside : 42 ≤ len → ∀ i < 42, P i) : Within P (arpDemux frame len) := by
  unfold arpDemux
  split
  · simp
  · rename_i long
    have fixed := inside (by omega)
    have sha (i : Nat) (hi : i < 6) : P (22 + i) := fixed _ (by omega)
    simp only [within_bind, within_ite, within_u8, within_u16, within_u32, within_read,
      within_pure]
    simp +contextual [fixed, sha]

theorem arpDemux_range {h : Handoff} (found : h ∈ (arpDemux frame len).val) : h.range = none := by
  simp only [arpDemux, val_ite, val_bind, val_pure] at found
  repeat' split at found
  all_goals simp at found
  subst found
  rfl

theorem udpDemux_within {pl : Nat} {plLen : Int} (fixed : ∀ i < 34, P i)
    (ports : 8 ≤ plLen → ∀ i < 4, P (pl + i)) : Within P (udpDemux frame pl plLen) := by
  unfold udpDemux
  split
  · simp
  · rename_i long
    have port := ports (by omega)
    have first : P pl := port 0 (by omega)
    simp only [within_bind, within_ite, within_u16, within_u32, within_pure]
    simp [fixed, port, first, Nat.add_assoc]

theorem tcpDemux_within {pl : Nat} {plLen : Int} (fixed : ∀ i < 34, P i) :
    Within P (tcpDemux frame pl plLen) := by
  unfold tcpDemux
  split <;> simp [fixed]

/-- The IP branch reads the first 34 bytes and, for UDP, the ports. -/
theorem ipDemux_within (inside : 34 ≤ len → ∀ i < 34, P i)
    (ports : HandsUp frame len → ∀ i < 4, P (14 + ipHdrLen frame + i)) :
    Within P (ipDemux frame len) := by
  unfold ipDemux
  split
  · simp
  · rename_i long
    have fixed := inside (by omega)
    have tcp (pl : Nat) (plLen : Int) : Within P (tcpDemux frame pl plLen) := tcpDemux_within fixed
    have udp (options : 14 + (ipHdrLen frame : Int) ≤ len) (version : frame 14 >>> 4 = 4)
        (proto : frame 23 = 17) : Within P (udpDemux frame (14 + ipHdrLen frame)
          ((ipTotLen frame : Int) - ipHdrLen frame)) :=
      udpDemux_within fixed fun room =>
        ports ⟨by omega, version, options, Or.inl ⟨proto, by omega⟩⟩
    simp only [within_bind, within_ite, within_u8, within_u16, within_pure, tcp]
    simp only [ipHdrLen, ipTotLen] at udp
    simp +contextual [fixed, udp]

theorem udpDemux_range {pl : Nat} {plLen : Int} {h : Handoff}
    (found : h ∈ (udpDemux frame pl plLen).val) :
    8 ≤ plLen ∧ ∃ r ∈ h.range, (r.1 : Int) + r.2 = pl + plLen := by
  simp only [udpDemux, val_ite, val_bind, val_pure] at found
  split at found
  · cases found
  · refine ⟨by omega, (pl + 8, plLen - 8), ?_, by dsimp only; omega⟩
    split at found
    · simp only [List.mem_cons, List.not_mem_nil, or_false] at found
      rcases found with rfl | rfl <;> rfl
    · cases List.mem_singleton.mp found
      rfl

theorem tcpDemux_range {pl : Nat} {plLen : Int} {h : Handoff}
    (found : h ∈ (tcpDemux frame pl plLen).val) :
    20 ≤ plLen ∧ ∃ r ∈ h.range, (r.1 : Int) + r.2 = pl + plLen := by
  simp only [tcpDemux, val_ite, val_bind, val_pure] at found
  split at found
  · cases found
  · cases List.mem_singleton.mp found
    exact ⟨by omega, (pl, plLen), rfl, rfl⟩

/-- Every payload the IP branch hands on ends where the IP header says. -/
theorem ipDemux_range {h : Handoff} (found : h ∈ (ipDemux frame len).val) :
    HandsUp frame len ∧ ∃ r ∈ h.range, (r.1 : Int) + r.2 = 14 + ipTotLen frame := by
  simp only [ipDemux, val_ite, val_bind, val_pure] at found
  split at found
  · cases found
  split at found
  · cases found
  split at found
  · cases found
  split at found
  · cases found
  rename_i header version options _
  have ends {r : Nat × Int} (stop : (r.1 : Int) + r.2 = (14 + ipHdrLen frame : Nat) +
      ((ipTotLen frame : Int) - ipHdrLen frame)) : (r.1 : Int) + r.2 = 14 + ipTotLen frame := by
    omega
  split at found
  · rename_i udp
    obtain ⟨room, r, hr, stop⟩ := udpDemux_range found
    have proto : ipHdrLen frame + 8 ≤ ipTotLen frame := by
      simp only [val_u8, val_u16] at room
      simp only [ipHdrLen, ipTotLen]
      omega
    exact ⟨⟨by omega, by simpa using version, by simpa [ipHdrLen] using options,
      Or.inl ⟨udp, proto⟩⟩, r, hr, ends stop⟩
  split at found
  · rename_i tcp
    obtain ⟨room, r, hr, stop⟩ := tcpDemux_range found
    have proto : ipHdrLen frame + 20 ≤ ipTotLen frame := by
      simp only [val_u8, val_u16] at room
      simp only [ipHdrLen, ipTotLen]
      omega
    exact ⟨⟨by omega, by simpa using version, by simpa [ipHdrLen] using options,
      Or.inr ⟨tcp, proto⟩⟩, r, hr, ends stop⟩
  · cases found

theorem udpDemux_hands {pl : Nat} {plLen : Int} (room : 8 ≤ plLen) :
    ∃ h, h ∈ (udpDemux frame pl plLen).val := by
  simp only [udpDemux, val_ite, val_bind, val_pure]
  rw [if_neg (by omega)]
  split
  · exact ⟨_, List.mem_cons_self ..⟩
  · exact ⟨_, List.mem_cons_self ..⟩

theorem tcpDemux_hands {pl : Nat} {plLen : Int} (room : 20 ≤ plLen) :
    ∃ h, h ∈ (tcpDemux frame pl plLen).val := by
  simp only [tcpDemux, val_ite, val_bind, val_pure]
  rw [if_neg (by omega)]
  exact ⟨_, List.mem_cons_self ..⟩

/-- Such a packet does hand something on. -/
theorem ipDemux_hands (up : HandsUp frame len) : ∃ h, h ∈ (ipDemux frame len).val := by
  obtain ⟨header, version, options, proto⟩ := up
  simp only [ipHdrLen, ipTotLen] at options proto
  simp only [ipDemux, val_ite, val_bind, val_pure]
  rw [if_neg (by omega), if_neg (by simpa using version), if_neg (by simpa using options),
    if_neg (by simp only [val_u8, val_u16]; omega)]
  rcases proto with ⟨udp, room⟩ | ⟨tcp, room⟩
  · rw [if_pos (by exact udp)]
    exact udpDemux_hands (by simp only [val_u8, val_u16]; omega)
  · have notUdp : frame 23 ≠ 17 := by rw [tcp]; decide
    rw [if_neg (by exact notUdp), if_pos (by exact tcp)]
    exact tcpDemux_hands (by simp only [val_u8, val_u16]; omega)

/-- The type field is read from a frame of at least 14 bytes. -/
theorem netRxDemux_within (long : 14 ≤ len → P 12 ∧ P 13)
    (arp : 14 ≤ len → Within P (arpDemux frame len))
    (ip : 14 ≤ len → etherType frame = 0x0800 → Within P (ipDemux frame len)) :
    Within P (netRxDemux frame len) := by
  unfold netRxDemux
  split
  · simp
  · have enough : 14 ≤ len := by omega
    simp only [within_bind, within_ite, within_u16, within_pure]
    exact ⟨long enough, fun _ => arp enough, fun _ => ⟨ip enough, fun _ => trivial⟩⟩

/-- What is handed on with a payload comes from the IP branch. -/
theorem netRxDemux_range {h : Handoff} {r : Nat × Int} (found : h ∈ (netRxDemux frame len).val)
    (hr : r ∈ h.range) : etherType frame = 0x0800 ∧ h ∈ (ipDemux frame len).val := by
  simp only [netRxDemux, val_ite, val_bind, val_pure] at found
  split at found
  · cases found
  split at found
  · rw [arpDemux_range found] at hr
    cases hr
  split at found
  · rename_i type
    exact ⟨type, found⟩
  · cases found

theorem netRxDemux_ip (long : 14 ≤ len) (type : etherType frame = 0x0800) :
    (netRxDemux frame len).val = (ipDemux frame len).val := by
  have notArp : etherType frame ≠ 0x0806 := by rw [type]; decide
  simp only [netRxDemux, val_ite, val_bind, val_pure]
  rw [if_neg (by omega), if_neg (by exact notArp), if_pos (by exact type)]

end

/-- All reads and payloads lie within the frame if and only if a frame that is
handed up is as long as its IP header says. -/
theorem inFrame_iff (frame : Mem) (len : Int) :
    InFrame frame len ↔
      (etherType frame = 0x0800 → HandsUp frame len → 14 + (ipTotLen frame : Int) ≤ len) := by
  constructor
  · intro ⟨_, payloads⟩ type up
    obtain ⟨h, found⟩ := ipDemux_hands up
    obtain ⟨_, r, hr, stop⟩ := ipDemux_range found
    have long : 14 ≤ len := by have := up.header; omega
    rw [← netRxDemux_ip long type] at found
    exact stop ▸ payloads h found r hr
  · intro covered
    constructor
    · refine netRxDemux_within (fun long => by omega) (fun _ => ?_) (fun _ type => ?_)
      · exact arpDemux_within fun _ i _ => by omega
      · refine ipDemux_within (fun _ i _ => by omega) fun up i hi => ?_
        have := covered type up
        have room : ipHdrLen frame + 8 ≤ ipTotLen frame := by
          rcases up.proto with ⟨_, room⟩ | ⟨_, room⟩ <;> omega
        omega
    · intro h found r hr
      obtain ⟨type, found⟩ := netRxDemux_range found hr
      obtain ⟨up, r', hr', stop⟩ := ipDemux_range found
      have same : r = r' := Option.some.inj (hr.symm.trans hr')
      rw [same, stop]
      exact covered type up

/-- 42 bytes: a UDP datagram from port 53 in an IP packet that claims 1000. -/
def shortFrame : List UInt8 :=
  List.replicate 12 0 ++ [0x08, 0x00, 0x45, 0, 0x03, 0xE8, 0, 1, 0, 0, 64, 17, 0, 0, 10, 0, 2, 3,
    10, 0, 2, 15, 0, 53, 0xC3, 0x50, 0x03, 0xD4, 0, 0]

/-- The 972 bytes handed on would begin right behind the frame. -/
theorem shortFrame_overrun : ¬ InFrame (.ofList shortFrame) 42 := by
  intro ⟨_, payloads⟩
  have found : Handoff.udpOnDatagram 0x0A000203 53 42 972 ∈
      (netRxDemux (.ofList shortFrame) 42).val := by
    decide +kernel
  exact absurd (payloads _ found (42, 972) rfl) (by decide)

end MyOS
