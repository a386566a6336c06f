import MyOS.Net.Pending
import MyOS.Tcp.Peer
import MyOS.Tcp.Sends

/-!
# Headers shorter than a header

The IHL and the data offset are compared with the length of the packet, and
neither with the 20 bytes the fixed header takes.
-/

namespace MyOS.Headers

open Traced

/-! ## What is handed on -/

/-- Where the datagram or segment begins whose bytes are handed on. -/
def packetAt : Handoff → Option Nat
  | .arp .. => none
  | .dnsOnResponse _ start _ => some (start - 8)
  | .udpOnDatagram _ _ start _ => some (start - 8)
  | .tcpOnRx _ _ start _ => some start

/-- Where a frame has its TCP segment. -/
def segmentOf (frame : Mem) : Mem := frame.advance (14 + ipHdrLen frame)

def segmentLen (frame : Mem) : Int := ipTotLen frame - ipHdrLen frame

/-- An IP packet that reaches a transport protocol. -/
def Reaches (frame : Mem) (len : Int) : Prop := etherType frame = 0x0800 ∧ HandsUp frame len

/-- An IP packet of which one header is said to be shorter than it is. -/
def ShortHeader (frame : Mem) : Prop :=
  etherType frame = 0x0800 ∧
    (ipHdrLen frame < 20 ∨ frame 23 = 6 ∧ tcpHdrLen (segmentOf frame) < 20)

section
variable {frame : Mem} {len : Int}

theorem demux_unreached (unreached : ¬ Reaches frame len) {h : Handoff}
    (found : h ∈ (netRxDemux frame len).val) : h.range = none := by
  by_contra some
  obtain ⟨r, hr⟩ := Option.ne_none_iff_exists'.mp some
  obtain ⟨type, found⟩ := netRxDemux_range found hr
  exact unreached ⟨type, (ipDemux_range found).1⟩

/-- A packet that reaches UDP or TCP is handed on from behind its IP header. -/
theorem demux_reached (reached : Reaches frame len) :
    (netRxDemux frame len).val =
      if frame 23 = 17 then
        (udpDemux frame (14 + ipHdrLen frame) (segmentLen frame)).val
      else [.tcpOnRx (ntohl (frame.load32 26)) (ntohl (frame.load32 30)) (14 + ipHdrLen frame)
        (segmentLen frame)] := by
  obtain ⟨type, header, version, options, proto⟩ := reached
  rw [netRxDemux_ip (by omega) type]
  simp only [ipHdrLen] at options
  simp only [ipDemux, val_ite, val_bind, val_pure]
  rw [if_neg (by omega), if_neg (by exact not_not.mpr version),
    if_neg (by exact not_lt.mpr options)]
  have room : ¬ (((ntohs (frame.load16 16)).toNat : Int) - (ihlBytes (frame 14) : Nat) < 0) := by
    simp only [ipHdrLen, ipTotLen] at proto
    omega
  rw [if_neg (by exact room)]
  by_cases udp : frame 23 = 17
  · rw [if_pos (by exact udp), if_pos udp]
    rfl
  · rw [if_neg (by exact udp), if_neg udp]
    obtain ⟨tcp, long⟩ : frame 23 = 6 ∧ ipHdrLen frame + 20 ≤ ipTotLen frame := by
      rcases proto with ⟨udp', -⟩ | tcp
      · exact absurd udp' udp
      · exact tcp
    rw [if_pos (by exact tcp)]
    simp only [tcpDemux, val_ite, val_bind, val_pure]
    simp only [ipHdrLen, ipTotLen] at long
    rw [if_neg (by simp only [val_u8, val_u16]; omega)]
    rfl

theorem udpDemux_packetAt {pl : Nat} {plLen : Int} {h : Handoff}
    (found : h ∈ (udpDemux frame pl plLen).val) : packetAt h = some pl := by
  simp only [udpDemux, val_ite, val_bind, val_pure] at found
  split at found
  · cases found
  · split at found
    · simp only [List.mem_cons, List.not_mem_nil, or_false] at found
      rcases found with rfl | rfl <;> rfl
    · rw [List.mem_singleton.mp found]
      rfl

theorem reached_packetAt (reached : Reaches frame len) {h : Handoff}
    (found : h ∈ (netRxDemux frame len).val) : packetAt h = some (14 + ipHdrLen frame) := by
  rw [demux_reached reached] at found
  split at found
  · exact udpDemux_packetAt found
  · rw [List.mem_singleton.mp found]
    rfl

theorem packetAt_none {h : Handoff} (bare : h.range = none) : packetAt h = none := by
  cases h with
  | arp => rfl
  | dnsOnResponse | udpOnDatagram | tcpOnRx => cases bare

/-- All packets begin behind a whole IP header if and only if one that reaches a
transport protocol has an IHL of 20 bytes at least. -/
theorem starts_iff : (∀ h ∈ (netRxDemux frame len).val, ∀ off ∈ packetAt h, 34 ≤ off) ↔
    (Reaches frame len → 20 ≤ ipHdrLen frame) := by
  constructor
  · intro starts reached
    obtain ⟨h, found⟩ := ipDemux_hands reached.2
    rw [← netRxDemux_ip (by have := reached.2.header; omega) reached.1] at found
    have := starts h found _ (reached_packetAt reached found)
    omega
  · intro long h found off at_off
    by_cases reached : Reaches frame len
    · rw [reached_packetAt reached found] at at_off
      have := long reached
      have := Option.some.inj at_off
      omega
    · rw [packetAt_none (demux_unreached reached found)] at at_off
      cases at_off

end

/-! ## Segments that change nothing -/

/-- In its state the connection has no use for the segment. -/
def Ignores (g : TcpSocket) (th : Segment) : Prop :=
  th.rst = false ∧ match g.state with
    | .synSent => th.synAck = false
    | .established => ¬ g.inOrder th ∧ th.fin = false
    | .finWait1 => th.hasAck = false
    | .finWait2 => th.fin = false
    | _ => True

theorem tcpInput_ignores {k : Kernel} {th : Segment} (ignores : Ignores (k.sock .gSock) th) :
    tcpInput k th = k := by
  obtain ⟨noRst, rest⟩ := ignores
  simp only [tcpInput, noRst, Bool.false_eq_true, ↓reduceIte]
  cases state : (k.sock .gSock).state with
  | closed | timeWait => rfl
  | synSent | finWait1 | finWait2 =>
    rw [state] at rest
    simp only at rest
    simp [rest]
  | established =>
    rw [state] at rest
    simp only at rest
    simp only [if_neg rest.1, rest.2, Bool.false_eq_true, ↓reduceIte]

theorem ignores_of_tcpInput {k : Kernel} {th : Segment} (used : (k.sock .gSock).inUse = true)
    (same : tcpInput k th = k) : Ignores (k.sock .gSock) th := by
  have record := sock_tcpInput k th
  have silent := (tcpInput_emits k th).sent
  rw [same] at record silent
  have nothing : (k.sock .gSock).answers th = [] := by
    apply List.map_eq_nil_iff.mp
    exact List.append_cancel_left (silent.symm.trans (List.append_nil _).symm)
  generalize k.sock .gSock = g at record nothing used ⊢
  have noRst : th.rst = false := by
    by_contra reset
    rw [TcpSocket.onSegment, if_pos (by simpa using reset)] at record
    rw [record] at used
    cases used
  refine ⟨noRst, ?_⟩
  simp only [TcpSocket.onSegment, TcpSocket.answers, noRst, Bool.false_eq_true, ↓reduceIte]
    at record nothing
  cases state : g.state with
  | closed | timeWait => trivial
  | synSent =>
    rw [state] at nothing
    simpa using nothing
  | established =>
    rw [state] at nothing
    simpa using nothing
  | finWait1 =>
    rw [state] at record
    by_contra acked
    simp only at record
    rw [if_pos (by simpa using acked)] at record
    rw [record] at state
    cases state
  | finWait2 =>
    rw [state] at nothing
    simpa using nothing

/-! ## One frame -/

/-- A handed-on packet begins behind a whole IP header, bytes are appended to the
receive buffer from behind a whole TCP header only, and a packet with a header
said to be shorter changes nothing. -/
structure HeadersKept (k : Kernel) (frame : Mem) (len : Int) : Prop where
  starts : ∀ h ∈ (netRxDemux frame len).val, ∀ off ∈ packetAt h, 34 ≤ off
  appended : (k.sock .gSock).rxLen < ((netRx k frame len).sock .gSock).rxLen →
    20 ≤ tcpHdrLen (segmentOf frame)
  unchanged : ShortHeader frame → netRx k frame len = k

/-- A packet that reaches a transport protocol has a whole IP header, and a
segment for the connection whose TCP header is too short is one it ignores. -/
def Harmless (k : Kernel) (frame : Mem) (len : Int) : Prop :=
  Reaches frame len → 20 ≤ ipHdrLen frame ∧
    (frame 23 = 6 → tcpHdrLen (segmentOf frame) < 20 →
      addressed (k.sock .gSock) (segmentOf frame) (segmentLen frame)
        (ntohl (frame.load32 26)) = true →
      Ignores (k.sock .gSock) (tcpDecode (segmentOf frame) (segmentLen frame)))

section
variable {k : Kernel} {frame : Mem} {len : Int}

theorem netRx_segment (reached : Reaches frame len) (tcp : frame 23 = 6) :
    netRx k frame len = tcpOnRx k (segmentOf frame) (segmentLen frame) (ntohl (frame.load32 26))
      (ntohl (frame.load32 30)) := by
  have notUdp : frame 23 ≠ 17 := by rw [tcp]; decide
  rw [netRx, demux_reached reached, if_neg notUdp]
  rfl

theorem foldl_deliver_tcp {hs : List Handoff}
    (other : ∀ h ∈ hs, ∀ src dst start length, h ≠ .tcpOnRx src dst start length) :
    (hs.foldl (deliver frame) k).tcp = k.tcp := by
  induction hs generalizing k with
  | nil => rfl
  | cons h hs ih =>
    have same : (deliver frame k h).tcp = k.tcp := by
      cases h with
      | tcpOnRx src dst start length =>
        exact (other (.tcpOnRx src dst start length) List.mem_cons_self src dst start
          length rfl).elim
      | arp | dnsOnResponse | udpOnDatagram => rw [deliver]
    exact (ih fun h mem => other h (List.mem_cons_of_mem _ mem)).trans same

/-- Only a TCP segment reaches the socket. -/
theorem netRx_tcp (bare : ¬ (Reaches frame len ∧ frame 23 = 6)) :
    (netRx k frame len).tcp = k.tcp := by
  apply foldl_deliver_tcp
  rintro h found src dst start length rfl
  by_cases reached : Reaches frame len
  · rw [demux_reached reached] at found
    split at found
    · simp only [udpDemux, val_ite, val_bind, val_pure] at found
      repeat' split at found
      all_goals simp at found
    · rename_i notUdp
      rcases reached.2.proto with ⟨udp, -⟩ | ⟨tcp, -⟩
      · exact notUdp udp
      · exact bare ⟨reached, tcp⟩
  · cases demux_unreached reached found

/-- An IP packet that reaches nobody changes nothing. -/
theorem netRx_unreached (type : etherType frame = 0x0800) (unreached : ¬ Reaches frame len) :
    netRx k frame len = k := by
  have nothing : (netRxDemux frame len).val = [] := by
    apply List.eq_nil_iff_forall_not_mem.mpr
    intro h found
    have bare := demux_unreached unreached found
    by_cases long : 14 ≤ len
    · rw [netRxDemux_ip long type] at found
      obtain ⟨-, r, hr, -⟩ := ipDemux_range found
      rw [bare] at hr
      cases hr
    · rw [netRxDemux, if_pos (by omega)] at found
      cases found
  rw [netRx, nothing, List.foldl_nil]

theorem segment_ignored (harmless : Harmless k frame len) (reached : Reaches frame len)
    (tcp : frame 23 = 6) (short : tcpHdrLen (segmentOf frame) < 20) : netRx k frame len = k := by
  rw [netRx_segment reached tcp, tcpOnRx]
  split
  · rename_i passes
    exact tcpInput_ignores ((harmless reached).2 tcp short passes)
  · rfl

/-- For every frame in every state: the headers are kept if and only if no
packet that gets through has a short IP header, and the connection ignores the
segments that have a short TCP header. -/
theorem headersKept_iff (k : Kernel) (frame : Mem) (len : Int) :
    HeadersKept k frame len ↔ Harmless k frame len := by
  constructor
  · intro kept reached
    refine ⟨starts_iff.mp kept.starts reached, ?_⟩
    intro tcp short passes
    have same := kept.unchanged ⟨reached.1, .inr ⟨tcp, short⟩⟩
    rw [netRx_segment reached tcp, tcpOnRx, if_pos passes] at same
    have used : (k.sock .gSock).inUse = true := by
      by_contra idle
      simp [addressed, idle] at passes
    exact ignores_of_tcpInput used same
  · intro harmless
    constructor
    · exact starts_iff.mpr fun reached => (harmless reached).1
    · intro grows
      by_contra short
      have same : (netRx k frame len).tcp = k.tcp := by
        by_cases segment : Reaches frame len ∧ frame 23 = 6
        · rw [segment_ignored harmless segment.1 segment.2 (not_le.mp short)]
        · exact netRx_tcp segment
      rw [Kernel.sock, Kernel.sock, same] at grows
      exact lt_irrefl _ grows
    · rintro ⟨type, short⟩
      by_cases reached : Reaches frame len
      · rcases short with ip | ⟨tcp, short⟩
        · exact absurd (harmless reached).1 (not_le.mpr ip)
        · exact segment_ignored harmless reached tcp short
      · exact netRx_unreached type reached

end

/-! ## Two frames for the open connection -/

/-- A segment of the peer in an IP packet with the given first byte. -/
def peerFrame (verIhl : UInt8) (totLen : UInt16) (segment : List UInt8) : List UInt8 :=
  List.replicate 12 0 ++ bytes16 (htons 0x0800) ++ [verIhl, 0] ++ bytes16 (htons totLen) ++
    bytes16 0 ++ bytes16 0 ++ [64, 6] ++ bytes16 0 ++ bytes32 (htonl 0x0A000202) ++
    segment

/-- A header alone, of which byte 12 says that it has no length. -/
def bareHeader : List UInt8 :=
  bytes32 (htonl 0x0A00020F) ++ bytes16 (htons 80) ++ bytes16 (htons 4000) ++ bytes32 (htonl 8) ++
    bytes32 (htonl 0x12341001) ++ [0x00, 0x10] ++ bytes16 (htons 4096) ++ bytes16 0 ++ bytes16 0

/-- The destination address, read as the ports and the start of a segment. -/
def overlapping : List UInt8 :=
  bytes16 (htons 80) ++ bytes16 (htons 4000) ++ List.replicate 8 0 ++ [0x50, 0x04] ++
    List.replicate 6 0

/-- A header with the data offset 0 is read by the application, and an RST whose
ports stand in the destination field closes the connection. -/
theorem headers_read_as_data :
    (tcpRecv (netRx openKernel (.ofList (peerFrame 0x45 40 bareHeader)) 54) .gSock 64).2 =
        bareHeader.drop 4 ∧
      ¬ HeadersKept openKernel (.ofList (peerFrame 0x45 40 bareHeader)) 54 ∧
      ¬ HeadersKept openKernel (.ofList (peerFrame 0x44 36 overlapping)) 50 := by
  refine ⟨by decide +kernel, ?_, ?_⟩
  · intro kept
    have grown : 20 ≤ tcpHdrLen (segmentOf (.ofList (peerFrame 0x45 40 bareHeader))) :=
      kept.appended (by decide +kernel)
    exact absurd grown (by decide +kernel)
  · intro kept
    have found : Handoff.tcpOnRx 0x0A000202 0x00500FA0 30 20 ∈
        (netRxDemux (.ofList (peerFrame 0x44 36 overlapping)) 50).val := by
      decide +kernel
    exact absurd (kept.starts _ found 30 rfl) (by decide)

end MyOS.Headers
