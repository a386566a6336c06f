import MyOS.Base.Runs
import MyOS.Tcp.Peer

/-!
# The caller's socket and `g_sock`

`tcp_connect` fills in the caller's socket and copies it to `g_sock` once.
Afterwards the receive path moves `g_sock` and the calls move the caller's
socket, so two different objects part at the first step that moves either.
-/

namespace MyOS.Copies

open Runs

/-- The two records agree in what the connection is about. -/
def Agree (a b : TcpSocket) : Prop :=
  a.inUse = b.inUse ∧ a.state = b.state ∧ a.sndNxt = b.sndNxt ∧ a.rcvNxt = b.rcvNxt ∧
    a.rxLen = b.rxLen

instance (a b : TcpSocket) : Decidable (Agree a b) :=
  inferInstanceAs (Decidable (_ ∧ _ ∧ _ ∧ _ ∧ _))

/-- Through `s` the caller sees the connection the receive path maintains. -/
structure Sees (s : SockRef) (k : Kernel) : Prop where
  agree : Agree (k.sock s) (k.sock .gSock)
  sends : (k.sock .gSock).state = .established →
    ∀ data, data ≠ [] → (tcpSend k s data).2 = data.length
  receives : ∀ maxlen : Nat, (k.sock .gSock).rxLen ≤ maxlen →
    (tcpRecv k s maxlen).2 = k.tcp.rb.load 0 (k.sock .gSock).rxLen.toNat

theorem tcpSend_succeeds {k : Kernel} {s : SockRef} {data : List UInt8}
    (est : (k.sock s).state = .established) (some : data ≠ []) :
    (tcpSend k s data).2 = data.length := by
  simp [tcpSend, est, some]

theorem tcpRecv_all {k : Kernel} {s : SockRef} {maxlen : Nat}
    (room : (k.sock s).rxLen ≤ maxlen) :
    (tcpRecv k s maxlen).2 = k.tcp.rb.load 0 (k.sock s).rxLen.toNat := by
  simp only [tcpRecv]
  split
  · rename_i empty
    rw [Int.toNat_eq_zero.mpr empty, Mem.load_zero]
  · have all : (if (maxlen : Int) > (k.sock s).rxLen then (k.sock s).rxLen.toNat else maxlen) =
        (k.sock s).rxLen.toNat := by
      split
      · rfl
      · omega
    rw [all]

/-- The rest follows from the agreement of the records. -/
theorem sees_of_agree {s : SockRef} {k : Kernel} (agree : Agree (k.sock s) (k.sock .gSock)) :
    Sees s k := by
  refine ⟨agree, fun est data some => ?_, fun maxlen room => ?_⟩
  · exact tcpSend_succeeds (agree.2.1.trans est) some
  · rw [tcpRecv_all (agree.2.2.2.2 ▸ room), agree.2.2.2.2]

/-- Both objects still hold what `tcp_connect` put there. -/
def Untouched (s : SockRef) (k : Kernel) : Prop :=
  k.sock s = k.sock .gSock ∧ (k.sock .gSock).inUse = true ∧
    (k.sock .gSock).state = .synSent ∧ (k.sock .gSock).rxLen = 0

/-- The step moves neither object: no segment that opens or resets the
connection, and no close. -/
def MovesNothing (k : Kernel) : TcpEvent → Prop
  | .rx ipPkt ipLen srcIp _ =>
    addressed (k.sock .gSock) ipPkt ipLen srcIp = true →
      (tcpDecode ipPkt ipLen).rst = false ∧ (tcpDecode ipPkt ipLen).synAck = false
  | .close => False
  | _ => True

def NoConnect : TcpEvent → Prop
  | .connect .. => False
  | _ => True

theorem untouched_step {s : SockRef} (apart : s ≠ .gSock) (k : Kernel) (e : TcpEvent)
    (later : NoConnect e) (same : Untouched s k) (still : MovesNothing k e) :
    Untouched s (tcpStep s k e) := by
  obtain ⟨eq, inUse, waiting, empty⟩ := same
  cases e with
  | connect => exact later.elim
  | rx ipPkt ipLen srcIp dstIp =>
    have here : (tcpStep s k (.rx ipPkt ipLen srcIp dstIp)).sock .gSock = k.sock .gSock := by
      rw [tcpStep, sock_tcpOnRx]
      split
      · rename_i passes
        obtain ⟨noRst, noSyn⟩ := still passes
        simp [TcpSocket.onSegment, noRst, noSyn, waiting]
      · rfl
    have there : (tcpStep s k (.rx ipPkt ipLen srcIp dstIp)).sock s = k.sock s :=
      sock_tcpOnRx_of_ne k ipPkt ipLen srcIp dstIp apart
    exact ⟨by rw [here, there, eq], by rwa [here], by rwa [here], by rwa [here]⟩
  | send data =>
    have refused : tcpSend k s data = (k, -1) := by simp [tcpSend, eq, waiting]
    simpa [tcpStep, refused] using ⟨eq, inUse, waiting, empty⟩
  | recv maxlen =>
    have nothing : tcpRecv k s maxlen = (k, []) := by simp [tcpRecv, eq, empty]
    simpa [tcpStep, nothing] using ⟨eq, inUse, waiting, empty⟩
  | close => exact still.elim

/-- A step that moves one of two different objects makes them disagree. -/
theorem moved_disagrees {s : SockRef} (apart : s ≠ .gSock) (k : Kernel) (e : TcpEvent)
    (same : Untouched s k) (moved : ¬ MovesNothing k e) :
    ¬ Agree ((tcpStep s k e).sock s) ((tcpStep s k e).sock .gSock) := by
  obtain ⟨eq, inUse, waiting, _⟩ := same
  cases e with
  | connect | send | recv => exact absurd trivial moved
  | rx ipPkt ipLen srcIp dstIp =>
    simp only [MovesNothing, Classical.not_imp] at moved
    obtain ⟨passes, opensOrResets⟩ := moved
    rw [tcpStep, sock_tcpOnRx_of_ne _ _ _ _ _ apart, sock_tcpOnRx, if_pos passes, eq]
    intro agree
    cases rst : (tcpDecode ipPkt ipLen).rst with
    | true => simp [Agree, TcpSocket.onSegment, rst, inUse] at agree
    | false =>
      have syn : (tcpDecode ipPkt ipLen).synAck = true := by simpa [rst] using opensOrResets
      simp [Agree, TcpSocket.onSegment, rst, syn, waiting] at agree
  | close =>
    intro agree
    have closes : tcpClose k s =
        (k.setSock s { k.sock s with inUse := false, state := .closed }, 0) := by
      simp [tcpClose, eq, inUse, waiting]
    rw [tcpStep, closes, setSock_same, setSock_of_ne _ _ (Ne.symm apart)] at agree
    simp [Agree, inUse] at agree

/-- The caller sees the connection throughout if and only if its socket is
`g_sock` itself, or nothing ever moves the connection after `tcp_connect`. -/
theorem sees_along_iff (k₀ : Kernel) (s : SockRef) (dstIp : UInt32) (dstPort srcPort : UInt16)
    (success : (tcpConnect k₀ s dstIp dstPort srcPort).2 = 0) (es : List TcpEvent)
    (later : ∀ e ∈ es, NoConnect e) :
    Along (tcpStep s) (Sees s) (tcpConnect k₀ s dstIp dstPort srcPort).1 es ↔
      s = .gSock ∨ Steps (tcpStep s) MovesNothing (tcpConnect k₀ s dstIp dstPort srcPort).1 es := by
  have idle : (k₀.sock .gSock).inUse = false := by
    cases busy : (k₀.sock .gSock).inUse with
    | true => simp [tcpConnect, busy] at success
    | false => rfl
  by_cases one : s = .gSock
  · subst one
    refine ⟨fun _ => Or.inl rfl, fun _ => ?_⟩
    exact along_all fun k => sees_of_agree ⟨rfl, rfl, rfl, rfl, rfl⟩
  · obtain ⟨here, there⟩ := @sock_tcpConnect k₀ s dstIp dstPort srcPort idle
    have exact := along_iff_steps (P := Sees s) (untouched_step one)
      (fun k same => sees_of_agree (by rw [same.1]; exact ⟨rfl, rfl, rfl, rfl, rfl⟩))
      (fun k e _ same moved sees => moved_disagrees one k e same moved sees.agree)
      later ⟨there.trans here.symm, by rw [here]; rfl, by rw [here]; rfl, by rw [here]; rfl⟩
    rw [exact]
    exact ⟨Or.inr, fun h => h.resolve_left one⟩

/-- A connection used through `g_sock`: opened, written to, read and closed. -/
theorem sees_through_gSock :
    Along (tcpStep .gSock) (Sees .gSock) (tcpConnect .boot .gSock 0x0A000202 80 4000).1
      [rxAtOpen 0x12 7 [], .send [71, 69, 84], rxAtOpen 0x18 8 [79, 75], .recv 1, .close] :=
  (sees_along_iff .boot .gSock 0x0A000202 80 4000 rfl _ (by simp [NoConnect, rxAtOpen])).mpr
    (Or.inl rfl)

/-- Through a socket of its own the caller never sees the connection open, as
in `tls_http_get_by_ip`. -/
theorem own_socket_stays_synSent :
    (tcpConnect .boot (.heap 0x02000000) 0x0A000202 443 0).2 = 0 ∧
    ¬ Along (tcpStep (.heap 0x02000000)) (Sees (.heap 0x02000000))
      (tcpConnect .boot (.heap 0x02000000) 0x0A000202 443 0).1
      [.rx (.ofList (peerBytes 443 40000 7 0x12341001 0x12 [])) 20 0x0A000202 0x0A00020F] := by
  refine ⟨rfl, fun along => ?_⟩
  have agree := (along_start along.2).agree
  revert agree
  decide +kernel

end MyOS.Copies
