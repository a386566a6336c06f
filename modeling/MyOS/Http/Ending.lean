import MyOS.Base.Runs
import MyOS.Http.Receive
import MyOS.Tcp.Handshake
import MyOS.Tcp.Peer

/-!
# Whether the readers notice the end of a connection

A connection ends in `TCP_FIN_WAIT1`, `TCP_FIN_WAIT2` or `TCP_TIME_WAIT`, or in
`TCP_CLOSED` when the peer resets it. The loop of http.c forgets the last one;
`net_recv` does not look at the state at all.
-/

namespace MyOS.Ending

open Runs

/-- The connection has been established since the last successful connect. -/
def openedAfter (opened : Bool) (k k' : Kernel) : TcpEvent → Bool
  | .connect .. => if (k.sock .gSock).inUse then opened else false
  | _ => opened || (k'.sock .gSock).state == .established

/-- A call, with whether the connection has been established. The owner uses
the socket `s`: `g_sock` in http.c, one of its own in tls_mbedtls.c. -/
def watch (s : SockRef) (w : Kernel × Bool) (e : TcpEvent) : Kernel × Bool :=
  (tcpStep s w.1 e, openedAfter w.2 w.1 (tcpStep s w.1 e) e)

/-- The connection was established, nothing is left to read, and no segment can
add to it any more. -/
def Ended (w : Kernel × Bool) : Prop :=
  w.2 = true ∧ (w.1.sock .gSock).rxLen = 0 ∧ (w.1.sock .gSock).state ≠ .established

instance (w : Kernel × Bool) : Decidable (Ended w) := inferInstanceAs (Decidable (_ ∧ _ ∧ _))

/-- The receive loop stops at its next check. -/
def HttpStops (k : Kernel) : Prop :=
  ∀ raw, raw.length < rawCap - 1 → (httpCheck k raw).2.2 = true

/-- Both readers report the end. -/
structure Reported (s : SockRef) (k : Kernel) : Prop where
  http : HttpStops k
  tls : ∀ len, (netRecv k s len).2 ≠ .wantRead

/-- An established connection does not go back to waiting for its SYN+ACK, and
a socket of the owner's own never holds a byte. -/
structure Inv (s : SockRef) (w : Kernel × Bool) : Prop where
  past : w.2 = true → (w.1.sock .gSock).state ≠ .synSent
  own : s = .gSock ∨ (w.1.sock s).rxLen = 0

theorem onSegment_past {g : TcpSocket} (past : g.state ≠ .synSent) (th : Segment) :
    (g.onSegment th).state ≠ .synSent := by
  unfold TcpSocket.onSegment
  split
  · simp
  · cases state : g.state with
    | synSent => exact absurd state past
    | closed | timeWait => simp [state]
    | established => dsimp only; split <;> simp [TcpSocket.takeFin, state]
    | finWait1 => dsimp only; split <;> simp [state]
    | finWait2 => dsimp only; split <;> simp [state]

theorem onClose_past {g : TcpSocket} (past : g.state ≠ .synSent) : g.onClose.state ≠ .synSent := by
  rcases Handshake.onClose_state g with same | half | closed
  · rwa [same]
  · simp [half]
  · simp [closed]

/-- No step but a connect leads to `TCP_SYN_SENT`. -/
theorem step_past {s : SockRef} {k : Kernel} (past : (k.sock .gSock).state ≠ .synSent)
    {e : TcpEvent} (later : ∀ ip dport sport, e ≠ .connect ip dport sport) :
    ((tcpStep s k e).sock .gSock).state ≠ .synSent := by
  have received (ipPkt : Mem) (ipLen : Int) (srcIp dstIp : UInt32) :
      ((tcpOnRx k ipPkt ipLen srcIp dstIp).sock .gSock).state ≠ .synSent := by
    rw [sock_tcpOnRx]
    split
    · exact onSegment_past past _
    · exact past
  by_cases own : s = .gSock
  · subst own
    cases e with
    | connect ip dport sport => exact absurd rfl (later ip dport sport)
    | rx ipPkt ipLen srcIp dstIp => exact received ipPkt ipLen srcIp dstIp
    | send data => rw [sock_tcpStep, Handshake.onSend_state]; exact past
    | recv maxlen => rw [sock_tcpStep, Handshake.onRecv_state]; exact past
    | close => rw [sock_tcpStep]; exact onClose_past past
  · have other : SockRef.gSock ≠ s := Ne.symm own
    cases e with
    | connect ip dport sport => exact absurd rfl (later ip dport sport)
    | rx ipPkt ipLen srcIp dstIp => exact received ipPkt ipLen srcIp dstIp
    | send data => rw [tcpStep, sock_tcpSend_of_ne other]; exact past
    | recv maxlen => rw [tcpStep, sock_tcpRecv_of_ne other]; exact past
    | close => rw [tcpStep, sock_tcpClose_of_ne other]; exact past

/-- The receive path fills the buffer of `g_sock` only. -/
theorem step_own {s : SockRef} {k : Kernel} (own : s = .gSock ∨ (k.sock s).rxLen = 0)
    (e : TcpEvent) : s = .gSock ∨ ((tcpStep s k e).sock s).rxLen = 0 := by
  by_cases same : s = .gSock
  · exact Or.inl same
  · have empty := own.resolve_left same
    apply Or.inr
    cases e with
    | connect ip dport sport =>
      cases busy : (k.sock .gSock).inUse with
      | true => rw [tcpStep, tcpConnect_busy k s busy]; exact empty
      | false => rw [tcpStep, (sock_tcpConnect k s busy).2]; rfl
    | rx => rw [tcpStep, sock_tcpOnRx_of_ne _ _ _ _ _ same]; exact empty
    | send data => rw [tcpStep, sock_tcpSend, TcpSocket.onSend_frame]; exact empty
    | recv maxlen => rw [tcpStep, sock_tcpRecv]; simp [TcpSocket.onRecv, empty]
    | close =>
      rw [tcpStep, sock_tcpClose]
      unfold TcpSocket.onClose
      split
      · exact empty
      · split <;> exact empty

theorem watch_inv {s : SockRef} (w : Kernel × Bool) (e : TcpEvent) (inv : Inv s w) :
    Inv s (watch s w e) where
  own := step_own inv.own e
  past := by
    intro opened
    by_cases later : ∀ ip dport sport, e ≠ .connect ip dport sport
    · have either : w.2 = true ∨ ((tcpStep s w.1 e).sock .gSock).state = .established := by
        cases e with
        | connect ip dport sport => exact absurd rfl (later ip dport sport)
        | rx | send | recv | close => simpa [watch, openedAfter] using opened
      rcases either with before | now
      · exact step_past (inv.past before) later
      · simp [watch, now]
    · simp only [not_forall, not_not] at later
      obtain ⟨ip, dport, sport, rfl⟩ := later
      simp only [watch, openedAfter] at opened
      split at opened
      · rename_i busy
        simp only [watch, tcpStep, tcpConnect_busy w.1 s busy]
        exact inv.past opened
      · cases opened

/-- The loop stops in the closing states, and in no other. -/
theorem httpStops_iff {k : Kernel} (empty : (k.sock .gSock).rxLen = 0) :
    HttpStops k ↔ httpClosing (k.sock .gSock).state = true := by
  have check (raw : List UInt8) := httpCheck_empty (Int.le_of_eq empty) raw
  constructor
  · intro stops
    have first := stops [] (by decide)
    rwa [check] at first
  · intro closing raw _
    rw [check]
    exact closing

/-- Once a connection has ended, `net_recv` goes on asking for more in every
state, and the loop of http.c runs on exactly after a reset or a close. So the
end is never reported by both. -/
theorem end_unreported (k₀ : Kernel) (s : SockRef) (dstIp : UInt32) (dstPort srcPort : UInt16)
    (success : (tcpConnect k₀ s dstIp dstPort srcPort).2 = 0) (es : List TcpEvent) :
    Along (watch s)
      (fun w => Ended w → ¬ Reported s w.1 ∧ (∀ len, (netRecv w.1 s len).2 = .wantRead) ∧
        (HttpStops w.1 ↔ (w.1.sock .gSock).state ≠ .closed))
      ((tcpConnect k₀ s dstIp dstPort srcPort).1, false) es := by
  have idle : (k₀.sock .gSock).inUse = false := by
    cases busy : (k₀.sock .gSock).inUse with
    | true => simp [tcpConnect, busy] at success
    | false => rfl
  have start : Inv s ((tcpConnect k₀ s dstIp dstPort srcPort).1, false) := by
    refine ⟨by simp, Or.inr ?_⟩
    rw [(sock_tcpConnect k₀ s idle).2]
    rfl
  have kept : Along (watch s) (Inv s) ((tcpConnect k₀ s dstIp dstPort srcPort).1, false) es :=
    along_keep watch_inv start
  refine along_mono kept fun w inv ended => ?_
  obtain ⟨opened, empty, notOpen⟩ := ended
  have nothing : (w.1.sock s).rxLen ≤ 0 := by
    rcases inv.own with rfl | own
    · exact Int.le_of_eq empty
    · exact Int.le_of_eq own
  have wants (len : Nat) : (netRecv w.1 s len).2 = .wantRead := by rw [netRecv_empty nothing]
  refine ⟨fun reported => reported.tls 1 (wants 1), wants, ?_⟩
  have past := inv.past opened
  rw [httpStops_iff empty]
  cases state : (w.1.sock .gSock).state with
  | closed => simp [httpClosing]
  | synSent => exact absurd state past
  | established => exact absurd state notOpen
  | finWait1 | finWait2 | timeWait => simp [httpClosing]

/-- A connection through `g_sock` that the server closes after its answer has
been read. -/
theorem end_unreported_fin :
    Along (watch .gSock)
      (fun w => Ended w → ¬ Reported .gSock w.1 ∧
        (∀ len, (netRecv w.1 .gSock len).2 = .wantRead) ∧
        (HttpStops w.1 ↔ (w.1.sock .gSock).state ≠ .closed))
      ((tcpConnect .boot .gSock 0x0A000202 80 4000).1, false)
      [rxAtOpen 0x12 7 [], rxAtOpen 0x18 8 [79, 75], .recv 2, rxAtOpen 0x11 10 []] :=
  end_unreported .boot .gSock 0x0A000202 80 4000 rfl _

/-- The server opens the connection and resets it: neither reader notices. -/
theorem reset_unnoticed :
    let w := [rxAtOpen 0x12 7 [], rxAtOpen 0x14 8 []].foldl (watch .gSock)
      ((tcpConnect .boot .gSock 0x0A000202 80 4000).1, false)
    Ended w ∧ ¬ HttpStops w.1 ∧ ¬ Reported .gSock w.1 := by
  intro w
  have ended : Ended w := by decide +kernel
  have closed : (w.1.sock .gSock).state = .closed := by decide +kernel
  have runs : ¬ HttpStops w.1 := by
    rw [httpStops_iff ended.2.1, closed]
    decide
  exact ⟨ended, runs, fun reported => runs reported.http⟩

end MyOS.Ending
