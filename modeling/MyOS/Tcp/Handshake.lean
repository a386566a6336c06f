import MyOS.Base.Runs
import MyOS.Tcp.Step

/-!
# Which segments move the handshake and the close on

`tcp_on_rx` decodes the acknowledgement number and never compares it: any
SYN+ACK opens the connection, any ACK counts as an acknowledgement of our FIN.
-/

namespace MyOS.Handshake

open Runs

theorem onSend_state (g : TcpSocket) (data : List UInt8) : (g.onSend data).state = g.state := by
  unfold TcpSocket.onSend; split <;> rfl

theorem onRecv_state (g : TcpSocket) (maxlen : Nat) : (g.onRecv maxlen).state = g.state := by
  unfold TcpSocket.onRecv; split <;> rfl

theorem onClose_state (g : TcpSocket) :
    g.onClose.state = g.state ∨ g.onClose.state = .finWait1 ∨ g.onClose.state = .closed := by
  unfold TcpSocket.onClose
  split
  · exact Or.inl rfl
  · split
    · exact Or.inr (Or.inl rfl)
    · exact Or.inr (Or.inr rfl)

/-- From `TCP_SYN_SENT` a segment leads to `TCP_ESTABLISHED` exactly when it is
a SYN+ACK without RST. -/
theorem onSegment_opens (g : TcpSocket) (th : Segment) (waiting : g.state = .synSent) :
    (g.onSegment th).state = .established ↔ th.rst = false ∧ th.synAck = true := by
  constructor
  · intro opened
    have flags := TcpSocket.onSegment_opened waiting opened
    exact ⟨flags.1, flags.2.1⟩
  · rintro ⟨noRst, syn⟩
    simp [TcpSocket.onSegment, waiting, noRst, syn]

theorem onSegment_halfCloses (g : TcpSocket) (th : Segment) (waiting : g.state = .finWait1) :
    (g.onSegment th).state = .finWait2 ↔ th.rst = false ∧ th.hasAck = true := by
  unfold TcpSocket.onSegment
  cases th.rst <;> cases th.hasAck <;> simp [waiting]

/-- The two moves that should wait for an acknowledgement of ours. -/
def Moves (a b : TcpState) : Prop :=
  a = .synSent ∧ b = .established ∨ a = .finWait1 ∧ b = .finWait2

instance (a b : TcpState) : Decidable (Moves a b) := inferInstanceAs (Decidable (_ ∨ _))

/-- The flags that make a segment count as the acknowledgement waited for. -/
def Counts (g : TcpSocket) (th : Segment) : Prop :=
  g.state = .synSent ∧ th.synAck = true ∨ g.state = .finWait1 ∧ th.hasAck = true

instance (g : TcpSocket) (th : Segment) : Decidable (Counts g th) :=
  inferInstanceAs (Decidable (_ ∨ _))

theorem onSegment_moves (g : TcpSocket) (th : Segment) :
    Moves g.state (g.onSegment th).state ↔ th.rst = false ∧ Counts g th := by
  unfold Moves Counts
  constructor
  · rintro (⟨waiting, opened⟩ | ⟨waiting, half⟩)
    · have flags := (onSegment_opens g th waiting).mp opened
      exact ⟨flags.1, Or.inl ⟨waiting, flags.2⟩⟩
    · have flags := (onSegment_halfCloses g th waiting).mp half
      exact ⟨flags.1, Or.inr ⟨waiting, flags.2⟩⟩
  · rintro ⟨noRst, ⟨waiting, flags⟩ | ⟨waiting, flags⟩⟩
    · exact Or.inl ⟨waiting, (onSegment_opens g th waiting).mpr ⟨noRst, flags⟩⟩
    · exact Or.inr ⟨waiting, (onSegment_halfCloses g th waiting).mpr ⟨noRst, flags⟩⟩

theorem not_moves_self (a : TcpState) : ¬ Moves a a := by
  rintro (⟨h, h'⟩ | ⟨h, h'⟩) <;> simp [h] at h'

/-- No call of the owner makes such a move: it is always a delivered segment. -/
theorem tcpStep_moves (k : Kernel) (e : TcpEvent) :
    Moves (k.sock .gSock).state ((tcpStep .gSock k e).sock .gSock).state ↔
      ∃ th ∈ e.delivers (k.sock .gSock), Counts (k.sock .gSock) th := by
  rw [sock_tcpStep]
  cases e with
  | connect dstIp dstPort srcPort =>
    dsimp only [TcpEvent.delivers]
    split
    · simp [not_moves_self]
    · simp [Moves, connected, freshSocket]
  | rx ipPkt ipLen srcIp dstIp =>
    dsimp only [TcpEvent.delivers]
    split
    · rename_i passes
      simp only [onSegment_moves, passes, true_and]
      split <;> simp [*]
    · rename_i dropped
      simp [not_moves_self, dropped]
  | send data => simp [onSend_state, not_moves_self, TcpEvent.delivers]
  | recv maxlen => simp [onRecv_state, not_moves_self, TcpEvent.delivers]
  | close =>
    rcases onClose_state (k.sock .gSock) with h | h | h
    · simp [h, not_moves_self, TcpEvent.delivers]
    · simp [h, TcpEvent.delivers, Moves]
    · simp [h, TcpEvent.delivers, Moves]

/-- A move is made only on a segment whose acknowledgement number covers
everything sent so far. -/
def MovesCovered (k : Kernel) (e : TcpEvent) : Prop :=
  Moves (k.sock .gSock).state ((tcpStep .gSock k e).sock .gSock).state →
    ∃ th ∈ e.segment, Counts (k.sock .gSock) th ∧ th.ack = (k.sock .gSock).sndNxt

/-- The peer's side of it: a segment that counts carries that number. -/
def PeerCovers (k : Kernel) (e : TcpEvent) : Prop :=
  ∀ th ∈ e.delivers (k.sock .gSock), Counts (k.sock .gSock) th → th.ack = (k.sock .gSock).sndNxt

instance (k : Kernel) (e : TcpEvent) : Decidable (MovesCovered k e) :=
  inferInstanceAs (Decidable (_ → _))

theorem delivers_segment {g : TcpSocket} {e : TcpEvent} {th : Segment}
    (h : th ∈ e.delivers g) : th ∈ e.segment := by
  cases e with
  | rx ipPkt ipLen srcIp dstIp =>
    simp only [TcpEvent.delivers, TcpEvent.segment] at h ⊢
    split at h
    · exact h
    · cases h
  | _ => cases h

/-- The connection opens and half-closes only on covering acknowledgements if
and only if the peer never sends another one while the kernel waits. -/
theorem moves_covered_iff (k : Kernel) (es : List TcpEvent) :
    Steps (tcpStep .gSock) MovesCovered k es ↔ Steps (tcpStep .gSock) PeerCovers k es := by
  refine steps_congr_of_step (E := fun _ => True) ?_ (fun _ _ => trivial)
  intro k e _
  constructor
  · intro covered th delivered counts
    obtain ⟨th', segment, _, ack⟩ := covered ((tcpStep_moves k e).mpr ⟨th, delivered, counts⟩)
    have same : th' = th := Option.some.inj (segment.symm.trans (delivers_segment delivered))
    exact same ▸ ack
  · intro peer moves
    obtain ⟨th, delivered, counts⟩ := (tcpStep_moves k e).mp moves
    exact ⟨th, delivers_segment delivered, counts, peer th delivered counts⟩

/-- The connection to 10.0.2.2:80 opens on a SYN+ACK that acknowledges nothing. -/
theorem opens_on_foreign_ack :
    ¬ Steps (tcpStep .gSock) MovesCovered .boot
      [.connect 0x0A000202 80 4000,
       .rx (.ofList (peerBytes 80 4000 7 0 0x12 [])) 20 0x0A000202 0x0A00020F] := by
  decide +kernel

end MyOS.Handshake
