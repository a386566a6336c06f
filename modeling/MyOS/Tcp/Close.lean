import MyOS.Base.Runs
import MyOS.Tcp.Handshake
import MyOS.Tcp.Peer

/-!
# How a connection ends

`TCP_FIN_WAIT1` and `TCP_FIN_WAIT2` serve both directions of closing, and
neither remembers whether the peer's FIN has been seen: the passive close sends
its own FIN and then waits in `TCP_FIN_WAIT2` for a FIN that came before.
-/

namespace MyOS.Close

open Runs

/-- What has happened on the current connection: the peer's FIN has arrived in
order, ours has been sent, ours has been acknowledged. -/
structure Fins where
  peerFin : Bool
  ownFin : Bool
  ownAcked : Bool
  deriving DecidableEq

def Fins.none : Fins := ⟨false, false, false⟩

/-- The FIN of a segment stands where the receiver has got to, counting the
SYN and the data of the same segment when they are accepted. -/
def finInOrder (g : TcpSocket) (th : Segment) : Bool :=
  th.fin && match g.state with
    | .synSent => th.synAck && th.payload.isEmpty
    | .established => th.seq + th.payload.length.toUInt32 == (g.afterData th).rcvNxt
    | _ => th.seq + th.payload.length.toUInt32 == g.rcvNxt

/-- Our FIN is the last thing we number, so covering it is covering `snd_nxt`. -/
def coversOwn (g : TcpSocket) (th : Segment) : Bool := th.hasAck && th.ack == g.sndNxt

def Fins.onSegment (f : Fins) (g : TcpSocket) (th : Segment) : Fins :=
  { peerFin := f.peerFin || finInOrder g th
    ownFin := f.ownFin || (g.state == .established && th.fin)
    ownAcked := f.ownAcked || (f.ownFin && coversOwn g th) }

/-- A successful connect starts over. `tcp_close` sends a FIN only from
`TCP_ESTABLISHED`, and the receive path sends one in answer to the peer's. -/
def Fins.after (f : Fins) (g : TcpSocket) (e : TcpEvent) : Fins :=
  match e with
  | .connect .. => if g.inUse then f else .none
  | .close => if g.inUse && g.state == .established then { f with ownFin := true } else f
  | e => match e.delivers g with
    | some th => f.onSegment g th
    | Option.none => f

def watch (s : Kernel × Fins) (e : TcpEvent) : Kernel × Fins :=
  (tcpStep .gSock s.1 e, s.2.after (s.1.sock .gSock) e)

/-- The connection is over as far as the state says. -/
def Over (t : TcpState) : Prop := t = .timeWait ∨ t = .closed

instance (t : TcpState) : Decidable (Over t) := inferInstanceAs (Decidable (_ ∨ _))

/-- Once both FINs are through, the socket is in `TCP_TIME_WAIT` or `TCP_CLOSED`. -/
def Finished (s : Kernel × Fins) : Prop :=
  s.2.peerFin = true ∧ s.2.ownFin = true ∧ s.2.ownAcked = true → Over (s.1.sock .gSock).state

instance (s : Kernel × Fins) : Decidable (Finished s) := inferInstanceAs (Decidable (_ → _))

/-- The peer's FIN comes after the acknowledgement of ours has been handled. -/
def FinAfterAck (s : Kernel × Fins) (e : TcpEvent) : Prop :=
  ∀ th ∈ e.delivers (s.1.sock .gSock), finInOrder (s.1.sock .gSock) th = true →
    (s.1.sock .gSock).state = .finWait2 ∨ Over (s.1.sock .gSock).state

instance (s : Kernel × Fins) (e : TcpEvent) : Decidable (FinAfterAck s e) :=
  inferInstanceAs (Decidable (∀ th ∈ e.delivers _, _ → _))

/-- The peer's FIN is remembered by the state. -/
def PeerFinOver (s : Kernel × Fins) : Prop :=
  s.2.peerFin = true → Over (s.1.sock .gSock).state

theorem onSegment_over {g : TcpSocket} {th : Segment} (ended : Over g.state) :
    Over (g.onSegment th).state := by
  unfold TcpSocket.onSegment
  split
  · exact Or.inr rfl
  · rcases ended with h | h <;> simp [h, Over]

theorem onClose_over {g : TcpSocket} (ended : Over g.state) : Over g.onClose.state := by
  unfold TcpSocket.onClose
  split
  · exact ended
  · rw [if_neg (by rcases ended with h | h <;> simp [h])]
    exact Or.inr rfl

theorem onSegment_finWait2 {g : TcpSocket} {th : Segment} (waiting : g.state = .finWait2)
    (fin : th.fin = true) : Over (g.onSegment th).state := by
  cases rst : th.rst with
  | true => exact Or.inr (by simp [TcpSocket.onSegment, rst])
  | false => exact Or.inl (by simp [TcpSocket.onSegment, rst, waiting, fin])

theorem finInOrder_fin {g : TcpSocket} {th : Segment} (h : finInOrder g th = true) :
    th.fin = true := by
  unfold finInOrder at h
  exact (Bool.and_eq_true_iff.mp h).1

/-- A delivered segment that brings the peer's FIN in `TCP_FIN_WAIT2`, or none,
keeps the state telling of it. -/
theorem onSegment_peerFinOver {f : Fins} {g : TcpSocket} {th : Segment}
    (told : f.peerFin = true → Over g.state)
    (late : finInOrder g th = true → g.state = .finWait2 ∨ Over g.state)
    (seen : (f.onSegment g th).peerFin = true) : Over (g.onSegment th).state := by
  rcases Bool.or_eq_true_iff.mp seen with before | now
  · exact onSegment_over (told before)
  · rcases late now with waiting | ended
    · exact onSegment_finWait2 waiting (finInOrder_fin now)
    · exact onSegment_over ended

theorem watch_peerFinOver (s : Kernel × Fins) (e : TcpEvent) (told : PeerFinOver s)
    (late : FinAfterAck s e) : PeerFinOver (watch s e) := by
  unfold PeerFinOver watch
  dsimp only
  rw [sock_tcpStep]
  cases e with
  | connect dstIp dstPort srcPort =>
    dsimp only [Fins.after]
    split
    · exact told
    · simp [Fins.none]
  | rx ipPkt ipLen srcIp dstIp =>
    dsimp only [Fins.after, TcpEvent.delivers]
    simp only [FinAfterAck, TcpEvent.delivers] at late
    by_cases passes : addressed (s.1.sock .gSock) ipPkt ipLen srcIp = true
    · cases rst : (tcpDecode ipPkt ipLen).rst with
      | true =>
        intro _
        rw [if_pos passes]
        exact Or.inr (by simp [TcpSocket.onSegment, rst])
      | false =>
        simp only [passes, rst, and_self, if_true] at late ⊢
        exact onSegment_peerFinOver told (late _ rfl)
    · simp only [passes]
      exact told
  | send data =>
    dsimp only [Fins.after, TcpEvent.delivers]
    rw [Handshake.onSend_state]
    exact told
  | recv maxlen =>
    dsimp only [Fins.after, TcpEvent.delivers]
    rw [Handshake.onRecv_state]
    exact told
  | close =>
    dsimp only [Fins.after]
    intro seen
    have before : s.2.peerFin = true := by
      split at seen <;> exact seen
    exact onClose_over (told before)

/-- In every run in which the peer's FIN arrives in order only after our own has
been acknowledged, both FINs being through means the connection is over. -/
theorem finished_along (k : Kernel) (es : List TcpEvent)
    (late : Steps watch FinAfterAck (k, .none) es) : Along watch Finished (k, .none) es := by
  have told : Along watch PeerFinOver (k, .none) es :=
    along_of_steps (E := fun _ => True) (fun s e _ => watch_peerFinOver s e) (fun _ _ => trivial)
      (fun seen => by cases seen) late
  exact along_mono told fun s h all => h all.1

/-! ## Every step the condition forbids can be continued into an unfinished close -/

/-- The peer acknowledges everything we have sent. -/
def ackSegment (g : TcpSocket) : Segment :=
  ⟨g.remotePort, g.localPort, g.rcvNxt, g.sndNxt, 0x10, []⟩

def ackBytes (g : TcpSocket) : List UInt8 :=
  peerBytes g.remotePort g.localPort g.rcvNxt g.sndNxt 0x10 []

def ackOf (g : TcpSocket) : TcpEvent := .rx (.ofList (ackBytes g)) 20 g.remoteIp g.localIp

theorem tcpDecode_ackBytes (g : TcpSocket) : tcpDecode (.ofList (ackBytes g)) 20 = ackSegment g :=
  tcpDecode_peerBytes ..

theorem ackSegment_flags (g : TcpSocket) :
    (ackSegment g).rst = false ∧ (ackSegment g).hasAck = true ∧ (ackSegment g).fin = false := by
  simp only [ackSegment, Segment.rst, Segment.hasAck, Segment.fin]
  decide

theorem addressed_ackBytes {g : TcpSocket} (inUse : g.inUse = true) :
    addressed g (.ofList (ackBytes g)) 20 g.remoteIp = true := by
  have header : tcpHdrLen (.ofList (ackBytes g)) = 20 := tcpHdrLen_peerBytes ..
  simp [addressed, inUse, tcpDecode_ackBytes, ackSegment, header]

theorem delivers_ackOf {g : TcpSocket} (inUse : g.inUse = true) :
    (ackOf g).delivers g = some (ackSegment g) := by
  obtain ⟨noRst, _, _⟩ := ackSegment_flags g
  simp [ackOf, TcpEvent.delivers, addressed_ackBytes inUse, tcpDecode_ackBytes, noRst]

theorem onSegment_ackSegment {g g' : TcpSocket}
    (waiting : g.state = .finWait1 ∨ g.state = .finWait2) :
    (g.onSegment (ackSegment g')).state = .finWait2 := by
  obtain ⟨noRst, hasAck, noFin⟩ := ackSegment_flags g'
  rcases waiting with first | second
  · simp [TcpSocket.onSegment, noRst, hasAck, first]
  · simp [TcpSocket.onSegment, noRst, noFin, second]

/-- The acknowledgement of our FIN leaves a connection whose peer has closed
before in `TCP_FIN_WAIT2`. -/
theorem ack_unfinished {s : Kernel × Fins} (inUse : (s.1.sock .gSock).inUse = true)
    (waiting : (s.1.sock .gSock).state = .finWait1 ∨ (s.1.sock .gSock).state = .finWait2)
    (peerFin : s.2.peerFin = true) (ownFin : s.2.ownFin = true) :
    ¬ Finished (watch s (ackOf (s.1.sock .gSock))) := by
  have state : ((watch s (ackOf (s.1.sock .gSock))).1.sock .gSock).state = .finWait2 := by
    simp only [watch, ackOf, tcpStep, sock_tcpOnRx, addressed_ackBytes inUse, if_true,
      tcpDecode_ackBytes]
    exact onSegment_ackSegment waiting
  have fins : (watch s (ackOf (s.1.sock .gSock))).2 =
      s.2.onSegment (s.1.sock .gSock) (ackSegment (s.1.sock .gSock)) := by
    have delivers := delivers_ackOf inUse
    simp only [watch, Fins.after, ackOf] at delivers ⊢
    rw [delivers]
  have covers : coversOwn (s.1.sock .gSock) (ackSegment (s.1.sock .gSock)) = true := by
    rw [coversOwn, (ackSegment_flags _).2.1]
    simp [ackSegment]
  intro finished
  have ended := finished (by simp [fins, Fins.onSegment, peerFin, ownFin, covers])
  rw [state] at ended
  rcases ended with h | h <;> cases h

/-- A step the condition forbids delivers the peer's FIN in a state that does
not remember it. -/
theorem not_finAfterAck {s : Kernel × Fins} {e : TcpEvent} (early : ¬ FinAfterAck s e) :
    ∃ th, (watch s e).1.sock .gSock = (s.1.sock .gSock).onSegment th ∧
      (watch s e).2 = s.2.onSegment (s.1.sock .gSock) th ∧
      (s.1.sock .gSock).inUse = true ∧ th.rst = false ∧
      finInOrder (s.1.sock .gSock) th = true ∧
      ¬ ((s.1.sock .gSock).state = .finWait2 ∨ Over (s.1.sock .gSock).state) := by
  simp only [FinAfterAck, Classical.not_forall] at early
  obtain ⟨th, delivered, inOrder, forgets⟩ := early
  cases e with
  | connect | send | recv | close => cases delivered
  | rx ipPkt ipLen srcIp dstIp =>
    have after : (watch s (.rx ipPkt ipLen srcIp dstIp)).2 =
        s.2.onSegment (s.1.sock .gSock) th := by
      simp only [watch, Fins.after]
      rw [delivered]
    simp only [TcpEvent.delivers] at delivered
    split at delivered
    · rename_i passes
      cases delivered
      have inUse : (s.1.sock .gSock).inUse = true := by
        have := passes.1
        simp only [addressed, Bool.and_eq_true] at this
        exact this.1.1.1.1.1
      refine ⟨_, ?_, after, inUse, passes.2, inOrder, forgets⟩
      rw [watch, tcpStep, sock_tcpOnRx, if_pos passes.1]
    · cases delivered

/-- From every step the condition forbids, a few more take the connection to
both FINs being through while it waits in `TCP_FIN_WAIT2`. -/
theorem early_fin_unfinished (s : Kernel × Fins) (e : TcpEvent)
    (sent : (s.1.sock .gSock).state = .finWait1 → s.2.ownFin = true)
    (early : ¬ FinAfterAck s e) : ∃ es, ¬ Along watch Finished (watch s e) es := by
  obtain ⟨th, sock, fins, inUse, rst, inOrder, forgets⟩ := not_finAfterAck early
  have fin := finInOrder_fin inOrder
  have peerFin : (watch s e).2.peerFin = true := by simp [fins, Fins.onSegment, inOrder]
  cases state : (s.1.sock .gSock).state with
  | closed => exact absurd (Or.inr (Or.inr state)) forgets
  | timeWait => exact absurd (Or.inr (Or.inl state)) forgets
  | finWait2 => exact absurd (Or.inl state) forgets
  | finWait1 =>
    refine ⟨[ackOf ((watch s e).1.sock .gSock)], fun along => ?_⟩
    have ownFin : (watch s e).2.ownFin = true := by simp [fins, Fins.onSegment, sent state]
    refine ack_unfinished ?_ ?_ peerFin ownFin along.2
    · rw [sock]
      cases ack : th.hasAck <;> simp [TcpSocket.onSegment, rst, state, ack, inUse]
    · rw [sock]
      cases ack : th.hasAck <;> simp [TcpSocket.onSegment, rst, state, ack]
  | established =>
    refine ⟨[ackOf ((watch s e).1.sock .gSock)], fun along => ?_⟩
    have ownFin : (watch s e).2.ownFin = true := by simp [fins, Fins.onSegment, state, fin]
    refine ack_unfinished ?_ ?_ peerFin ownFin along.2
    · rw [sock]
      simp [TcpSocket.onSegment, rst, state, fin, TcpSocket.takeFin, inUse]
    · rw [sock]
      simp [TcpSocket.onSegment, rst, state, fin, TcpSocket.takeFin]
  | synSent =>
    -- the FIN rides on the SYN+ACK; only closing from our side brings it to light
    have synAck : th.synAck = true := by
      simp only [finInOrder, state, Bool.and_eq_true] at inOrder
      exact inOrder.2.1
    have opened : (watch s e).1.sock .gSock =
        { s.1.sock .gSock with rcvNxt := th.seq + 1, state := .established } := by
      rw [sock]
      simp [TcpSocket.onSegment, rst, state, synAck]
    have closed : (watch (watch s e) .close).1.sock .gSock =
        ((watch s e).1.sock .gSock).onClose := sock_tcpClose ..
    have ownFin : (watch (watch s e) .close).2 = { (watch s e).2 with ownFin := true } := by
      have isOpen : (((watch s e).1.sock .gSock).inUse &&
          ((watch s e).1.sock .gSock).state == .established) = true := by
        rw [opened]
        simp [inUse]
      exact if_pos isOpen
    refine ⟨[.close, ackOf ((watch (watch s e) .close).1.sock .gSock)], fun along => ?_⟩
    refine ack_unfinished ?_ ?_ ?_ ?_ along.2.2
    · rw [closed, opened]
      simp [TcpSocket.onClose, inUse]
    · rw [closed, opened]
      simp [TcpSocket.onClose, inUse]
    · rw [ownFin]
      exact peerFin
    · rw [ownFin]

/-- An active close in the expected order: our FIN, its acknowledgement, and
then the FIN of the peer. -/
theorem finished_active_close :
    Along watch Finished (openKernel, .none)
      [.close, rxAtOpen 0x10 8 [] 0x12341002, rxAtOpen 0x11 8 [] 0x12341002] :=
  finished_along _ _ (by decide +kernel)

/-- A passive close: the peer's FIN, our FIN in answer, and its acknowledgement
leave the socket in `TCP_FIN_WAIT2`. -/
theorem passive_close_unfinished :
    ¬ Along watch Finished (openKernel, .none)
      [rxAtOpen 0x11 8 [] 0x12341001, rxAtOpen 0x10 9 [] 0x12341002] := by
  decide +kernel

end MyOS.Close
