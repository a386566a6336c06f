import MyOS.Tcp.Step

/-!
# Segments of an earlier connection

There is one connection at a time, and each new one takes the next local port. The
guards of `tcp_on_rx` compare the port, so a segment of an earlier connection that is
late is not taken for one of this.
-/

namespace MyOS.Ports

/-- `tcp_init`, or a call on the socket `s`. -/
inductive Use
  | init
  | call (s : SockRef) (e : TcpEvent)

def useStep (k : Kernel) : Use → Kernel
  | .init => tcpInit k
  | .call s e => tcpStep s k e

/-- Every caller of `tcp_connect` leaves the choice of the port to it. -/
def Chosen : Use → Prop
  | .call _ (.connect _ _ srcPort) => srcPort = 0
  | _ => True

/-- A `tcp_connect` that succeeds. -/
def opens (k : Kernel) : Use → Bool
  | .call _ (.connect ..) => !(k.sock .gSock).inUse
  | _ => false

/-- The connections opened in a run. -/
def opened : Kernel → List Use → Nat
  | _, [] => 0
  | k, e :: es => (opens k e).toNat + opened (useStep k e) es

/-- A connection in use has the port handed out last. -/
def Newest (k : Kernel) : Prop :=
  (k.sock .gSock).inUse = true → (k.sock .gSock).localPort + 1 = k.tcp.ephemeral

/-! ## The counter -/

section
variable (k : Kernel) (s : SockRef)

@[simp] theorem setSock_ephemeral (v : TcpSocket) :
    (k.setSock s v).tcp.ephemeral = k.tcp.ephemeral := rfl

@[simp] theorem tcpSendSegment_ephemeral (flags : UInt8) (payload : List UInt8) :
    (tcpSendSegment k s flags payload).tcp.ephemeral = k.tcp.ephemeral := by
  rw [tcpSendSegment]

theorem tcpTakeData_ephemeral (th : Segment) :
    (tcpTakeData k th).tcp.ephemeral = k.tcp.ephemeral := by
  have buffered : (rxDataIntoBuf k .gSock th.payload).tcp.ephemeral = k.tcp.ephemeral := by
    unfold rxDataIntoBuf
    dsimp only
    split <;> rfl
  simp only [tcpTakeData, tcpSendSegment_ephemeral, setSock_ephemeral, buffered]

theorem tcpTakeFin_ephemeral : (tcpTakeFin k).tcp.ephemeral = k.tcp.ephemeral := by
  simp only [tcpTakeFin, tcpSendSegment_ephemeral, setSock_ephemeral]

theorem tcpInput_ephemeral (th : Segment) : (tcpInput k th).tcp.ephemeral = k.tcp.ephemeral := by
  simp only [tcpInput]
  split
  · rfl
  · cases (k.sock .gSock).state with
    | closed | timeWait => rfl
    | synSent => dsimp only; split <;> simp only [setSock_ephemeral, tcpSendSegment_ephemeral]
    | established =>
      dsimp only
      split <;> split <;> simp only [tcpTakeFin_ephemeral, tcpTakeData_ephemeral]
    | finWait1 => dsimp only; split <;> simp only [setSock_ephemeral]
    | finWait2 => dsimp only; split <;> simp only [setSock_ephemeral, tcpSendSegment_ephemeral]

theorem tcpOnRx_ephemeral (ipPkt : Mem) (ipLen : Int) (srcIp dstIp : UInt32) :
    (tcpOnRx k ipPkt ipLen srcIp dstIp).tcp.ephemeral = k.tcp.ephemeral := by
  unfold tcpOnRx
  split
  · exact tcpInput_ephemeral ..
  · rfl

theorem tcpSend_ephemeral (data : List UInt8) :
    (tcpSend k s data).1.tcp.ephemeral = k.tcp.ephemeral := by
  unfold tcpSend
  split
  · rfl
  · split
    · rfl
    · simp only [setSock_ephemeral, tcpSendSegment_ephemeral]

theorem tcpRecv_ephemeral (maxlen : Nat) :
    (tcpRecv k s maxlen).1.tcp.ephemeral = k.tcp.ephemeral := by
  unfold tcpRecv
  dsimp only
  split <;> rfl

theorem tcpClose_ephemeral : (tcpClose k s).1.tcp.ephemeral = k.tcp.ephemeral := by
  unfold tcpClose
  split
  · rfl
  · split <;> simp only [setSock_ephemeral, tcpSendSegment_ephemeral]

/-- A connection takes the port at the counter. -/
theorem tcpConnect_ephemeral (dstIp : UInt32) (dstPort : UInt16)
    (idle : (k.sock .gSock).inUse = false) :
    (tcpConnect k s dstIp dstPort 0).1.tcp.ephemeral = k.tcp.ephemeral + 1 := by
  simp only [tcpConnect, idle, Bool.false_eq_true, ↓reduceIte, setSock_ephemeral,
    tcpSendSegment_ephemeral]
  rfl

end

/-! ## One call -/

/-- The counter stands still, and no connection comes into use or changes its port. -/
structure Quiet (k k' : Kernel) : Prop where
  counter : k'.tcp.ephemeral = k.tcp.ephemeral
  same : (k'.sock .gSock).inUse = true →
    (k.sock .gSock).inUse = true ∧ (k'.sock .gSock).localPort = (k.sock .gSock).localPort

section
variable {k k' : Kernel}

theorem Quiet.of_sock (counter : k'.tcp.ephemeral = k.tcp.ephemeral)
    (same : k'.sock .gSock = k.sock .gSock) : Quiet k k' :=
  ⟨counter, fun used => by rw [same] at used ⊢; exact ⟨used, rfl⟩⟩

theorem onSegment_port (g : TcpSocket) (th : Segment) : (g.onSegment th).localPort = g.localPort ∧
    ((g.onSegment th).inUse = true → g.inUse = true) := by
  unfold TcpSocket.onSegment
  split
  · exact ⟨rfl, fun used => by cases used⟩
  · cases g.state with
    | closed | timeWait => exact ⟨rfl, id⟩
    | synSent | finWait1 | finWait2 => dsimp only; split <;> exact ⟨rfl, id⟩
    | established =>
      dsimp only
      rw [TcpSocket.afterData_frame]
      split <;> exact ⟨rfl, id⟩

theorem onClose_port (g : TcpSocket) :
    g.onClose.localPort = g.localPort ∧ (g.onClose.inUse = true → g.inUse = true) := by
  unfold TcpSocket.onClose
  split
  · exact ⟨rfl, id⟩
  · split
    · exact ⟨rfl, id⟩
    · exact ⟨rfl, fun used => by cases used⟩

/-- A call on the socket `s`, which need not be the one connection's own. -/
theorem quiet_of_record {s : SockRef} (counter : k'.tcp.ephemeral = k.tcp.ephemeral)
    (other : SockRef.gSock ≠ s → k'.sock .gSock = k.sock .gSock)
    (keeps : (k'.sock s).localPort = (k.sock s).localPort ∧
      ((k'.sock s).inUse = true → (k.sock s).inUse = true)) : Quiet k k' := by
  by_cases here : SockRef.gSock = s
  · subst here
    exact ⟨counter, fun used => ⟨keeps.2 used, keeps.1⟩⟩
  · exact .of_sock counter (other here)

theorem quiet_step {e : Use} (quiet : opens k e = false) : Quiet k (useStep k e) := by
  cases e with
  | init =>
    refine ⟨rfl, fun used => ?_⟩
    have zero : (useStep k .init).sock .gSock = .zero := setSock_same ..
    rw [zero] at used
    cases used
  | call s e =>
    cases e with
    | connect dstIp dstPort srcPort =>
      have busy : (k.sock .gSock).inUse = true := by
        rw [opens, Bool.not_eq_false'] at quiet
        exact quiet
      have same : useStep k (.call s (.connect dstIp dstPort srcPort)) = k :=
        tcpConnect_busy k s busy
      rw [same]
      exact .of_sock rfl rfl
    | rx ipPkt ipLen srcIp dstIp =>
      refine quiet_of_record (s := .gSock) (tcpOnRx_ephemeral k ipPkt ipLen srcIp dstIp)
        (fun differ => absurd rfl differ) ?_
      change ((tcpOnRx k ipPkt ipLen srcIp dstIp).sock .gSock).localPort = _ ∧ _
      rw [useStep, tcpStep, sock_tcpOnRx]
      split
      · exact onSegment_port _ _
      · exact ⟨rfl, id⟩
    | send data =>
      refine quiet_of_record (tcpSend_ephemeral k s data)
        (fun differ => sock_tcpSend_of_ne differ data) ?_
      rw [useStep, tcpStep, sock_tcpSend, TcpSocket.onSend_frame]
      exact ⟨rfl, id⟩
    | recv maxlen =>
      refine quiet_of_record (tcpRecv_ephemeral k s maxlen)
        (fun differ => sock_tcpRecv_of_ne differ maxlen) ?_
      rw [useStep, tcpStep, sock_tcpRecv, TcpSocket.onRecv_frame]
      exact ⟨rfl, id⟩
    | close =>
      refine quiet_of_record (tcpClose_ephemeral k s) (fun differ => sock_tcpClose_of_ne differ) ?_
      rw [useStep, tcpStep, sock_tcpClose]
      exact onClose_port _

/-- A new connection has the port at the counter, which moves on. -/
theorem opening_step {e : Use} (chosen : Chosen e) (opening : opens k e = true) :
    (useStep k e).tcp.ephemeral = k.tcp.ephemeral + 1 ∧
      ((useStep k e).sock .gSock).localPort = k.tcp.ephemeral := by
  cases e with
  | init => cases opening
  | call s e =>
    cases e with
    | rx | send | recv | close => cases opening
    | connect dstIp dstPort srcPort =>
      obtain rfl : srcPort = 0 := chosen
      have idle : (k.sock .gSock).inUse = false := by
        rw [opens, Bool.not_eq_true'] at opening
        exact opening
      refine ⟨tcpConnect_ephemeral k s dstIp dstPort idle, ?_⟩
      have record : (tcpConnect k s dstIp dstPort 0).1.sock .gSock = connected k dstIp dstPort 0 :=
        (sock_tcpConnect k s idle).1
      exact congrArg TcpSocket.localPort record

theorem newest_step {e : Use} (chosen : Chosen e) (newest : Newest k) : Newest (useStep k e) := by
  intro used
  cases opening : opens k e with
  | true =>
    obtain ⟨counter, port⟩ := opening_step chosen opening
    rw [counter, port]
  | false =>
    obtain ⟨counter, same⟩ := quiet_step opening
    obtain ⟨before, port⟩ := same used
    rw [counter, port]
    exact newest before

theorem counter_step {e : Use} (chosen : Chosen e) :
    (useStep k e).tcp.ephemeral = k.tcp.ephemeral + (opens k e).toNat.toUInt16 := by
  cases opening : opens k e with
  | true => exact (opening_step chosen opening).1
  | false => exact (quiet_step opening).counter.trans (UInt16.add_zero _).symm

end

/-! ## Runs -/

section
variable {k : Kernel} {es : List Use}

theorem newest_run (chosen : ∀ e ∈ es, Chosen e) (newest : Newest k) :
    Newest (es.foldl useStep k) := by
  induction es generalizing k with
  | nil => exact newest
  | cons e es ih =>
    exact ih (fun e mem => chosen e (List.mem_cons_of_mem _ mem))
      (newest_step (chosen e List.mem_cons_self) newest)

theorem counter_run (chosen : ∀ e ∈ es, Chosen e) :
    (es.foldl useStep k).tcp.ephemeral = k.tcp.ephemeral + (opened k es).toUInt16 := by
  induction es generalizing k with
  | nil => exact (UInt16.add_zero _).symm
  | cons e es ih =>
    rw [List.foldl_cons, ih fun e mem => chosen e (List.mem_cons_of_mem _ mem),
      counter_step (chosen e List.mem_cons_self), UInt16.add_assoc, opened, ← UInt16.ofNat_add]

end

theorem addressed_port {g : TcpSocket} {ipPkt : Mem} {ipLen : Int} {srcIp : UInt32}
    (passes : addressed g ipPkt ipLen srcIp = true) :
    g.inUse = true ∧ (tcpDecode ipPkt ipLen).dport = g.localPort := by
  simp only [addressed, Bool.and_eq_true, beq_iff_eq] at passes
  exact ⟨passes.1.1.1.1.1, passes.1.1.2⟩

/-- A segment that one connection takes is not taken by a later one before 65536 more
have been opened, whatever happens between. -/
theorem taken_once {before after : List Use} {ipPkt : Mem} {ipLen : Int} {srcIp srcIp' : UInt32}
    (chosen : ∀ e ∈ before ++ after, Chosen e)
    (first : addressed ((before.foldl useStep Kernel.boot).sock .gSock) ipPkt ipLen srcIp = true)
    (again : addressed (((before ++ after).foldl useStep Kernel.boot).sock .gSock) ipPkt ipLen
      srcIp' = true) :
    65536 ∣ opened (before.foldl useStep Kernel.boot) after := by
  have start : Newest Kernel.boot := fun used => by cases used
  obtain ⟨used, port⟩ := addressed_port first
  obtain ⟨used', port'⟩ := addressed_port again
  have old := newest_run (fun e mem => chosen e (List.mem_append_left _ mem)) start used
  have new := newest_run chosen start used'
  rw [List.foldl_append] at used' port' new
  rw [counter_run fun e mem => chosen e (List.mem_append_right _ mem), ← port', port, old] at new
  have none : (opened (before.foldl useStep Kernel.boot) after).toUInt16 = 0 :=
    UInt16.add_eq_left.mp new.symm
  exact Nat.dvd_of_mod_eq_zero (by simpa using congrArg UInt16.toNat none)

/-- The connection to 10.0.2.2:80. -/
def connecting : Use := .call .gSock (.connect 0x0A000202 80 0)

/-- It is given up and opened anew so many times. -/
def reopened : Nat → List Use
  | 0 => []
  | n + 1 => .init :: connecting :: reopened n

theorem idle_tcpInit (k : Kernel) : ((tcpInit k).sock .gSock).inUse = false := by
  have zero : (tcpInit k).sock .gSock = .zero := setSock_same ..
  rw [zero]
  rfl

theorem chosen_reopened (n : Nat) : ∀ e ∈ reopened n, Chosen e := by
  induction n with
  | zero => exact fun e mem => absurd mem List.not_mem_nil
  | succ n ih =>
    exact List.forall_mem_cons.mpr ⟨trivial, List.forall_mem_cons.mpr ⟨rfl, ih⟩⟩

theorem opened_reopened (k : Kernel) (n : Nat) : opened k (reopened n) = n := by
  induction n generalizing k with
  | zero => rfl
  | succ n ih =>
    have opening : opens (tcpInit k) connecting = true := by
      rw [connecting, opens, idle_tcpInit]
      rfl
    change 0 + ((opens (tcpInit k) connecting).toNat + opened _ (reopened n)) = n + 1
    rw [ih, opening, Bool.toNat_true, Nat.zero_add, Nat.add_comm]

theorem reopened_succ (n : Nat) : reopened (n + 1) = reopened n ++ [.init, connecting] := by
  induction n with
  | zero => rfl
  | succ n ih => exact congrArg (Use.init :: connecting :: ·) ih

/-- The last of the connections. -/
theorem sock_reopened (k : Kernel) (n : Nat) : ∃ k', k'.tcp.ephemeral =
      k.tcp.ephemeral + n.toUInt16 ∧
    ((reopened (n + 1)).foldl useStep k).sock .gSock = connected k' 0x0A000202 80 0 := by
  refine ⟨tcpInit ((reopened n).foldl useStep k), ?_, ?_⟩
  · have counter := @counter_run k _ (chosen_reopened n)
    rwa [opened_reopened] at counter
  · rw [reopened_succ, List.foldl_append]
    exact (sock_tcpConnect _ .gSock (idle_tcpInit _)).1

/-- The segment that the first of 65537 connections takes is taken by the last. -/
theorem taken_once_reopened :
    let segment : Mem := .ofList (peerBytes 80 40000 8 0 0x18 [65])
    addressed ((([connecting] ++ reopened (65535 + 1)).foldl useStep Kernel.boot).sock .gSock)
        segment 21 0x0A000202 = true ∧
      65536 ∣ opened ([connecting].foldl useStep Kernel.boot) (reopened (65535 + 1)) := by
  intro segment
  have chosen : ∀ e ∈ [connecting] ++ reopened (65535 + 1), Chosen e :=
    List.forall_mem_cons.mpr ⟨rfl, chosen_reopened _⟩
  have first : addressed (([connecting].foldl useStep Kernel.boot).sock .gSock) segment 21
      0x0A000202 = true := by decide +kernel
  have again : addressed ((([connecting] ++ reopened (65535 + 1)).foldl useStep
      Kernel.boot).sock .gSock) segment 21 0x0A000202 = true := by
    obtain ⟨k', counter, last⟩ := sock_reopened ([connecting].foldl useStep Kernel.boot) 65535
    have port : k'.tcp.ephemeral = 40000 := counter.trans (by decide +kernel)
    rw [List.foldl_append, last]
    simp only [addressed, connected, freshSocket, port]
    decide +kernel
  exact ⟨again, taken_once chosen first again⟩

end MyOS.Ports
