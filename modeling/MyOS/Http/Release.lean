import MyOS.Http.Get
import MyOS.Http.Polls

/-!
# Whether the connection is free again

`tcp_close` frees the socket unless the connection is established, and then it
starts a close that nobody finishes. Of all the ways to return, only a response
that fills `raw` leaves the connection established.
-/

namespace MyOS.Release

open Polls

/-- What a reader takes who empties the buffer after each of `m` polls: the state
he leaves, and how many bytes. -/
def drained (polls : Nat → List (Mem × Int)) : Nat → Nat → Kernel → Kernel × Nat
  | 0, _, k => (k, 0)
  | m + 1, n, k =>
    let k := pollFrames k (polls n)
    let waiting := (k.sock .gSock).rxLen.toNat
    let (k, total) := drained polls m (n + 1) (tcpRecv k .gSock waiting).1
    (k, waiting + total)

/-- From the `n`-th poll on the server delivers so many bytes, or more, while the
connection is still open: no FIN and no RST has been taken. -/
def Overfills (polls : Nat → List (Mem × Int)) (n : Nat) (k : Kernel) (bytes : Nat) : Prop :=
  ∃ m, bytes ≤ (drained polls m n k).2 ∧
    ((drained polls m n k).1.sock .gSock).state = .established

/-! ## What holds of the record at all times -/

/-- A connection is in use until it is closed. -/
def Owned (g : TcpSocket) : Prop := g.inUse = true ∨ g.state = .closed

/-- A connection that has been left is not established again. -/
def Left (g : TcpSocket) : Prop := g.state ≠ .synSent ∧ g.state ≠ .established

theorem owned_onSegment (g : TcpSocket) (th : Segment) (owned : Owned g) :
    Owned (g.onSegment th) := by
  unfold TcpSocket.onSegment
  split
  · exact Or.inr rfl
  · rcases owned with used | closed
    · left
      cases state : g.state with
      | closed | timeWait => exact used
      | synSent | finWait1 | finWait2 => dsimp only; split <;> exact used
      | established => dsimp only; split <;> simp [TcpSocket.takeFin, used]
    · rw [closed]
      exact Or.inr closed

theorem left_onSegment (g : TcpSocket) (th : Segment) (left : Left g) : Left (g.onSegment th) :=
  Delivery.onSegment_left left.1 (Or.inr (Or.inr left.2))

theorem past_onSegment (g : TcpSocket) (th : Segment) (past : g.state ≠ .synSent) :
    (g.onSegment th).state ≠ .synSent := by
  by_cases est : g.state = .established
  · unfold TcpSocket.onSegment
    split
    · simp
    · rw [est]
      dsimp only
      split <;> simp [TcpSocket.takeFin, est]
  · exact (left_onSegment g th ⟨past, est⟩).1

section
variable {k : Kernel} {polls : Nat → List (Mem × Int)}

/-- Reading changes how much is buffered and nothing else of the record. -/
theorem recv_keep {P : TcpSocket → Prop} (blind : ∀ g rxLen, P g → P { g with rxLen })
    (holds : P (k.sock .gSock)) (maxlen : Nat) : P ((tcpRecv k .gSock maxlen).1.sock .gSock) := by
  rw [sock_tcpRecv, TcpSocket.onRecv_frame]
  exact blind _ _ holds

theorem drained_left (m n : Nat) (left : Left (k.sock .gSock)) :
    Left ((drained polls m n k).1.sock .gSock) := by
  induction m generalizing n k with
  | zero => exact left
  | succ m ih =>
    apply ih
    apply recv_keep (fun _ _ left => left)
    exact pollFrames_keep left_onSegment left (polls n)

/-- With nothing left to deliver the question is whether the connection is open. -/
theorem overfills_zero (n : Nat) (past : (k.sock .gSock).state ≠ .synSent) :
    Overfills polls n k 0 ↔ (k.sock .gSock).state = .established := by
  constructor
  · rintro ⟨m, -, est⟩
    by_contra other
    exact (drained_left m n ⟨past, other⟩).2 est
  · intro est
    exact ⟨0, Nat.le_refl 0, est⟩

/-- One poll of it. -/
theorem overfills_succ (n : Nat) {bytes : Nat} (some : 0 < bytes) :
    Overfills polls n k bytes ↔
      Overfills polls (n + 1)
        (tcpRecv (pollFrames k (polls n)) .gSock
          ((pollFrames k (polls n)).sock .gSock).rxLen.toNat).1
        (bytes - ((pollFrames k (polls n)).sock .gSock).rxLen.toNat) := by
  constructor
  · rintro ⟨m, enough, est⟩
    cases m with
    | zero => exact absurd (Nat.lt_of_lt_of_le some enough) (lt_irrefl 0)
    | succ m =>
      refine ⟨m, ?_, est⟩
      simp only [drained] at enough
      omega
  · rintro ⟨m, enough, est⟩
    refine ⟨m + 1, ?_, est⟩
    simp only [drained]
    omega

/-- `tcp_close` frees the socket unless the connection is established. -/
theorem close_frees_iff (owned : Owned (k.sock .gSock)) :
    ((tcpClose k .gSock).1.sock .gSock).inUse = false ↔ (k.sock .gSock).state ≠ .established := by
  rw [sock_tcpClose, TcpSocket.onClose]
  rcases owned with used | closed
  · by_cases est : (k.sock .gSock).state = .established
    · simp [used, est]
    · simp [used, est]
  · cases used : (k.sock .gSock).inUse <;> simp [used, closed]

/-! ## The receive loop -/

/-- Room for more than is buffered makes no difference. -/
theorem tcpRecv_all {maxlen : Nat} (fits : (k.sock .gSock).rxLen.toNat ≤ maxlen) :
    tcpRecv k .gSock maxlen = tcpRecv k .gSock (k.sock .gSock).rxLen.toNat := by
  by_cases empty : (k.sock .gSock).rxLen ≤ 0
  · rw [tcpRecv_empty empty, tcpRecv_empty empty]
  · have taken : (if (maxlen : Int) > (k.sock .gSock).rxLen then (k.sock .gSock).rxLen.toNat
        else maxlen) = (k.sock .gSock).rxLen.toNat := by
      split <;> omega
    simp only [tcpRecv, taken]
    rw [if_neg (show ¬ (((k.sock .gSock).rxLen.toNat : Int) > (k.sock .gSock).rxLen) by omega)]

/-- A check finds nothing to read, or empties the buffer, or fills `raw`. -/
theorem httpCheck_cases {raw : List UInt8} (room : raw.length < rawCap - 1) :
    ((k.sock .gSock).rxLen ≤ 0 ∧ httpCheck k raw = (k, raw, httpClosing (k.sock .gSock).state)) ∨
    (∃ got, (raw ++ got).length = raw.length + (k.sock .gSock).rxLen.toNat ∧
      (raw ++ got).length ≤ rawCap - 1 ∧ httpCheck k raw =
        ((tcpRecv k .gSock (k.sock .gSock).rxLen.toNat).1, raw ++ got, false)) ∨
    (∃ maxlen got, (raw ++ got).length = rawCap - 1 ∧
      rawCap - 1 < raw.length + (k.sock .gSock).rxLen.toNat ∧
      httpCheck k raw = ((tcpRecv k .gSock maxlen).1, raw ++ got, false)) := by
  by_cases some : 0 < (k.sock .gSock).rxLen.toNat
  · have check := httpCheck_some some room
    have got := length_tcpRecv (k := k) (rawCap - 1 - raw.length)
    by_cases fits : (k.sock .gSock).rxLen.toNat ≤ rawCap - 1 - raw.length
    · rw [tcpRecv_all fits] at check got
      rw [min_eq_right fits] at got
      refine Or.inr (Or.inl ⟨_, ?_, ?_, check⟩)
      · rw [List.length_append, got]
      · rw [List.length_append, got]
        omega
    · rw [min_eq_left (by omega)] at got
      refine Or.inr (Or.inr ⟨_, _, ?_, by omega, check⟩)
      rw [List.length_append, got]
      omega
  · have empty : (k.sock .gSock).rxLen ≤ 0 := by omega
    exact Or.inl ⟨empty, httpCheck_empty empty raw⟩

/-- The connection is free behind the receive loop if and only if the server
did not deliver enough to fill `raw` while it was open. -/
theorem receive_released {fuel n : Nat} {raw raw' : List UInt8} {k' : Kernel}
    (past : (k.sock .gSock).state ≠ .synSent) (owned : Owned (k.sock .gSock))
    (short : raw.length ≤ rawCap - 1)
    (left : httpReceive polls fuel n k raw = some (k', raw')) :
    ((tcpClose k' .gSock).1.sock .gSock).inUse = false ↔
      ¬ Overfills polls n k (rawCap - 1 - raw.length) := by
  induction fuel generalizing n k raw with
  | zero => cases left
  | succ fuel ih =>
    simp only [httpReceive] at left
    split at left
    · rename_i room
      have past₁ := pollFrames_keep past_onSegment past (polls n)
      have owned₁ := pollFrames_keep owned_onSegment owned (polls n)
      rw [overfills_succ n (by omega)]
      generalize pollFrames k (polls n) = k₁ at left past₁ owned₁ ⊢
      have past₂ (maxlen : Nat) := recv_keep (P := fun g => g.state ≠ .synSent)
        (fun _ _ past => past) past₁ maxlen
      have owned₂ (maxlen : Nat) := recv_keep (P := Owned) (fun _ _ owned => owned) owned₁ maxlen
      rcases httpCheck_cases (k := k₁) room with ⟨empty, check⟩ | ⟨got, size, short, check⟩ |
        ⟨maxlen, got, size, tooMany, check⟩
      · rw [check] at left
        have nothing : (k₁.sock .gSock).rxLen.toNat = 0 := by omega
        rw [nothing, tcpRecv_empty empty, Nat.sub_zero]
        dsimp only at left ⊢
        split at left
        · rename_i closing
          obtain ⟨rfl, rfl⟩ := Prod.mk.inj (Option.some.inj left)
          have gone : Left (k₁.sock .gSock) := by
            refine ⟨past₁, fun est => ?_⟩
            rw [est] at closing
            cases closing
          rw [close_frees_iff owned₁]
          refine ⟨fun _ => ?_, fun _ => gone.2⟩
          rintro ⟨m, -, est⟩
          exact (drained_left m _ gone).2 est
        · exact ih past₁ owned₁ (by omega) left
      · rw [check] at left
        simp only [Bool.false_eq_true, ↓reduceIte] at left
        rw [ih (past₂ _) (owned₂ _) short left, size, Nat.sub_add_eq]
      · -- `raw` is full, whatever is left in the buffer
        rw [check] at left
        simp only [Bool.false_eq_true, ↓reduceIte] at left
        have none : rawCap - 1 - raw.length - (k₁.sock .gSock).rxLen.toNat = 0 := by omega
        rw [ih (past₂ _) (owned₂ _) (Nat.le_of_eq size) left, size, Nat.sub_self, none,
          overfills_zero _ (past₂ _), overfills_zero _ (past₂ _), sock_tcpRecv, sock_tcpRecv,
          TcpSocket.onRecv_frame, TcpSocket.onRecv_frame _ (Int.toNat _)]
    · rename_i full
      obtain ⟨rfl, rfl⟩ := Prod.mk.inj (Option.some.inj left)
      have none : rawCap - 1 - raw.length = 0 := by omega
      rw [none, overfills_zero _ past, close_frees_iff owned]

/-- The loop ends, with what it had and more, once enough is delivered. -/
theorem receive_returns {m n : Nat} {raw : List UInt8}
    (enough : rawCap - 1 ≤ raw.length + (drained polls m n k).2) :
    ∃ k' more, httpReceive polls (m + 1) n k raw = some (k', raw ++ more) := by
  induction m generalizing n k raw with
  | zero => exact ⟨k, [], by rw [httpReceive_full polls 0 n enough, List.append_nil]⟩
  | succ m ih =>
    by_cases room : raw.length < rawCap - 1
    · rw [httpReceive, if_pos room]
      simp only [drained] at enough
      dsimp only
      generalize pollFrames k (polls n) = k₁ at enough ⊢
      rcases httpCheck_cases (k := k₁) room with ⟨empty, check⟩ | ⟨got, size, -, check⟩ |
        ⟨maxlen, got, size, -, check⟩
      · rw [check]
        dsimp only
        split
        · exact ⟨k₁, [], by rw [List.append_nil]⟩
        · rw [tcpRecv_empty empty] at enough
          exact ih (le_trans enough (by dsimp only; omega))
      · rw [check]
        obtain ⟨k', more, left⟩ := ih (le_trans enough (by rw [size, Nat.add_assoc]))
        exact ⟨k', got ++ more, by rw [← List.append_assoc]; exact left⟩
      · rw [check]
        exact ⟨_, got, httpReceive_full polls m (n + 1) (Nat.le_of_eq size.symm)⟩
    · exact ⟨k, [], by rw [httpReceive_full polls (m + 1) n (by omega), List.append_nil]⟩

/-! ## From the connect to the request -/

variable {ip : UInt32} {port : UInt16} {hostbuf pathbuf : List UInt8}

/-- A connection that does not open is freed. -/
theorem httpOpen_error {k' : Kernel} {ret : Int}
    (failed : httpOpen polls k ip port hostbuf pathbuf = .error (k', ret)) :
    (k'.sock .gSock).inUse = false := by
  have connecting : Owned ((tcpConnect (tcpInit k) .gSock ip port 0).1.sock .gSock) := by
    rw [sock_connecting]
    exact Or.inl rfl
  have owned := httpWait_keep owned_onSegment polls 300000 0 connecting
  rcases waits : httpWait polls 300000 0 (tcpConnect (tcpInit k) .gSock ip port 0).1 with ⟨n, k₁⟩
  rw [waits] at owned
  rw [httpOpen_eq waits] at failed
  split at failed
  · rename_i waiting
    obtain ⟨rfl, -⟩ := Prod.mk.inj (Except.error.inj failed)
    exact (close_frees_iff owned).mpr waiting
  · cases failed

theorem httpOpen_owned {k' : Kernel} {n : Nat}
    (opened : httpOpen polls k ip port hostbuf pathbuf = .ok (n, k')) :
    (k'.sock .gSock).state = .established ∧ Owned (k'.sock .gSock) :=
  httpOpen_keep owned_onSegment (fun _ _ owned => owned) (Or.inl rfl) opened

end

/-! ## All rounds -/

/-- The request behind which the function returned was answered with less than
fills `raw`, or the server closed the connection before it was full. -/
def AnswerFits (polls : Nat → Nat → List (Mem × Int)) (request : Option HttpRequest) : Prop :=
  ∀ q ∈ request, ¬ Overfills (polls q.redir) q.polled q.kernel (rawCap - 1)

theorem rounds_released {polls : Nat → Nat → List (Mem × Int)} {fuel : Nat} {port : UInt16}
    {outCap : Int} {rounds : Nat} {k : Kernel} {ip : UInt32} {hostbuf pathbuf : List UInt8}
    {request : Option HttpRequest} {res : HttpResult}
    (before : rounds = 0 → ((k.sock .gSock).inUse = false ↔ AnswerFits polls request))
    (returned : httpRounds polls fuel port outCap rounds k ip hostbuf pathbuf request = some res) :
    (res.kernel.sock .gSock).inUse = false ↔ AnswerFits polls res.request := by
  induction rounds generalizing k ip hostbuf pathbuf request with
  | zero =>
    obtain rfl := Option.some.inj returned
    exact before rfl
  | succ rounds ih =>
    simp only [httpRounds] at returned
    generalize opening : httpOpen (polls (maxRedirects - rounds)) k ip port hostbuf pathbuf = opened
      at returned
    rcases opened with ⟨k, ret⟩ | ⟨n, k⟩
    · obtain rfl := Option.some.inj returned
      have free := httpOpen_error opening
      exact ⟨fun _ q none => (by cases none), fun _ => free⟩
    · obtain ⟨est, owned⟩ := httpOpen_owned opening
      dsimp only at returned
      generalize receiving : httpReceive (polls (maxRedirects - rounds)) fuel n k [] = received
        at returned
      rcases received with _ | ⟨left, raw⟩
      · cases returned
      · have released : ((tcpClose left .gSock).1.sock .gSock).inUse = false ↔
            AnswerFits polls (some ⟨maxRedirects - rounds, n, k⟩) := by
          rw [receive_released (by rw [est]; decide) owned (Nat.zero_le _) receiving]
          simp [AnswerFits]
        dsimp only at returned
        split at returned
        · obtain rfl := Option.some.inj returned
          exact released
        · exact ih (fun _ => released) returned

/-- For every server, the connection is free on return if and only if the last
response did not fill `raw` on an open connection. -/
theorem released_iff (polls : Nat → Nat → List (Mem × Int)) (fuel : Nat) (k : Kernel)
    (ip : UInt32) (port : UInt16) (host path : List UInt8) (outCap : Int) (res : HttpResult)
    (args : 0 < outCap)
    (returned : httpGetByIpPort polls fuel k ip port host path outCap = some res) :
    (res.kernel.sock .gSock).inUse = false ↔ AnswerFits polls res.request := by
  rw [httpGetByIpPort, if_neg (by omega)] at returned
  exact rounds_released (fun none => by cases none) returned

/-- The server answers the SYN, and then the request with a page and its FIN. -/
def answering (_redir : Nat) : Nat → List (Mem × Int)
  | 0 => [frameOf server (sends 0x12 7 [])]
  | 1 => [frameOf server (sends 0x19 8 (ascii "HTTP/1.0 200 OK\r\n\r\nhello"))]
  | _ => []

/-- The page is returned, and the connection is free. -/
theorem released_iff_answering :
    ∃ res, httpGetByIpPort answering 4 Pending.configured server.ip 80 (ascii "10.0.2.2")
        (ascii "/") 4096 = some res ∧ res.ret = 5 ∧ res.request.isSome = true ∧
      AnswerFits answering res.request := by
  have answered : (httpGetByIpPort answering 4 Pending.configured server.ip 80 (ascii "10.0.2.2")
      (ascii "/") 4096).map
        (fun res => (res.ret, res.request.isSome, (res.kernel.sock .gSock).inUse)) =
      some (5, true, false) := by decide +kernel
  obtain ⟨res, returned, all⟩ := Option.map_eq_some_iff.mp answered
  obtain ⟨ret, rest⟩ := Prod.mk.inj all
  obtain ⟨asked, free⟩ := Prod.mk.inj rest
  have fits := (released_iff _ _ _ _ _ _ _ _ _ (by decide) returned).mp free
  exact ⟨res, returned, ret, asked, fits⟩

/-! ## A page that is too long -/

/-- The start of a redirect to https. -/
def moved : List UInt8 := ascii "HTTP/1.1 302 Found\r\nLocation: https://10.0.2.2/\r\n\r\n"

/-- The segments of a response that goes on. -/
def longPage : Nat → List UInt8
  | 0 => moved ++ List.replicate 1409 65
  | _ + 1 => List.replicate 1460 65

/-- The server answers the SYN and then sends one segment for each poll. -/
def longPolls (_redir : Nat) : Nat → List (Mem × Int)
  | 0 => [frameOf server (sends 0x12 7 [])]
  | n + 1 => [frameOf server (sends 0x18 (SeqStream.seqAt 8 (1460 * n)) (longPage n))]

theorem length_longPage (n : Nat) : (longPage n).length = 1460 := by
  cases n with
  | zero => decide +kernel
  | succ n => exact List.length_replicate

theorem longPage_poll {g : TcpSocket} {k : Kernel} {n : Nat} (served : Served g)
    (cap : g.rxCap = 8192) (redir : Nat)
    (reading : Reading g k .established (SeqStream.seqAt 8 (1460 * n)) []) :
    Reading g (pollFrames k (longPolls redir (n + 1))) .established
      (SeqStream.seqAt 8 (1460 * (n + 1))) (longPage n) := by
  have size := length_longPage n
  have accepted := served.accepts 0x18 (SeqStream.seqAt 8 (1460 * n)) (Nat.le_of_eq size)
  have rst : ((0x18 : UInt8) &&& 0x04 != 0) = false := by decide
  have fin : ((0x18 : UInt8) &&& 0x01 != 0) = false := by decide
  have some : longPage n ≠ [] := List.ne_nil_of_length_pos (by omega)
  have fits : ((0 : Nat) : Int) + (longPage n).length ≤ g.rxCap := by rw [size, cap]; decide
  have taken := reading.data accepted rst fin some rfl fits
  dsimp only at taken
  rw [size, SeqStream.seqAt_seqAt] at taken
  exact taken

/-- After so many polls that many segments have been read, and all is as before. -/
theorem longPage_drained {g : TcpSocket} {k : Kernel} {n : Nat} (served : Served g)
    (cap : g.rxCap = 8192) (redir m : Nat)
    (reading : Reading g k .established (SeqStream.seqAt 8 (1460 * n)) []) :
    ((drained (longPolls redir) m (n + 1) k).1.sock .gSock).state = .established ∧
      (drained (longPolls redir) m (n + 1) k).2 = 1460 * m := by
  induction m generalizing n k with
  | zero => exact ⟨reading.state_eq, rfl⟩
  | succ m ih =>
    have polled := longPage_poll served cap redir reading
    have waiting : ((pollFrames k (longPolls redir (n + 1))).sock .gSock).rxLen.toNat = 1460 := by
      rw [polled.rxLen_eq, length_longPage]
      rfl
    have emptied := (polled.recv 1460).2
    rw [List.drop_eq_nil_of_le (Nat.le_of_eq (length_longPage n))] at emptied
    obtain ⟨est, total⟩ := ih emptied
    simp only [drained, waiting]
    exact ⟨est, by rw [total]; omega⟩

theorem httpAnswer_moved (ip : UInt32) (hostbuf more : List UInt8) (outCap : Int) :
    httpAnswer ip hostbuf (moved ++ more) outCap = .done (-11) [] := by
  have nonzero : ∀ c ∈ moved, decide (c ≠ 0) = true := by decide +kernel
  have page : cString (moved ++ more) = moved ++ cString more :=
    List.takeWhile_append_of_pos nonzero
  have status (u : List UInt8) : parseHttpStatus (moved ++ u) = 302 := by rfl
  have location (u : List UInt8) :
      httpLocation (moved ++ u) = some (ascii "https://10.0.2.2/") := by rfl
  have some : moved ++ more ≠ [] := fun none => by cases none
  simp only [httpAnswer, page, status, if_neg some]
  rw [if_pos (by decide), httpRedirect, location]
  rfl

/-- The first segment is read as it is, and with the others it fills `raw`. -/
theorem longPage_received {g : TcpSocket} {k : Kernel} (served : Served g) (cap : g.rxCap = 8192)
    (redir : Nat) (reading : Reading g k .established 8 []) :
    ∃ k' more, httpReceive (longPolls redir) 24 1 k [] = some (k', moved ++ more) := by
  have polled := longPage_poll (n := 0) served cap redir reading
  have size := length_longPage 0
  have waiting : 0 < ((pollFrames k (longPolls redir 1)).sock .gSock).rxLen.toNat := by
    rw [polled.rxLen_eq, size]
    decide
  obtain ⟨got, emptied⟩ := polled.recv (rawCap - 1)
  rw [List.take_of_length_le (by rw [size]; decide)] at got
  rw [List.drop_eq_nil_of_le (by rw [size]; decide)] at emptied
  have total := (longPage_drained (n := 1) served cap redir 22 emptied).2
  have enough : rawCap - 1 ≤ (longPage 0).length + (drained (longPolls redir) 22 2
      (tcpRecv (pollFrames k (longPolls redir 1)) .gSock (rawCap - 1)).1).2 := by
    rw [total, size]
    decide
  obtain ⟨k', more, left⟩ := receive_returns enough
  refine ⟨k', List.replicate 1409 65 ++ more, ?_⟩
  rw [httpReceive, if_pos (by decide)]
  dsimp only
  rw [httpCheck_some waiting (by decide)]
  simp only [List.length_nil, Nat.sub_zero, Bool.false_eq_true, ↓reduceIte, got, List.nil_append]
  rw [left, longPage, List.append_assoc]

/-- A redirect to https, with more behind it than `raw` holds: the function
returns -11, and the connection of the https client is refused. -/
theorem long_page_keeps_socket :
    ∃ res, httpGetByIpPort longPolls 24 Pending.configured server.ip 80 (ascii "10.0.2.2")
        (ascii "/") 4096 = some res ∧ res.ret = -11 ∧ (res.kernel.sock .gSock).inUse = true ∧
      (tcpConnect res.kernel (.heap 0x01400000) server.ip 443 0).2 = -1 := by
  obtain ⟨k, opened, served, cap, reading⟩ := httpOpen_served (longPolls 0) rfl
    (strncpy (ascii "10.0.2.2") 127) (strncpy (ascii "/") 1023)
  obtain ⟨k', more, left⟩ := longPage_received served cap 0 reading
  obtain ⟨est, total⟩ := longPage_drained (n := 0) served cap 0 23 reading
  have busy : ((tcpClose k' .gSock).1.sock .gSock).inUse = true := by
    have owned := (httpOpen_owned opened).2
    have released := receive_released (by rw [reading.state_eq]; decide) owned (Nat.zero_le _) left
    have overfills : Overfills (longPolls 0) 1 k (rawCap - 1) := by
      refine ⟨23, ?_, est⟩
      rw [total]
      decide
    cases free : ((tcpClose k' .gSock).1.sock .gSock).inUse with
    | true => rfl
    | false => exact absurd overfills (released.mp free)
  have returned := httpGetByIpPort_done (by decide : (0 : Int) < 4096) opened left
    (httpAnswer_moved server.ip _ more 4096)
  refine ⟨_, returned, rfl, busy, ?_⟩
  rw [tcpConnect, busy]
  rfl

end MyOS.Release
