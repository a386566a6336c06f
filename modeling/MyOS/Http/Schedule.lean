import MyOS.Http.Polls

/-!
# The page does not depend on the network

A response cut into segments and spread over the polls in one way and in another
is the same page, as long as the receive buffer never has to hold more than it can.
-/

namespace MyOS.Schedule

open Polls SeqStream

/-! ## Ways to deliver a stream -/

/-- No data that is waited for, and no flag that ends the connection. -/
def Idle (seq : UInt32) (th : Segment) : Prop :=
  th.rst = false ∧ th.fin = false ∧ (th.payload = [] ∨ th.seq ≠ seq)

/-- The frames of a poll bring `piece` in order, numbered from `seq`. -/
inductive Brings (g : TcpSocket) : UInt32 → List UInt8 → List (Mem × Int) → Prop
  | none (seq : UInt32) : Brings g seq [] []
  | other {seq : UInt32} {piece : List UInt8} {f : Mem × Int} {fs : List (Mem × Int)}
      (idle : ∀ th, Accepted g f th → Idle seq th) (later : Brings g seq piece fs) :
      Brings g seq piece (f :: fs)
  | data {th : Segment} {piece : List UInt8} {f : Mem × Int} {fs : List (Mem × Int)}
      (accepted : Accepted g f th) (rst : th.rst = false) (fin : th.fin = false)
      (some : th.payload ≠ []) (later : Brings g (seqAt th.seq th.payload.length) piece fs) :
      Brings g th.seq (th.payload ++ piece) (f :: fs)

def NoReset (g : TcpSocket) (fs : List (Mem × Int)) : Prop :=
  ∀ f ∈ fs, ∀ th, Accepted g f th → th.rst = false

/-- They bring `piece` and then the FIN, with the end of `piece` or on its own. -/
inductive BringsEnd (g : TcpSocket) (seq : UInt32) : List UInt8 → List (Mem × Int) → Prop
  | fin {th : Segment} {piece : List UInt8} {f : Mem × Int} {front back : List (Mem × Int)}
      (data : Brings g seq piece front) (accepted : Accepted g f th) (rst : th.rst = false)
      (fin : th.fin = true) (next : th.seq = seqAt seq piece.length) (rest : NoReset g back) :
      BringsEnd g seq (piece ++ th.payload) (front ++ f :: back)

/-- From the `n`-th poll on the server delivers `stream` and the FIN, and no poll
brings more than fits into the receive buffer. `read` bytes came before; with
32767 of them the function does not poll any more. -/
inductive Serves (g : TcpSocket) (polls : Nat → List (Mem × Int)) :
    Nat → UInt32 → Nat → List UInt8 → Prop
  | full {n read : Nat} {seq : UInt32} {stream : List UInt8} (enough : rawCap - 1 ≤ read) :
      Serves g polls n seq read stream
  | more {n read : Nat} {seq : UInt32} {piece stream : List UInt8}
      (brings : Brings g seq piece (polls n)) (fits : piece.length ≤ 8192)
      (later : Serves g polls (n + 1) (seqAt seq piece.length) (read + piece.length) stream) :
      Serves g polls n seq read (piece ++ stream)
  | last {n read : Nat} {seq : UInt32} {stream : List UInt8}
      (brings : BringsEnd g seq stream (polls n)) (fits : stream.length ≤ 8192)
      (quiet : ∀ m, n < m → NoReset g (polls m)) :
      Serves g polls n seq read stream

/-- The connection opens, nothing is delivered before the request, and then
`stream` is. -/
def Answered (polls : Nat → List (Mem × Int)) (k : Kernel) (ip : UInt32) (port : UInt16)
    (hostbuf pathbuf stream : List UInt8) : Prop :=
  ∃ n k', httpOpen polls k ip port hostbuf pathbuf = .ok (n, k') ∧ (k'.sock .gSock).rxLen = 0 ∧
    Serves (k'.sock .gSock) polls n (k'.sock .gSock).rcvNxt 0 stream

/-- The status in what is read of `stream` is 300 to 399. -/
def Redirects (stream : List UInt8) : Prop :=
  let status := parseHttpStatus (cString (stream.take (rawCap - 1)))
  300 ≤ status ∧ status < 400

/-! ## One poll -/

section
variable {g : TcpSocket} {k : Kernel} {state : TcpState} {seq : UInt32}
  {held piece : List UInt8} {fs : List (Mem × Int)}

theorem poll_brings (brings : Brings g seq piece fs) (reading : Reading g k .established seq held)
    (fits : (held.length : Int) + piece.length ≤ g.rxCap) :
    Reading g (pollFrames k fs) .established (seqAt seq piece.length) (held ++ piece) := by
  induction brings generalizing k held with
  | none seq =>
    rw [List.length_nil, seqAt_zero, List.append_nil]
    exact reading
  | other idle later ih =>
    refine ih (reading.skip fun th accepted => ?_) fits
    obtain ⟨rst, fin, useless⟩ := idle th accepted
    obtain ⟨_, record⟩ := reading.record
    refine ⟨rst, ?_⟩
    rw [record]
    refine ⟨fun inOrder => ?_, fin⟩
    rcases useless with empty | elsewhere
    · exact inOrder.1 empty
    · exact elsewhere inOrder.2
  | data accepted rst fin some later ih =>
    rw [List.length_append, Int.natCast_add] at fits
    have taken := reading.data accepted rst fin some rfl (by omega)
    rw [List.length_append, ← seqAt_seqAt, ← List.append_assoc]
    apply ih taken
    rw [List.length_append, Int.natCast_add]
    omega

theorem poll_closing (quiet : NoReset g fs) (closing : httpClosing state = true)
    (reading : Reading g k state seq held) :
    ∃ state' seq', httpClosing state' = true ∧ Reading g (pollFrames k fs) state' seq' held := by
  induction fs generalizing k state seq with
  | nil => exact ⟨state, seq, closing, reading⟩
  | cons f fs ih =>
    obtain ⟨state', seq', closing', reading'⟩ :=
      reading.closing closing (quiet f List.mem_cons_self)
    exact ih (fun f mem => quiet f (List.mem_cons_of_mem _ mem)) closing' reading'

theorem poll_end (brings : BringsEnd g seq piece fs)
    (reading : Reading g k .established seq held)
    (fits : (held.length : Int) + piece.length ≤ g.rxCap) :
    ∃ state' seq', httpClosing state' = true ∧
      Reading g (pollFrames k fs) state' seq' (held ++ piece) := by
  cases brings with
  | fin data accepted rst fin next rest =>
    rename_i th piece f front back
    rw [List.length_append, Int.natCast_add] at fits
    have before := poll_brings data reading (by omega)
    obtain ⟨seq', ended⟩ := before.fin accepted rst fin next
      (by rw [List.length_append, Int.natCast_add]; omega)
    rw [pollFrames, List.foldl_append, List.foldl_cons, ← List.append_assoc]
    exact poll_closing rest rfl ended

end

/-! ## The receive loop -/

/-- The loop ends there, given rounds enough. -/
def Receives (polls : Nat → List (Mem × Int)) (n : Nat) (k : Kernel) (raw : List UInt8)
    (k' : Kernel) (raw' : List UInt8) : Prop :=
  ∃ enough, ∀ fuel, enough ≤ fuel → httpReceive polls fuel n k raw = some (k', raw')

namespace Receives

variable {polls : Nat → List (Mem × Int)} {n : Nat} {k k₁ k' : Kernel} {raw raw₁ raw' : List UInt8}

theorem full (polls : Nat → List (Mem × Int)) (n : Nat) (k : Kernel)
    (enough : rawCap - 1 ≤ raw.length) : Receives polls n k raw k raw := by
  refine ⟨1, fun fuel some => ?_⟩
  obtain ⟨fuel, rfl⟩ := Nat.exists_eq_add_of_le' some
  exact httpReceive_full polls fuel n enough

theorem leave (room : raw.length < rawCap - 1)
    (check : httpCheck (pollFrames k (polls n)) raw = (k₁, raw₁, true)) :
    Receives polls n k raw k₁ raw₁ := by
  refine ⟨1, fun fuel some => ?_⟩
  obtain ⟨fuel, rfl⟩ := Nat.exists_eq_add_of_le' some
  rw [httpReceive, if_pos room, check]
  rfl

theorem step (room : raw.length < rawCap - 1)
    (check : httpCheck (pollFrames k (polls n)) raw = (k₁, raw₁, false))
    (later : Receives polls (n + 1) k₁ raw₁ k' raw') : Receives polls n k raw k' raw' := by
  obtain ⟨enough, later⟩ := later
  refine ⟨enough + 1, fun fuel some => ?_⟩
  obtain ⟨fuel, rfl⟩ := Nat.exists_eq_add_of_le' some
  rw [← Nat.add_assoc, httpReceive, if_pos room, check]
  exact later (fuel + enough) (Nat.le_add_left ..)

end Receives

section
variable {g : TcpSocket} {polls : Nat → List (Mem × Int)} {n : Nat} {k : Kernel}
  {state : TcpState} {seq : UInt32} {raw piece rest : List UInt8}

theorem check_nothing (polled : Reading g k state seq []) (raw : List UInt8) :
    httpCheck k raw = (k, raw, httpClosing state) := by
  have empty : (k.sock .gSock).rxLen ≤ 0 := by
    rw [polled.rxLen_eq]
    rfl
  rw [httpCheck_empty empty, polled.state_eq]

theorem received_full (room : ¬ raw.length < rawCap - 1) (n : Nat) (k : Kernel) :
    ∃ k', Receives polls n k raw k' (raw ++ rest.take (rawCap - 1 - raw.length)) := by
  have none : rawCap - 1 - raw.length = 0 := by omega
  rw [none, List.take_zero, List.append_nil]
  exact ⟨k, .full polls n k (by omega)⟩

/-- What a poll brought goes behind what was read, and either `raw` is full or
the buffer is empty for the next poll. -/
theorem received_piece (room : raw.length < rawCap - 1) (some : piece ≠ [])
    (polled : Reading g (pollFrames k (polls n)) state seq piece)
    (next : piece.length ≤ rawCap - 1 - raw.length → ∀ k₁, Reading g k₁ state seq [] →
      ∃ k', Receives polls (n + 1) k₁ (raw ++ piece) k'
        (raw ++ piece ++ rest.take (rawCap - 1 - (raw ++ piece).length))) :
    ∃ k', Receives polls n k raw k' (raw ++ (piece ++ rest).take (rawCap - 1 - raw.length)) := by
  have waiting : 0 < ((pollFrames k (polls n)).sock .gSock).rxLen.toNat := by
    rw [polled.rxLen_eq, Int.toNat_natCast]
    exact List.length_pos_of_ne_nil some
  have check := httpCheck_some waiting room
  obtain ⟨got, emptied⟩ := polled.recv (rawCap - 1 - raw.length)
  rw [got] at check
  by_cases fits : piece.length ≤ rawCap - 1 - raw.length
  · rw [List.take_of_length_le fits] at check
    rw [List.drop_eq_nil_of_le fits] at emptied
    obtain ⟨k', later⟩ := next fits _ emptied
    refine ⟨k', .step room check ?_⟩
    rw [List.take_append, List.take_of_length_le fits, ← List.append_assoc]
    rw [List.length_append, Nat.sub_add_eq] at later
    exact later
  · rw [List.take_append_of_le_length (by omega)]
    have filled : rawCap - 1 ≤ (raw ++ piece.take (rawCap - 1 - raw.length)).length := by
      rw [List.length_append, List.length_take]
      omega
    exact ⟨_, .step room check (.full polls (n + 1) _ filled)⟩

/-- Behind the FIN nothing comes any more, and the loop is left. -/
theorem received_closing (quiet : NoReset g (polls n)) (closing : httpClosing state = true)
    (reading : Reading g k state seq []) : ∃ k', Receives polls n k raw k' raw := by
  by_cases room : raw.length < rawCap - 1
  · obtain ⟨state', seq', closing', polled⟩ := poll_closing quiet closing reading
    have check := check_nothing polled raw
    rw [closing'] at check
    exact ⟨_, .leave room check⟩
  · exact ⟨k, .full polls n k (by omega)⟩

/-- The loop reads the whole stream, or as much of it as `raw` holds. -/
theorem serves_received {read : Nat} {stream : List UInt8}
    (serves : Serves g polls n seq read stream) (cap : g.rxCap = 8192)
    (reading : Reading g k .established seq []) (size : raw.length = min read (rawCap - 1)) :
    ∃ k', Receives polls n k raw k' (raw ++ stream.take (rawCap - 1 - raw.length)) := by
  induction serves generalizing k raw with
  | full enough => exact received_full (by omega) _ k
  | more brings fits later ih =>
    rename_i n read seq piece stream
    by_cases room : raw.length < rawCap - 1
    · have polled := poll_brings brings reading (by rw [List.length_nil, cap]; omega)
      rw [List.nil_append] at polled
      by_cases some : piece = []
      · subst some
        obtain ⟨k', later⟩ := ih polled size
        exact ⟨k', .step room (check_nothing polled raw) later⟩
      · refine received_piece room some polled fun fits k₁ emptied => ih emptied ?_
        rw [List.length_append]
        omega
    · exact received_full room n k
  | last brings fits quiet =>
    rename_i n read seq stream
    by_cases room : raw.length < rawCap - 1
    · obtain ⟨state, seq', closing, polled⟩ :=
        poll_end brings reading (by rw [List.length_nil, cap]; omega)
      rw [List.nil_append] at polled
      by_cases some : stream = []
      · subst some
        have check := check_nothing polled raw
        rw [closing] at check
        rw [List.take_nil, List.append_nil]
        exact ⟨_, .leave room check⟩
      · rw [← List.append_nil stream]
        refine received_piece room some polled fun _ k₁ emptied => ?_
        rw [List.take_nil, List.append_nil]
        exact received_closing (quiet (n + 1) (Nat.lt_succ_self n)) closing emptied
    · exact received_full room n k

end

/-! ## The page -/

theorem cap_onSegment (g : TcpSocket) (th : Segment) (cap : g.rxCap = 8192) :
    (g.onSegment th).rxCap = 8192 := by
  unfold TcpSocket.onSegment
  split
  · exact cap
  · cases g.state with
    | closed | timeWait => exact cap
    | synSent | finWait1 | finWait2 => dsimp only; split <;> exact cap
    | established =>
      dsimp only
      rw [TcpSocket.afterData_frame]
      split <;> exact cap

theorem httpAnswer_done {stream : List UInt8} (page : ¬ Redirects stream) (ip : UInt32)
    (hostbuf : List UInt8) (outCap : Int) :
    ∃ ret out, httpAnswer ip hostbuf (stream.take (rawCap - 1)) outCap = .done ret out := by
  rw [httpAnswer]
  dsimp only
  split
  · exact ⟨_, _, rfl⟩
  · simp only [Redirects] at page
    rw [if_neg page]
    exact ⟨_, _, rfl⟩

/-- What is returned is a function of the stream. -/
theorem answered_returns {polls : Nat → Nat → List (Mem × Int)} {k : Kernel} {ip : UInt32}
    {port : UInt16} {host path stream : List UInt8} {outCap : Int} (args : 0 < outCap)
    (page : ¬ Redirects stream)
    (answered : Answered (polls 0) k ip port (strncpy host 127) (strncpy path 1023) stream) :
    ∃ enough, ∀ fuel, enough ≤ fuel →
      ∃ res, httpGetByIpPort polls fuel k ip port host path outCap = some res ∧
        httpAnswer ip (strncpy host 127) (stream.take (rawCap - 1)) outCap =
          .done res.ret res.out := by
  obtain ⟨n, k', opened, empty, serves⟩ := answered
  obtain ⟨est, cap⟩ := httpOpen_keep cap_onSegment (fun _ _ cap => cap) rfl opened
  have reading := Reading.start empty
  rw [est] at reading
  have nothing : ([] : List UInt8).length = min 0 (rawCap - 1) := rfl
  obtain ⟨left, enough, received⟩ := serves_received serves cap reading nothing
  obtain ⟨ret, out, answer⟩ := httpAnswer_done page ip (strncpy host 127) outCap
  refine ⟨enough, fun fuel some => ?_⟩
  exact ⟨_, httpGetByIpPort_done args opened (received fuel some) answer, answer⟩

/-- For every response that is no redirect, however it is cut into segments and
spread over the polls, the same value is returned and the same bytes are written. -/
theorem same_page (stream : List UInt8) (outCap : Int) (ip : UInt32) (port : UInt16)
    (host path : List UInt8) (k₁ k₂ : Kernel) (polls₁ polls₂ : Nat → Nat → List (Mem × Int))
    (page : ¬ Redirects stream)
    (first : Answered (polls₁ 0) k₁ ip port (strncpy host 127) (strncpy path 1023) stream)
    (second : Answered (polls₂ 0) k₂ ip port (strncpy host 127) (strncpy path 1023) stream) :
    ∃ enough, ∀ fuel, enough ≤ fuel → ∃ res₁ res₂,
      httpGetByIpPort polls₁ fuel k₁ ip port host path outCap = some res₁ ∧
      httpGetByIpPort polls₂ fuel k₂ ip port host path outCap = some res₂ ∧
      res₁.ret = res₂.ret ∧ res₁.out = res₂.out := by
  by_cases args : 0 < outCap
  · obtain ⟨enough₁, returns₁⟩ := answered_returns args page first
    obtain ⟨enough₂, returns₂⟩ := answered_returns args page second
    refine ⟨max enough₁ enough₂, fun fuel some => ?_⟩
    obtain ⟨res₁, returned₁, answer₁⟩ := returns₁ fuel (le_trans (le_max_left ..) some)
    obtain ⟨res₂, returned₂, answer₂⟩ := returns₂ fuel (le_trans (le_max_right ..) some)
    obtain ⟨ret, out⟩ := HttpAnswer.done.inj (answer₁.symm.trans answer₂)
    exact ⟨res₁, res₂, returned₁, returned₂, ret, out⟩
  · refine ⟨0, fun fuel _ => ⟨⟨k₁, -1, [], none⟩, ⟨k₂, -1, [], none⟩, ?_, ?_, rfl, rfl⟩⟩
    · rw [httpGetByIpPort, if_pos (not_lt.mp args)]
    · rw [httpGetByIpPort, if_pos (not_lt.mp args)]

/-! A small page, in one segment and in two with the FIN on its own. -/

def page : List UInt8 := ascii "HTTP/1.0 200 OK\r\n\r\nhello"

def atOnce (_redir : Nat) : Nat → List (Mem × Int)
  | 0 => [frameOf server (sends 0x12 7 [])]
  | 1 => [frameOf server (sends 0x19 8 page)]
  | _ + 2 => []

def inPieces (_redir : Nat) : Nat → List (Mem × Int)
  | 0 => [frameOf server (sends 0x12 7 [])]
  | 1 => [frameOf server (sends 0x18 8 (page.take 10))]
  | 2 => []
  | 3 => [frameOf server (sends 0x18 18 (page.drop 10)), frameOf server (sends 0x11 32 [])]
  | _ + 4 => []

theorem noReset_nil (g : TcpSocket) : NoReset g [] :=
  fun _ mem => absurd mem List.not_mem_nil

/-- One segment of data in a poll. -/
theorem brings_one {g : TcpSocket} (served : Served g) (seq : UInt32) {payload : List UInt8}
    (some : payload ≠ []) (fits : payload.length ≤ 1460) :
    Brings g seq (payload ++ []) [frameOf server (sends 0x18 seq payload)] := by
  have rst : ((0x18 : UInt8) &&& 0x04 != 0) = false := by decide
  have fin : ((0x18 : UInt8) &&& 0x01 != 0) = false := by decide
  exact .data (served.accepts 0x18 seq fits) rst fin some (.none _)

theorem serves_atOnce {g : TcpSocket} (served : Served g) : Serves g (atOnce 0) 1 8 0 page := by
  have rst : ((0x19 : UInt8) &&& 0x04 != 0) = false := by decide
  have fin : ((0x19 : UInt8) &&& 0x01 != 0) = true := by decide
  have accepted := served.accepts 0x19 8 (by decide +kernel : page.length ≤ 1460)
  have ends : BringsEnd g 8 ([] ++ page) ([] ++ [frameOf server (sends 0x19 8 page)]) :=
    .fin (.none 8) accepted rst fin rfl (noReset_nil g)
  refine .last ends (by decide +kernel) fun m later => ?_
  obtain ⟨m, rfl⟩ := Nat.exists_eq_add_of_le' later
  exact noReset_nil g

theorem serves_inPieces {g : TcpSocket} (served : Served g) : Serves g (inPieces 0) 1 8 0 page := by
  have rst : ((0x11 : UInt8) &&& 0x04 != 0) = false := by decide
  have fin : ((0x11 : UInt8) &&& 0x01 != 0) = true := by decide
  have front := brings_one served 8 (by decide +kernel : page.take 10 ≠ []) (by decide +kernel)
  have back := brings_one served 18 (by decide +kernel : page.drop 10 ≠ []) (by decide +kernel)
  have alone : Accepted g (frameOf server (sends 0x11 32 [])) ⟨80, 40000, 32, 0, 0x11, []⟩ :=
    served.accepts 0x11 32 (Nat.zero_le 1460)
  have ends := BringsEnd.fin back alone rst fin (by decide +kernel) (noReset_nil g)
  have last : Serves g (inPieces 0) 3 18 10 (page.drop 10) := by
    have whole : page.drop 10 ++ [] ++ [] = page.drop 10 := by rw [List.append_nil, List.append_nil]
    rw [← whole]
    refine .last ends (by decide +kernel) fun m later => ?_
    obtain ⟨m, rfl⟩ := Nat.exists_eq_add_of_le' later
    exact noReset_nil g
  have first : Serves g (inPieces 0) 1 8 0 (page.take 10 ++ [] ++ ([] ++ page.drop 10)) :=
    .more front (by decide +kernel) (.more (.none _) (Nat.zero_le _) last)
  exact first

theorem answered_at (k₁ : Kernel) {polls : Nat → List (Mem × Int)} {stream : List UInt8}
    (synAck : polls 0 = [frameOf server (sendsTo k₁.tcp.ephemeral 0x12 7 [])])
    (serves : ∀ g, ServedAt k₁.tcp.ephemeral g → Serves g polls 1 8 0 stream)
    (hostbuf pathbuf : List UInt8) : Answered polls k₁ server.ip 80 hostbuf pathbuf stream := by
  obtain ⟨k, opened, served, -, reading⟩ := httpOpen_at k₁ synAck hostbuf pathbuf
  refine ⟨1, k, opened, reading.rxLen_eq, ?_⟩
  rw [reading.rcvNxt_eq]
  exact serves _ served

theorem answered_by {polls : Nat → List (Mem × Int)} {stream : List UInt8}
    (synAck : polls 0 = [frameOf server (sends 0x12 7 [])])
    (serves : ∀ g, Served g → Serves g polls 1 8 0 stream) (hostbuf pathbuf : List UInt8) :
    Answered polls Pending.configured server.ip 80 hostbuf pathbuf stream :=
  answered_at Pending.configured synAck
    (fun g served => serves g (served.first rfl)) hostbuf pathbuf

theorem same_page_in_pieces :
    ∃ enough, ∀ fuel, enough ≤ fuel → ∃ res₁ res₂,
      httpGetByIpPort atOnce fuel Pending.configured server.ip 80 (ascii "10.0.2.2") (ascii "/")
        4096 = some res₁ ∧
      httpGetByIpPort inPieces fuel Pending.configured server.ip 80 (ascii "10.0.2.2") (ascii "/")
        4096 = some res₂ ∧ res₁.ret = res₂.ret ∧ res₁.out = res₂.out := by
  refine same_page page 4096 server.ip 80 _ _ _ _ atOnce inPieces ?_ ?_ ?_
  · simp only [Redirects]
    decide +kernel
  · exact answered_by rfl (fun _ served => serves_atOnce served) _ _
  · exact answered_by rfl (fun _ served => serves_inPieces served) _ _

end MyOS.Schedule
