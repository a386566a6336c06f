import MyOS.Http.Page
import MyOS.Http.Url
import MyOS.Tcp.Ports

/-!
# The pages a call visits

A call of `http_get_by_ip_port` over a network on which every request is answered, in
any pieces that the receive buffer can hold, against a walk from page to page.
-/

namespace MyOS.Visits

open Page Polls Requests Schedule Url

/-- What the servers answer: a response for each address, port, host and path. -/
abbrev Web := Destination → List UInt8

/-- The pages visited with so many rounds to go, what is returned and what is written. -/
def visit (web : Web) (outCap : Int) : Nat → Destination → List Destination × Int × List UInt8
  | 0, _ => ([], -15, [])
  | rounds + 1, d =>
    match httpAnswer d.ip d.host ((web d).take (rawCap - 1)) outCap with
    | .done ret out => ([d], ret, out)
    | .follow ip host path =>
      let rest := visit web outCap rounds ⟨ip, d.port, host, path⟩
      (d :: rest.1, rest.2)

/-- Where a round connects to and what it asks for. -/
def asked (c : Call) (r : Round) : Destination := ⟨r.ip, c.port, r.hostbuf, r.pathbuf⟩

def entry (c : Call) : Round :=
  ⟨0, c.kernel, c.ip, strncpy c.host 127, strncpy c.path 1023, ⟨c.host, c.path⟩⟩

/-- The walk of a call over the pages. -/
def walk (c : Call) (web : Web) : List Destination × Int × List UInt8 :=
  visit web c.outCap (maxRedirects + 1) (asked c (entry c))

/-- Every request of the call is answered. -/
def AnsweredBy (c : Call) (web : Web) : Prop :=
  ∀ r, Arrives c r → AnsweredWith c r (web (asked c r))

section
variable {web : Web} {outCap ret : Int} {rounds : Nat} {d : Destination} {out : List UInt8}

theorem visit_done
    (answer : httpAnswer d.ip d.host ((web d).take (rawCap - 1)) outCap = .done ret out) :
    visit web outCap (rounds + 1) d = ([d], ret, out) := by
  rw [visit, answer]

theorem visit_follow {ip : UInt32} {host path : List UInt8}
    (answer : httpAnswer d.ip d.host ((web d).take (rawCap - 1)) outCap = .follow ip host path) :
    visit web outCap (rounds + 1) d = (d :: (visit web outCap rounds ⟨ip, d.port, host, path⟩).1,
      (visit web outCap rounds ⟨ip, d.port, host, path⟩).2) := by
  rw [visit, answer]

theorem visit_first (web : Web) (outCap : Int) (rounds : Nat) (d : Destination) :
    (visit web outCap (rounds + 1) d).1[0]? = some d := by
  cases answer : httpAnswer d.ip d.host ((web d).take (rawCap - 1)) outCap with
  | done ret out => rw [visit_done answer]; rfl
  | follow ip host path => rw [visit_follow answer]; rfl

/-- Behind a redirect to follow stands the page it leads to. -/
theorem visit_next {i : Nat} {e : Destination} {ip : UInt32} {host path : List UInt8}
    (visited : (visit web outCap rounds d).1[i]? = some e) (more : i + 1 < rounds)
    (answer : httpAnswer e.ip e.host ((web e).take (rawCap - 1)) outCap = .follow ip host path) :
    (visit web outCap rounds d).1[i + 1]? = some ⟨ip, e.port, host, path⟩ := by
  induction rounds generalizing d i with
  | zero => omega
  | succ rounds ih =>
    obtain ⟨rounds, rfl⟩ : ∃ n, rounds = n + 1 := ⟨rounds - 1, by omega⟩
    cases here : httpAnswer d.ip d.host ((web d).take (rawCap - 1)) outCap with
    | done ret out =>
      rw [visit_done here] at visited
      cases i with
      | zero =>
        obtain rfl : d = e := Option.some.inj visited
        rw [here] at answer
        cases answer
      | succ i => cases visited
    | follow ip' host' path' =>
      rw [visit_follow here] at visited ⊢
      cases i with
      | zero =>
        obtain rfl : d = e := Option.some.inj visited
        rw [here] at answer
        cases answer
        exact visit_first ..
      | succ i => exact ih visited (by omega)

/-- A walk that comes to a page and not to a redirect ends with what is made of it. -/
theorem visit_last {e : Destination} (last : (visit web outCap rounds d).1.getLast? = some e)
    (page : ¬ Redirects (web e)) : httpAnswer e.ip e.host ((web e).take (rawCap - 1)) outCap =
      .done (visit web outCap rounds d).2.1 (visit web outCap rounds d).2.2 := by
  induction rounds generalizing d with
  | zero => cases last
  | succ rounds ih =>
    cases answer : httpAnswer d.ip d.host ((web d).take (rawCap - 1)) outCap with
    | done ret out =>
      rw [visit_done answer] at last ⊢
      obtain rfl : d = e := Option.some.inj last
      exact answer
    | follow ip host path =>
      rw [visit_follow answer] at last ⊢
      by_cases stops : (visit web outCap rounds ⟨ip, d.port, host, path⟩).1 = []
      · rw [stops] at last
        obtain rfl : d = e := Option.some.inj last
        obtain ⟨ret, out, done⟩ := httpAnswer_done page d.ip d.host outCap
        cases answer.symm.trans done
      · rw [List.getLast?_cons_of_ne_nil stops] at last
        exact ih last

end

/-! ## What a round receives -/

theorem httpReceive_mono {polls : Nat → List (Mem × Int)} {fuel more n : Nat} {k : Kernel}
    {raw : List UInt8} {res : Kernel × List UInt8}
    (received : httpReceive polls fuel n k raw = some res) (upto : fuel ≤ more) :
    httpReceive polls more n k raw = some res := by
  induction fuel generalizing more n k raw with
  | zero => cases received
  | succ fuel ih =>
    obtain ⟨more, rfl⟩ := Nat.exists_eq_add_of_le' (Nat.zero_lt_of_lt upto)
    rw [httpReceive] at received ⊢
    split
    · rename_i room
      rw [if_pos room] at received
      dsimp only at received ⊢
      split
      · rename_i leaves
        rwa [if_pos leaves] at received
      · rename_i stays
        rw [if_neg stays] at received
        exact ih received (by omega)
    · rename_i full
      rwa [if_neg full] at received

section
variable {c : Call} {r : Round} {stream : List UInt8}

/-- The loop of a round that is answered reads the response, or as much as `raw` holds. -/
theorem answered_received (answered : AnsweredWith c r stream) :
    ∃ n k left enough, r.opened c = .ok (n, k) ∧ ∀ fuel, enough ≤ fuel →
      httpReceive (c.polls r.redir) fuel n k [] = some (left, stream.take (rawCap - 1)) := by
  obtain ⟨n, k, opened, empty, serves⟩ := answered
  obtain ⟨est, cap⟩ := httpOpen_keep cap_onSegment (fun _ _ cap => cap) rfl opened
  have reading := Reading.start empty
  rw [est] at reading
  have nothing : ([] : List UInt8).length = min 0 (rawCap - 1) := rfl
  obtain ⟨left, enough, received⟩ := serves_received serves cap reading nothing
  exact ⟨n, k, left, enough, opened, received⟩

theorem received_whole {fuel n : Nat} {k left : Kernel} {raw : List UInt8}
    (answered : AnsweredWith c r stream) (opened : r.opened c = .ok (n, k))
    (received : httpReceive (c.polls r.redir) fuel n k [] = some (left, raw)) :
    raw = stream.take (rawCap - 1) := by
  obtain ⟨n', k', left', enough, opened', received'⟩ := answered_received answered
  obtain ⟨rfl, rfl⟩ := Prod.mk.inj (Except.ok.inj (opened.symm.trans opened'))
  have one := httpReceive_mono received (le_max_left fuel enough)
  have other := received' _ (le_max_right fuel enough)
  exact (Prod.mk.inj (Option.some.inj (one.symm.trans other))).2

/-- With more turns a call comes to the same rounds. -/
theorem reached_mono {fuel more : Nat} (reached : Reached (within c fuel) r) (upto : fuel ≤ more) :
    Reached (within c more) r := by
  induction reached with
  | first args => exact .first args
  | follow before more opened received answer value ih =>
    exact .follow ih more opened (httpReceive_mono received upto) answer value

theorem reached_arrives {fuel : Nat} (reached : Reached (within c fuel) r) : Arrives c r :=
  ⟨fuel, fun _ upto => reached_mono reached upto⟩

theorem arrives_first (args : 0 < c.outCap) : Arrives c (entry c) := ⟨0, fun _ _ => .first args⟩

/-! ## From round to round -/

theorem arrives_next (arrives : Arrives c r) (answered : AnsweredWith c r stream)
    (more : r.redir < maxRedirects) {ip : UInt32} {host path : List UInt8}
    (answer : httpAnswer r.ip r.hostbuf (stream.take (rawCap - 1)) c.outCap =
      .follow ip host path) :
    ∃ r', Arrives c r' ∧ r'.redir = r.redir + 1 ∧ asked c r' = ⟨ip, c.port, host, path⟩ := by
  obtain ⟨enough, reached⟩ := arrives
  obtain ⟨n, k, left, enough', opened, received⟩ := answered_received answered
  have here := reached _ (le_max_left enough enough')
  obtain ⟨target, next⟩ := here.next more opened (received _ (le_max_right enough enough')) answer
  exact ⟨_, reached_arrives next, rfl, rfl⟩

/-- After the last round a redirect is not followed. -/
theorem arrives_last (arrives : Arrives c r) (answered : AnsweredWith c r stream)
    (last : r.redir = maxRedirects) {ip : UInt32} {host path : List UInt8}
    (answer : httpAnswer r.ip r.hostbuf (stream.take (rawCap - 1)) c.outCap =
      .follow ip host path) :
    Returns c (-15) [] := by
  obtain ⟨enough, reached⟩ := arrives
  obtain ⟨n, k, left, enough', opened, received⟩ := answered_received answered
  refine ⟨max enough enough', fun fuel upto => ?_⟩
  obtain ⟨-, request, rest⟩ := (reached fuel ((le_max_left ..).trans upto)).result
  have received := received fuel ((le_max_right ..).trans upto)
  rw [last] at rest received
  rw [Round.opened, last] at opened
  refine ⟨⟨(tcpClose left .gSock).1, -15, [], some ⟨maxRedirects, n, k⟩⟩, ?_, rfl, rfl⟩
  simp only [rest, Nat.sub_self, httpRounds]
  simp only [within, Nat.sub_zero, opened, received, answer]

/-- From a round on, the call goes the way of a walk. -/
structure Follows (c : Call) (r : Round) (v : List Destination × Int × List UInt8) : Prop where
  returns : Returns c v.2.1 v.2.2
  visits : ∀ i d, v.1[i]? = some d → ∃ r', Arrives c r' ∧ r'.redir = r.redir + i ∧ asked c r' = d

theorem follows_end (arrives : Arrives c r) {ret : Int} {out : List UInt8}
    (returns : Returns c ret out) :
    Follows c r ([asked c r], ret, out) := by
  refine ⟨returns, fun i d visited => ?_⟩
  cases i with
  | zero => exact ⟨r, arrives, rfl, Option.some.inj visited⟩
  | succ i => cases visited

theorem follows_cons {r' : Round} {v : List Destination × Int × List UInt8} (arrives : Arrives c r)
    (next : r'.redir = r.redir + 1) (follows : Follows c r' v) :
    Follows c r (asked c r :: v.1, v.2) := by
  refine ⟨follows.returns, fun i d visited => ?_⟩
  cases i with
  | zero => exact ⟨r, arrives, rfl, Option.some.inj visited⟩
  | succ i =>
    obtain ⟨r'', arrives'', redir, same⟩ := follows.visits i d visited
    exact ⟨r'', arrives'', by omega, same⟩

theorem follows_visit {web : Web} {rounds : Nat} (answers : AnsweredBy c web)
    (arrives : Arrives c r) (left : r.redir + rounds = maxRedirects) :
    Follows c r (visit web c.outCap (rounds + 1) (asked c r)) := by
  induction rounds generalizing r with
  | zero =>
    have answered := answers r arrives
    cases answer : httpAnswer r.ip r.hostbuf ((web (asked c r)).take (rawCap - 1)) c.outCap with
    | done ret out =>
      rw [visit_done answer]
      exact follows_end arrives (arrives.returns answered answer)
    | follow ip host path =>
      rw [visit_follow answer]
      exact follows_end arrives (arrives_last arrives answered left answer)
  | succ rounds ih =>
    have answered := answers r arrives
    cases answer : httpAnswer r.ip r.hostbuf ((web (asked c r)).take (rawCap - 1)) c.outCap with
    | done ret out =>
      rw [visit_done answer]
      exact follows_end arrives (arrives.returns answered answer)
    | follow ip host path =>
      obtain ⟨r', arrives', next, same⟩ := arrives_next arrives answered (by omega) answer
      have rest := ih arrives' (by omega)
      rw [same] at rest
      rw [visit_follow answer]
      exact follows_cons arrives next rest

/-- And it comes to no other pages. -/
theorem visited {web : Web} {fuel : Nat} (answers : AnsweredBy c web)
    (reached : Reached (within c fuel) r) :
    (walk c web).1[r.redir]? = some (asked c r) := by
  induction reached with
  | first args => exact visit_first ..
  | follow before more opened received answer value ih =>
    have whole := received_whole (answers _ (reached_arrives before)) opened received
    rw [whole] at answer
    exact visit_next ih (Nat.succ_lt_succ more) answer

theorem call_returns {web : Web} (args : 0 < c.outCap) (answers : AnsweredBy c web) :
    Returns c (walk c web).2.1 (walk c web).2.2 :=
  (follows_visit answers (arrives_first args) (Nat.zero_add maxRedirects)).returns

end

/-- A call whose requests are answered returns and writes what the walk over the pages
does, and its rounds are the pages visited. -/
theorem call_walks {c : Call} {web : Web} (args : 0 < c.outCap) (answers : AnsweredBy c web) :
    Returns c (walk c web).2.1 (walk c web).2.2 ∧
      ∀ i d, (walk c web).1[i]? = some d ↔ ∃ r, Arrives c r ∧ r.redir = i ∧ asked c r = d := by
  refine ⟨call_returns args answers, fun i d => ⟨fun here => ?_, ?_⟩⟩
  · have follows := follows_visit answers (arrives_first args) (Nat.zero_add maxRedirects)
    obtain ⟨r, arrives, redir, same⟩ := follows.visits i d here
    exact ⟨r, arrives, redir.trans (Nat.zero_add i), same⟩
  · rintro ⟨r, ⟨enough, reached⟩, rfl, rfl⟩
    exact visited answers (reached enough (Nat.le_refl _))

/-- A call whose first response is a page makes no other request. -/
theorem answeredBy_first {c : Call} {stream : List UInt8}
    (answered : AnsweredWith c (entry c) stream) (page : ¬ Redirects stream) :
    AnsweredBy c fun _ => stream := by
  rintro r ⟨enough, reached⟩
  suffices only : r = entry c by
    rw [only]
    exact answered
  have here := reached enough (Nat.le_refl _)
  clear reached
  induction here with
  | first args => rfl
  | follow before more opened received answer value ih =>
    rw [ih] at opened received answer
    rw [received_whole answered opened received] at answer
    obtain ⟨ret, out, done⟩ := httpAnswer_done page (entry c).ip (entry c).hostbuf c.outCap
    cases answer.symm.trans done

/-! ## The local port of a round -/

section
variable {k k' : Kernel} {polls : Nat → List (Mem × Int)}

theorem netRx_ephemeral (k : Kernel) (frame : Mem) (len : Int) :
    (netRx k frame len).tcp.ephemeral = k.tcp.ephemeral := by
  unfold netRx
  generalize (netRxDemux frame len).val = handoffs
  induction handoffs generalizing k with
  | nil => rfl
  | cons h hs ih =>
    have same : (deliver frame k h).tcp.ephemeral = k.tcp.ephemeral := by
      cases h with
      | arp | dnsOnResponse | udpOnDatagram => rw [deliver]
      | tcpOnRx srcIp dstIp start length =>
        exact Ports.tcpOnRx_ephemeral k (frame.advance start) length srcIp dstIp
    exact (ih _).trans same

theorem pollFrames_ephemeral (k : Kernel) (fs : List (Mem × Int)) :
    (pollFrames k fs).tcp.ephemeral = k.tcp.ephemeral := by
  induction fs generalizing k with
  | nil => rfl
  | cons f fs ih => exact (ih _).trans (netRx_ephemeral k f.1 f.2)

theorem httpWait_ephemeral (polls : Nat → List (Mem × Int)) (waits n : Nat) (k : Kernel) :
    (httpWait polls waits n k).2.tcp.ephemeral = k.tcp.ephemeral := by
  induction waits generalizing n k with
  | zero => rfl
  | succ waits ih =>
    rw [httpWait]
    split
    · exact (ih _ _).trans (pollFrames_ephemeral k _)
    · rfl

theorem httpOpen_ephemeral {n : Nat} {ip : UInt32} {port : UInt16} {hostbuf pathbuf : List UInt8}
    (opened : httpOpen polls k ip port hostbuf pathbuf = .ok (n, k')) :
    k'.tcp.ephemeral = k.tcp.ephemeral + 1 := by
  have idle : ((tcpInit k).sock .gSock).inUse = false := by
    rw [tcpInit, setSock_same]
    rfl
  have connected := Ports.tcpConnect_ephemeral (tcpInit k) .gSock ip port idle
  have waited := httpWait_ephemeral polls 300000 0 (tcpConnect (tcpInit k) .gSock ip port 0).1
  rcases waits : httpWait polls 300000 0 (tcpConnect (tcpInit k) .gSock ip port 0).1 with ⟨n₁, k₁⟩
  rw [waits, connected] at waited
  rw [httpOpen_eq waits] at opened
  split at opened
  · cases opened
  · obtain ⟨-, rfl⟩ := Prod.mk.inj (Except.ok.inj opened)
    exact (Ports.tcpSend_ephemeral ..).trans waited

theorem httpReceive_ephemeral {fuel n : Nat} {raw raw' : List UInt8}
    (received : httpReceive polls fuel n k raw = some (k', raw')) :
    k'.tcp.ephemeral = k.tcp.ephemeral := by
  induction fuel generalizing n k raw with
  | zero => cases received
  | succ fuel ih =>
    have checked : (httpCheck (pollFrames k (polls n)) raw).1.tcp.ephemeral = k.tcp.ephemeral := by
      unfold httpCheck
      dsimp only
      split <;> exact (Ports.tcpRecv_ephemeral ..).trans (pollFrames_ephemeral ..)
    rw [httpReceive] at received
    split at received
    · dsimp only at received
      split at received
      · cases received
        exact checked
      · exact (ih received).trans checked
    · cases received
      rfl

/-- Every round takes the next port. -/
theorem reached_ephemeral {c : Call} {r : Round} (reached : Reached c r) :
    r.kernel.tcp.ephemeral = c.kernel.tcp.ephemeral + r.redir.toUInt16 := by
  induction reached with
  | first args => exact (UInt16.add_zero _).symm
  | follow before more opened received answer value ih =>
    dsimp only
    rw [Ports.tcpClose_ephemeral, httpReceive_ephemeral received, httpOpen_ephemeral opened, ih,
      UInt16.add_assoc]
    exact congrArg _ (UInt16.ofNat_add _ 1).symm

end

/-! ## A redirect and a page -/

/-- The server answers in one segment, on the connection to this port. -/
def oneSegment (port : UInt16) (stream : List UInt8) : Nat → List (Mem × Int)
  | 0 => [frameOf server (sendsTo port 0x12 7 [])]
  | 1 => [frameOf server (sendsTo port 0x19 8 stream)]
  | _ + 2 => []

theorem serves_oneSegment {port : UInt16} {g : TcpSocket} (served : ServedAt port g)
    {stream : List UInt8} (short : stream.length ≤ 1460) :
    Serves g (oneSegment port stream) 1 8 0 stream := by
  have rst : ((0x19 : UInt8) &&& 0x04 != 0) = false := by decide
  have fin : ((0x19 : UInt8) &&& 0x01 != 0) = true := by decide
  have accepted := served.accepts 0x19 8 short
  have ends : BringsEnd g 8 ([] ++ stream) ([] ++ [frameOf server (sendsTo port 0x19 8 stream)]) :=
    .fin (.none 8) accepted rst fin rfl (noReset_nil g)
  refine .last ends (by omega) fun m later => ?_
  obtain ⟨m, rfl⟩ := Nat.exists_eq_add_of_le' later
  exact noReset_nil g

def movedPage : List UInt8 := ascii "HTTP/1.0 302 Found\r\nLocation: /b\r\n\r\n"

def twoPages : Web := fun d => if d.path = ascii "/b" then Schedule.page else movedPage

def responses (redir : Nat) : List UInt8 := if redir = 0 then movedPage else Schedule.page

def callOfTwo : Call where
  polls redir := oneSegment (40000 + redir.toUInt16) (responses redir)
  fuel := 0
  kernel := Pending.configured
  ip := server.ip
  port := 80
  host := ascii "10.0.2.2"
  path := ascii "/a"
  outCap := 4096
  hostString := literal_string

def pageAt (path : String) : Destination := ⟨server.ip, 80, ascii "10.0.2.2", ascii path⟩

theorem answered_two {fuel : Nat} {r : Round} (reached : Reached (within callOfTwo fuel) r)
    (ip : r.ip = server.ip) : AnsweredWith callOfTwo r (responses r.redir) := by
  have port : r.kernel.tcp.ephemeral = 40000 + r.redir.toUInt16 := reached_ephemeral reached
  have short : (responses r.redir).length ≤ 1460 := by
    unfold responses
    split <;> decide +kernel
  unfold AnsweredWith
  rw [ip]
  refine answered_at r.kernel ?_ (fun g served => ?_) _ _
  · rw [port]
    rfl
  · rw [port] at served
    exact serves_oneSegment served short

theorem answer_moved : httpAnswer server.ip (ascii "10.0.2.2") (movedPage.take (rawCap - 1)) 4096 =
    .follow server.ip (ascii "10.0.2.2") (ascii "/b") := by decide +kernel

theorem answer_page :
    httpAnswer server.ip (ascii "10.0.2.2") (Schedule.page.take (rawCap - 1)) 4096 =
    .done 5 (ascii "hello" ++ [0]) := by decide +kernel

theorem reached_two {fuel : Nat} {r : Round} (reached : Reached (within callOfTwo fuel) r) :
    r.redir = 0 ∧ asked callOfTwo r = pageAt "/a" ∨
    r.redir = 1 ∧ asked callOfTwo r = pageAt "/b" := by
  induction reached with
  | first args =>
    have start : asked callOfTwo (entry callOfTwo) = pageAt "/a" := by decide +kernel
    exact .inl ⟨rfl, start⟩
  | @follow r n k left ip raw location hostbuf pathbuf before more opened received answer
      value ih =>
    have place : r.ip = server.ip ∧ r.hostbuf = ascii "10.0.2.2" := by
      rcases ih with ⟨-, same⟩ | ⟨-, same⟩ <;>
        exact ⟨congrArg Destination.ip same, congrArg Destination.host same⟩
    rw [received_whole (answered_two before place.1) opened received, place.1, place.2,
      responses] at answer
    rcases ih with ⟨zero, same⟩ | ⟨one, same⟩
    · rw [if_pos zero] at answer
      obtain ⟨rfl, rfl, rfl⟩ := HttpAnswer.follow.inj (answer.symm.trans answer_moved)
      exact .inr ⟨congrArg Nat.succ zero, rfl⟩
    · rw [if_neg (by omega)] at answer
      cases answer.symm.trans answer_page

theorem answers_two : AnsweredBy callOfTwo twoPages := by
  rintro r ⟨enough, reached⟩
  have here := reached enough (Nat.le_refl _)
  have other : ascii "/a" ≠ ascii "/b" := by decide
  rcases reached_two here with ⟨zero, same⟩ | ⟨one, same⟩
  · have answered := answered_two here (congrArg Destination.ip same)
    rw [same]
    rw [responses, if_pos zero] at answered
    rw [twoPages, pageAt, if_neg other]
    exact answered
  · have answered := answered_two here (congrArg Destination.ip same)
    rw [same]
    rw [responses, if_neg (by omega)] at answered
    rw [twoPages, pageAt, if_pos rfl]
    exact answered

theorem walk_two :
    walk callOfTwo twoPages = ([pageAt "/a", pageAt "/b"], 5, ascii "hello" ++ [0]) := by
  decide +kernel

theorem call_walks_two : Returns callOfTwo 5 (ascii "hello" ++ [0]) ∧
    ∃ r, Arrives callOfTwo r ∧ r.redir = 1 ∧ asked callOfTwo r = pageAt "/b" := by
  obtain ⟨returns, rounds⟩ := call_walks (by decide : 0 < callOfTwo.outCap) answers_two
  rw [walk_two] at returns rounds
  exact ⟨returns, (rounds 1 (pageAt "/b")).mp rfl⟩

end MyOS.Visits
