import Mathlib.Data.List.TakeWhile
import MyOS.Http.Polls

/-!
# What the server is asked for

Each round of `http_get_by_ip_port` has a target: the host and the path the
caller gave, or those of the redirect before it, at their full length. The
request of the round is made from copies, in a buffer of 512 bytes.
-/

namespace MyOS.Requests

open Polls

structure Target where
  host : List UInt8
  path : List UInt8

/-- The request for a target, every line of it. -/
def Target.request (t : Target) : List UInt8 :=
  ascii "GET " ++ t.path ++ ascii " HTTP/1.1\r\n" ++
    ascii "Host: " ++ t.host ++ ascii "\r\n" ++
    ascii "User-Agent: MyOS/0.1\r\n" ++ ascii "Connection: close\r\n" ++ ascii "\r\n"

/-- The value of the Location header, of any length. -/
def locationValue (raw : List UInt8) : Option (List UInt8) := do
  let loc ← (strstr raw (ascii "Location:")).orElse fun _ => strstr raw (ascii "location:")
  let colon ← strchr loc 58
  let value := colon.tail.dropWhile fun c => c = 32 ∨ c = 9
  pure (value.takeWhile fun c => c ≠ 13 ∧ c ≠ 10)

def urlHost (rest : List UInt8) : List UInt8 := rest.takeWhile fun c => c ≠ 47 ∧ c ≠ 58

/-- The path of a redirect is what follows the host. -/
def urlPath (rest : List UInt8) : List UInt8 :=
  if rest.drop (urlHost rest).length = [] then ascii "/" else rest.drop (urlHost rest).length

/-- The target a Location value asks for. -/
def Target.moved (t : Target) (location : List UInt8) : Target :=
  if strncmp location (ascii "http://") 7 = 0 then
    ⟨urlHost (location.drop 7), urlPath (location.drop 7)⟩
  else ⟨t.host, location⟩

/-! ## The rounds of a call -/

/-- The arguments of one call, and what the network does during it. -/
structure Call where
  polls : Nat → Nat → List (Mem × Int)
  fuel : Nat
  kernel : Kernel
  ip : UInt32
  port : UInt16
  host : List UInt8
  path : List UInt8
  outCap : Int
  /-- `host_header` is a C string. -/
  hostString : 0 ∉ host

def Call.result (c : Call) : Option HttpResult :=
  httpGetByIpPort c.polls c.fuel c.kernel c.ip c.port c.host c.path c.outCap

/-- The state a round starts from, with its target beside it. -/
structure Round where
  redir : Nat
  kernel : Kernel
  ip : UInt32
  hostbuf : List UInt8
  pathbuf : List UInt8
  target : Target

def Round.opened (c : Call) (r : Round) : Except (Kernel × Int) (Nat × Kernel) :=
  httpOpen (c.polls r.redir) r.kernel r.ip c.port r.hostbuf r.pathbuf

/-- The rounds a call comes to. -/
inductive Reached (c : Call) : Round → Prop
  | first (args : 0 < c.outCap) :
      Reached c ⟨0, c.kernel, c.ip, strncpy c.host 127, strncpy c.path 1023, ⟨c.host, c.path⟩⟩
  | follow {r : Round} {n : Nat} {k left : Kernel} {ip : UInt32}
      {raw location hostbuf pathbuf : List UInt8} (before : Reached c r)
      (more : r.redir < maxRedirects) (opened : r.opened c = .ok (n, k))
      (received : httpReceive (c.polls r.redir) c.fuel n k [] = some (left, raw))
      (answer : httpAnswer r.ip r.hostbuf raw c.outCap = .follow ip hostbuf pathbuf)
      (value : locationValue (cString raw) = some location) :
      Reached c ⟨r.redir + 1, (tcpClose left .gSock).1, ip, hostbuf, pathbuf,
        r.target.moved location⟩

/-- The rest of the call is the loop from this round on. -/
theorem Reached.result {c : Call} {r : Round} (reached : Reached c r) :
    r.redir ≤ maxRedirects ∧ ∃ request, c.result = httpRounds c.polls c.fuel c.port c.outCap
      (maxRedirects - r.redir + 1) r.kernel r.ip r.hostbuf r.pathbuf request := by
  induction reached with
  | first args =>
    refine ⟨Nat.zero_le _, none, ?_⟩
    rw [Call.result, httpGetByIpPort, if_neg (by omega)]
    rfl
  | @follow r n k left ip raw location hostbuf pathbuf before more opened received answer
      value ih =>
    obtain ⟨-, request, rest⟩ := ih
    have here : maxRedirects - (maxRedirects - r.redir) = r.redir := by omega
    have next : maxRedirects - (r.redir + 1) + 1 = maxRedirects - r.redir := by omega
    refine ⟨more, some ⟨r.redir, n, k⟩, ?_⟩
    rw [Round.opened] at opened
    rw [rest, httpRounds]
    simp only [here, opened, received, answer, next]

/-- A round that does not get to its request ends the call with an error. -/
theorem Reached.unopened {c : Call} {r : Round} (reached : Reached c r) {k : Kernel} {ret : Int}
    (failed : r.opened c = .error (k, ret)) : ret < 0 ∧ c.result = some ⟨k, ret, [], none⟩ := by
  obtain ⟨inside, request, rest⟩ := reached.result
  have here : maxRedirects - (maxRedirects - r.redir) = r.redir := by omega
  rw [Round.opened] at failed
  constructor
  · simp only [httpOpen] at failed
    split at failed
    · cases failed
      decide
    · split at failed
      · cases failed
        decide
      · split at failed
        · cases failed
          decide
        · cases failed
  · rw [rest, httpRounds]
    simp only [here, failed]

/-- And the request of one that does is what `tcp_send` is given. -/
theorem Round.opened_request {c : Call} {r : Round} {n : Nat} {k : Kernel}
    (opened : r.opened c = .ok (n, k)) : ∃ before : Kernel,
      (before.sock .gSock).state = .established ∧
      k = (tcpSend before .gSock (httpRequest r.pathbuf r.hostbuf)).1 := by
  rcases waits : httpWait (c.polls r.redir) 300000 0
    (tcpConnect (tcpInit r.kernel) .gSock r.ip c.port 0).1 with ⟨n₁, k₁⟩
  rw [Round.opened, httpOpen_eq waits] at opened
  split at opened
  · cases opened
  · rename_i est
    obtain ⟨-, rfl⟩ := Prod.mk.inj (Except.ok.inj opened)
    exact ⟨k₁, not_not.mp est, rfl⟩

/-! ## The copies -/

/-- Host and path leave room for the 66 bytes around them in the 511 of `req`,
and the host fits into `hostbuf`. -/
def Fits (t : Target) : Prop := t.host.length ≤ 126 ∧ t.host.length + t.path.length ≤ 445

instance (t : Target) : Decidable (Fits t) := inferInstanceAs (Decidable (_ ∧ _))

/-- What the two buffers hold of a target. -/
structure Copied (t : Target) (hostbuf pathbuf : List UInt8) : Prop where
  string : 0 ∉ hostbuf
  short : hostbuf.length ≤ 126
  host : t.host.length ≤ 126 → hostbuf = t.host
  path : Fits t → pathbuf = t.path
  cut : 126 < t.host.length → hostbuf.length + pathbuf.length < t.host.length + t.path.length

theorem formatted_httpFormat (t : Target) : formatted httpFormat [t.path, t.host] = t.request := by
  simp [httpFormat, ascii, formatted, Target.request]

theorem length_request (t : Target) :
    t.request.length = 66 + t.host.length + t.path.length := by
  simp [Target.request, ascii]
  omega

theorem httpRequest_eq (pathbuf hostbuf : List UInt8) :
    httpRequest pathbuf hostbuf = (Target.mk hostbuf pathbuf).request.take 511 := by
  rw [httpRequest, snprintf_eq, ← formatted_httpFormat]

/-- The request is the whole one if and only if host and path fit. -/
theorem Copied.request_iff {t : Target} {hostbuf pathbuf : List UInt8}
    (copied : Copied t hostbuf pathbuf) : httpRequest pathbuf hostbuf = t.request ↔ Fits t := by
  have given : (httpRequest pathbuf hostbuf).length =
      min 511 (66 + hostbuf.length + pathbuf.length) := by
    rw [httpRequest_eq, List.length_take, length_request]
  constructor
  · intro whole
    have size := length_request t
    rw [← whole, given] at size
    have := copied.cut
    unfold Fits
    omega
  · intro fits
    obtain ⟨short, room⟩ := fits
    have size := length_request t
    rw [httpRequest_eq, copied.host short, copied.path ⟨short, room⟩]
    change t.request.take 511 = t.request
    exact List.take_of_length_le (by omega)

theorem copied_start {host : List UInt8} (string : 0 ∉ host) (path : List UInt8) :
    Copied ⟨host, path⟩ (strncpy host 127) (strncpy path 1023) where
  string := fun zero => string (List.mem_of_mem_take zero)
  short := List.length_take_le 126 host
  host := fun short => strncpy_fits short
  path := by
    rintro ⟨-, room⟩
    apply strncpy_fits
    dsimp only at room
    omega
  cut := by
    intro long
    simp only [strncpy, List.length_take]
    dsimp only at long
    omega

/-! ## What a redirect makes of them -/

theorem strncmp_take {a b : List UInt8} {n m : Nat} (upto : n ≤ m) :
    strncmp (a.take m) b n = strncmp a b n := by
  induction n generalizing a b m with
  | zero => simp [strncmp]
  | succ n ih =>
    obtain ⟨m, rfl⟩ : ∃ k, m = k + 1 := ⟨m - 1, by omega⟩
    cases a with
    | nil => rfl
    | cons x a =>
      rw [List.take_succ_cons]
      cases b with
      | nil => rfl
      | cons y b =>
        simp only [strncmp, headDiff, List.headD_cons]
        rw [ih (by omega)]

theorem httpLocation_eq (raw : List UInt8) :
    httpLocation raw = (locationValue raw).map (·.take 1023) := by
  unfold httpLocation locationValue
  cases (strstr raw (ascii "Location:")).orElse fun _ => strstr raw (ascii "location:") with
  | none => rfl
  | some loc =>
    simp only [Option.bind_eq_bind, Option.bind_some]
    cases strchr loc 58 <;> rfl

theorem strcmp_zero {a b : List UInt8} (plain : 0 ∉ a) (plain' : 0 ∉ b) (same : strcmp a b = 0) :
    a = b := by
  induction a generalizing b with
  | nil =>
    cases b with
    | nil => rfl
    | cons y b =>
      have zero : 0 = y := UInt8.toNat_inj.mp (by simpa [strcmp, headDiff, eq_comm] using same)
      exact absurd (List.mem_cons.mpr (.inl zero)) plain'
  | cons x a ih =>
    cases b with
    | nil =>
      have zero : 0 = x := UInt8.toNat_inj.mp (by simpa [strcmp, headDiff, eq_comm] using same)
      exact absurd (List.mem_cons.mpr (.inl zero)) plain
    | cons y b =>
      rw [strcmp] at same
      split at same
      · rename_i head
        have tail := ih (fun zero => plain (List.mem_cons_of_mem x zero))
          (fun zero => plain' (List.mem_cons_of_mem y zero)) same
        rw [head, tail]
      · rename_i differ
        simp only [headDiff, List.headD_cons] at same
        exact absurd (UInt8.toNat_inj.mp (by omega)) differ

/-- A Location value is made of characters of the response. -/
theorem locationValue_subset {raw location : List UInt8}
    (value : locationValue raw = some location) : location ⊆ raw := by
  unfold locationValue at value
  obtain ⟨loc, header, value⟩ := Option.bind_eq_some_iff.mp value
  obtain ⟨colon, found, value⟩ := Option.bind_eq_some_iff.mp value
  have start : loc ⊆ raw := by
    cases upper : strstr raw (ascii "Location:") with
    | some found =>
      rw [upper] at header
      cases header
      exact (strstr_suffix upper).subset
    | none =>
      rw [upper] at header
      exact (strstr_suffix header).subset
  cases value
  intro c member
  apply start
  apply (strchr_suffix found).subset
  apply List.mem_of_mem_tail
  apply (List.dropWhile_sublist _).subset
  exact (List.takeWhile_sublist _).subset member

/-- The two copies the redirect code makes of a URL behind its `http://`, of
which `locbuf` holds 1016 characters. -/
theorem copied_url {rest : List UInt8} (string : 0 ∉ rest) :
    let p := rest.take 1016
    let newhost := (urlHost p).take 127
    let newpath := if p.drop newhost.length = [] then ascii "/" else p.drop newhost.length
    Copied ⟨urlHost rest, urlPath rest⟩ (strncpy newhost 127) (strncpy newpath 1023) := by
  intro p newhost newpath
  have upto : newhost = (urlHost rest).take 127 := by
    simp only [newhost, p, urlHost, ← List.take_takeWhile, List.take_take]
    rfl
  have slash : (ascii "/").length = 1 := rfl
  have inside : (urlHost rest).length ≤ rest.length := (List.takeWhile_sublist _).length_le
  have hostLength : newhost.length = min 127 (urlHost rest).length := by
    rw [upto, List.length_take]
  constructor
  · intro zero
    have member := List.mem_of_mem_take zero
    rw [upto] at member
    exact string ((List.takeWhile_sublist _).subset (List.mem_of_mem_take member))
  · exact List.length_take_le 126 newhost
  · intro short
    dsimp only at short ⊢
    rw [upto, List.take_of_length_le (by omega)]
    exact strncpy_fits short
  · rintro ⟨short, room⟩
    dsimp only at short room ⊢
    have whole : newhost = urlHost rest := by
      rw [upto, List.take_of_length_le (by omega)]
    have size : rest.length ≤ 445 := by
      unfold urlPath at room
      split at room
      · rename_i none
        have := List.drop_eq_nil_iff.mp none
        omega
      · rw [List.length_drop] at room
        omega
    have all : p = rest := List.take_of_length_le (by omega)
    have path : newpath = urlPath rest := by
      simp only [newpath, all, whole]
      rfl
    rw [path]
    exact strncpy_fits (by omega)
  · intro long
    dsimp only at long ⊢
    have pathLength : newpath.length ≤ max 1 (rest.length - 127) := by
      simp only [newpath]
      split
      · omega
      · rw [List.length_drop, List.length_take]
        omega
    have path : max 1 (rest.length - (urlHost rest).length) ≤ (urlPath rest).length := by
      unfold urlPath
      split
      · rename_i none
        have := List.drop_eq_nil_iff.mp none
        omega
      · rename_i some
        have := List.length_pos_of_ne_nil some
        rw [List.length_drop] at this ⊢
        omega
    simp only [strncpy, List.length_take]
    omega

theorem copied_path {t : Target} {hostbuf pathbuf : List UInt8} (copied : Copied t hostbuf pathbuf)
    (location : List UInt8) :
    Copied ⟨t.host, location⟩ hostbuf (strncpy (location.take 1023) 1023) where
  string := copied.string
  short := copied.short
  host := copied.host
  path := by
    rintro ⟨-, room⟩
    dsimp only at room ⊢
    rw [List.take_of_length_le (by omega)]
    exact strncpy_fits (by omega)
  cut := by
    intro long
    have := copied.short
    simp only [strncpy, List.length_take]
    dsimp only at long
    omega

/-- A redirect that is followed leaves copies of the new target. -/
theorem httpRedirect_copied {t : Target} {ip ip' : UInt32}
    {hostbuf pathbuf raw hostbuf' pathbuf' : List UInt8} (copied : Copied t hostbuf pathbuf)
    (string : 0 ∉ raw) (follows : httpRedirect ip hostbuf raw = .follow ip' hostbuf' pathbuf') :
    ∃ location, locationValue raw = some location ∧
      Copied (t.moved location) hostbuf' pathbuf' := by
  rw [httpRedirect, httpLocation_eq] at follows
  cases value : locationValue raw with
  | none =>
    rw [value] at follows
    cases follows
  | some location =>
    have plain : 0 ∉ location := fun zero => string (locationValue_subset value zero)
    refine ⟨location, rfl, ?_⟩
    rw [value] at follows
    simp only [Option.map_some] at follows
    rw [strncmp_take (by decide), strncmp_take (by decide), List.drop_take] at follows
    unfold Target.moved
    split at follows
    · cases follows
    split at follows
    · rename_i absolute
      rw [if_pos absolute]
      have behind : 0 ∉ location.drop 7 := fun zero => plain (List.mem_of_mem_drop zero)
      have url := copied_url behind
      split at follows
      · cases follows
        exact url
      · split at follows
        · rename_i same
          cases follows
          have host := strcmp_zero (fun zero => plain (List.mem_of_mem_drop (List.mem_of_mem_take
            ((List.takeWhile_sublist _).subset (List.mem_of_mem_take zero))))) copied.string same
          have kept : strncpy ((urlHost ((location.drop 7).take 1016)).take 127) 127 = hostbuf := by
            exact (congrArg (strncpy · 127) host).trans (strncpy_fits copied.short)
          rw [← kept]
          exact url
        · cases follows
    · rename_i relative
      rw [if_neg relative]
      split at follows
      · cases follows
        exact copied_path copied location
      · cases follows

theorem httpAnswer_copied {t : Target} {ip ip' : UInt32} {outCap : Int}
    {hostbuf pathbuf read hostbuf' pathbuf' : List UInt8} (copied : Copied t hostbuf pathbuf)
    (follows : httpAnswer ip hostbuf read outCap = .follow ip' hostbuf' pathbuf') :
    ∃ location, locationValue (cString read) = some location ∧
      Copied (t.moved location) hostbuf' pathbuf' := by
  have string : 0 ∉ cString read := not_mem_cString read
  simp only [httpAnswer] at follows
  split at follows
  · cases follows
  split at follows
  · exact httpRedirect_copied copied string follows
  · cases follows

/-! ## Every request of a call -/

theorem Reached.copied {c : Call} {r : Round} (reached : Reached c r) :
    Copied r.target r.hostbuf r.pathbuf := by
  induction reached with
  | first => exact copied_start c.hostString c.path
  | follow _ _ _ _ answer value ih =>
    obtain ⟨location, value', copied⟩ := httpAnswer_copied ih answer
    cases value.symm.trans value'
    exact copied

/-- Every redirect that is followed is one to a Location. -/
theorem Reached.next {c : Call} {r : Round} (reached : Reached c r)
    (more : r.redir < maxRedirects) {n : Nat} {k left : Kernel} {ip : UInt32}
    {raw hostbuf pathbuf : List UInt8} (opened : r.opened c = .ok (n, k))
    (received : httpReceive (c.polls r.redir) c.fuel n k [] = some (left, raw))
    (answer : httpAnswer r.ip r.hostbuf raw c.outCap = .follow ip hostbuf pathbuf) :
    ∃ target, Reached c
      ⟨r.redir + 1, (tcpClose left .gSock).1, ip, hostbuf, pathbuf, target⟩ := by
  obtain ⟨location, value, -⟩ := httpAnswer_copied reached.copied answer
  exact ⟨_, reached.follow more opened received answer value⟩

/-- Every request is the one for its target, with all its lines and their ends.
Where none goes out the call returns an error. -/
structure Complete (c : Call) : Prop where
  refused : c.outCap ≤ 0 → c.result = some ⟨c.kernel, -1, [], none⟩
  sent : ∀ r, Reached c r → ∀ n k, r.opened c = .ok (n, k) →
    httpRequest r.pathbuf r.hostbuf = r.target.request
  unsent : ∀ r, Reached c r → ∀ k ret, r.opened c = .error (k, ret) →
    ret < 0 ∧ c.result = some ⟨k, ret, [], none⟩

/-- A call sends complete requests if and only if host and path fit in every
round that gets to its request. -/
theorem complete_iff (c : Call) :
    Complete c ↔ ∀ r, Reached c r → ∀ n k, r.opened c = .ok (n, k) → Fits r.target := by
  constructor
  · intro complete r reached n k opened
    exact reached.copied.request_iff.mp (complete.sent r reached n k opened)
  · intro fits
    refine ⟨?_, ?_, ?_⟩
    · intro none
      rw [Call.result, httpGetByIpPort, if_pos none]
    · intro r reached n k opened
      exact reached.copied.request_iff.mpr (fits r reached n k opened)
    · intro r reached k ret failed
      exact reached.unopened failed

theorem literal_string : 0 ∉ ascii "10.0.2.2" := by decide

def longPath (n : Nat) : List UInt8 := 47 :: List.replicate n 97

theorem length_longPath (n : Nat) : (longPath n).length = n + 1 := by
  rw [longPath, List.length_cons, List.length_replicate]

/-- One character too many for `req`: the last line feed is lost, and the server
goes on waiting for the end of the request. -/
def longCall : Call where
  polls _ n := if n = 0 then [frameOf server (sends 0x12 7 [])] else []
  fuel := 0
  kernel := Pending.configured
  ip := server.ip
  port := 80
  host := ascii "10.0.2.2"
  path := longPath 437
  outCap := 4096
  hostString := literal_string

theorem longCall_incomplete : ¬ Complete longCall := by
  intro complete
  have reached : Reached longCall ⟨0, longCall.kernel, longCall.ip, strncpy longCall.host 127,
    strncpy longCall.path 1023, ⟨longCall.host, longCall.path⟩⟩ := .first (by decide)
  obtain ⟨k, opened, -⟩ := httpOpen_served (longCall.polls 0) rfl (strncpy longCall.host 127)
    (strncpy longCall.path 1023)
  have whole := complete.sent _ reached 1 k opened
  have fits := (copied_start longCall.hostString longCall.path).request_iff.mp whole
  have path : longCall.path = longPath 437 := rfl
  have host : longCall.host.length = 8 := rfl
  unfold Fits at fits
  dsimp only at fits
  rw [host, path, length_longPath] at fits
  omega

end MyOS.Requests
