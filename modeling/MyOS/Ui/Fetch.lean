import MyOS.Dns.Resolve
import MyOS.Http.Address
import MyOS.Http.Visits
import MyOS.Json.Shown

/-!
# From an address to the screen

What `json_viewer_ui` and `browser_ui` make of their address: `parse_url`, `dns_resolve`,
the value of the Host header, `http_get_by_ip_port`, and the lines they draw.
-/

namespace MyOS.Fetching

open Decimal Page Requests Resolve Schedule Url Visits

/-! ## The Host header -/

/-- `while(n>0) { *p-- = (n%10)+'0'; n/=10; }` with so many bytes from the start of
`port_s` up to `p`, and the string behind it; `none` for a write in front of them. -/
def portLoop : Nat → Nat → List UInt8 → Option (List UInt8)
  | 0, n, s => if n = 0 then some s else none
  | room + 1, n, s => if n = 0 then some s else portLoop room (n / 10) ((48 + n % 10).toUInt8 :: s)

/-- The NUL takes the last of the six bytes. -/
def portString (port : UInt16) : Option (List UInt8) :=
  if port.toNat = 0 then portLoop 4 port.toNat [48] else portLoop 5 port.toNat []

/-- `host_port`, `none` if it does not fit. -/
def hostPort (host : List UInt8) (port : UInt16) : Option (List UInt8) := do
  let p ← portString port
  if host.length + 1 + p.length < 256 then some (host ++ 58 :: p) else none

theorem portLoop_eq {room n : Nat} (small : n < 10 ^ room) (s : List UInt8) :
    portLoop room n s = some ((lowFirst n).reverse ++ s) := by
  induction room generalizing n s with
  | zero =>
    obtain rfl : n = 0 := by omega
    rw [lowFirst_zero]
    rfl
  | succ room ih =>
    rw [portLoop]
    split
    · rename_i zero
      rw [zero, lowFirst_zero]
      rfl
    · rename_i more
      have shorter : n / 10 < 10 ^ room := by
        rw [Nat.div_lt_iff_lt_mul (by decide), ← Nat.pow_succ]
        exact small
      rw [ih shorter, lowFirst_pos (Nat.pos_of_ne_zero more), List.reverse_cons, List.append_assoc]
      rfl

theorem portString_eq (port : UInt16) : portString port = some (numeral port.toNat) := by
  have small := port.toNat_lt
  rw [portString, numeral]
  split
  · rename_i zero
    rw [zero, portLoop_eq (by decide), lowFirst_zero]
    rfl
  · rw [portLoop_eq (by omega), List.append_nil]

theorem length_numeral (port : UInt16) : (numeral port.toNat).length ≤ 5 := by
  have small := port.toNat_lt
  rw [numeral]
  split
  · exact Nat.le_of_ble_eq_true rfl
  · rw [List.length_reverse]
    exact length_lowFirst (by omega)

/-- No host that `parse_url` finds is too long. -/
theorem hostPort_eq {host : List UInt8} (short : host.length < 128) (port : UInt16) :
    hostPort host port = some (host ++ 58 :: numeral port.toNat) := by
  have digits := length_numeral port
  rw [hostPort, portString_eq]
  exact if_pos (by omega)

/-! ## What `parse_url` finds -/

section
variable {url : List UInt8} {size : Nat} {u : ParsedUrl}

/-- The host ends before a colon, a slash or the end; the path begins with a slash. -/
structure Found (url : List UInt8) (size : Nat) (u : ParsedUrl) : Prop where
  short : u.host.length < size
  host : urlHost u.host = u.host
  inside : u.host ⊆ url
  path : ∃ rest, u.path = 47 :: rest

theorem path_slash (tail : List UInt8) : ∃ rest, Address.pathOf tail = 47 :: rest := by
  unfold Address.pathOf
  split
  · rename_i slash
    obtain ⟨rest, here⟩ := List.head?_eq_some_iff.mp slash
    exact ⟨rest, here⟩
  · exact ⟨[], rfl⟩

theorem urlHost_idem (rest : List UInt8) : urlHost (urlHost rest) = urlHost rest := by
  unfold urlHost
  rw [List.takeWhile_takeWhile]
  simp

theorem urlHost_inside (rest : List UInt8) : urlHost rest ⊆ http rest :=
  List.Subset.trans (List.takeWhile_sublist _).subset (List.subset_append_right _ _)

theorem found (parsed : parseUrl url size = some u) : Found url size u := by
  by_cases scheme : ∃ rest, url = http rest
  swap
  · rw [Address.parseUrl_other (fun rest same => scheme ⟨rest, same⟩)] at parsed
    cases parsed
  obtain ⟨rest, rfl⟩ := scheme
  by_cases room : (urlHost rest).length < size
  swap
  · rw [parseUrl_http, if_pos (Nat.not_lt.mp room)] at parsed
    cases parsed
  by_cases written : (behindHost rest).head? = some 58
  · obtain ⟨ds, tail, split, digits, stops⟩ := exists_split (behindHost rest).tail
    have behind : behindHost rest = 58 :: (ds ++ tail) := by
      rw [← split]
      exact List.eq_cons_of_mem_head? written
    rw [Address.parseUrl_port room behind digits stops] at parsed
    cases parsed
    exact ⟨room, urlHost_idem rest, urlHost_inside rest, path_slash tail⟩
  · rw [Address.parseUrl_plain room written] at parsed
    cases parsed
    exact ⟨room, urlHost_idem rest, urlHost_inside rest, path_slash _⟩

/-- The Host header and the path make an address again, and the same one. -/
theorem address_again (parsed : parseUrl url size = some u) :
    parseUrl (http (u.host ++ 58 :: (numeral u.port.toNat ++ u.path))) size = some u := by
  obtain ⟨short, plain, -, rest, slash⟩ := found parsed
  have host : urlHost (u.host ++ 58 :: (numeral u.port.toNat ++ u.path)) = u.host := by
    have whole : ∀ c ∈ u.host, (decide (c ≠ 47 ∧ c ≠ 58)) = true := by
      intro c mem
      have front : c ∈ urlHost u.host := by
        rw [plain]
        exact mem
      exact @List.mem_takeWhile_imp _ (fun c : UInt8 => decide (c ≠ 47 ∧ c ≠ 58)) _ _ front
    unfold urlHost
    rw [List.takeWhile_append_of_pos whole]
    exact List.append_nil _
  have behind : behindHost (u.host ++ 58 :: (numeral u.port.toNat ++ u.path)) =
      58 :: (numeral u.port.toNat ++ u.path) := by
    rw [behindHost, host]
    exact List.drop_left
  have stops : Stops u.path := slash ▸ stops_cons (by decide) rest
  have digits := (number_numeral u.port.toNat).digits
  have port : Address.port16 (numeral u.port.toNat) = u.port := by
    apply UInt16.toNat_inj.mp
    rw [Address.toNat_port16 digits, value_numeral]
    exact Nat.mod_eq_of_lt u.port.toNat_lt
  have path : Address.pathOf u.path = u.path := by
    rw [Address.pathOf, slash]
    exact if_pos rfl
  rw [Address.parseUrl_port (by rw [host]; exact short) behind digits stops, host, port, path]

end

theorem address_again_a : parseUrl (ascii "http://a:80/") 128 = some ⟨[97], 80, [47]⟩ := by
  have parsed : parseUrl (ascii "http://a") 128 = some ⟨[97], 80, [47]⟩ := by decide +kernel
  exact address_again parsed

/-! ## The fetch -/

/-- The frames of each poll of `dns_resolve`, and of each poll in each round of
`http_get_by_ip_port`. -/
structure Network where
  resolving : Nat → List (Mem × Int)
  rounds : Nat → Nat → List (Mem × Int)

/-- `resolved_ip`, `got`, and what has been written to `bodybuf`. -/
structure Fetched where
  kernel : Kernel
  ip : UInt32
  got : Int
  body : List UInt8

/-- From the resolved name on. -/
def fetchFrom (net : Network) (fuel : Nat) (u : ParsedUrl) (k : Kernel) (ip : UInt32) :
    Option Fetched := do
  let host ← hostPort u.host u.port
  let res ← httpGetByIpPort net.rounds fuel k ip u.port host u.path 8192
  pure ⟨res.kernel, ip, res.ret, res.out⟩

/-- The fetch of an application; `none` while the answer is still coming in. -/
def fetch (net : Network) (fuel : Nat) (k : Kernel) (url : List UInt8) : Option Fetched :=
  match parseUrl url 128 with
  | none => some ⟨k, 0, 0, []⟩
  | some u =>
    let resolved := dnsResolve net.resolving k u.host
    match resolved.2.2 with
    | none => some ⟨resolved.2.1, 0, 0, []⟩
    | some ip => fetchFrom net fuel u resolved.2.1 ip

/-- The lines that `json_viewer_ui` draws; `t` is the array on its stack. -/
def viewerContent (f : Fetched) (t : List Jsmn.Token) : Option (List (List UInt8)) :=
  if 0 < f.got then Jsmn.viewerLines f.body t else some [fetchFailed]

theorem hostPort_string {host : List UInt8} (string : 0 ∉ host) (port : UInt16) :
    0 ∉ host ++ 58 :: numeral port.toNat := by
  intro zero
  rcases List.mem_append.mp zero with front | back
  · exact string front
  · rcases List.mem_cons.mp back with colon | digit
    · exact absurd colon (by decide)
    · exact absurd ((number_numeral port.toNat).digits 0 digit) (by decide)

/-- What is called with a resolved address. -/
def callFor (net : Network) (k : Kernel) (ip : UInt32) (u : ParsedUrl) (string : 0 ∉ u.host) :
    Call where
  polls := net.rounds
  fuel := 0
  kernel := k
  ip := ip
  port := u.port
  host := u.host ++ 58 :: numeral u.port.toNat
  path := u.path
  outCap := 8192
  hostString := hostPort_string string u.port

/-- The call that the fetch comes to. -/
def Fetches (net : Network) (k : Kernel) (url : List UInt8) (c : Call) : Prop :=
  ∃ u n k' ip, ∃ string : 0 ∉ u.host, parseUrl url 128 = some u ∧
    dnsResolve net.resolving k u.host = (n, k', some ip) ∧ c = callFor net k' ip u string

/-- The name is resolved, the requests are answered by the servers of `web`, and `d` is
the last page on the way. -/
def Online (net : Network) (k : Kernel) (url : List UInt8) (web : Web) (d : Destination) : Prop :=
  ∃ c, Fetches net k url c ∧ AnsweredBy c web ∧ (walk c web).1.getLast? = some d

section
variable {net : Network} {fuel n : Nat} {k k' : Kernel} {url : List UInt8} {u : ParsedUrl}
  {ip : UInt32}

theorem fetch_resolved (parsed : parseUrl url 128 = some u)
    (resolved : dnsResolve net.resolving k u.host = (n, k', some ip)) (string : 0 ∉ u.host) :
    fetch net fuel k url = (within (callFor net k' ip u string) fuel).result.map
      fun res => ⟨res.kernel, ip, res.ret, res.out⟩ := by
  have host := hostPort_eq (found parsed).short u.port
  unfold fetch
  rw [parsed]
  dsimp only
  rw [resolved]
  simp only [fetchFrom, host, Option.bind_eq_bind, Option.bind_some, Call.result, within, callFor]
  generalize httpGetByIpPort net.rounds fuel k' ip u.port
    (u.host ++ 58 :: numeral u.port.toNat) u.path 8192 = res
  cases res <;> rfl

/-- The body of a page that is all text and fits into `bodybuf` is there as a string. -/
theorem fetch_page {web : Web} {d : Destination} {header body : List UInt8}
    (online : Online net k url web d) (page : ¬ Redirects (web d))
    (short : (web d).length ≤ rawCap - 1)
    (split : Split (web d) header body) (header_text : 0 ∉ header) (body_text : 0 ∉ body)
    (fits : body.length ≤ 8191) : ∃ enough, ∀ fuel, enough ≤ fuel →
      ∃ f, fetch net fuel k url = some f ∧ f.got = body.length ∧ f.body = body ++ [0] := by
  obtain ⟨c, ⟨u, n, k', ip, string, parsed, resolved, rfl⟩, answers, last⟩ := online
  have cap : (callFor net k' ip u string).outCap = 8192 := rfl
  have args : 0 < (callFor net k' ip u string).outCap := by omega
  obtain ⟨enough, returns⟩ := call_returns args answers
  refine ⟨enough, fun fuel upto => ?_⟩
  obtain ⟨res, returned, ret, out⟩ := returns fuel upto
  have answer := visit_last last page
  have some : web d ≠ [] := by
    intro none
    rw [none] at split
    exact emptyLine_some
      (List.append_eq_nil_iff.mp (List.append_eq_nil_iff.mp split.whole.symm).1).2
  have whole : cString body = body := by
    have front := cString_append body_text []
    rw [List.append_nil] at front
    exact front.trans (List.append_nil _)
  rw [httpAnswer_page page short some args, httpBody_text split header_text, whole] at answer
  obtain ⟨got, written⟩ := HttpAnswer.done.inj answer
  refine ⟨_, by rw [fetch_resolved parsed resolved string, returned, Option.map_some], ?_, ?_⟩
  · exact ret.trans (got.symm.trans (min_eq_right (by omega)))
  · have room : body.length ≤ ((callFor net k' ip u string).outCap - 1).toNat := fits
    exact out.trans (written.symm.trans (by rw [List.take_of_length_le room]))

end

/-! ## What the viewer shows -/

theorem text_pos (d : Jsmn.Source) : 0 < d.text.length := by
  have value : 0 < d.value.text.length := by
    cases d.value <;> exact Nat.succ_pos _
  simp only [Jsmn.Source.text, List.length_append]
  omega

/-- The NUL behind a text is not part of it. -/
theorem viewerLines_nul {body : List UInt8} (plain : 0 ∉ body) (t : List Jsmn.Token) :
    Jsmn.viewerLines (body ++ [0]) t = Jsmn.viewerLines body t := by
  have same : cString (body ++ [0]) = cString (body ++ []) := by
    rw [cString_append plain, cString_append plain]
    rfl
  rw [List.append_nil] at same
  simp only [Jsmn.viewerLines, same]

/-- A document of at most 8191 bytes that a server sends behind a header of text, perhaps
after redirects to it, in any pieces that the receive buffer can hold, is shown in the
viewer: as the lines of its neighbouring strings, with the string members among them in
their order, if it has at most 128 tokens. One with more is reported as no JSON. -/
theorem viewer_shows {net : Network} {k : Kernel} {url header : List UInt8} {web : Web}
    {dest : Destination} {t : List Jsmn.Token} (d : Jsmn.Source)
    (online : Online net k url web dest)
    (page : ¬ Redirects (web dest)) (short : (web dest).length ≤ rawCap - 1)
    (split : Split (web dest) header d.text) (text : 0 ∉ header) (fits : d.text.length ≤ 8191)
    (stack : t.length = 128) :
    ∃ enough, ∀ fuel, enough ≤ fuel → ∃ f, fetch net fuel k url = some f ∧
      (∀ few : d.tokens.length ≤ 128, ∃ lines, viewerContent f t = some lines ∧
        lines = ((Viewer.pairs (d.document few).tokens).take Viewer.Document.maxLines).map
          (d.document few).cutLine ∧
        ((Viewer.pairs (d.document few).tokens).length ≤ Viewer.Document.maxLines →
          ((d.document few).members.map (d.document few).cutLine).Sublist lines)) ∧
      (128 < d.tokens.length → viewerContent f t = some [ascii "Failed to parse JSON"]) := by
  obtain ⟨enough, fetched⟩ := fetch_page online page short split text d.plain fits
  refine ⟨enough, fun fuel upto => ?_⟩
  obtain ⟨f, here, got, body⟩ := fetched fuel upto
  have some : 0 < f.got := by
    have pos := text_pos d
    omega
  have content : viewerContent f t = Jsmn.viewerLines d.text t := by
    rw [viewerContent, if_pos some, body, viewerLines_nul d.plain]
  obtain ⟨few, many⟩ := d.shown t stack
  refine ⟨f, here, fun fits => ?_, fun more => content.trans (many more)⟩
  obtain ⟨lines, drawn, rest⟩ := few fits
  exact ⟨lines, content.trans drawn, rest⟩

/-! ## A page behind a known name -/

/-- A kernel that knows 10.0.2.2 by the name "a". -/
def knowing : Kernel := { Kernel.boot with dns := dnsCacheStore [97] Dns.boot Polls.server.ip }

/-- The server sends `stream` in one segment. -/
def network (stream : List UInt8) : Network := ⟨fun _ => [], inOne stream⟩

theorem online_inOne {stream : List UInt8} (short : stream.length ≤ 1460)
    (page : ¬ Redirects stream) :
    ∃ d, Online (network stream) knowing (ascii "http://a/") (fun _ => stream) d := by
  have parsed : parseUrl (ascii "http://a/") 128 = some ⟨[97], 80, [47]⟩ := by decide +kernel
  have known : dnsGetCached knowing.dns [97] = some Polls.server.ip := by decide +kernel
  have resolved : dnsResolve (network stream).resolving knowing [97] =
      (0, knowing, some Polls.server.ip) := by
    rw [dnsResolve, known, if_pos Option.isSome_some]
  have string : (0 : UInt8) ∉ (⟨[97], 80, [47]⟩ : ParsedUrl).host := by decide
  let c := callFor (network stream) knowing Polls.server.ip ⟨[97], 80, [47]⟩ string
  have answered : AnsweredWith c (entry c) stream :=
    answered_at knowing rfl (fun _ served => serves_inOne (served.first rfl) short) _ _
  obtain ⟨ret, out, done⟩ := httpAnswer_done page (entry c).ip (entry c).hostbuf c.outCap
  refine ⟨asked c (entry c), c, ⟨_, 0, knowing, Polls.server.ip, string, parsed, resolved, rfl⟩,
    answeredBy_first answered page, ?_⟩
  rw [walk, visit_done done]
  rfl

def titledPage : List UInt8 := pageWith Jsmn.titled.text

theorem few_titled : Jsmn.titled.tokens.length ≤ 128 := by decide +kernel

/-- The member, and two strings that stand next to each other. -/
theorem viewer_shows_titled : ∃ enough, ∀ fuel, enough ≤ fuel → ∃ f,
    fetch (network titledPage) fuel knowing (ascii "http://a/") = some f ∧
      viewerContent f (List.replicate 128 ⟨.undefined, 0, 0, 0⟩) =
        some [ascii "title: a", ascii "a: b"] := by
  have split : Split titledPage pageHeader Jsmn.titled.text := ⟨rfl, by decide +kernel⟩
  have page : ¬ Redirects titledPage := by
    simp only [Redirects]
    decide +kernel
  have stack : (List.replicate 128 (⟨.undefined, 0, 0, 0⟩ : Jsmn.Token)).length = 128 :=
    List.length_replicate
  have drawn : ((Viewer.pairs (Jsmn.titled.document few_titled).tokens).take
      Viewer.Document.maxLines).map (Jsmn.titled.document few_titled).cutLine =
        [ascii "title: a", ascii "a: b"] := by decide +kernel
  obtain ⟨d, online⟩ := online_inOne (by decide +kernel) page
  obtain ⟨enough, shows⟩ := viewer_shows Jsmn.titled online page (by decide +kernel) split
    (by decide +kernel) (by decide +kernel) stack
  refine ⟨enough, fun fuel upto => ?_⟩
  obtain ⟨f, fetched, few, -⟩ := shows fuel upto
  obtain ⟨lines, shown, same, -⟩ := few few_titled
  rw [same, drawn] at shown
  exact ⟨f, fetched, shown⟩

end MyOS.Fetching
