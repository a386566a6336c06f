import MyOS.Http.Requests

/-!
# A URL, read in two places

kernel.c takes the address of a page apart with `parse_url`; the redirect code
of http.c takes a Location apart itself and stays on the port it is on.
-/

namespace MyOS

/-- What `parse_url` writes to its three results. -/
structure ParsedUrl where
  host : List UInt8
  port : UInt16
  path : List UInt8
  deriving DecidableEq

/-- `*port = *port * 10 + (*p - '0')`, with what follows the digits. -/
def portDigits (port : UInt16) : List UInt8 → UInt16 × List UInt8
  | [] => (port, [])
  | c :: p => if isDigit c then portDigits (port * 10 + (c - 48).toUInt16) p else (port, c :: p)

def parseUrl (url : List UInt8) (hostBufSize : Nat) : Option ParsedUrl :=
  if strncmp url (ascii "http://") 7 ≠ 0 then none
  else
    let hostStart := url.drop 7
    let host := hostStart.takeWhile fun c => c ≠ 58 ∧ c ≠ 47
    let p := hostStart.drop host.length
    if hostBufSize ≤ host.length then none
    else
      let (port, p) := if p.head? = some 58 then portDigits 0 p.tail else (80, p)
      some { host, port, path := if p.head? = some 47 then p else ascii "/" }

namespace Url

open Requests

/-- Where the next request goes. -/
structure Destination where
  ip : UInt32
  port : UInt16
  host : List UInt8
  path : List UInt8
  deriving DecidableEq

/-- Where a redirect leads, as the loop goes on with it. -/
def followed (c : Call) (r : Round) (read : List UInt8) : Option Destination :=
  match httpAnswer r.ip r.hostbuf read c.outCap with
  | .follow ip hostbuf pathbuf => some ⟨ip, c.port, hostbuf, pathbuf⟩
  | .done .. => none

/-- Where the same URL leads from the address bar, for a host that needs no lookup. -/
def addressed (url : List UInt8) : Option Destination := do
  let u ← parseUrl url 128
  let ip ← parseIpv4Literal u.host
  pure ⟨ip, u.port, u.host, u.path⟩

/-- What the round behind a redirect connects to and asks for. -/
theorem opened_followed {c : Call} {r : Round} (reached : Reached c r)
    (more : r.redir < maxRedirects) {n : Nat} {k left : Kernel} {read : List UInt8}
    {d : Destination} (opened : r.opened c = .ok (n, k))
    (received : httpReceive (c.polls r.redir) c.fuel n k [] = some (left, read))
    (follows : followed c r read = some d) :
    ∃ r', Reached c r' ∧ r'.redir = r.redir + 1 ∧ r'.opened c =
      httpOpen (c.polls r'.redir) (tcpClose left .gSock).1 d.ip d.port d.host d.path := by
  unfold followed at follows
  split at follows
  · rename_i ip hostbuf pathbuf answer
    cases follows
    obtain ⟨target, next⟩ := reached.next more opened received answer
    exact ⟨_, next, rfl, rfl⟩
  · cases follows

/-! ## The two readings -/

def http (rest : List UInt8) : List UInt8 := ascii "http://" ++ rest

theorem strncmp_http (rest : List UInt8) : strncmp (http rest) (ascii "http://") 7 = 0 := by
  simp [http, ascii, strncmp]

theorem strncmp_https (rest : List UInt8) : strncmp (http rest) (ascii "https://") 8 ≠ 0 := by
  simp [http, ascii, strncmp, headDiff]

/-- What stands behind the host. -/
def behindHost (rest : List UInt8) : List UInt8 := rest.drop (urlHost rest).length

/-- A host ends where the URL does, at a colon or at a slash. -/
theorem behindHost_cases (rest : List UInt8) :
    behindHost rest = [] ∨ (behindHost rest).head? = some 58 ∨
      (behindHost rest).head? = some 47 := by
  have tail : behindHost rest = rest.dropWhile fun c => c ≠ 47 ∧ c ≠ 58 := by
    have parts := List.takeWhile_append_dropWhile (p := fun c : UInt8 => c ≠ 47 ∧ c ≠ 58)
      (l := rest)
    have dropped := congrArg (List.drop (urlHost rest).length) parts
    exact dropped.symm.trans List.drop_left
  have stop := List.head?_dropWhile_not (fun c : UInt8 => c ≠ 47 ∧ c ≠ 58) rest
  rw [← tail] at stop
  cases first : (behindHost rest).head? with
  | none => exact .inl (List.head?_eq_none_iff.mp first)
  | some c =>
    rw [first] at stop
    simp only [decide_eq_false_iff_not, not_and_or, not_not] at stop
    rcases stop with slash | colon
    · exact .inr (.inr (by rw [slash]))
    · exact .inr (.inl (by rw [colon]))

/-- Where no port is written both take what follows the host for the path. -/
theorem urlPath_eq {rest : List UInt8} (unwritten : (behindHost rest).head? ≠ some 58) :
    urlPath rest = if (behindHost rest).head? = some 47 then behindHost rest else ascii "/" := by
  have behind : rest.drop (urlHost rest).length = behindHost rest := rfl
  unfold urlPath
  rw [behind]
  rcases behindHost_cases rest with none | colon | slash
  · rw [none, if_pos rfl]
    rfl
  · exact absurd colon unwritten
  · rw [if_pos slash, if_neg]
    intro none
    rw [none] at slash
    cases slash

/-- The URL as `parse_url` reads it. -/
theorem parseUrl_http (rest : List UInt8) (size : Nat) :
    parseUrl (http rest) size =
      if size ≤ (urlHost rest).length then none
      else if (behindHost rest).head? = some 58 then
        let (port, p) := portDigits 0 (behindHost rest).tail
        some ⟨urlHost rest, port, if p.head? = some 47 then p else ascii "/"⟩
      else some ⟨urlHost rest, 80, urlPath rest⟩ := by
  have host : (rest.takeWhile fun c => c ≠ 58 ∧ c ≠ 47) = urlHost rest := by
    simp only [urlHost, and_comm]
  have start : (http rest).drop 7 = rest := rfl
  have scheme : strncmp (http rest) (ascii "http://") 7 = 0 := strncmp_http rest
  have behind : rest.drop (urlHost rest).length = behindHost rest := rfl
  rw [parseUrl, if_neg (not_not.mpr scheme)]
  simp only [start, host, behind]
  split
  · rfl
  by_cases written : (behindHost rest).head? = some 58
  · rw [if_pos written, if_pos written]
  · rw [if_neg written, if_neg written, urlPath_eq written]

/-- And as the redirect code does, when the host it copies is an address. -/
theorem httpRedirect_http {raw rest : List UInt8} {newip : UInt32}
    (value : locationValue raw = some (http rest)) (short : (urlHost rest).length ≤ 127)
    (literal : parseIpv4Literal (urlHost rest) = some newip) (ip : UInt32)
    (hostbuf : List UInt8) :
    httpRedirect ip hostbuf raw = .follow newip (strncpy (urlHost rest) 127)
      (strncpy (urlPath (rest.take 1016)) 1023) := by
  have host : urlHost (rest.take 1016) = urlHost rest := by
    rw [urlHost, ← List.take_takeWhile]
    exact List.take_of_length_le (short.trans (by decide))
  have newhost : ((rest.take (1023 - 7)).takeWhile fun c => c ≠ 47 ∧ c ≠ 58).take 127 =
      urlHost rest :=
    (congrArg (List.take 127) host).trans (List.take_of_length_le short)
  have start : (http rest).drop 7 = rest := rfl
  rw [httpRedirect, httpLocation_eq, value]
  simp only [Option.map_some]
  rw [strncmp_take (by decide), strncmp_take (by decide), if_neg (strncmp_https rest),
    if_pos (strncmp_http rest), List.drop_take, start]
  simp only [newhost, literal]
  rw [urlPath, host]

/-! ## Where they agree -/

/-- The URL names no port and fits into `locbuf`, its host into `hostbuf`, and
the call is on port 80. -/
structure Plain (port : UInt16) (rest : List UInt8) : Prop where
  port : port = 80
  unwritten : (behindHost rest).head? ≠ some 58
  host : (urlHost rest).length ≤ 126
  room : (http rest).length ≤ 1023

theorem length_http (rest : List UInt8) : (http rest).length = 7 + rest.length := by
  rw [http, List.length_append]
  rfl

theorem length_urlPath (rest : List UInt8) :
    (urlPath rest).length = max 1 (rest.length - (urlHost rest).length) := by
  unfold urlPath
  split
  · rename_i none
    have := List.drop_eq_nil_iff.mp none
    have slash : (ascii "/").length = 1 := rfl
    omega
  · rename_i some
    have := List.length_pos_of_ne_nil some
    rw [List.length_drop] at this ⊢
    omega

/-- Nothing of the path is lost exactly if the URL fits. -/
theorem strncpy_urlPath_iff {rest : List UInt8} (short : (urlHost rest).length ≤ 127) :
    strncpy (urlPath (rest.take 1016)) 1023 = urlPath rest ↔ (http rest).length ≤ 1023 := by
  rw [length_http]
  constructor
  · intro same
    have size := congrArg List.length same
    have host : (urlHost (rest.take 1016)).length = (urlHost rest).length := by
      rw [urlHost, ← List.take_takeWhile]
      exact congrArg List.length (List.take_of_length_le (short.trans (by decide)))
    rw [strncpy, List.length_take, length_urlPath, length_urlPath, List.length_take, host] at size
    omega
  · intro fits
    rw [List.take_of_length_le (by omega)]
    apply strncpy_fits
    rw [length_urlPath]
    omega

/-- A path that begins with a colon is never the one `parse_url` finds. -/
theorem strncpy_urlPath_colon {rest : List UInt8} (short : (urlHost rest).length ≤ 127)
    (written : (behindHost rest).head? = some 58) :
    (strncpy (urlPath (rest.take 1016)) 1023).head? = some 58 := by
  have host : urlHost (rest.take 1016) = urlHost rest := by
    rw [urlHost, ← List.take_takeWhile]
    exact List.take_of_length_le (short.trans (by decide))
  have behind : (rest.take 1016).drop (urlHost (rest.take 1016)).length =
      (behindHost rest).take (1016 - (urlHost rest).length) := by
    rw [host, List.drop_take]
    rfl
  have first : ((behindHost rest).take (1016 - (urlHost rest).length)).head? = some 58 := by
    rw [List.head?_take, if_neg (by omega)]
    exact written
  rw [strncpy, List.head?_take, if_neg (by decide), urlPath, behind, if_neg]
  · exact first
  · intro none
    rw [none] at first
    cases first

theorem followed_http {c : Call} {r : Round} {read rest : List UInt8} {newip : UInt32}
    (redirect : 300 ≤ parseHttpStatus (cString read) ∧ parseHttpStatus (cString read) < 400)
    (value : locationValue (cString read) = some (http rest))
    (literal : parseIpv4Literal (urlHost rest) = some newip)
    (short : (urlHost rest).length ≤ 127) :
    followed c r read = some ⟨newip, c.port, strncpy (urlHost rest) 127,
      strncpy (urlPath (rest.take 1016)) 1023⟩ := by
  have some : read ≠ [] := by
    rintro rfl
    exact absurd redirect.1 (by decide)
  rw [followed, httpAnswer, if_neg some, if_pos redirect, httpRedirect_http value short literal]

/-- A redirect to an address is followed to where `parse_url` takes the same URL
if and only if no port is written, the call is on port 80 and the URL fits. -/
theorem followed_iff (c : Call) (r : Round) {read rest : List UInt8} {newip : UInt32}
    (redirect : 300 ≤ parseHttpStatus (cString read) ∧ parseHttpStatus (cString read) < 400)
    (value : locationValue (cString read) = some (http rest))
    (literal : parseIpv4Literal (urlHost rest) = some newip) :
    (∃ d, followed c r read = some d ∧ addressed (http rest) = some d) ↔ Plain c.port rest := by
  have parsed := parseUrl_http rest 128
  by_cases short : (urlHost rest).length ≤ 127
  · rw [if_neg (by omega)] at parsed
    rw [followed_http redirect value literal short]
    by_cases written : (behindHost rest).head? = some 58
    · rw [if_pos written] at parsed
      constructor
      · rintro ⟨d, here, same⟩
        cases here
        simp only [addressed, parsed, Option.bind_eq_bind, Option.bind_some, literal,
          Option.pure_def, Option.some.injEq, Destination.mk.injEq] at same
        have first := strncpy_urlPath_colon short written
        rw [← same.2.2.2] at first
        split at first
        · rename_i slash
          rw [slash] at first
          cases first
        · cases first
      · intro plain
        exact absurd written plain.unwritten
    · rw [if_neg written] at parsed
      have there : addressed (http rest) = some ⟨newip, 80, urlHost rest, urlPath rest⟩ := by
        simp only [addressed, parsed, Option.bind_eq_bind, Option.bind_some, literal,
          Option.pure_def]
      rw [there]
      constructor
      · rintro ⟨d, here, same⟩
        cases here
        simp only [Option.some.injEq, Destination.mk.injEq, true_and] at same
        obtain ⟨port, host, path⟩ := same
        refine ⟨port.symm, written, ?_, (strncpy_urlPath_iff short).mp path.symm⟩
        rw [host]
        exact List.length_take_le 126 _
      · rintro ⟨port, -, host, room⟩
        refine ⟨_, rfl, ?_⟩
        rw [port, strncpy_fits host, (strncpy_urlPath_iff short).mpr room]
  · rw [if_pos (by omega)] at parsed
    constructor
    · rintro ⟨d, -, same⟩
      rw [addressed, parsed] at same
      cases same
    · intro plain
      exact absurd (plain.host.trans (by decide)) short

/-! ## Two redirects of one page -/

def movedTo (location : String) : List UInt8 :=
  ascii ("HTTP/1.1 302 Found\r\nLocation: " ++ location ++ "\r\n\r\n")

def pageCall : Call where
  polls _ _ := []
  fuel := 0
  kernel := .boot
  ip := 0x0A000202
  port := 80
  host := ascii "10.0.2.2"
  path := ascii "/"
  outCap := 4096
  hostString := Requests.literal_string

def pageRound : Round :=
  ⟨0, .boot, pageCall.ip, pageCall.host, pageCall.path, ⟨pageCall.host, pageCall.path⟩⟩

theorem followed_iff_slash :
    ∃ d, followed pageCall pageRound (movedTo "http://10.0.2.15/a") = some d ∧
      addressed (http (ascii "10.0.2.15/a")) = some d := by
  have literal : parseIpv4Literal (urlHost (ascii "10.0.2.15/a")) = some 0x0A00020F := by
    decide +kernel
  apply (followed_iff pageCall pageRound (by decide +kernel) (by decide +kernel) literal).mpr
  exact ⟨rfl, by decide +kernel, by decide +kernel, by decide +kernel⟩

/-- The written port becomes part of the path, and the port stays as it was. -/
theorem followed_other :
    locationValue (cString (movedTo "http://10.0.2.15:8080/a")) =
        some (http (ascii "10.0.2.15:8080/a")) ∧
      ¬ ∃ d, followed pageCall pageRound (movedTo "http://10.0.2.15:8080/a") = some d ∧
        addressed (http (ascii "10.0.2.15:8080/a")) = some d := by
  refine ⟨by decide +kernel, ?_⟩
  have there : addressed (http (ascii "10.0.2.15:8080/a")) =
      some ⟨0x0A00020F, 8080, ascii "10.0.2.15", ascii "/a"⟩ := by decide +kernel
  have here : followed pageCall pageRound (movedTo "http://10.0.2.15:8080/a") =
      some ⟨0x0A00020F, 80, ascii "10.0.2.15", ascii ":8080/a"⟩ := by decide +kernel
  rw [here, there]
  rintro ⟨d, same, other⟩
  cases same
  revert other
  decide

end Url

end MyOS
