import MyOS.Http.Receive
import MyOS.Tcp.Step

/-!
# One page

`http_get_by_ip_port` from the argument check to the page in `out`, with the
redirects it follows. Each round opens the one connection anew. The debug
variables are left out, and so are null pointers, which no caller passes.
-/

namespace MyOS

/-! ## The two parsers -/

def isDigit (c : UInt8) : Bool := 48 ≤ c && c ≤ 57

/-- The inner loop of `parse_ipv4_literal`: the number and what follows it. -/
def ipv4Number (val : UInt32) : List UInt8 → UInt32 × List UInt8
  | [] => (val, [])
  | c :: s => if isDigit c then ipv4Number (val * 10 + (c - 48).toUInt32) s else (val, c :: s)

/-- The parts read when so many are still to come; `none` where it returns 0. -/
def ipv4Parts : Nat → List UInt8 → Option (List UInt32)
  | 0, _ => some []
  | _ + 1, [] => some []
  | missing + 1, c :: s =>
    if isDigit c then
      let (val, cur) := ipv4Number 0 (c :: s)
      if 255 < val then none
      else if cur.head? = some 46 then (ipv4Parts missing cur.tail).map (val :: ·)
      else some [val]
    else none

def parseIpv4Literal (s : List UInt8) : Option UInt32 :=
  match ipv4Parts 4 s with
  | some [a, b, c, d] => some (a <<< 24 ||| b <<< 16 ||| c <<< 8 ||| d)
  | _ => none

def statusDigits (status : Int32) : List UInt8 → Int32
  | [] => status
  | c :: p =>
    if isDigit c then statusDigits (status * 10 + (c - 48).toUInt32.toInt32) p else status

def parseHttpStatus (raw : List UInt8) : Int32 :=
  if strncmp raw (ascii "HTTP/") 5 ≠ 0 then 0
  else
    let p := (raw.drop 5).dropWhile (· ≠ 32)
    if p = [] then 0 else statusDigits 0 p.tail

/-! ## What is made of a response -/

/-- The function returns, or goes round again. -/
inductive HttpAnswer
  | done (ret : Int) (out : List UInt8)
  | follow (ip : UInt32) (hostbuf pathbuf : List UInt8)
  deriving DecidableEq

/-- `locbuf` -/
def httpLocation (raw : List UInt8) : Option (List UInt8) := do
  let loc ← (strstr raw (ascii "Location:")).orElse fun _ => strstr raw (ascii "location:")
  let colon ← strchr loc 58
  let value := colon.tail.dropWhile fun c => c = 32 ∨ c = 9
  pure ((value.takeWhile fun c => c ≠ 13 ∧ c ≠ 10).take 1023)

/-- The branch for a status of 300 to 399. -/
def httpRedirect (ip : UInt32) (hostbuf raw : List UInt8) : HttpAnswer :=
  match httpLocation raw with
  | none => .done (-12) []
  | some locbuf =>
    if strncmp locbuf (ascii "https://") 8 = 0 then .done (-11) []
    else if strncmp locbuf (ascii "http://") 7 = 0 then
      let p := locbuf.drop 7
      let newhost := (p.takeWhile fun c => c ≠ 47 ∧ c ≠ 58).take 127
      let rest := p.drop newhost.length
      let newpath := if rest = [] then ascii "/" else rest
      match parseIpv4Literal newhost with
      | some newip => .follow newip (strncpy newhost 127) (strncpy newpath 1023)
      | none =>
        if strcmp newhost hostbuf = 0 then .follow ip hostbuf (strncpy newpath 1023)
        else .done (-13) []
    else if locbuf.head? = some 47 then .follow ip hostbuf (strncpy locbuf 1023)
    else .done (-14) []

def httpBody (raw : List UInt8) : List UInt8 :=
  match strstr raw (ascii "\r\n\r\n") with
  | some body => body.drop 4
  | none => raw

/-- What follows the receive loop, with the bytes it read. -/
def httpAnswer (ip : UInt32) (hostbuf read : List UInt8) (outCap : Int) : HttpAnswer :=
  let raw := cString read
  let status := parseHttpStatus raw
  if read = [] then .done 0 []
  else if 300 ≤ status ∧ status < 400 then httpRedirect ip hostbuf raw
  else
    let len : Int := (httpBody raw).length
    let bodyLen := if len > outCap - 1 then outCap - 1 else len
    .done bodyLen ((httpBody raw).take bodyLen.toNat ++ [0])

/-! ## One round -/

/-- The loop that waits for the SYN+ACK, with the polls it has left and those
made. -/
def httpWait (polls : Nat → List (Mem × Int)) : Nat → Nat → Kernel → Nat × Kernel
  | 0, n, k => (n, k)
  | waits + 1, n, k =>
    if (k.sock .gSock).state ≠ .established then
      httpWait polls waits (n + 1) (pollFrames k (polls n))
    else (n, k)

def httpFormat : List UInt8 :=
  ascii ("GET %s HTTP/1.1\r\n" ++ "Host: %s\r\n" ++ "User-Agent: MyOS/0.1\r\n" ++
    "Connection: close\r\n" ++ "\r\n")

def httpRequest (pathbuf hostbuf : List UInt8) : List UInt8 :=
  snprintf 512 httpFormat [pathbuf, hostbuf]

/-- Up to the request: the polls made and the state it leaves, or the value
returned. -/
def httpOpen (polls : Nat → List (Mem × Int)) (k : Kernel) (ip : UInt32) (port : UInt16)
    (hostbuf pathbuf : List UInt8) : Except (Kernel × Int) (Nat × Kernel) :=
  let (k, failed) := tcpConnect (tcpInit k) .gSock ip port 0
  if failed ≠ 0 then .error (k, -2)
  else
    let (n, k) := httpWait polls 300000 0 k
    if (k.sock .gSock).state ≠ .established then .error ((tcpClose k .gSock).1, -3)
    else
      let req := httpRequest pathbuf hostbuf
      if (req.length : Int) ≤ 0 then .error ((tcpClose k .gSock).1, -4)
      else .ok (n, (tcpSend k .gSock req).1)

theorem httpRequest_length (pathbuf hostbuf : List UInt8) :
    0 < (httpRequest pathbuf hostbuf).length := by
  have text : httpFormat = 71 :: httpFormat.tail := by decide +kernel
  rw [httpRequest, text]
  exact snprintf_pos (by decide) (by decide) _ _

/-- A connect cannot be refused behind `tcp_init`, and no request is empty: -2
and -4 are never returned. -/
theorem httpOpen_eq {polls : Nat → List (Mem × Int)} {k k' : Kernel} {n : Nat} {ip : UInt32}
    {port : UInt16}
    (waits : httpWait polls 300000 0 (tcpConnect (tcpInit k) .gSock ip port 0).1 = (n, k'))
    (hostbuf pathbuf : List UInt8) :
    httpOpen polls k ip port hostbuf pathbuf =
      if (k'.sock .gSock).state ≠ .established then .error ((tcpClose k' .gSock).1, -3)
      else .ok (n, (tcpSend k' .gSock (httpRequest pathbuf hostbuf)).1) := by
  have idle : ((tcpInit k).sock .gSock).inUse = false := by
    rw [tcpInit, setSock_same]
    rfl
  have connects : (tcpConnect (tcpInit k) .gSock ip port 0).2 = 0 := by
    rw [tcpConnect, idle]
    rfl
  have some : ¬ ((httpRequest pathbuf hostbuf).length : Int) ≤ 0 := by
    have := httpRequest_length pathbuf hostbuf
    omega
  simp only [httpOpen, waits]
  rw [if_neg (not_not.mpr connects), if_neg some]

/-! ## All rounds -/

/-- A request that went out: in which round, after how many polls of it, and
the state behind it. -/
structure HttpRequest where
  redir : Nat
  polled : Nat
  kernel : Kernel

/-- `out` are the bytes written to the buffer of the caller. `request` is the
one behind which the function returned; it is kept for the statements. -/
structure HttpResult where
  kernel : Kernel
  ret : Int
  out : List UInt8
  request : Option HttpRequest

def maxRedirects : Nat := 5

/-- The loop with so many rounds to go, `none` when a receive loop is still
running after `fuel` checks. `polls redir n` are the frames of the `n`-th poll
in round `redir`. -/
def httpRounds (polls : Nat → Nat → List (Mem × Int)) (fuel : Nat) (port : UInt16)
    (outCap : Int) : Nat → Kernel → UInt32 → List UInt8 → List UInt8 → Option HttpRequest →
    Option HttpResult
  | 0, k, _, _, _, request => some ⟨k, -15, [], request⟩
  | rounds + 1, k, ip, hostbuf, pathbuf, _ =>
    let redir := maxRedirects - rounds
    match httpOpen (polls redir) k ip port hostbuf pathbuf with
    | .error (k, ret) => some ⟨k, ret, [], none⟩
    | .ok (n, k) =>
      match httpReceive (polls redir) fuel n k [] with
      | none => none
      | some (left, raw) =>
        let closed := (tcpClose left .gSock).1
        match httpAnswer ip hostbuf raw outCap with
        | .done ret out => some ⟨closed, ret, out, some ⟨redir, n, k⟩⟩
        | .follow ip hostbuf pathbuf =>
          httpRounds polls fuel port outCap rounds closed ip hostbuf pathbuf (some ⟨redir, n, k⟩)

def httpGetByIpPort (polls : Nat → Nat → List (Mem × Int)) (fuel : Nat) (k : Kernel)
    (ip : UInt32) (port : UInt16) (host path : List UInt8) (outCap : Int) : Option HttpResult :=
  if outCap ≤ 0 then some ⟨k, -1, [], none⟩
  else httpRounds polls fuel port outCap (maxRedirects + 1) k ip (strncpy host 127)
    (strncpy path 1023) none

/-- No round follows an answer that is no redirect that is followed. -/
theorem httpGetByIpPort_done {polls : Nat → Nat → List (Mem × Int)} {fuel n : Nat}
    {k k' left : Kernel} {ip : UInt32} {port : UInt16} {host path raw out : List UInt8}
    {outCap ret : Int} (args : 0 < outCap)
    (opened : httpOpen (polls 0) k ip port (strncpy host 127) (strncpy path 1023) = .ok (n, k'))
    (received : httpReceive (polls 0) fuel n k' [] = some (left, raw))
    (answer : httpAnswer ip (strncpy host 127) raw outCap = .done ret out) :
    httpGetByIpPort polls fuel k ip port host path outCap =
      some ⟨(tcpClose left .gSock).1, ret, out, some ⟨0, n, k'⟩⟩ := by
  rw [httpGetByIpPort, if_neg (by omega), httpRounds]
  simp only [Nat.sub_self, opened, received, answer]

def httpGetByIp (polls : Nat → Nat → List (Mem × Int)) (fuel : Nat) (k : Kernel) (ip : UInt32)
    (host path : List UInt8) (outCap : Int) : Option HttpResult :=
  httpGetByIpPort polls fuel k ip 80 host path outCap

end MyOS
