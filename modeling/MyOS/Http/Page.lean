import MyOS.Http.Requests
import MyOS.Http.Schedule

/-!
# The page that is returned

The length of a response is known, but its body is found and measured with the
functions on strings, which stop at the first zero byte.
-/

namespace MyOS.Page

open Polls Requests Schedule

/-! ## Answers to a call -/

/-- The call with so many turns allowed for each receive loop. -/
def within (c : Call) (fuel : Nat) : Call := { c with fuel }

/-- The call comes to this round, given turns enough. -/
def Arrives (c : Call) (r : Round) : Prop :=
  ∃ enough, ∀ fuel, enough ≤ fuel → Reached (within c fuel) r

/-- In this round the server answers with `stream`. -/
def AnsweredWith (c : Call) (r : Round) (stream : List UInt8) : Prop :=
  Answered (c.polls r.redir) r.kernel r.ip c.port r.hostbuf r.pathbuf stream

/-- Given turns enough the call returns `ret` and has written `out`. -/
def Returns (c : Call) (ret : Int) (out : List UInt8) : Prop :=
  ∃ enough, ∀ fuel, enough ≤ fuel →
    ∃ res, (within c fuel).result = some res ∧ res.ret = ret ∧ res.out = out

theorem Returns.unique {c : Call} {ret ret' : Int} {out out' : List UInt8}
    (returns : Returns c ret out) (returns' : Returns c ret' out') : ret = ret' ∧ out = out' := by
  obtain ⟨enough, here⟩ := returns
  obtain ⟨enough', here'⟩ := returns'
  obtain ⟨res, result, rfl, rfl⟩ := here _ (le_max_left enough enough')
  obtain ⟨res', result', rfl, rfl⟩ := here' _ (le_max_right enough enough')
  cases result.symm.trans result'
  exact ⟨rfl, rfl⟩

theorem outCap_pos {c : Call} {r : Round} (reached : Reached c r) : 0 < c.outCap := by
  induction reached with
  | first args => exact args
  | follow before more opened received answer value ih => exact ih

theorem Arrives.outCap_pos {c : Call} {r : Round} (arrives : Arrives c r) : 0 < c.outCap := by
  obtain ⟨enough, reached⟩ := arrives
  have start : 0 < (within c enough).outCap := Page.outCap_pos (reached enough (Nat.le_refl _))
  exact start

/-- An answer that is no redirect to follow ends the call. -/
theorem Arrives.returns {c : Call} {r : Round} {stream : List UInt8} (arrives : Arrives c r)
    (answered : AnsweredWith c r stream) {ret : Int} {out : List UInt8}
    (answer : httpAnswer r.ip r.hostbuf (stream.take (rawCap - 1)) c.outCap = .done ret out) :
    Returns c ret out := by
  obtain ⟨enough, reached⟩ := arrives
  obtain ⟨n, k, opened, empty, serves⟩ := answered
  obtain ⟨est, cap⟩ := httpOpen_keep cap_onSegment (fun _ _ cap => cap) rfl opened
  have reading := Reading.start empty
  rw [est] at reading
  have nothing : ([] : List UInt8).length = min 0 (rawCap - 1) := rfl
  obtain ⟨left, more, received⟩ := serves_received serves cap reading nothing
  refine ⟨max enough more, fun fuel upto => ?_⟩
  obtain ⟨inside, request, rest⟩ := (reached fuel ((le_max_left ..).trans upto)).result
  have here : maxRedirects - (maxRedirects - r.redir) = r.redir := by omega
  have received := received fuel ((le_max_right ..).trans upto)
  rw [List.nil_append, List.length_nil, Nat.sub_zero] at received
  refine ⟨⟨(tcpClose left .gSock).1, ret, out, some ⟨r.redir, n, k⟩⟩, ?_, rfl, rfl⟩
  simp only [rest, httpRounds]
  simp only [within, here, opened, received, answer]

/-! ## Header and body -/

def emptyLine : List UInt8 := ascii "\r\n\r\n"

/-- The body is what follows the first CRLFCRLF. -/
structure Split (stream header body : List UInt8) : Prop where
  whole : stream = header ++ emptyLine ++ body
  first : ∀ p < header.length, ¬ Occurrence.At emptyLine stream p

theorem emptyLine_text : 0 ∉ emptyLine := by decide

theorem emptyLine_some : emptyLine ≠ [] := by decide

theorem Split.first_at {stream header body : List UInt8} (split : Split stream header body) :
    Occurrence.First emptyLine stream header.length := by
  refine ⟨?_, split.first⟩
  simp only [Occurrence.At, split.whole, List.append_assoc, List.drop_left]
  exact List.prefix_append emptyLine body

/-- The body as it is found behind a header of text: up to its first zero byte. -/
theorem httpBody_some {raw body : List UInt8} (found : strstr raw emptyLine = some body) :
    httpBody raw = body.drop 4 := by
  rw [emptyLine] at found
  simp only [httpBody, found]

theorem httpBody_none {raw : List UInt8} (nowhere : strstr raw emptyLine = none) :
    httpBody raw = raw := by
  rw [emptyLine] at nowhere
  simp only [httpBody, nowhere]

theorem httpBody_text {stream header body : List UInt8} (split : Split stream header body)
    (text : 0 ∉ header) : httpBody (cString stream) = cString body := by
  have front : 0 ∉ header ++ emptyLine := by
    intro zero
    exact (List.mem_append.mp zero).elim text emptyLine_text
  have string : cString stream = header ++ emptyLine ++ cString body := by
    simp only [split.whole, cString_append front]
  have first : Occurrence.First emptyLine (cString stream) header.length := by
    have whole := split.first_at
    rw [← List.takeWhile_append_dropWhile (p := fun c : UInt8 => c ≠ 0) (l := stream)] at whole
    refine Occurrence.First.of_append whole ?_ emptyLine_some
    have size := congrArg List.length string
    simp only [size, List.length_append, List.length_append]
    exact Nat.le_add_right ..
  have found := (strstr_some_iff emptyLine_some (cString stream) _).mpr ⟨_, first, rfl⟩
  have size : (header ++ emptyLine).length = header.length + 4 := List.length_append
  rw [httpBody_some found, List.drop_drop, string, ← size, List.drop_left]

/-- With a zero byte in the header its text up to there passes for the body. -/
theorem httpBody_cut {stream header body : List UInt8} (split : Split stream header body)
    (zero : 0 ∈ header) : httpBody (cString stream) = cString header := by
  have string : cString stream = cString header := by
    simp only [split.whole, List.append_assoc, cString_cut zero]
  have nowhere : strstr (cString stream) emptyLine = none := by
    rw [strstr_none_iff emptyLine_some]
    intro p here
    have inside := here.inside emptyLine_some
    have upto : (cString stream).length ≤ header.length := by
      rw [string]
      exact (List.takeWhile_prefix _).length_le
    have four : emptyLine.length = 4 := rfl
    have later := here.append emptyLine_some (stream.dropWhile fun c => c ≠ 0)
    rw [cString, List.takeWhile_append_dropWhile] at later
    exact split.first p (by omega) later
  exact (httpBody_none nowhere).trans string

/-! ## The page -/

/-- The function returns the number of bytes of the body, as far as they fit, and
has written them and a NUL. -/
structure Whole (c : Call) (body : List UInt8) : Prop where
  returned : Returns c (min (c.outCap - 1) body.length) (body.take (c.outCap - 1).toNat ++ [0])
  inside : ((body.take (c.outCap - 1).toNat ++ [0]).length : Int) ≤ c.outCap

/-- None of the bytes of the body that fit is zero. Behind a header with a zero
byte in it, they are those the header begins with. -/
def Kept (outCap : Int) (header body : List UInt8) : Prop :=
  if 0 ∈ header then (cString header).take (outCap - 1).toNat = body.take (outCap - 1).toNat
  else 0 ∉ body.take (outCap - 1).toNat

theorem httpAnswer_page {stream : List UInt8} (page : ¬ Redirects stream)
    (short : stream.length ≤ rawCap - 1) (some : stream ≠ []) {outCap : Int} (args : 0 < outCap)
    (ip : UInt32) (hostbuf : List UInt8) :
    httpAnswer ip hostbuf (stream.take (rawCap - 1)) outCap =
      .done (min (outCap - 1) (httpBody (cString stream)).length)
        ((httpBody (cString stream)).take (outCap - 1).toNat ++ [0]) := by
  have all : stream.take (rawCap - 1) = stream := List.take_of_length_le short
  simp only [Redirects, all] at page
  simp only [httpAnswer, all]
  simp only [if_neg some, if_neg page]
  generalize httpBody (cString stream) = b
  have length : (if (b.length : Int) > outCap - 1 then outCap - 1 else b.length) =
      min (outCap - 1) b.length := by
    split <;> omega
  have taken : b.take (min (outCap - 1) (b.length : Int)).toNat = b.take (outCap - 1).toNat := by
    rcases le_total (outCap - 1) (b.length : Int) with above | below
    · rw [min_eq_left above]
    · rw [min_eq_right below, Int.toNat_natCast, List.take_length,
        List.take_of_length_le (by omega)]
  simp only [length, taken]

/-- The body of a response comes back whole if and only if no byte of it that
fits into the buffer is zero. -/
theorem page_iff {c : Call} {r : Round} {stream header body : List UInt8} (arrives : Arrives c r)
    (answered : AnsweredWith c r stream) (short : stream.length ≤ rawCap - 1)
    (page : ¬ Redirects stream) (split : Split stream header body) :
    Whole c body ↔ Kept c.outCap header body := by
  have args := arrives.outCap_pos
  have some : stream ≠ [] := by
    rintro rfl
    exact emptyLine_some
      (List.append_eq_nil_iff.mp (List.append_eq_nil_iff.mp split.whole.symm).1).2
  have returns := arrives.returns answered (httpAnswer_page page short some args r.ip r.hostbuf)
  have kept : Kept c.outCap header body ↔
      (httpBody (cString stream)).take (c.outCap - 1).toNat = body.take (c.outCap - 1).toNat := by
    unfold Kept
    split
    · rename_i zero
      rw [httpBody_cut split zero]
    · rename_i text
      simp only [httpBody_text split text, take_cString_iff]
  rw [kept]
  constructor
  · intro whole
    exact (List.append_cancel_right (returns.unique whole.returned).2)
  · intro same
    have length : min (c.outCap - 1) ((httpBody (cString stream)).length : Int) =
        min (c.outCap - 1) body.length := by
      have sizes := congrArg List.length same
      rw [List.length_take, List.length_take] at sizes
      omega
    rw [same, length] at returns
    refine ⟨returns, ?_⟩
    simp only [List.length_append, List.length_take, List.length_singleton]
    omega

/-! ## Two pages -/

/-- The server answers the SYN, and then the request in one segment. -/
def inOne (stream : List UInt8) (_redir : Nat) : Nat → List (Mem × Int)
  | 0 => [frameOf server (sends 0x12 7 [])]
  | 1 => [frameOf server (sends 0x19 8 stream)]
  | _ + 2 => []

theorem serves_inOne {g : TcpSocket} (served : Served g) {stream : List UInt8}
    (short : stream.length ≤ 1460) : Serves g (inOne stream 0) 1 8 0 stream := by
  have rst : ((0x19 : UInt8) &&& 0x04 != 0) = false := by decide
  have fin : ((0x19 : UInt8) &&& 0x01 != 0) = true := by decide
  have accepted := served.accepts 0x19 8 short
  have ends : BringsEnd g 8 ([] ++ stream) ([] ++ [frameOf server (sends 0x19 8 stream)]) :=
    .fin (.none 8) accepted rst fin rfl (noReset_nil g)
  refine .last ends (by omega) fun m later => ?_
  obtain ⟨m, rfl⟩ := Nat.exists_eq_add_of_le' later
  exact noReset_nil g

/-- A call that is answered so. -/
def callOf (stream : List UInt8) : Call where
  polls := inOne stream
  fuel := 0
  kernel := Pending.configured
  ip := server.ip
  port := 80
  host := ascii "10.0.2.2"
  path := ascii "/"
  outCap := 4096
  hostString := literal_string

def firstRound (stream : List UInt8) : Round :=
  let c := callOf stream
  ⟨0, c.kernel, c.ip, strncpy c.host 127, strncpy c.path 1023, ⟨c.host, c.path⟩⟩

theorem arrives_callOf (stream : List UInt8) : Arrives (callOf stream) (firstRound stream) :=
  ⟨0, fun fuel _ => .first (c := within (callOf stream) fuel) (by decide : (0 : Int) < 4096)⟩

theorem answered_callOf {stream : List UInt8} (short : stream.length ≤ 1460) :
    AnsweredWith (callOf stream) (firstRound stream) stream :=
  answered_by rfl (fun _ served => serves_inOne served short) _ _

def pageHeader : List UInt8 := ascii "HTTP/1.0 200 OK"

def pageWith (body : List UInt8) : List UInt8 := pageHeader ++ emptyLine ++ body

theorem page_iff_text : Whole (callOf (pageWith (ascii "hello"))) (ascii "hello") := by
  have split : Split (pageWith (ascii "hello")) pageHeader (ascii "hello") :=
    ⟨rfl, by decide +kernel⟩
  refine (page_iff (arrives_callOf _) (answered_callOf (by decide +kernel)) (by decide +kernel)
    ?_ split).mpr ?_
  · simp only [Redirects]
    decide +kernel
  · rw [Kept, if_neg (by decide)]
    decide +kernel

/-- A body with a zero byte in it ends there. -/
theorem zero_byte_cuts : ¬ Whole (callOf (pageWith [97, 0, 98])) [97, 0, 98] := by
  intro whole
  have page : ¬ Redirects (pageWith [97, 0, 98]) := by
    simp only [Redirects]
    decide +kernel
  have returns := (arrives_callOf (pageWith [97, 0, 98])).returns
    (answered_callOf (by decide +kernel))
    (httpAnswer_page page (by decide +kernel) (by decide +kernel) (by decide) _ _)
  have lengths := (returns.unique whole.returned).1
  revert lengths
  decide +kernel

end MyOS.Page
