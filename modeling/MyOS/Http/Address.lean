import MyOS.Http.Literal
import MyOS.Http.Url

/-!
# What passes for a URL

`parse_url` takes `http://host:port/path` apart. The port is added up in 16 bits,
and what follows it counts only if it is a slash.
-/

namespace MyOS.Address

open Decimal Requests Url

/-- Host, port and path are those written in the URL. -/
structure Written (url : List UInt8) (hostBufSize : Nat) (u : ParsedUrl) : Prop where
  written : ∃ rest tail, url = http rest ∧ u.host = urlHost rest ∧
    (behindHost rest = tail ∧ u.port = 80 ∨
      ∃ ds, Number ds ∧ behindHost rest = 58 :: (ds ++ tail) ∧ u.port.toNat = value ds) ∧
    (tail = [] ∧ u.path = ascii "/" ∨ tail.head? = some 47 ∧ u.path = tail)
  room : u.host.length < hostBufSize

/-- A port is announced behind a host that fits, but none is written, or it does
not fit 16 bits, or something other than a path follows it. -/
def BadPort (url : List UInt8) (hostBufSize : Nat) : Prop :=
  ∃ rest ds tail, url = http rest ∧ (urlHost rest).length < hostBufSize ∧
    behindHost rest = 58 :: (ds ++ tail) ∧ (∀ c ∈ ds, IsDigit c) ∧ Stops tail ∧
    (ds = [] ∨ 65535 < value ds ∨ tail ≠ [] ∧ tail.head? ≠ some 47)

/-! ## The port -/

def port16 (ds : List UInt8) : UInt16 :=
  ds.foldl (fun port c => port * 10 + (c - 48).toUInt16) 0

theorem portDigits_eq (port : UInt16) (s : List UInt8) :
    portDigits port s = scan (fun port c => port * 10 + (c - 48).toUInt16) port s := by
  induction s generalizing port with
  | nil => rfl
  | cons c s ih =>
    simp only [portDigits, scan, ih]
    simp only [Literal.isDigit_iff]

theorem portDigits_append {ds tail : List UInt8} (digits : ∀ c ∈ ds, IsDigit c)
    (stops : Stops tail) : portDigits 0 (ds ++ tail) = (port16 ds, tail) := by
  simp only [portDigits_eq, scan_append _ digits stops]
  rfl

theorem toNat_port16 {ds : List UInt8} (digits : ∀ c ∈ ds, IsDigit c) :
    (port16 ds).toNat = value ds % 2 ^ 16 := by
  refine foldl_extend _ (fun (r : UInt16) v => r.toNat = v % 2 ^ 16) ?_ digits rfl
  intro r v c isDigit rep
  rw [UInt16.toNat_add, UInt16.toNat_mul, UInt8.toNat_toUInt16, toNat_sub_digit isDigit,
    rep]
  change (v % 2 ^ 16 * 10 % 2 ^ 16 + digit c) % 2 ^ 16 = (v * 10 + digit c) % 2 ^ 16
  omega

/-! ## The parser -/

/-- The path behind host and port, as the function takes it. -/
def pathOf (tail : List UInt8) : List UInt8 := if tail.head? = some 47 then tail else ascii "/"

theorem pathOf_iff {tail path : List UInt8} (ends : tail = [] ∨ tail.head? = some 47) :
    (tail = [] ∧ path = ascii "/" ∨ tail.head? = some 47 ∧ path = tail) ↔ path = pathOf tail := by
  rcases ends with rfl | slash
  · simp [pathOf]
  · have some : tail ≠ [] := by
      rintro rfl
      cases slash
    simp [pathOf, slash, some]

theorem parseUrl_plain {rest : List UInt8} {size : Nat} (room : (urlHost rest).length < size)
    (unwritten : (behindHost rest).head? ≠ some 58) :
    parseUrl (http rest) size = some ⟨urlHost rest, 80, pathOf (behindHost rest)⟩ := by
  simp only [parseUrl_http, if_neg (not_le.mpr room), if_neg unwritten, urlPath_eq unwritten]
  rfl

theorem parseUrl_port {rest ds tail : List UInt8} {size : Nat}
    (room : (urlHost rest).length < size) (behind : behindHost rest = 58 :: (ds ++ tail))
    (digits : ∀ c ∈ ds, IsDigit c) (stops : Stops tail) :
    parseUrl (http rest) size = some ⟨urlHost rest, port16 ds, pathOf tail⟩ := by
  rw [parseUrl_http, if_neg (not_le.mpr room), behind, List.head?_cons, if_pos rfl, List.tail_cons,
    portDigits_append digits stops]
  rfl

theorem parseUrl_other {url : List UInt8} (other : ∀ rest, url ≠ http rest) (size : Nat) :
    parseUrl url size = none := by
  have scheme : strncmp url (ascii "http://") 7 ≠ 0 := by
    intro same
    obtain ⟨rest, here⟩ := (strncmp_zero_iff (b := ascii "http://") (by decide) url).mp same
    exact other rest here.symm
  simp only [parseUrl, if_pos scheme]

/-! ## What is written in a URL -/

theorem http_injective {rest rest' : List UInt8} (same : http rest = http rest') : rest = rest' :=
  List.append_cancel_left same

theorem Written.host_fits {rest : List UInt8} {size : Nat} {u : ParsedUrl}
    (written : Written (http rest) size u) : (urlHost rest).length < size := by
  obtain ⟨⟨rest', tail, same, host, -⟩, room⟩ := written
  obtain rfl := http_injective same
  rwa [host] at room

theorem stops_of_path {tail : List UInt8} (ends : tail = [] ∨ tail.head? = some 47) :
    Stops tail := by
  intro c first
  rcases ends with rfl | slash
  · cases first
  · rw [slash] at first
    cases first
    decide

theorem written_plain_iff {rest : List UInt8} {size : Nat} (room : (urlHost rest).length < size)
    (unwritten : (behindHost rest).head? ≠ some 58) (u : ParsedUrl) :
    Written (http rest) size u ↔ u = ⟨urlHost rest, 80, pathOf (behindHost rest)⟩ := by
  have ends : behindHost rest = [] ∨ (behindHost rest).head? = some 47 := by
    rcases behindHost_cases rest with none | colon | slash
    · exact .inl none
    · exact absurd colon unwritten
    · exact .inr slash
  constructor
  · rintro ⟨⟨rest', tail, same, host, port, path⟩, -⟩
    obtain rfl := http_injective same
    rcases port with ⟨rfl, port⟩ | ⟨ds, -, behind, -⟩
    · obtain ⟨h, p, t⟩ := u
      rw [ParsedUrl.mk.injEq]
      exact ⟨host, port, (pathOf_iff ends).mp path⟩
    · rw [behind] at unwritten
      exact absurd rfl unwritten
  · rintro rfl
    exact ⟨⟨rest, _, rfl, rfl, .inl ⟨rfl, rfl⟩, (pathOf_iff ends).mpr rfl⟩, room⟩

/-- With a port the URL reads in one way at most. -/
theorem written_port_iff {rest ds tail : List UInt8} {size : Nat}
    (room : (urlHost rest).length < size) (behind : behindHost rest = 58 :: (ds ++ tail))
    (digits : ∀ c ∈ ds, IsDigit c) (stops : Stops tail) (u : ParsedUrl) :
    Written (http rest) size u ↔
      (ds ≠ [] ∧ value ds ≤ 65535 ∧ (tail = [] ∨ tail.head? = some 47)) ∧
        u = ⟨urlHost rest, port16 ds, pathOf tail⟩ := by
  constructor
  · rintro ⟨⟨rest', tail', same, host, port, path⟩, -⟩
    obtain rfl := http_injective same
    have ends : tail' = [] ∨ tail'.head? = some 47 := by
      rcases path with ⟨none, -⟩ | ⟨slash, -⟩
      · exact .inl none
      · exact .inr slash
    rcases port with ⟨rfl, -⟩ | ⟨ds', number, behind', port⟩
    · rw [behind] at ends
      rcases ends with none | slash
      · cases none
      · cases slash
    · rw [behind] at behind'
      obtain ⟨rfl, rfl⟩ := split_unique digits number.digits stops (stops_of_path ends)
        (List.cons.inj behind').2
      have small := u.port.toNat_lt
      rw [port] at small
      refine ⟨⟨number.some, Nat.le_of_lt_succ small, ends⟩, ?_⟩
      have here : u.port = port16 ds := by
        apply UInt16.toNat_inj.mp
        simp only [toNat_port16 digits, Nat.mod_eq_of_lt small]
        exact port
      obtain ⟨h, p, t⟩ := u
      rw [ParsedUrl.mk.injEq]
      exact ⟨host, here, (pathOf_iff ends).mp path⟩
  · rintro ⟨⟨some, small, ends⟩, rfl⟩
    have port : (port16 ds).toNat = value ds := by
      rw [toNat_port16 digits]
      exact Nat.mod_eq_of_lt (Nat.lt_succ_of_le small)
    exact ⟨⟨rest, tail, rfl, rfl, .inr ⟨ds, ⟨some, digits⟩, behind, port⟩,
      (pathOf_iff ends).mpr rfl⟩, room⟩

/-- A bad port is one that does not read as a port. -/
theorem badPort_port_iff {rest ds tail : List UInt8} {size : Nat}
    (room : (urlHost rest).length < size) (behind : behindHost rest = 58 :: (ds ++ tail))
    (digits : ∀ c ∈ ds, IsDigit c) (stops : Stops tail) : BadPort (http rest) size ↔
      ¬ (ds ≠ [] ∧ value ds ≤ 65535 ∧ (tail = [] ∨ tail.head? = some 47)) := by
  constructor
  · rintro ⟨rest', ds', tail', same, -, behind', digits', stops', bad⟩ ⟨some, small, ends⟩
    obtain rfl := http_injective same
    rw [behind] at behind'
    obtain ⟨rfl, rfl⟩ := split_unique digits digits' stops stops' (List.cons.inj behind').2
    rcases bad with none | large | ⟨more, other⟩
    · exact some none
    · exact absurd small (not_le.mpr large)
    · exact ends.elim more other
  · intro bad
    refine ⟨rest, ds, tail, rfl, room, behind, digits, stops, ?_⟩
    by_contra good
    push Not at good
    apply bad
    refine ⟨good.1, good.2.1, ?_⟩
    by_cases none : tail = []
    · exact .inl none
    · exact .inr (good.2.2 none)

/-- Exactly the URLs that read as host, port and path are accepted, with these. -/
def Faithful (url : List UInt8) (hostBufSize : Nat) : Prop :=
  ∀ u, parseUrl url hostBufSize = some u ↔ Written url hostBufSize u

/-- The parser is faithful unless the port is a bad one. -/
theorem faithful_iff (url : List UInt8) (hostBufSize : Nat) :
    Faithful url hostBufSize ↔ ¬ BadPort url hostBufSize := by
  by_cases scheme : ∃ rest, url = http rest
  swap
  · have other : ∀ rest, url ≠ http rest := fun rest same => scheme ⟨rest, same⟩
    refine iff_of_true (fun u => ?_) ?_
    · rw [parseUrl_other other]
      refine iff_of_false (by simp) ?_
      rintro ⟨⟨rest, tail, same, -⟩, -⟩
      exact other rest same
    · rintro ⟨rest, ds, tail, same, -⟩
      exact other rest same
  obtain ⟨rest, rfl⟩ := scheme
  by_cases room : (urlHost rest).length < hostBufSize
  swap
  · refine iff_of_true (fun u => ?_) ?_
    · simp only [parseUrl_http, if_pos (not_lt.mp room)]
      exact iff_of_false (by simp) fun written => room written.host_fits
    · rintro ⟨rest', ds, tail, same, fits, -⟩
      obtain rfl := http_injective same
      exact room fits
  by_cases written : (behindHost rest).head? = some 58
  · obtain ⟨ds, tail, split, digits, stops⟩ := exists_split (behindHost rest).tail
    have behind : behindHost rest = 58 :: (ds ++ tail) := by
      rw [← split]
      exact List.eq_cons_of_mem_head? written
    rw [badPort_port_iff room behind digits stops, not_not]
    constructor
    · intro faithful
      exact ((written_port_iff room behind digits stops _).mp
        ((faithful _).mp (parseUrl_port room behind digits stops))).1
    · intro good u
      rw [parseUrl_port room behind digits stops, written_port_iff room behind digits stops,
        and_iff_right good, Option.some.injEq, eq_comm]
  · refine iff_of_true (fun u => ?_) ?_
    · rw [parseUrl_plain room written, written_plain_iff room written, Option.some.injEq, eq_comm]
    · rintro ⟨rest', ds, tail, same, -, behind, -⟩
      obtain rfl := http_injective same
      rw [behind] at written
      exact written rfl

/-- Port 65616 is 80 in 16 bits. -/
theorem wrapped_port_accepted : ¬ Faithful (http (ascii "10.0.2.2:65616/")) 128 := by
  intro faithful
  have parsed : parseUrl (http (ascii "10.0.2.2:65616/")) 128 =
      some ⟨ascii "10.0.2.2", 80, ascii "/"⟩ := by decide +kernel
  have written := (faithful _).mp parsed
  have behind : behindHost (ascii "10.0.2.2:65616/") = 58 :: (ascii "65616" ++ ascii "/") := by
    decide +kernel
  have port := ((written_port_iff written.host_fits behind (by decide +kernel)
    (stops_cons (by decide) []) _).mp written).1.2.1
  revert port
  decide +kernel

end MyOS.Address
