import MyOS.Base.Decimal
import MyOS.Endian
import MyOS.Http.Get

/-!
# What passes for an address

`parse_ipv4_literal` decides whether the host of a redirect is an address or a
name. It reads four numbers and does not look at what follows them.
-/

namespace MyOS.Literal

open Decimal

/-- The numbers with a dot between any two. -/
def dotted : List (List UInt8) → List UInt8
  | [] => []
  | [n] => n
  | n :: ns => n ++ 46 :: dotted ns

/-- The big-endian combination of the numbers. -/
def combination (ns : List (List UInt8)) : Nat := ns.foldl (fun v n => v * 256 + value n) 0

/-- `s` is four numbers from 0 to 255 with dots between them, and nothing else. -/
structure Dotted (s : List UInt8) (ns : List (List UInt8)) : Prop where
  four : ns.length = 4
  numbers : ∀ n ∈ ns, Number n
  small : ∀ n ∈ ns, value n ≤ 255
  whole : s = dotted ns

def IsLiteral (s : List UInt8) (ip : UInt32) : Prop :=
  ∃ ns, Dotted s ns ∧ ip.toNat = combination ns

/-- `s` begins with four numbers, none of them above 255 in its last 32 bits. -/
structure Begins (s : List UInt8) (ns : List (List UInt8)) (rest : List UInt8) : Prop where
  four : ns.length = 4
  numbers : ∀ n ∈ ns, Number n
  wrapped : ∀ n ∈ ns, value n % 2 ^ 32 ≤ 255
  stops : Stops rest
  whole : s = dotted ns ++ rest

/-- More follows the four numbers, or one of them is too large. -/
def Overread (s : List UInt8) : Prop :=
  ∃ ns rest, Begins s ns rest ∧ (rest ≠ [] ∨ ∃ n ∈ ns, 255 < value n)

/-! ## The numbers -/

theorem isDigit_iff (c : UInt8) : isDigit c = true ↔ IsDigit c := by
  simp only [isDigit, Bool.and_eq_true, decide_eq_true_iff, decide_eq_true_iff]
  rfl

/-- A number as the loop reads it. -/
def wrapped (n : List UInt8) : UInt32 :=
  n.foldl (fun val c => val * 10 + (c - 48).toUInt32) 0

theorem ipv4Number_eq (val : UInt32) (s : List UInt8) :
    ipv4Number val s = scan (fun val c => val * 10 + (c - 48).toUInt32) val s := by
  induction s generalizing val with
  | nil => rfl
  | cons c s ih =>
    simp only [ipv4Number, scan, ih]
    simp only [isDigit_iff]

theorem toNat_wrapped {n : List UInt8} (digits : ∀ c ∈ n, IsDigit c) :
    (wrapped n).toNat = value n % 2 ^ 32 := by
  refine foldl_extend _ (fun (r : UInt32) v => r.toNat = v % 2 ^ 32) ?_ digits rfl
  intro r v c isDigit rep
  simp only [UInt32.toNat_add, UInt32.toNat_mul, UInt8.toNat_toUInt32, toNat_sub_digit isDigit, rep]
  change (v % 2 ^ 32 * 10 % 2 ^ 32 + digit c) % 2 ^ 32 = (v * 10 + digit c) % 2 ^ 32
  omega

/-- One turn of the loop, behind a number. -/
theorem ipv4Parts_number {n rest : List UInt8} (number : Number n) (stops : Stops rest)
    (missing : Nat) :
    ipv4Parts (missing + 1) (n ++ rest) =
      if 255 < value n % 2 ^ 32 then none
      else if rest.head? = some 46 then (ipv4Parts missing rest.tail).map (wrapped n :: ·)
      else some [wrapped n] := by
  have read : ipv4Number 0 (n ++ rest) = (wrapped n, rest) := by
    simp only [ipv4Number_eq, scan_append _ number.digits stops]
    rfl
  have large : 255 < wrapped n ↔ 255 < value n % 2 ^ 32 := by
    simp only [UInt32.lt_iff_toNat_lt, toNat_wrapped number.digits]
    rfl
  cases n with
  | nil => exact absurd rfl number.some
  | cons c n =>
    have first := (isDigit_iff c).mpr (number.digits c List.mem_cons_self)
    rw [List.cons_append] at read ⊢
    simp only [ipv4Parts, if_pos first, read]
    simp only [large]

/-- Where no number stands the loop ends, or the function returns 0. -/
theorem ipv4Parts_other {s : List UInt8} (stops : Stops s) (missing : Nat) :
    ipv4Parts (missing + 1) s = if s = [] then some [] else none := by
  cases s with
  | nil => rfl
  | cons c s =>
    have other := mt (isDigit_iff c).mp (stops c rfl)
    simp only [ipv4Parts, if_neg other, if_neg (List.cons_ne_nil c s)]

theorem stops_dot (s : List UInt8) : Stops (46 :: s) := stops_cons (by decide) s

theorem dotted_cons (n : List UInt8) {ns : List (List UInt8)} (more : ns ≠ []) :
    dotted (n :: ns) = n ++ 46 :: dotted ns := by
  cases ns with
  | nil => exact absurd rfl more
  | cons m ns => rfl

/-- What a turn that returns parts has read. -/
theorem ipv4Parts_some {missing : Nat} {s : List UInt8} {ps : List UInt32}
    (parsed : ipv4Parts (missing + 1) s = some ps) (some : ps ≠ []) :
    ∃ n rest, s = n ++ rest ∧ Number n ∧ Stops rest ∧ value n % 2 ^ 32 ≤ 255 ∧
      (ps = [wrapped n] ∨
        ∃ behind qs, rest = 46 :: behind ∧ ipv4Parts missing behind = .some qs ∧
          ps = wrapped n :: qs) := by
  obtain ⟨n, rest, rfl, digits, stops⟩ := exists_split s
  by_cases none : n = []
  · subst none
    rw [List.nil_append, ipv4Parts_other stops] at parsed
    split at parsed
    · cases parsed
      exact absurd rfl some
    · cases parsed
  · rw [ipv4Parts_number ⟨none, digits⟩ stops] at parsed
    split at parsed
    · cases parsed
    rename_i small
    refine ⟨n, rest, rfl, ⟨none, digits⟩, stops, not_lt.mp small, ?_⟩
    split at parsed
    · rename_i dot
      obtain ⟨qs, others, rfl⟩ := Option.map_eq_some_iff.mp parsed
      exact .inr ⟨rest.tail, qs, List.eq_cons_of_mem_head? dot, others, rfl⟩
    · cases parsed
      exact .inl rfl

/-- All the parts are read exactly from so many numbers with dots between them,
whatever stands behind the last one. -/
theorem ipv4Parts_iff (missing : Nat) (s : List UInt8) (ps : List UInt32) :
    (ipv4Parts (missing + 1) s = some ps ∧ ps.length = missing + 1) ↔
      ∃ ns rest, ns.length = missing + 1 ∧ (∀ n ∈ ns, Number n) ∧
        (∀ n ∈ ns, value n % 2 ^ 32 ≤ 255) ∧ Stops rest ∧ s = dotted ns ++ rest ∧
        ps = ns.map wrapped := by
  induction missing generalizing s ps with
  | zero =>
    constructor
    · rintro ⟨parsed, one⟩
      have some : ps ≠ [] := List.ne_nil_of_length_pos (by omega)
      obtain ⟨n, rest, rfl, number, stops, small, parts⟩ := ipv4Parts_some parsed some
      have all : ps = [wrapped n] := by
        rcases parts with all | ⟨behind, qs, -, none, all⟩
        · exact all
        · cases none
          exact all
      exact ⟨[n], rest, rfl, List.forall_mem_singleton.mpr number,
        List.forall_mem_singleton.mpr small, stops, rfl, all⟩
    · rintro ⟨ns, rest, one, numbers, small, stops, rfl, rfl⟩
      obtain ⟨n, rfl⟩ := List.length_eq_one_iff.mp one
      have here := small n List.mem_cons_self
      refine ⟨?_, one⟩
      change ipv4Parts (0 + 1) (n ++ rest) = some [wrapped n]
      simp only [ipv4Parts_number (numbers n List.mem_cons_self) stops, if_neg (not_lt.mpr here)]
      split <;> rfl
  | succ missing ih =>
    constructor
    · rintro ⟨parsed, size⟩
      have some : ps ≠ [] := List.ne_nil_of_length_pos (by omega)
      obtain ⟨n, rest, rfl, number, stops, small, parts⟩ := ipv4Parts_some parsed some
      rcases parts with rfl | ⟨behind, qs, rfl, others, rfl⟩
      · cases size
      obtain ⟨ns, rest', count, numbers, wraps, stops', rfl, rfl⟩ :=
        (ih behind qs).mp ⟨others, Nat.succ.inj size⟩
      have more : ns ≠ [] := List.ne_nil_of_length_pos (by omega)
      refine ⟨n :: ns, rest', congrArg Nat.succ count, ?_, ?_, stops', ?_, rfl⟩
      · exact List.forall_mem_cons.mpr ⟨number, numbers⟩
      · exact List.forall_mem_cons.mpr ⟨small, wraps⟩
      · simp only [dotted_cons n more, List.append_assoc, List.cons_append]
    · rintro ⟨ns, rest, count, numbers, small, stops, rfl, rfl⟩
      cases ns with
      | nil => cases count
      | cons n ns =>
        have count := Nat.succ.inj count
        obtain ⟨number, numbers⟩ := List.forall_mem_cons.mp numbers
        obtain ⟨here, small⟩ := List.forall_mem_cons.mp small
        have more : ns ≠ [] := List.ne_nil_of_length_pos (by omega)
        obtain ⟨later, size⟩ := (ih (dotted ns ++ rest) (ns.map wrapped)).mpr
          ⟨ns, rest, count, numbers, small, stops, rfl, rfl⟩
        refine ⟨?_, congrArg Nat.succ size⟩
        rw [dotted_cons n more, List.append_assoc, List.cons_append,
          ipv4Parts_number number (stops_dot _), if_neg (not_lt.mpr here), List.head?_cons,
          if_pos rfl, List.tail_cons, later]
        rfl

/-- A string begins with four numbers in one way only. -/
theorem dotted_unique {ns ns' : List (List UInt8)} {rest rest' : List UInt8}
    (size : ns.length = ns'.length) (numbers : ∀ n ∈ ns, Number n) (numbers' : ∀ n ∈ ns', Number n)
    (stops : Stops rest) (stops' : Stops rest') (same : dotted ns ++ rest = dotted ns' ++ rest') :
    ns = ns' ∧ rest = rest' := by
  induction ns generalizing ns' with
  | nil =>
    cases ns' with
    | nil => exact ⟨rfl, same⟩
    | cons n ns' => cases size
  | cons n ns ih =>
    cases ns' with
    | nil => cases size
    | cons n' ns' =>
      obtain ⟨number, later⟩ := List.forall_mem_cons.mp numbers
      obtain ⟨number', later'⟩ := List.forall_mem_cons.mp numbers'
      have behind : ns.length = ns'.length := Nat.succ.inj size
      by_cases more : ns = []
      · subst more
        obtain rfl := List.eq_nil_of_length_eq_zero behind.symm
        obtain ⟨rfl, rfl⟩ := split_unique number.digits number'.digits stops stops' same
        exact ⟨rfl, rfl⟩
      · have more' : ns' ≠ [] := by
          rintro rfl
          exact more (List.eq_nil_of_length_eq_zero behind)
        rw [dotted_cons n more, dotted_cons n' more', List.append_assoc, List.append_assoc,
          List.cons_append, List.cons_append] at same
        obtain ⟨rfl, dots⟩ := split_unique number.digits number'.digits (stops_dot _)
          (stops_dot _) same
        obtain ⟨rfl, rfl⟩ := ih behind later later' (List.cons.inj dots).2
        exact ⟨rfl, rfl⟩

/-! ## The address -/

def packed (a b c d : UInt32) : UInt32 := a <<< 24 ||| b <<< 16 ||| c <<< 8 ||| d

theorem toNat_packed {a b c d : UInt32} (ha : a.toNat ≤ 255) (hb : b.toNat ≤ 255)
    (hc : c.toNat ≤ 255) (hd : d.toNat ≤ 255) :
    (packed a b c d).toNat =
      ((a.toNat * 256 + b.toNat) * 256 + c.toNat) * 256 + d.toNat := by
  have sa : a.toNat <<< 24 % 4294967296 = a.toNat <<< 24 := by rw [Nat.shiftLeft_eq]; omega
  have sb : b.toNat <<< 16 % 4294967296 = b.toNat <<< 16 := by rw [Nat.shiftLeft_eq]; omega
  have sc : c.toNat <<< 8 % 4294967296 = c.toNat <<< 8 := by rw [Nat.shiftLeft_eq]; omega
  simp only [packed, UInt32.toNat_or, UInt32.toNat_shiftLeft, UInt32.toNat_ofNat, Nat.reducePow,
    Nat.reduceMod, sa, sb, sc]
  have low : d.toNat ||| c.toNat <<< 8 = d.toNat + c.toNat * 2 ^ 8 := or_shift _ _ 8 (by omega)
  rw [Nat.or_assoc, Nat.or_comm (c.toNat <<< 8), low, Nat.or_assoc, Nat.or_comm (b.toNat <<< 16),
    or_shift _ _ 16 (by omega), Nat.or_comm, or_shift _ _ 24 (by omega)]
  omega

theorem length_four {α : Type} {l : List α} (four : l.length = 4) :
    ∃ a b c d, l = [a, b, c, d] := by
  match l, four with
  | [a, b, c, d], _ => exact ⟨a, b, c, d, rfl⟩

/-- What the function accepts, with the address it stores. -/
theorem parseIpv4Literal_iff (s : List UInt8) (ip : UInt32) :
    parseIpv4Literal s = some ip ↔ ∃ a b c d rest, Begins s [a, b, c, d] rest ∧
      ip = packed (wrapped a) (wrapped b) (wrapped c) (wrapped d) := by
  constructor
  · intro parsed
    unfold parseIpv4Literal at parsed
    split at parsed
    · rename_i p q r t parts
      cases parsed
      obtain ⟨ns, rest, four, numbers, small, stops, whole, same⟩ :=
        (ipv4Parts_iff 3 s [p, q, r, t]).mp ⟨parts, rfl⟩
      obtain ⟨a, b, c, d, rfl⟩ := length_four four
      cases same
      exact ⟨a, b, c, d, rest, ⟨four, numbers, small, stops, whole⟩, rfl⟩
    · cases parsed
  · rintro ⟨a, b, c, d, rest, begins, rfl⟩
    have parts := (ipv4Parts_iff 3 s _).mpr ⟨[a, b, c, d], rest, begins.four, begins.numbers,
      begins.wrapped, begins.stops, begins.whole, rfl⟩
    simp only [parseIpv4Literal, parts.1]
    rfl

theorem Dotted.begins {s : List UInt8} {ns : List (List UInt8)} (literal : Dotted s ns) :
    Begins s ns [] where
  four := literal.four
  numbers := literal.numbers
  wrapped n mem := (Nat.mod_le ..).trans (literal.small n mem)
  stops := stops_nil
  whole := literal.whole.trans (List.append_nil _).symm

theorem Begins.unique {s : List UInt8} {ns ns' : List (List UInt8)} {rest rest' : List UInt8}
    (begins : Begins s ns rest) (begins' : Begins s ns' rest') : ns = ns' ∧ rest = rest' :=
  dotted_unique (begins.four.trans begins'.four.symm) begins.numbers begins'.numbers begins.stops
    begins'.stops (begins.whole.symm.trans begins'.whole)

/-- The address stored for a literal is the combination of its numbers. -/
theorem Dotted.toNat_packed {s a b c d : List UInt8} (literal : Dotted s [a, b, c, d]) :
    (packed (wrapped a) (wrapped b) (wrapped c) (wrapped d)).toNat = combination [a, b, c, d] := by
  have exact_value {n : List UInt8} (mem : n ∈ [a, b, c, d]) : (wrapped n).toNat = value n := by
    have := literal.small n mem
    rw [toNat_wrapped (literal.numbers n mem).digits]
    exact Nat.mod_eq_of_lt (by omega)
  have small {n : List UInt8} (mem : n ∈ [a, b, c, d]) : (wrapped n).toNat ≤ 255 := by
    rw [exact_value mem]
    exact literal.small n mem
  rw [Literal.toNat_packed (small (by simp)) (small (by simp)) (small (by simp)) (small (by simp)),
    exact_value (by simp), exact_value (by simp), exact_value (by simp), exact_value (by simp)]
  simp [combination]

/-! ## The host of a redirect -/

/-- The host the redirect code takes from `locbuf`, and the path behind it. -/
def newHost (locbuf : List UInt8) : List UInt8 :=
  ((locbuf.drop 7).takeWhile fun c => c ≠ 47 ∧ c ≠ 58).take 127

def newPath (locbuf : List UInt8) : List UInt8 :=
  let rest := (locbuf.drop 7).drop (newHost locbuf).length
  if rest = [] then ascii "/" else rest

/-- A host that is a name: the redirect is followed only to the host of the
request, on the address it has. -/
def TreatedAsName (s : List UInt8) : Prop :=
  ∀ ip hostbuf raw locbuf, httpLocation raw = some locbuf →
    strncmp locbuf (ascii "http://") 7 = 0 → newHost locbuf = s →
    httpRedirect ip hostbuf raw =
      if strcmp s hostbuf = 0 then .follow ip hostbuf (strncpy (newPath locbuf) 1023)
      else .done (-13) []

/-- Exactly the literals are accepted, each for its address, and a redirect to
any other host is one to a name. -/
structure Exact (s : List UInt8) : Prop where
  accepted : ∀ ip, parseIpv4Literal s = some ip ↔ IsLiteral s ip
  name : (∀ ip, ¬ IsLiteral s ip) → TreatedAsName s

theorem strncmp_scheme {locbuf : List UInt8} (http : strncmp locbuf (ascii "http://") 7 = 0) :
    strncmp locbuf (ascii "https://") 8 ≠ 0 := by
  obtain ⟨rest, rfl⟩ := (strncmp_zero_iff (by decide) locbuf).mp http
  simp [ascii, strncmp, headDiff]

theorem treatedAsName {s : List UInt8} (refused : parseIpv4Literal s = none) :
    TreatedAsName s := by
  intro ip hostbuf raw locbuf value http host
  unfold newHost at host
  rw [httpRedirect, value]
  dsimp only
  simp only [if_neg (strncmp_scheme http), if_pos http, host, refused]
  unfold newPath newHost
  rw [host]

/-- The function is exact unless the string goes on behind four numbers, or one
of them is above 255 and wraps around to a smaller one. -/
theorem literal_iff (s : List UInt8) : Exact s ↔ ¬ Overread s := by
  constructor
  · rintro ⟨accepted, -⟩ ⟨ns, rest, begins, bad⟩
    obtain ⟨a, b, c, d, rfl⟩ := length_four begins.four
    obtain ⟨ns, literal, -⟩ := (accepted _).mp
      ((parseIpv4Literal_iff s _).mpr ⟨a, b, c, d, rest, begins, rfl⟩)
    obtain ⟨rfl, rfl⟩ := begins.unique literal.begins
    rcases bad with more | ⟨n, mem, large⟩
    · exact more rfl
    · exact absurd (literal.small n mem) (not_le.mpr large)
  · intro plain
    have accepted (ip : UInt32) : parseIpv4Literal s = some ip ↔ IsLiteral s ip := by
      rw [parseIpv4Literal_iff]
      constructor
      · rintro ⟨a, b, c, d, rest, begins, rfl⟩
        have whole : rest = [] := by
          by_contra more
          exact plain ⟨_, rest, begins, .inl more⟩
        have small : ∀ n ∈ [a, b, c, d], value n ≤ 255 := by
          by_contra large
          push Not at large
          exact plain ⟨_, rest, begins, .inr large⟩
        have literal : Dotted s [a, b, c, d] := by
          refine ⟨rfl, begins.numbers, small, ?_⟩
          simp only [begins.whole, whole, List.append_nil]
        exact ⟨_, literal, literal.toNat_packed⟩
      · rintro ⟨ns, literal, address⟩
        obtain ⟨a, b, c, d, rfl⟩ := length_four literal.four
        refine ⟨a, b, c, d, [], literal.begins, UInt32.toNat_inj.mp ?_⟩
        simp only [address, literal.toNat_packed]
    refine ⟨accepted, fun other => treatedAsName ?_⟩
    cases parsed : parseIpv4Literal s with
    | none => rfl
    | some ip => exact absurd ((accepted ip).mp parsed) (other ip)

/-- A name that begins with four numbers passes for the address. -/
theorem name_accepted : ¬ Exact (ascii "10.0.2.2.example.com") := by
  rintro ⟨accepted, -⟩
  have begins : Begins (ascii "10.0.2.2.example.com")
      [ascii "10", ascii "0", ascii "2", ascii "2"] (ascii ".example.com") :=
    ⟨rfl, by decide +kernel, by decide +kernel, stops_dot _, by decide +kernel⟩
  obtain ⟨ns, literal, -⟩ := (accepted 0x0A000202).mp (by decide +kernel)
  obtain ⟨-, none⟩ := begins.unique literal.begins
  revert none
  decide

end MyOS.Literal
