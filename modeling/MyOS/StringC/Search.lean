import MyOS.Base.Traced
import MyOS.StringC

/-!
string.c: `strstr` over the memory its two strings stand in, with the bytes it
reads on the way. The loops run for as many turns as there is fuel; `none` says
that there was not enough.
-/

namespace MyOS.Search

open Traced

/-- The string `s` and its NUL stand at `p`. -/
structure CStr (ram : Mem) (p : Nat) (s : List UInt8) : Prop where
  bytes : ram.Holds p (s ++ [0])
  text : 0 ∉ s

/-- `while (*h && *n && *h == *n) { h++; n++; }`, and where `n` is then. -/
def compareLoop (ram : Mem) : Nat → Nat → Nat → Traced (Option Nat)
  | 0, _, _ => pure none
  | fuel + 1, h, n => do
    let a ← u8 ram h
    if a = 0 then pure (some n)
    else do
      let b ← u8 ram n
      if b = 0 then pure (some n)
      else if a = b then compareLoop ram fuel (h + 1) (n + 1)
      else pure (some n)

/-- `for (; *haystack; haystack++)`; the pointer returned may be `NULL`. -/
def searchLoop (ram : Mem) (fuel needle : Nat) : Nat → Nat → Traced (Option (Option Nat))
  | 0, _ => pure none
  | turns + 1, haystack => do
    let x ← u8 ram haystack
    if x = 0 then pure (some none)
    else do
      let n ← compareLoop ram fuel haystack needle
      match n with
      | none => pure none
      | some n => do
        let y ← u8 ram n
        if y = 0 then pure (some (some haystack))
        else searchLoop ram fuel needle turns (haystack + 1)

def strstrAt (ram : Mem) (fuel haystack needle : Nat) : Traced (Option (Option Nat)) := do
  let y ← u8 ram needle
  if y = 0 then pure (some (some haystack)) else searchLoop ram fuel needle fuel haystack

section
variable {ram : Mem} {p q : Nat} {s hs ns : List UInt8} {P : Nat → Prop}

theorem cstr_nil : CStr ram p [] ↔ ram p = 0 := by
  constructor
  · intro str
    exact ((Mem.holds_cons ram p 0 []).mp str.bytes).1
  · intro zero
    exact ⟨(Mem.holds_cons ram p 0 []).mpr ⟨zero, rfl⟩, List.not_mem_nil⟩

theorem cstr_cons {c : UInt8} : CStr ram p (c :: s) ↔ ram p = c ∧ c ≠ 0 ∧ CStr ram (p + 1) s := by
  constructor
  · rintro ⟨bytes, text⟩
    rw [List.cons_append] at bytes
    obtain ⟨first, rest⟩ := (Mem.holds_cons ram p c (s ++ [0])).mp bytes
    obtain ⟨nonzero, text⟩ := not_or.mp (mt List.mem_cons.mpr text)
    exact ⟨first, fun zero => nonzero zero.symm, rest, text⟩
  · rintro ⟨first, nonzero, rest⟩
    refine ⟨(Mem.holds_cons ram p c (s ++ [0])).mpr ⟨first, rest.bytes⟩, ?_⟩
    intro zero
    rcases List.mem_cons.mp zero with here | later
    · exact nonzero here.symm
    · exact rest.text later

/-- The places of a string, its NUL included. -/
def Span (p : Nat) (s : List UInt8) (i : Nat) : Prop := p ≤ i ∧ i ≤ p + s.length

theorem span_start (p : Nat) (s : List UInt8) : Span p s p := ⟨Nat.le_refl p, Nat.le_add_right ..⟩

theorem span_tail {c : UInt8} (all : ∀ i, Span p (c :: s) i → P i) :
    ∀ i, Span (p + 1) s i → P i := by
  rintro i ⟨low, high⟩
  exact all i ⟨by omega, by rw [List.length_cons]; omega⟩

/-- What a comparison leaves: a place of the needle, which is its end exactly if
the needle stands here. -/
structure Compared (ram : Mem) (P : Nat → Prop) (hit : Prop) (r : Traced (Option Nat)) (n : Nat) :
    Prop where
  val : r.val = some n
  reads : r.Within P
  inside : P n
  ended : ram n = 0 ↔ hit

theorem compareLoop_spec (haystack : CStr ram p hs) (needle : CStr ram q ns)
    (inHaystack : ∀ i, Span p hs i → P i) (inNeedle : ∀ i, Span q ns i → P i) {fuel : Nat}
    (enough : hs.length < fuel) : ∃ n, Compared ram P (ns <+: hs) (compareLoop ram fuel p q) n := by
  induction hs generalizing p q ns fuel with
  | nil =>
    obtain ⟨fuel, rfl⟩ := Nat.exists_eq_add_one_of_ne_zero (Nat.ne_of_gt enough)
    have zero := cstr_nil.mp haystack
    have readP := inHaystack p (span_start p [])
    have readQ := inNeedle q (span_start q ns)
    refine ⟨q, ?_, ?_, readQ, ?_⟩
    · simp [compareLoop, zero]
    · simp [compareLoop, zero, readP]
    · cases ns with
      | nil => exact iff_of_true (cstr_nil.mp needle) (List.prefix_refl [])
      | cons y ns =>
        obtain ⟨first, nonzero, -⟩ := cstr_cons.mp needle
        exact iff_of_false (first ▸ nonzero) fun front => nomatch List.prefix_nil.mp front
  | cons x hs ih =>
    obtain ⟨fuel, rfl⟩ := Nat.exists_eq_add_one_of_ne_zero (Nat.ne_of_gt (Nat.zero_lt_of_lt enough))
    obtain ⟨firstX, nonzeroX, restX⟩ := cstr_cons.mp haystack
    have readP := inHaystack p (span_start p _)
    have readQ := inNeedle q (span_start q ns)
    cases ns with
    | nil =>
      have zero := cstr_nil.mp needle
      refine ⟨q, ?_, ?_, readQ, iff_of_true zero List.nil_prefix⟩
      · simp [compareLoop, firstX, nonzeroX, zero]
      · simp [compareLoop, firstX, nonzeroX, zero, readP, readQ]
    | cons y ns =>
      obtain ⟨firstY, nonzeroY, restY⟩ := cstr_cons.mp needle
      by_cases same : x = y
      · have short : hs.length < fuel := by
          rw [List.length_cons] at enough
          omega
        obtain ⟨n, next⟩ := ih restX restY (span_tail inHaystack) (span_tail inNeedle) short
        refine ⟨n, ?_, ?_, next.inside, ?_⟩
        · simpa [compareLoop, firstX, nonzeroX, firstY, nonzeroY, same] using next.val
        · simpa [compareLoop, firstX, nonzeroX, firstY, nonzeroY, same, readP, readQ]
            using next.reads
        · rw [next.ended, List.cons_prefix_cons]
          exact (and_iff_right same.symm).symm
      · refine ⟨q, ?_, ?_, readQ, ?_⟩
        · simp [compareLoop, firstX, nonzeroX, firstY, nonzeroY, same]
        · simp [compareLoop, firstX, nonzeroX, firstY, nonzeroY, same, readP, readQ]
        · rw [List.cons_prefix_cons, firstY]
          exact iff_of_false nonzeroY fun both => same both.1.symm

/-- Where in a string that stands at `p` its rest `found` begins. -/
def place (p : Nat) (hs found : List UInt8) : Nat := p + (hs.length - found.length)

theorem place_tail {x : UInt8} {found : List UInt8} (suffix : found <:+ hs) :
    place (p + 1) hs found = place p (x :: hs) found := by
  have := suffix.length_le
  rw [place, place, List.length_cons]
  omega

/-- Over memory the search finds what it finds in the strings, and reads nothing
behind their NULs. -/
theorem searchLoop_spec (haystack : CStr ram p hs) (needle : CStr ram q ns) (some : ns ≠ [])
    (inHaystack : ∀ i, Span p hs i → P i) (inNeedle : ∀ i, Span q ns i → P i) {fuel turns : Nat}
    (enough : hs.length < fuel) (enough' : hs.length < turns) :
    (searchLoop ram fuel q turns p).val = .some ((strstr hs ns).map (place p hs)) ∧
      (searchLoop ram fuel q turns p).Within P := by
  rw [strstr, if_neg some]
  induction hs generalizing p turns with
  | nil =>
    obtain ⟨turns, rfl⟩ := Nat.exists_eq_add_one_of_ne_zero (Nat.ne_of_gt enough')
    have zero := cstr_nil.mp haystack
    have readP := inHaystack p (span_start p [])
    constructor
    · simp [searchLoop, zero, strstrFrom]
    · simp [searchLoop, zero, readP]
  | cons x hs ih =>
    obtain ⟨turns, rfl⟩ :=
      Nat.exists_eq_add_one_of_ne_zero (Nat.ne_of_gt (Nat.zero_lt_of_lt enough'))
    obtain ⟨first, nonzero, rest⟩ := cstr_cons.mp haystack
    have readP := inHaystack p (span_start p _)
    obtain ⟨n, compared⟩ := compareLoop_spec haystack needle inHaystack inNeedle enough
    have met : matchesAt (x :: hs) ns = true ↔ ram n = 0 :=
      (matchesAt_iff _ _).trans compared.ended.symm
    by_cases hit : ram n = 0
    · have start : place p (x :: hs) (x :: hs) = p := by rw [place, Nat.sub_self, Nat.add_zero]
      constructor
      · simp [searchLoop, first, nonzero, compared.val, hit, strstrFrom, met.mpr hit, start]
      · simp [searchLoop, first, nonzero, compared.val, hit, compared.reads, compared.inside, readP]
    · rw [List.length_cons] at enough enough'
      have shorter : hs.length < turns := by omega
      obtain ⟨val, reads⟩ := ih rest (span_tail inHaystack) (by omega) shorter
      have missed : strstrFrom ns (x :: hs) = strstrFrom ns hs := by
        rw [strstrFrom, if_neg (mt met.mp hit)]
      constructor
      · have later : (strstrFrom ns hs).map (place (p + 1) hs) =
            (strstrFrom ns hs).map (place p (x :: hs)) := by
          apply Option.map_congr
          intro found here
          have hit : strstr hs ns = .some found := by
            rw [strstr, if_neg some]
            exact here
          exact place_tail (strstr_suffix hit)
        rw [missed, ← later, ← val]
        simp [searchLoop, first, nonzero, compared.val, hit]
      · simp [searchLoop, first, nonzero, compared.val, hit, compared.reads, compared.inside, readP,
          reads]

theorem strstrAt_spec (haystack : CStr ram p hs) (needle : CStr ram q ns)
    (inHaystack : ∀ i, Span p hs i → P i) (inNeedle : ∀ i, Span q ns i → P i) {fuel : Nat}
    (enough : hs.length < fuel) :
    (strstrAt ram fuel p q).val = .some ((strstr hs ns).map (place p hs)) ∧
      (strstrAt ram fuel p q).Within P := by
  have readQ := inNeedle q (span_start q ns)
  cases ns with
  | nil =>
    have zero := cstr_nil.mp needle
    have start : place p hs hs = p := by rw [place, Nat.sub_self, Nat.add_zero]
    constructor
    · simp [strstrAt, zero, strstr, start]
    · simp [strstrAt, zero, readQ]
  | cons y ns =>
    obtain ⟨first, nonzero, -⟩ := cstr_cons.mp needle
    obtain ⟨val, reads⟩ :=
      searchLoop_spec haystack needle (List.cons_ne_nil y ns) inHaystack inNeedle
      enough enough
    constructor
    · simpa [strstrAt, first, nonzero] using val
    · simpa [strstrAt, first, nonzero, readQ] using reads

end

/-- The empty needle stands at the start of every string. -/
theorem first_nil (hs : List UInt8) : Occurrence.First [] hs 0 :=
  ⟨List.nil_prefix, fun _ below => nomatch below⟩

theorem first_inside {hs ns : List UInt8} {k : Nat} (first : Occurrence.First ns hs k) :
    k ≤ hs.length := by
  by_cases some : ns = []
  · subst some
    rw [first.unique (first_nil hs)]
    exact Nat.zero_le _
  · have := first.here.inside some
    omega

theorem strstr_first (hs ns found : List UInt8) :
    strstr hs ns = some found ↔ ∃ k, Occurrence.First ns hs k ∧ found = hs.drop k := by
  by_cases some : ns = []
  · subst some
    constructor
    · intro same
      exact ⟨0, first_nil hs, (Option.some.inj same).symm⟩
    · rintro ⟨k, first, rfl⟩
      rw [first.unique (first_nil hs)]
      rfl
  · exact strstr_some_iff some hs found

/-- `strstr` returns the first place of the needle, `NULL` exactly if there is
none, and reads up to the two NULs at most. -/
theorem strstr_leftmost {ram : Mem} {p q : Nat} {hs ns : List UInt8} (haystack : CStr ram p hs)
    (needle : CStr ram q ns) {fuel : Nat} (enough : hs.length < fuel) :
    ∃ r, (strstrAt ram fuel p q).val = some r ∧
      (∀ k, r = some (p + k) ↔ Occurrence.First ns hs k) ∧
      (r = none ↔ ∀ k, ¬ Occurrence.At ns hs k) ∧
      (strstrAt ram fuel p q).Within fun i => Span p hs i ∨ Span q ns i := by
  obtain ⟨val, reads⟩ := strstrAt_spec haystack needle (P := fun i => Span p hs i ∨ Span q ns i)
    (fun _ => .inl) (fun _ => .inr) enough
  have begins : ∀ {k}, Occurrence.First ns hs k → place p hs (hs.drop k) = p + k := by
    intro k first
    have := first_inside first
    rw [place, List.length_drop]
    omega
  refine ⟨_, val, fun k => ?_, ?_, reads⟩
  · rw [Option.map_eq_some_iff]
    constructor
    · rintro ⟨found, hit, here⟩
      obtain ⟨k', first, rfl⟩ := (strstr_first hs ns found).mp hit
      rw [begins first] at here
      exact Nat.add_left_cancel here ▸ first
    · intro first
      exact ⟨_, (strstr_first hs ns _).mpr ⟨k, first, rfl⟩, begins first⟩
  · rw [Option.map_eq_none_iff]
    constructor
    · intro none k here
      obtain ⟨k, first⟩ := Occurrence.exists_first ⟨k, here⟩
      have found := (strstr_first hs ns _).mpr ⟨k, first, rfl⟩
      rw [none] at found
      cases found
    · intro nowhere
      cases hit : strstr hs ns with
      | none => rfl
      | some found =>
        obtain ⟨k, first, -⟩ := (strstr_first hs ns found).mp hit
        exact absurd first.here (nowhere k)

/-- "ab" in "aab", behind the first letter. -/
theorem strstr_leftmost_aab :
    let hs : List UInt8 := [97, 97, 98]
    let ns : List UInt8 := [97, 98]
    let found := strstrAt (.ofList (hs ++ [0] ++ ns ++ [0])) 4 0 4
    ∃ r, found.val = some r ∧ (∀ k, r = some (0 + k) ↔ Occurrence.First ns hs k) ∧
      (r = none ↔ ∀ k, ¬ Occurrence.At ns hs k) ∧
      found.Within fun i => Span 0 hs i ∨ Span 4 ns i := by
  intro hs ns found
  have haystack : CStr (.ofList (hs ++ [0] ++ ns ++ [0])) 0 hs := ⟨rfl, by decide⟩
  have needle : CStr (.ofList (hs ++ [0] ++ ns ++ [0])) 4 ns := ⟨rfl, by decide⟩
  exact strstr_leftmost haystack needle (by decide)

end MyOS.Search
