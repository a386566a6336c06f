import Mathlib.Data.Nat.Digits.Lemmas
import Mathlib.Tactic.Common

/-!
# Decimal numerals

Strings of digits, read from left to right into a number of any type, and the
numeral of a number.
-/

namespace MyOS.Decimal

universe u

def IsDigit (c : UInt8) : Prop := 48 ≤ c ∧ c ≤ 57

instance : DecidablePred IsDigit := fun c => inferInstanceAs (Decidable (48 ≤ c ∧ c ≤ 57))

def digit (c : UInt8) : Nat := c.toNat - 48

theorem toNat_sub_digit {c : UInt8} (isDigit : IsDigit c) : (c - 48).toNat = digit c :=
  UInt8.toNat_sub_of_le c 48 isDigit.1

/-- `v * 10 + d`, for each digit. -/
def extend (v : Nat) (ds : List UInt8) : Nat := ds.foldl (fun v c => v * 10 + digit c) v

def value (ds : List UInt8) : Nat := extend 0 ds

theorem extend_mono {v w : Nat} (le : v ≤ w) (ds : List UInt8) : extend v ds ≤ extend w ds := by
  induction ds generalizing v w with
  | nil => exact le
  | cons c ds ih => exact ih (Nat.add_le_add_right (Nat.mul_le_mul_right 10 le) (digit c))

theorem value_tail_le (ds : List UInt8) : value ds.tail ≤ value ds := by
  cases ds with
  | nil => exact Nat.le_refl _
  | cons c ds => exact extend_mono (Nat.zero_le _) ds

/-- One digit or more. -/
structure Number (ds : List UInt8) : Prop where
  some : ds ≠ []
  digits : ∀ c ∈ ds, IsDigit c

instance (ds : List UInt8) : Decidable (Number ds) :=
  decidable_of_iff (ds.isEmpty = false ∧ ds.all (fun c => decide (IsDigit c)) = true) (by
    simp only [List.isEmpty_eq_false_iff, List.all_eq_true]
    constructor
    · rintro ⟨some, digits⟩
      exact ⟨some, fun c mem => of_decide_eq_true (digits c mem)⟩
    · rintro ⟨some, digits⟩
      exact ⟨some, fun c mem => decide_eq_true (digits c mem)⟩)

/-- No digit comes next. -/
def Stops (s : List UInt8) : Prop := ∀ c, s.head? = some c → ¬ IsDigit c

theorem stops_nil : Stops [] := fun _ none => nomatch none

theorem stops_cons {c : UInt8} (other : ¬ IsDigit c) (s : List UInt8) : Stops (c :: s) := by
  intro c' first
  cases first
  exact other

/-! ## Reading -/

section
variable {R : Type u} (step : R → UInt8 → R)

/-- The digits at the front are taken into `r`; what follows them is left. -/
def scan (r : R) : List UInt8 → R × List UInt8
  | [] => (r, [])
  | c :: s => if IsDigit c then scan (step r c) s else (r, c :: s)

theorem scan_append {ds rest : List UInt8} (digits : ∀ c ∈ ds, IsDigit c) (stops : Stops rest)
    (r : R) : scan step r (ds ++ rest) = (ds.foldl step r, rest) := by
  induction ds generalizing r with
  | nil =>
    cases rest with
    | nil => rfl
    | cons c s => rw [List.nil_append, scan, if_neg (stops c rfl), List.foldl_nil]
  | cons d ds ih =>
    simp only [List.cons_append, scan, if_pos (digits d List.mem_cons_self), List.foldl_cons]
    exact ih (fun c mem => digits c (List.mem_cons_of_mem d mem)) (step r d)

/-- A step that agrees with `v * 10 + d` does so over all digits. -/
theorem foldl_extend (rep : R → Nat → Prop)
    (each : ∀ r v c, IsDigit c → rep r v → rep (step r c) (v * 10 + digit c))
    {ds : List UInt8} (digits : ∀ c ∈ ds, IsDigit c) {r : R} {v : Nat} (start : rep r v) :
    rep (ds.foldl step r) (extend v ds) := by
  induction ds generalizing r v with
  | nil => exact start
  | cons d ds ih =>
    exact ih (fun c mem => digits c (List.mem_cons_of_mem d mem))
      (each r v d (digits d List.mem_cons_self) start)

end

/-- Every string is its leading digits and what follows them. -/
theorem exists_split (s : List UInt8) :
    ∃ ds rest, s = ds ++ rest ∧ (∀ c ∈ ds, IsDigit c) ∧ Stops rest := by
  induction s with
  | nil => exact ⟨[], [], rfl, by simp, stops_nil⟩
  | cons c s ih =>
    by_cases isDigit : IsDigit c
    · obtain ⟨ds, rest, rfl, digits, stops⟩ := ih
      exact ⟨c :: ds, rest, rfl, List.forall_mem_cons.mpr ⟨isDigit, digits⟩, stops⟩
    · exact ⟨[], c :: s, rfl, by simp, stops_cons isDigit s⟩

/-- And only in one way. -/
theorem split_unique {a b rest rest' : List UInt8} (digits : ∀ c ∈ a, IsDigit c)
    (digits' : ∀ c ∈ b, IsDigit c) (stops : Stops rest) (stops' : Stops rest')
    (same : a ++ rest = b ++ rest') : a = b ∧ rest = rest' := by
  have front := congrArg (scan (fun r c => r ++ [c]) []) same
  rw [scan_append _ digits stops, scan_append _ digits' stops', Prod.mk.injEq] at front
  have collect (ds : List UInt8) : ds.foldl (fun r c => r ++ [c]) [] = ds := by
    rw [List.foldl_append_eq_append, List.nil_append, ← List.flatMap_def, List.flatMap_singleton']
  rw [collect, collect] at front
  exact front

/-! ## Writing -/

/-- The digits of a number, the last one first. -/
def lowFirst (n : Nat) : List UInt8 := (Nat.digits 10 n).map fun d => (48 + d).toUInt8

def numeral (n : Nat) : List UInt8 := if n = 0 then [48] else (lowFirst n).reverse

/-- The numeral of an integer, with a minus sign for a negative one. -/
def signed (v : Int) : List UInt8 := if v < 0 then 45 :: numeral v.natAbs else numeral v.natAbs

theorem lowFirst_zero : lowFirst 0 = [] := by rw [lowFirst, Nat.digits_zero, List.map_nil]

theorem lowFirst_pos {n : Nat} (pos : 0 < n) :
    lowFirst n = (48 + n % 10).toUInt8 :: lowFirst (n / 10) := by
  rw [lowFirst, Nat.digits_def' (by decide) pos, List.map_cons]
  rfl

theorem length_lowFirst {n k : Nat} (small : n < 10 ^ k) : (lowFirst n).length ≤ k := by
  simp only [lowFirst, List.length_map]
  exact (Nat.digits_length_le_iff (by decide) n).mpr small

theorem toNat_digit {d : Nat} (small : d < 10) : (48 + d).toUInt8.toNat = 48 + d := by
  rw [UInt8.toNat_ofNat']
  exact Nat.mod_eq_of_lt (by omega)

theorem isDigit_digit {d : Nat} (small : d < 10) : IsDigit (48 + d).toUInt8 := by
  have := toNat_digit small
  constructor
  · simp only [UInt8.le_iff_toNat_le, this]
    exact Nat.le_add_right 48 d
  · simp only [UInt8.le_iff_toNat_le, this]
    exact Nat.add_le_add_left (Nat.le_of_lt_succ small) 48

theorem digits_lowFirst (n : Nat) : ∀ c ∈ lowFirst n, IsDigit c := by
  intro c mem
  obtain ⟨d, here, rfl⟩ := List.mem_map.mp mem
  exact isDigit_digit (Nat.digits_lt_base (by decide) here)

theorem extend_append (v : Nat) (a b : List UInt8) : extend v (a ++ b) = extend (extend v a) b :=
  List.foldl_append

theorem value_reverse_lowFirst (n : Nat) : value (lowFirst n).reverse = n := by
  induction n using Nat.strong_induction_on with
  | _ n ih =>
    rcases Nat.eq_zero_or_pos n with rfl | pos
    · rw [lowFirst_zero]
      rfl
    · have small : n % 10 < 10 := Nat.mod_lt n (by decide)
      have last : digit (48 + n % 10).toUInt8 = n % 10 := by
        simp only [digit, toNat_digit small, Nat.add_sub_cancel_left]
      simp only [lowFirst_pos pos, List.reverse_cons, value, extend_append]
      change value (lowFirst (n / 10)).reverse * 10 + digit (48 + n % 10).toUInt8 = n
      simp only [ih (n / 10) (Nat.div_lt_self pos (by decide)), last]
      exact Nat.div_add_mod' n 10

theorem value_numeral (n : Nat) : value (numeral n) = n := by
  rw [numeral]
  split
  · rename_i zero
    rw [zero]
    rfl
  · exact value_reverse_lowFirst n

theorem number_numeral (n : Nat) : Number (numeral n) := by
  rw [numeral]
  split
  · decide +kernel
  · rename_i nonzero
    constructor
    · intro none
      have := lowFirst_pos (Nat.pos_of_ne_zero nonzero)
      rw [List.reverse_eq_nil_iff.mp none] at this
      cases this
    · intro c mem
      exact digits_lowFirst n c (List.mem_reverse.mp mem)

/-- A minus sign alone is no numeral. -/
theorem signed_ne_minus (v : Int) : signed v ≠ [45] := by
  rw [signed]
  split
  · intro minus
    exact (number_numeral _).some (List.cons.inj minus).2
  · intro minus
    have first := (number_numeral v.natAbs).digits 45 (minus ▸ List.mem_cons_self)
    exact absurd first (by decide)

/-- A numeral stands for one integer. -/
theorem signed_injective : Function.Injective signed := by
  intro v w same
  have unsigned (n m : Nat) : numeral n ≠ 45 :: numeral m := by
    intro clash
    have first := (number_numeral n).digits 45 (clash ▸ List.mem_cons_self)
    exact absurd first (by decide)
  have value_eq {n m : Nat} (eq : numeral n = numeral m) : n = m := by
    rw [← value_numeral n, eq, value_numeral]
  unfold signed at same
  split at same
  · split at same
    · have := value_eq (List.cons.inj same).2
      omega
    · exact absurd same.symm (unsigned _ _)
  · split at same
    · exact absurd same (unsigned _ _)
    · have := value_eq same
      omega

end MyOS.Decimal
