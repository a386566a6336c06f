import Mathlib.Data.Nat.ModEq
import Mathlib.Tactic.Ring

/-!
# Sums with end-around carry

Words below a base `B`, added so that a carry out of the top comes back in at the
bottom. Such a sum is the sum modulo `B - 1`, and of the two representations of
zero it is the lower one only if every word is.
-/

namespace MyOS.OnesComplement

variable {B : Nat}

def fold (B n : Nat) : Nat := n % B + n / B

def add (B a c : Nat) : Nat := fold B (a + c)

def sum (B : Nat) (ws : List Nat) : Nat := ws.foldl (add B) 0

/-- The word for a number: zero for zero only, else from `1` to `B - 1`. -/
def word (B n : Nat) : Nat := if n = 0 then 0 else (n - 1) % (B - 1) + 1

theorem word_lt (base : 1 < B) (n : Nat) : word B n < B := by
  unfold word
  split
  · omega
  · have := Nat.mod_lt (n - 1) (show 0 < B - 1 by omega)
    omega

theorem word_of_lt {n : Nat} (below : n < B) : word B n = n := by
  unfold word
  split
  · omega
  · rw [Nat.mod_eq_of_lt (by omega)]
    omega

theorem word_eq_zero {n : Nat} : word B n = 0 ↔ n = 0 := by
  unfold word
  split <;> omega

theorem word_modEq (B n : Nat) : word B n ≡ n [MOD B - 1] := by
  unfold word
  split
  · rename_i zero
    rw [zero]
  · have shifted : (n - 1) % (B - 1) + 1 ≡ n - 1 + 1 [MOD B - 1] :=
      (Nat.mod_modEq (n - 1) (B - 1)).add_right 1
    rwa [show n - 1 + 1 = n by omega] at shifted

/-- Two numbers have one word if they agree modulo `B - 1` and in being zero. -/
theorem word_congr {m n : Nat} (zero : m = 0 ↔ n = 0) (same : m ≡ n [MOD B - 1]) :
    word B m = word B n := by
  unfold word
  by_cases none : m = 0
  · rw [if_pos none, if_pos (zero.mp none)]
  · have some : ¬ n = 0 := fun h => none (zero.mpr h)
    have before : m - 1 ≡ n - 1 [MOD B - 1] := by
      apply Nat.ModEq.add_right_cancel' 1
      rwa [Nat.sub_add_cancel (by omega), Nat.sub_add_cancel (by omega)]
    rw [if_neg none, if_neg some, before]

theorem fold_eq_zero {n : Nat} : fold B n = 0 ↔ n = 0 := by
  constructor
  · intro none
    obtain ⟨low, high⟩ := Nat.add_eq_zero_iff.mp none
    have parts := Nat.div_add_mod n B
    rwa [low, high, Nat.mul_zero, eq_comm] at parts
  · rintro rfl
    rw [fold, Nat.zero_mod, Nat.zero_div]

theorem fold_modEq (base : 1 < B) (n : Nat) : fold B n ≡ n [MOD B - 1] := by
  have one : B ≡ 1 [MOD B - 1] := Nat.modEq_sub (by omega)
  have high : B * (n / B) ≡ n / B [MOD B - 1] := by
    have scaled := one.mul_right (n / B)
    rwa [Nat.one_mul] at scaled
  calc fold B n
      _ = n / B + n % B := Nat.add_comm ..
      _ ≡ B * (n / B) + n % B [MOD B - 1] := high.symm.add_right _
      _ = n := Nat.div_add_mod n B

/-- Carries may be put back at any time. -/
theorem word_fold (base : 1 < B) (n : Nat) : word B (fold B n) = word B n :=
  word_congr fold_eq_zero (fold_modEq base n)

theorem add_eq_word (base : 1 < B) {a c : Nat} (left : a < B) (right : c < B) :
    add B a c = word B (a + c) := by
  have below : fold B (a + c) < B := by
    unfold fold
    by_cases carry : a + c < B
    · rw [Nat.mod_eq_of_lt carry, Nat.div_eq_of_lt carry]
      exact carry
    · have once : (a + c) / B = 1 := by
        apply Nat.div_eq_of_lt_le <;> omega
      have rest := Nat.div_add_mod (a + c) B
      rw [once] at rest ⊢
      omega
  rw [add, ← word_fold base, word_of_lt below]

/-- The sum of words is the word of the plain sum. -/
theorem sum_eq_word (base : 1 < B) {ws : List Nat} (words : ∀ w ∈ ws, w < B) :
    sum B ws = word B ws.sum := by
  have from_ (acc : Nat) (ok : acc < B) : ws.foldl (add B) acc = word B (acc + ws.sum) := by
    induction ws generalizing acc with
    | nil => exact (word_of_lt ok).symm
    | cons w ws ih =>
      have first := words w List.mem_cons_self
      rw [List.foldl_cons, add_eq_word base ok first, ih (fun v mem => words v (by simp [mem])) _
        (word_lt base _), List.sum_cons, ← Nat.add_assoc]
      apply word_congr
      · have none := word_eq_zero (B := B) (n := acc + w)
        omega
      · exact (word_modEq B (acc + w)).add_right _
  have whole := from_ 0 (by omega)
  rwa [Nat.zero_add] at whole

/-- A sum with the complement of its word added is the upper zero. -/
theorem word_complement (base : 1 < B) (n : Nat) : word B (n + (B - 1 - word B n)) = B - 1 := by
  have below := word_lt base n
  have upper : word B (B - 1) = B - 1 := word_of_lt (by omega)
  rw [← upper]
  apply word_congr
  · have none := word_eq_zero (B := B) (n := n)
    omega
  · rw [upper]
    have balanced := (word_modEq B n).symm.add_right (B - 1 - word B n)
    rwa [show word B n + (B - 1 - word B n) = B - 1 by omega] at balanced

/-! ## The order of the digits of a word -/

/-- A word of two digits with the digits exchanged. -/
def swap (b n : Nat) : Nat := n % b * b + n / b

variable {b : Nat}

theorem swap_pair {hi lo : Nat} (low : lo < b) : swap b (hi * b + lo) = lo * b + hi := by
  rw [swap, Nat.mul_add_mod_of_lt low, Nat.add_comm (hi * b),
    Nat.add_mul_div_right lo hi (by omega), Nat.div_eq_of_lt low, Nat.zero_add]

/-- A word is a pair of digits. -/
theorem exists_pair {n : Nat} (below : n < b * b) : ∃ hi lo, hi < b ∧ lo < b ∧ hi * b + lo = n := by
  have base : 0 < b := Nat.pos_of_ne_zero fun none => by simp [none] at below
  exact ⟨n / b, n % b, Nat.div_lt_of_lt_mul below, Nat.mod_lt n base, Nat.div_add_mod' n b⟩

theorem pair_lt {hi lo : Nat} (high : hi < b) (low : lo < b) : hi * b + lo < b * b := by
  calc hi * b + lo
      _ < hi * b + b := by omega
      _ = (hi + 1) * b := (Nat.succ_mul hi b).symm
      _ ≤ b * b := Nat.mul_le_mul_right b high

theorem swap_lt {n : Nat} (below : n < b * b) : swap b n < b * b := by
  obtain ⟨hi, lo, high, low, rfl⟩ := exists_pair below
  rw [swap_pair low]
  exact pair_lt low high

theorem swap_swap {n : Nat} (below : n < b * b) : swap b (swap b n) = n := by
  obtain ⟨hi, lo, high, low, rfl⟩ := exists_pair below
  rw [swap_pair low, swap_pair high]

/-- Exchanging the digits multiplies by the base. -/
theorem swap_modEq (base : 0 < b) (n : Nat) : swap b n ≡ b * n [MOD b * b - 1] := by
  have one : b * b ≡ 1 [MOD b * b - 1] := Nat.modEq_sub (Nat.mul_pos base base)
  have high : b * b * (n / b) ≡ n / b [MOD b * b - 1] := by
    have scaled := one.mul_right (n / b)
    rwa [Nat.one_mul] at scaled
  calc swap b n
      _ ≡ n % b * b + b * b * (n / b) [MOD b * b - 1] := high.symm.add_left _
      _ = b * (b * (n / b) + n % b) := by ring
      _ = b * n := by rw [Nat.div_add_mod]

theorem swap_eq_zero (base : 0 < b) {n : Nat} : swap b n = 0 ↔ n = 0 := by
  constructor
  · intro none
    obtain ⟨low, high⟩ := Nat.add_eq_zero_iff.mp none
    have digit : n % b = 0 := (Nat.mul_eq_zero.mp low).resolve_right (by omega)
    have parts := Nat.div_add_mod n b
    rwa [high, digit, Nat.mul_zero, eq_comm] at parts
  · rintro rfl
    rw [swap, Nat.zero_mod, Nat.zero_div, Nat.zero_mul]

theorem swap_complement {n : Nat} (below : n < b * b) :
    swap b (b * b - 1 - n) = b * b - 1 - swap b n := by
  obtain ⟨hi, lo, high, low, rfl⟩ := exists_pair below
  have whole (x y : Nat) (hx : x < b) (hy : y < b) :
      b * b - 1 - (x * b + y) = (b - 1 - x) * b + (b - 1 - y) := by
    have rows : (b - 1 - x) * b + x * b + b = b * b := by
      calc (b - 1 - x) * b + x * b + b
          _ = (b - 1 - x + x + 1) * b := by ring
          _ = b * b := by rw [show b - 1 - x + x + 1 = b by omega]
    omega
  rw [whole hi lo high low, swap_pair (by omega), swap_pair low, whole lo hi low high]

theorem sum_swap_eq_zero (base : 0 < b) {ws : List Nat} :
    (ws.map (swap b)).sum = 0 ↔ ws.sum = 0 := by
  induction ws with
  | nil => exact Iff.rfl
  | cons w ws ih =>
    rw [List.map_cons, List.sum_cons, List.sum_cons, Nat.add_eq_zero_iff, Nat.add_eq_zero_iff, ih,
      swap_eq_zero base]

theorem sum_swap_modEq (base : 0 < b) (ws : List Nat) :
    (ws.map (swap b)).sum ≡ b * ws.sum [MOD b * b - 1] := by
  induction ws with
  | nil => exact Nat.ModEq.refl _
  | cons w ws ih =>
    rw [List.map_cons, List.sum_cons, List.sum_cons, Nat.mul_add]
    exact (swap_modEq base w).add ih

/-- The sum of words does not depend on the order of their digits. -/
theorem word_sum_swap (base : 1 < b) (ws : List Nat) :
    word (b * b) (ws.map (swap b)).sum = swap b (word (b * b) ws.sum) := by
  have wide : 1 < b * b := Nat.one_lt_mul_iff.mpr ⟨by omega, by omega, .inl base⟩
  have some : 0 < b := by omega
  rw [← word_of_lt (swap_lt (word_lt wide ws.sum))]
  apply word_congr
  · rw [sum_swap_eq_zero some, swap_eq_zero some, word_eq_zero]
  · calc (ws.map (swap b)).sum
        _ ≡ b * ws.sum [MOD b * b - 1] := sum_swap_modEq some ws
        _ ≡ b * word (b * b) ws.sum [MOD b * b - 1] := (word_modEq _ _).symm.mul_left b
        _ ≡ swap b (word (b * b) ws.sum) [MOD b * b - 1] := (swap_modEq some _).symm

end MyOS.OnesComplement
