import Mathlib.Algebra.Order.Ring.Nat
import Mathlib.Tactic.Common
import Mathlib.Logic.Function.Basic
import Mathlib.Data.List.Basic

/-!
# Circular tables

A table of `n` cells used over and over. Positions count on without end, the
position `k` falls on the cell `k % n` in the lap `k / n`. What a window of at
most `n` positions means is kept by the cells it falls on.
-/

namespace MyOS.Circular

universe u
variable {α : Type u} {n : Nat}

/-- The index behind `i`: `i++; if (i >= n) i = 0;`. -/
def next (n i : Nat) : Nat := if n ≤ i + 1 then 0 else i + 1

theorem next_lt (some : 0 < n) (i : Nat) : next n i < n := by
  unfold next; split <;> omega

/-- One position on: the next cell of the same lap, or cell 0 of the next. -/
theorem next_slot (some : 0 < n) (k : Nat) : next n (k % n) = (k + 1) % n := by
  have small := Nat.mod_lt k some
  have whole := Nat.div_add_mod k n
  unfold next
  by_cases last : n ≤ k % n + 1
  · have eq : k + 1 = n * (k / n + 1) := by rw [Nat.mul_add]; omega
    rw [if_pos last, eq, Nat.mul_mod_right]
  · have eq : k + 1 = (k % n + 1) + n * (k / n) := by omega
    rw [if_neg last, eq, Nat.add_mul_mod_self_left, Nat.mod_eq_of_lt (Nat.lt_of_not_le last)]

/-- Positions less than a lap apart fall on different cells. -/
theorem slot_inj {j k : Nat} (same : j % n = k % n) (hj : j < k + n) (hk : k < j + n) :
    j = k := by
  have wj := Nat.div_add_mod j n
  have wk := Nat.div_add_mod k n
  have lap : j / n = k / n := by
    rcases Nat.lt_trichotomy (j / n) (k / n) with less | eq | more
    · have := Nat.mul_le_mul_left n less
      rw [Nat.mul_succ] at this
      omega
    · exact eq
    · have := Nat.mul_le_mul_left n more
      rw [Nat.mul_succ] at this
      omega
  rw [← wj, ← wk, same, lap]

/-- The cycle bit of a position: set on every other lap, starting with the
first. -/
def lapBit (n k : Nat) : Bool := k / n % 2 == 0

/-- Within one lap of a position the lap changes once, at the end of the table. -/
theorem lap_add {c : Nat} (short : c ≤ n) (some : 0 < n) (k : Nat) :
    (k + c) / n = if n ≤ k % n + c then k / n + 1 else k / n := by
  have small := Nat.mod_lt k some
  have whole := Nat.div_add_mod k n
  by_cases past : n ≤ k % n + c
  · have eq : k + c = (k % n + c - n) + n * (k / n + 1) := by rw [Nat.mul_add]; omega
    rw [if_pos past, eq, Nat.add_mul_div_left _ _ some, Nat.div_eq_of_lt (by omega), Nat.zero_add]
  · have eq : k + c = (k % n + c) + n * (k / n) := by omega
    rw [if_neg past, eq, Nat.add_mul_div_left _ _ some, Nat.div_eq_of_lt (by omega), Nat.zero_add]

theorem lapBit_add {c : Nat} (short : c ≤ n) (some : 0 < n) (k : Nat) :
    lapBit n (k + c) = if n ≤ k % n + c then !lapBit n k else lapBit n k := by
  unfold lapBit
  rw [lap_add short some]
  split
  · rcases Nat.mod_two_eq_zero_or_one (k / n) with even | odd
    · simp [Nat.add_mod, even]
    · simp [Nat.add_mod, odd]
  · rfl

theorem lapBit_succ (some : 0 < n) (k : Nat) :
    lapBit n (k + 1) = if n ≤ k % n + 1 then !lapBit n k else lapBit n k :=
  lapBit_add some some k

/-- The cells show `f` at the positions from `r` on, up to but not including
`w`. -/
def Shows (n : Nat) (cells : Nat → α) (r w : Nat) (f : Nat → α) : Prop :=
  ∀ k, r ≤ k → k < w → cells (k % n) = f k

namespace Shows

variable {cells : Nat → α} {r w : Nat} {f g : Nat → α}

theorem mono (h : Shows n cells r w f) {r' w' : Nat} (hr : r ≤ r') (hw : w' ≤ w) :
    Shows n cells r' w' f :=
  fun k lo hi => h k (Nat.le_trans hr lo) (Nat.lt_of_lt_of_le hi hw)

theorem congr (h : Shows n cells r w f) (same : ∀ k, r ≤ k → k < w → f k = g k) :
    Shows n cells r w g :=
  fun k lo hi => (h k lo hi).trans (same k lo hi)

/-- Writing the cell of the position behind a window that leaves room. -/
theorem write (h : Shows n cells r w f) (room : w < r + n) (v : α) (here : f w = v) :
    Shows n (Function.update cells (w % n) v) r (w + 1) f := by
  intro k lo hi
  by_cases last : k = w
  · subst last
    rw [Function.update_self, here]
  · have apart : k % n ≠ w % n := fun same => last (slot_inj same (by omega) (by omega))
    rw [Function.update_of_ne apart]
    exact h k lo (by omega)

/-- Writing the cell of a position inside the window. -/
theorem set (h : Shows n cells r w f) (short : w ≤ r + n) {k : Nat} (lo : r ≤ k) (hi : k < w)
    (v : α) : Shows n (Function.update cells (k % n) v) r w (Function.update f k v) := by
  intro j hr hw
  by_cases here : j = k
  · rw [here, Function.update_self, Function.update_self]
  · have apart : j % n ≠ k % n := fun same => here (slot_inj same (by omega) (by omega))
    rw [Function.update_of_ne apart, Function.update_of_ne here]
    exact h j hr hw

/-- A full window moves on by one position: the cell of the first position is
the cell of the position behind the last. -/
theorem rotate (h : Shows n cells r (r + n) f) (v : α) (behind : f (r + n) = v) :
    Shows n (Function.update cells (r % n) v) (r + 1) (r + 1 + n) f := by
  have moved := (h.mono (Nat.le_succ r) (Nat.le_refl _)).write (by omega) v behind
  rw [Nat.add_mod_right] at moved
  exact moved.mono (Nat.le_refl _) (by omega)

/-- The cell `i` is met by exactly one position of a window of `n`. -/
theorem at_cell (h : Shows n cells r (r + n) f) {i : Nat} (cell : i < n) :
    cells i = f (if r % n ≤ i then r + (i - r % n) else r + n + i - r % n) := by
  have whole := Nat.div_add_mod r n
  have small := Nat.mod_lt r (Nat.lt_of_le_of_lt (Nat.zero_le i) cell)
  have slot (q k : Nat) (here : k = n * q + i) : k % n = i := by
    rw [here, Nat.mul_add_mod, Nat.mod_eq_of_lt cell]
  split
  · have here := slot (r / n) (r + (i - r % n)) (by omega)
    rw [← h _ (by omega) (by omega), here]
  · have here := slot (r / n + 1) (r + n + i - r % n) (by rw [Nat.mul_add]; omega)
    rw [← h _ (by omega) (by omega), here]

/-- Scanning the cells by their index meets the positions of a window that does
not run over the end of the table in order. -/
theorem collect {β : Type u} {cells : Nat → Option β} {f : Nat → Option β}
    (h : Shows n cells r (r + n) f) (lap : r % n + (w - r) ≤ n)
    (rest : ∀ k, w ≤ k → f k = none) :
    (List.range n).filterMap cells = (List.range' r (w - r)).filterMap f := by
  have before : (List.range' 0 (r % n)).filterMap cells = [] := by
    refine List.filterMap_eq_nil_iff.mpr fun i hi => ?_
    have := List.mem_range'_1.mp hi
    rw [h.at_cell (by omega), if_neg (by omega)]
    exact rest _ (by omega)
  have behind : (List.range' (r % n + (w - r)) (n - (r % n + (w - r)))).filterMap cells = [] := by
    refine List.filterMap_eq_nil_iff.mpr fun i hi => ?_
    have := List.mem_range'_1.mp hi
    rw [h.at_cell (by omega), if_pos (by omega)]
    exact rest _ (by omega)
  have window : (List.range' (r % n) (w - r)).filterMap cells =
      (List.range' r (w - r)).filterMap f := by
    have shift (a : Nat) : List.range' a (w - r) = (List.range' 0 (w - r)).map (a + ·) := by
      rw [List.map_add_range', Nat.add_zero]
    rw [shift (r % n), shift r, List.filterMap_map, List.filterMap_map]
    refine List.filterMap_congr fun j hj => ?_
    have := List.mem_range'_1.mp hj
    simp only [Function.comp_apply]
    rw [h.at_cell (by omega), if_pos (by omega), Nat.add_sub_cancel_left]
  have parts : List.range n = List.range' 0 (r % n) ++ (List.range' (r % n) (w - r) ++
      List.range' (r % n + (w - r)) (n - (r % n + (w - r)))) := by
    rw [List.range'_append_1]
    have first := @List.range'_append_1 0 (r % n) (w - r + (n - (r % n + (w - r))))
    rw [Nat.zero_add] at first
    rw [first, List.range_eq_range']
    congr 1
    omega
  rw [parts, List.filterMap_append, List.filterMap_append, before, window, behind]
  simp

end Shows

end MyOS.Circular
