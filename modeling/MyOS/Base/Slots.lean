import Mathlib.Algebra.Order.Ring.Nat
import Mathlib.Tactic.Common
import Mathlib.Logic.Function.Basic
import Mathlib.Data.Fin.Tuple.Basic

/-!
# Fixed tables searched from slot 0 up

The loops `for (i = 0; i < n; i++) if (p(t[i])) { ...; return; }` over a table
of `n` records, and the choice of the slot a new record goes to: the first one
that is free, or slot 0 when none is.
-/

namespace MyOS.Slots

universe u
variable {n : Nat} {α : Type u}

/-- The first slot whose record satisfies `p`. -/
def first (t : Fin n → α) (p : α → Bool) : Option (Fin n) := Fin.find? fun i => p (t i)

/-- The slot a new record goes to: the first free one, or slot 0. -/
def claim (t : Fin (n + 1) → α) (free : α → Bool) : Fin (n + 1) := (first t free).getD 0

/-- The slot that is used again when none is free. -/
abbrev victim : Fin (n + 1) := 0

variable {t : Fin n → α} {p : α → Bool} {i : Fin n} {a : α}

theorem first_eq_some : first t p = some i ↔ p (t i) = true ∧ ∀ j < i, p (t j) = false := by
  simp [first]

theorem first_eq_none : first t p = none ↔ ∀ i, p (t i) = false := by
  simp [first]

theorem first_holds (h : first t p = some i) : p (t i) = true := (first_eq_some.mp h).1

theorem first_exists (h : p (t i) = true) : ∃ j, first t p = some j := by
  cases found : first t p with
  | none => simp [first_eq_none.mp found i] at h
  | some j => exact ⟨j, rfl⟩

/-- A record that satisfies `p`, put where no earlier one does, is found. -/
theorem first_update_hit (hit : p a = true) (before : ∀ j < i, p (t j) = false) :
    first (Function.update t i a) p = some i := by
  refine first_eq_some.mpr ⟨by simpa using hit, fun j hj => ?_⟩
  rw [Function.update_of_ne (Fin.ne_of_lt hj)]
  exact before j hj

end MyOS.Slots
