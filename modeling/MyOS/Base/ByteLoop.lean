import Mathlib.Algebra.Order.Ring.Nat
import Mathlib.Tactic.Common
import Mathlib.Order.Nat

/-!
# Loops counted by a byte

`for (uint8_t i = 0; i < n; ++i) body(i)` where the body may `continue`, `break`
or `return`. The counter wraps: with `n` above 255 the bound is always met and
only the body can end the loop.
-/

namespace MyOS.ByteLoop

universe u
variable {α : Type u}

/-- How one turn of the body ends: `continue`, `break`, `return a`. -/
inductive Turn (α : Type u)
  | next
  | leave
  | ret (a : α)

variable (n : Nat) (body : UInt8 → Turn α)

/-- How the loop ends when the counter is `i`: not, behind its last turn, or by
returning a value. -/
def exit (i : UInt8) : Option (Option α) :=
  if i.toNat < n then
    match body i with
    | .next => none
    | .leave => some none
    | .ret a => some (some a)
  else some none

/-- The loop from `i` on, for as many turns as there is fuel. -/
def run : Nat → UInt8 → Option (Option α)
  | 0, _ => none
  | fuel + 1, i => match exit n body i with
    | some r => some r
    | none => run fuel (i + 1)

/-- The loop terminates, with the result `r`. -/
def Ends (r : Option α) : Prop := ∃ fuel, run n body fuel 0 = some r

variable {n body} {i : UInt8} {r : Option α} {a : α}

theorem exit_eq_none : exit n body i = none ↔ i.toNat < n ∧ body i = .next := by
  unfold exit
  split
  · cases body i <;> simp [*]
  · simp [*]

theorem exit_eq_ret : exit n body i = some (some a) ↔ i.toNat < n ∧ body i = .ret a := by
  unfold exit
  split
  · cases body i <;> simp [*]
  · simp [*]

theorem run_exit {fuel : Nat} (stop : exit n body i = some r) :
    run n body (fuel + 1) i = some r := by
  rw [run, stop]

theorem run_next {fuel : Nat} (go : exit n body i = none) :
    run n body (fuel + 1) i = run n body fuel (i + 1) := by
  rw [run, go]

theorem run_stable {fuel fuel' : Nat} (h : run n body fuel i = some r) (more : fuel ≤ fuel') :
    run n body fuel' i = some r := by
  induction fuel generalizing i fuel' with
  | zero => cases h
  | succ fuel ih =>
    obtain ⟨fuel', rfl⟩ : ∃ m, fuel' = m + 1 := ⟨fuel' - 1, by omega⟩
    cases stop : exit n body i with
    | some r' =>
      rw [run_exit stop] at h ⊢
      exact h
    | none =>
      rw [run_next stop] at h ⊢
      exact ih h (by omega)

theorem Ends.unique {r' : Option α} (h : Ends n body r) (h' : Ends n body r') : r = r' := by
  obtain ⟨fuel, ends⟩ := h
  obtain ⟨fuel', ends'⟩ := h'
  have both := run_stable ends (Nat.le_max_left fuel fuel')
  rw [run_stable ends' (Nat.le_max_right fuel fuel')] at both
  exact Option.some.inj both.symm

theorem toUInt8_add_one (t : Nat) : t.toUInt8 + 1 = (t + 1).toUInt8 := by
  apply UInt8.toNat_inj.mp
  simp [Nat.toUInt8]

/-- While the loop goes on, the counter runs through 0, 1, 2, ... -/
theorem run_skip (t fuel : Nat) (go : ∀ j < t, exit n body j.toUInt8 = none) :
    run n body (t + fuel) 0 = run n body fuel t.toUInt8 := by
  induction t generalizing fuel with
  | zero => rw [Nat.zero_add]; rfl
  | succ t ih =>
    have before := ih (fuel + 1) fun j hj => go j (by omega)
    rw [show t + 1 + fuel = t + (fuel + 1) by omega, before, run_next (go t (by omega)),
      toUInt8_add_one]

/-- The loop ends at the first counter value at which it can. -/
theorem run_first {t : Nat} (go : ∀ j < t, exit n body j.toUInt8 = none)
    (stop : exit n body t.toUInt8 = some r) : run n body (t + 1) 0 = some r := by
  rw [run_skip t 1 go, run_exit stop]

theorem toUInt8_toNat (i : UInt8) : i.toNat.toUInt8 = i := by
  apply UInt8.toNat_inj.mp
  simp [Nat.toUInt8]

/-- A number no larger than a byte is the value of that byte. -/
theorem toNat_toUInt8 {t : Nat} (h : t ≤ i.toNat) : t.toUInt8.toNat = t := by
  have := i.toNat_lt
  simp only [Nat.toUInt8, UInt8.toNat_ofNat']
  omega

/-- The first exit, if there is any. -/
theorem first_exit (stop : exit n body i ≠ none) :
    ∃ t ≤ i.toNat, ∃ r, exit n body t.toUInt8 = some r ∧ ∀ j < t, exit n body j.toUInt8 = none := by
  classical
  have some_exit : ∃ t : Nat, exit n body t.toUInt8 ≠ none := ⟨i.toNat, by rwa [toUInt8_toNat]⟩
  have least : Nat.find some_exit ≤ i.toNat := Nat.find_min' _ (by rwa [toUInt8_toNat])
  obtain ⟨r, hr⟩ := Option.ne_none_iff_exists'.mp (Nat.find_spec some_exit)
  refine ⟨Nat.find some_exit, least, r, hr, fun j hj => ?_⟩
  exact not_not.mp (Nat.find_min some_exit hj)

theorem run_forever (go : ∀ i, exit n body i = none) (fuel : Nat) : run n body fuel i = none := by
  induction fuel generalizing i with
  | zero => rfl
  | succ fuel ih => rw [run_next (go i), ih]

/-- The loop terminates if and only if it can end at some counter value. -/
theorem ends_iff : (∃ r, Ends n body r) ↔ ∃ i, exit n body i ≠ none := by
  constructor
  · rintro ⟨r, fuel, ends⟩
    by_contra never
    simp only [not_exists, not_not] at never
    rw [run_forever never] at ends
    cases ends
  · rintro ⟨i, stop⟩
    obtain ⟨t, _, r, hr, go⟩ := first_exit stop
    exact ⟨r, t + 1, run_first go hr⟩

/-- A value is returned by the first turn that does not go on. -/
theorem ret_of_ends (ends : Ends n body (some a)) :
    ∃ i, i.toNat < n ∧ body i = .ret a ∧ ∀ j < i, body j = .next := by
  obtain ⟨i, stop⟩ := ends_iff.mp ⟨_, ends⟩
  obtain ⟨t, below, r, hr, go⟩ := first_exit stop
  have same : r = some a := Ends.unique ⟨t + 1, run_first go hr⟩ ends
  rw [same, exit_eq_ret] at hr
  refine ⟨t.toUInt8, hr.1, hr.2, fun j hj => ?_⟩
  have before := go j.toNat (by rw [← toNat_toUInt8 below]; exact UInt8.lt_iff_toNat_lt.mp hj)
  rw [toUInt8_toNat, exit_eq_none] at before
  exact before.2

/-- Some value is returned if and only if a turn within the bound returns one
and no earlier turn breaks off. -/
theorem returns_iff : (∃ a, Ends n body (some a)) ↔
    ∃ i, i.toNat < n ∧ (∃ a, body i = .ret a) ∧ ∀ j < i, body j ≠ .leave := by
  constructor
  · rintro ⟨a, ends⟩
    obtain ⟨i, bound, returns, before⟩ := ret_of_ends ends
    exact ⟨i, bound, ⟨a, returns⟩, fun j hj => by rw [before j hj]; nofun⟩
  · rintro ⟨i, bound, ⟨a, returns⟩, stays⟩
    have stop : exit n body i ≠ none := by rw [exit_eq_ret.mpr ⟨bound, returns⟩]; nofun
    obtain ⟨t, below, r, hr, go⟩ := first_exit stop
    have small := toNat_toUInt8 below
    have here : t.toUInt8.toNat < n := by omega
    cases turn : body t.toUInt8 with
    | next => rw [exit_eq_none.mpr ⟨here, turn⟩] at hr; cases hr
    | ret b => exact ⟨b, t + 1, run_first go (exit_eq_ret.mpr ⟨here, turn⟩)⟩
    | leave =>
      rcases Nat.lt_or_eq_of_le below with early | same
      · exact absurd turn (stays _ (UInt8.lt_iff_toNat_lt.mpr (by omega)))
      · rw [same, toUInt8_toNat, returns] at turn
        cases turn

/-! ## Bounds the counter can reach -/

/-- What a loop with a bound of at most 255 returns. -/
def bounded (n : Nat) (body : UInt8 → Turn α) : Option α := (run n body (n + 1) 0).join

theorem bounded_ends (small : n ≤ 255) : Ends n body (bounded n body) := by
  have last : n.toUInt8.toNat = n := toNat_toUInt8 (i := 255) small
  have stop : exit n body n.toUInt8 ≠ none := by
    intro go
    have := (exit_eq_none.mp go).1
    omega
  obtain ⟨t, below, r, hr, go⟩ := first_exit stop
  have ends : run n body (n + 1) 0 = some r := run_stable (run_first go hr) (by omega)
  rw [bounded, ends]
  exact ⟨n + 1, ends⟩

theorem bounded_returns_iff (small : n ≤ 255) : (∃ a, bounded n body = some a) ↔
    ∃ i, i.toNat < n ∧ (∃ a, body i = .ret a) ∧ ∀ j < i, body j ≠ .leave := by
  rw [← returns_iff]
  constructor
  · rintro ⟨a, ha⟩
    exact ⟨a, ha ▸ bounded_ends small⟩
  · rintro ⟨a, ends⟩
    exact ⟨a, Ends.unique (bounded_ends small) ends⟩

end MyOS.ByteLoop
