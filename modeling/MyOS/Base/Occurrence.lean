import Mathlib.Data.List.Basic
import Mathlib.Order.Nat
import Mathlib.Tactic.Common

/-!
# Where a word occurs in a text

Places are offsets into the text; a search finds the first one, if there is any.
-/

namespace MyOS.Occurrence

universe u
variable {α : Type u} {w s t : List α} {p q : Nat}

/-- The word stands at this place of the text. -/
def At (w s : List α) (p : Nat) : Prop := w <+: s.drop p

instance [DecidableEq α] (w s : List α) (p : Nat) : Decidable (At w s p) :=
  inferInstanceAs (Decidable (w <+: s.drop p))

/-- The first place of the word. -/
structure First (w s : List α) (p : Nat) : Prop where
  here : At w s p
  before : ∀ q < p, ¬ At w s q

theorem First.unique (first : First w s p) (first' : First w s q) : p = q := by
  rcases Nat.lt_trichotomy p q with below | same | above
  · exact absurd first.here (first'.before p below)
  · exact same
  · exact absurd first'.here (first.before q above)

/-- A word that occurs has a first place. -/
theorem exists_first (some : ∃ p, At w s p) : ∃ p, First w s p := by
  classical
  exact ⟨Nat.find some, Nat.find_spec some, fun q below => Nat.find_min some below⟩

theorem At.inside (at_p : At w s p) (some : w ≠ []) : p + w.length ≤ s.length := by
  have size := at_p.length_le
  have := List.length_pos_of_ne_nil some
  rw [List.length_drop] at size
  omega

theorem at_zero_iff : At w s 0 ↔ w <+: s := by rw [At, List.drop_zero]

theorem not_at_nil (some : w ≠ []) (p : Nat) : ¬ At w [] p := by
  intro at_p
  have := at_p.inside some
  have := List.length_pos_of_ne_nil some
  rw [List.length_nil] at *
  omega

/-- Behind a first letter that does not begin the word, places move by one. -/
theorem first_succ_iff {x : α} (other : ¬ w <+: x :: s) :
    First w (x :: s) (p + 1) ↔ First w s p := by
  constructor
  · intro first
    exact ⟨first.here, fun q below => first.before (q + 1) (Nat.succ_lt_succ below)⟩
  · intro first
    refine ⟨first.here, fun q below => ?_⟩
    cases q with
    | zero => exact other
    | succ q => exact first.before q (Nat.lt_of_succ_lt_succ below)

/-- In a longer text the word is still at the places it had. -/
theorem At.append (at_p : At w s p) (some : w ≠ []) (t : List α) : At w (s ++ t) p := by
  have := at_p.inside some
  rw [At, List.drop_append_of_le_length (by omega)]
  exact at_p.trans (List.prefix_append _ t)

/-- A place that lies in the first part of a text is one of that part. -/
theorem At.of_append (at_p : At w (s ++ t) p) (inside : p + w.length ≤ s.length) : At w s p := by
  rw [At, List.drop_append_of_le_length (by omega)] at at_p
  exact List.prefix_of_prefix_length_le at_p (List.prefix_append _ t)
    (by rw [List.length_drop]; omega)

theorem First.of_append (first : First w (s ++ t) p) (inside : p + w.length ≤ s.length)
    (some : w ≠ []) : First w s p :=
  ⟨first.here.of_append inside, fun q below here => first.before q below (here.append some t)⟩

end MyOS.Occurrence
