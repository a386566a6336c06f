import Mathlib.Algebra.Order.Ring.Nat
import Mathlib.Tactic.Common

/-!
# Finite runs

A deterministic system takes one event after another. `Along` speaks of every
state a run reaches, `Steps` of every step it takes, judged in the state the
step starts from. `E` restricts the events an environment may send.
-/

namespace MyOS.Runs

universe u v
variable {σ : Type u} {ε : Type v} (step : σ → ε → σ)

/-- `P` holds in the state a run starts from and in every state it reaches. -/
def Along (P : σ → Prop) : σ → List ε → Prop
  | s, [] => P s
  | s, e :: es => P s ∧ Along P (step s e) es

/-- Every step of a run meets `C` in the state before the step. -/
def Steps (C : σ → ε → Prop) : σ → List ε → Prop
  | _, [] => True
  | s, e :: es => C s e ∧ Steps C (step s e) es

instance decidableAlong (P : σ → Prop) [DecidablePred P] :
    ∀ s es, Decidable (Along step P s es)
  | s, [] => inferInstanceAs (Decidable (P s))
  | s, e :: es =>
    have := decidableAlong P (step s e) es
    inferInstanceAs (Decidable (P s ∧ Along step P (step s e) es))

instance decidableSteps (C : σ → ε → Prop) [∀ s e, Decidable (C s e)] :
    ∀ s es, Decidable (Steps step C s es)
  | _, [] => inferInstanceAs (Decidable True)
  | s, e :: es =>
    have := decidableSteps C (step s e) es
    inferInstanceAs (Decidable (C s e ∧ Steps step C (step s e) es))

variable {step} {P Q I : σ → Prop} {C D : σ → ε → Prop} {E : ε → Prop} {s : σ} {es : List ε}

theorem along_start (h : Along step P s es) : P s := by
  cases es with
  | nil => exact h
  | cons e es => exact h.1

theorem along_last (h : Along step P s es) : P (es.foldl step s) := by
  induction es generalizing s with
  | nil => exact h
  | cons e es ih => exact ih h.2

theorem along_all (all : ∀ s, P s) : Along step P s es := by
  induction es generalizing s with
  | nil => exact all s
  | cons e es ih => exact ⟨all s, ih⟩

theorem along_mono (h : Along step P s es) (imp : ∀ s, P s → Q s) : Along step Q s es := by
  induction es generalizing s with
  | nil => exact imp s h
  | cons e es ih => exact ⟨imp s h.1, ih h.2⟩

/-- The invariant rule: a step that meets its condition keeps the invariant. -/
theorem along_of_steps (keep : ∀ s e, E e → I s → C s e → I (step s e))
    (events : ∀ e ∈ es, E e) (start : I s) (steps : Steps step C s es) :
    Along step I s es := by
  induction es generalizing s with
  | nil => exact start
  | cons e es ih =>
    have next := keep s e (events e (by simp)) start steps.1
    exact ⟨start, ih (fun d hd => events d (by simp [hd])) next steps.2⟩

/-- The same for an invariant every step keeps. -/
theorem along_keep (keep : ∀ s e, I s → I (step s e)) (start : I s) : Along step I s es := by
  induction es generalizing s with
  | nil => exact start
  | cons e es ih => exact ⟨start, ih (keep s e start)⟩

/-- What holds of every step from a state the invariant allows. -/
theorem steps_keep (keep : ∀ s e, I s → I (step s e)) (gives : ∀ s e, I s → C s e) (start : I s) :
    Steps step C s es := by
  induction es generalizing s with
  | nil => trivial
  | cons e es ih => exact ⟨gives s e start, ih (keep s e start)⟩

/-- The exact form: the property holds in every state reached if and only if
every step meets its condition, provided a step that does not breaks it. -/
theorem along_iff_steps (keep : ∀ s e, E e → I s → C s e → I (step s e))
    (holds : ∀ s, I s → P s)
    (breaks : ∀ s e, E e → I s → ¬ C s e → ¬ P (step s e))
    (events : ∀ e ∈ es, E e) (start : I s) :
    Along step P s es ↔ Steps step C s es := by
  constructor
  · intro h
    induction es generalizing s with
    | nil => trivial
    | cons e es ih =>
      have he := events e (by simp)
      have meets : C s e := by
        by_contra fails
        exact breaks s e he start fails (along_start h.2)
      exact ⟨meets, ih (fun d hd => events d (by simp [hd])) (keep s e he start meets) h.2⟩
  · intro h
    exact along_mono (along_of_steps keep events start h) holds

/-- The same where every step also meets a side condition `M`, under which the
property after a step depends on `C` alone. -/
theorem along_iff_steps_within {M : σ → ε → Prop} (keep : ∀ s e, I s → M s e → I (step s e))
    (decides : ∀ s e, I s → M s e → (P (step s e) ↔ C s e))
    (start : I s) (first : P s) (within : Steps step M s es) :
    Along step P s es ↔ Steps step C s es := by
  induction es generalizing s with
  | nil => exact iff_of_true first trivial
  | cons e es ih =>
    have next := decides s e start within.1
    constructor
    · intro h
      have here := along_start h.2
      exact ⟨next.mp here, (ih (keep s e start within.1) here within.2).mp h.2⟩
    · intro h
      have here := next.mpr h.1
      exact ⟨first, (ih (keep s e start within.1) here within.2).mpr h.2⟩

/-- The exact form where the steps are known to meet `D` already. -/
theorem along_iff_steps_under (keep : ∀ s e, I s → D s e → C s e → I (step s e))
    (holds : ∀ s, I s → P s) (breaks : ∀ s e, I s → D s e → ¬ C s e → ¬ P (step s e))
    (start : I s) (under : Steps step D s es) : Along step P s es ↔ Steps step C s es := by
  induction es generalizing s with
  | nil => exact iff_of_true (holds s start) trivial
  | cons e es ih =>
    constructor
    · intro h
      have meets : C s e := by
        by_contra fails
        exact breaks s e start under.1 fails (along_start h.2)
      exact ⟨meets, (ih (keep s e start under.1 meets) under.2).mp h.2⟩
    · intro h
      exact ⟨holds s start, (ih (keep s e start under.1 h.1) under.2).mpr h.2⟩

/-- Two conditions that agree in every state the invariant allows agree on
whole runs, if the second one keeps the invariant. -/
theorem steps_congr_under {M : σ → ε → Prop} (keep : ∀ s e, I s → M s e → D s e → I (step s e))
    (agree : ∀ s e, I s → M s e → (C s e ↔ D s e)) (start : I s) (under : Steps step M s es) :
    Steps step C s es ↔ Steps step D s es := by
  induction es generalizing s with
  | nil => exact Iff.rfl
  | cons e es ih =>
    have here := agree s e start under.1
    constructor
    · intro h
      have meets := here.mp h.1
      exact ⟨meets, (ih (keep s e start under.1 meets) under.2).mp h.2⟩
    · intro h
      exact ⟨here.mpr h.1, (ih (keep s e start under.1 h.1) under.2).mpr h.2⟩

theorem steps_append {es' : List ε} :
    Steps step C s (es ++ es') ↔ Steps step C s es ∧ Steps step C (es.foldl step s) es' := by
  induction es generalizing s with
  | nil => exact (true_and _).to_iff.symm
  | cons e es ih =>
    constructor
    · intro h
      have both := ih.mp h.2
      exact ⟨⟨h.1, both.1⟩, both.2⟩
    · intro h
      exact ⟨h.1.1, ih.mpr ⟨h.1.2, h.2⟩⟩

theorem steps_and (first : Steps step C s es) (second : Steps step D s es) :
    Steps step (fun s e => C s e ∧ D s e) s es := by
  induction es generalizing s with
  | nil => trivial
  | cons e es ih => exact ⟨⟨first.1, second.1⟩, ih first.2 second.2⟩

/-- Two conditions that agree in every state the invariant allows agree on
whole runs. -/
theorem steps_congr (keep : ∀ s e, E e → I s → I (step s e))
    (agree : ∀ s e, E e → I s → (C s e ↔ D s e))
    (events : ∀ e ∈ es, E e) (start : I s) :
    Steps step C s es ↔ Steps step D s es := by
  induction es generalizing s with
  | nil => exact Iff.rfl
  | cons e es ih =>
    have he := events e (by simp)
    have rest := ih (fun d hd => events d (by simp [hd])) (keep s e he start)
    exact and_congr (agree s e he start) rest

theorem steps_congr_of_step (agree : ∀ s e, E e → (C s e ↔ D s e)) (events : ∀ e ∈ es, E e) :
    Steps step C s es ↔ Steps step D s es :=
  steps_congr (I := fun _ => True) (fun _ _ _ _ => trivial) (fun s e he _ => agree s e he)
    events trivial

/-- What holds of every step from a state the invariant allows holds of every
step of a run that meets its conditions. -/
theorem steps_of_steps (keep : ∀ s e, E e → I s → C s e → I (step s e))
    (gives : ∀ s e, E e → I s → C s e → D s e)
    (events : ∀ e ∈ es, E e) (start : I s) (steps : Steps step C s es) :
    Steps step D s es := by
  induction es generalizing s with
  | nil => trivial
  | cons e es ih =>
    have he := events e (by simp)
    exact ⟨gives s e he start steps.1,
      ih (fun d hd => events d (by simp [hd])) (keep s e he start steps.1) steps.2⟩

end MyOS.Runs
