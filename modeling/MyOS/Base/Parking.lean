import Mathlib.Data.List.FinRange
import Mathlib.Data.List.Basic
import Mathlib.Logic.Function.Basic

/-!
# Numbered items that wait in slots

Items are numbered as they come. Each passes at once or waits in a slot until
its key is released, and a release lets the items of one key go in the order of
their slots. Nothing is lost or repeated; whether the items of a key go in the
order they came is a matter of the slots they were given.
-/

namespace MyOS.Parking

universe u
variable {m : Nat} {κ : Type u}

/-- `gone` lists the items that have left, oldest first. -/
structure Lot (m : Nat) (κ : Type u) where
  count : Nat
  slots : Fin m → Option (Nat × κ)
  gone : List (Nat × κ)

namespace Lot

def empty : Lot m κ := ⟨0, fun _ => none, []⟩

def pass (l : Lot m κ) (k : κ) : Lot m κ :=
  { l with count := l.count + 1, gone := l.gone ++ [(l.count, k)] }

def park (l : Lot m κ) (i : Fin m) (k : κ) : Lot m κ :=
  { l with count := l.count + 1, slots := Function.update l.slots i (some (l.count, k)) }

/-- The items under `k`, in the order of their slots. -/
def waiting [DecidableEq κ] (l : Lot m κ) (k : κ) : List (Nat × κ) :=
  (List.finRange m).filterMap fun i => (l.slots i).filter fun a => a.2 = k

def release [DecidableEq κ] (l : Lot m κ) (k : κ) : Lot m κ :=
  { l with
    slots := fun i => (l.slots i).filter fun a => a.2 ≠ k
    gone := l.gone ++ l.waiting k }

/-- Each item has left once or waits in one slot. -/
structure Kept (l : Lot m κ) : Prop where
  once : (l.gone.map Prod.fst).Nodup
  issued : ∀ a ∈ l.gone, a.1 < l.count
  parked : ∀ i a, l.slots i = some a → a.1 < l.count ∧ ∀ b ∈ l.gone, b.1 ≠ a.1
  apart : ∀ i j a b, l.slots i = some a → l.slots j = some b → a.1 = b.1 → i = j
  all : ∀ q < l.count, (∃ a ∈ l.gone, a.1 = q) ∨ ∃ i a, l.slots i = some a ∧ a.1 = q

/-- The items of one key have left in the order they came. -/
def InOrder (l : Lot m κ) : Prop := l.gone.Pairwise fun a b => a.2 = b.2 → a.1 < b.1

/-- What waits came later than what has left under its key. -/
def Ahead (l : Lot m κ) : Prop :=
  ∀ a ∈ l.gone, ∀ i b, l.slots i = some b → a.2 = b.2 → a.1 < b.1

/-- The items under `k` wait in the order they came. -/
def Lined [DecidableEq κ] (l : Lot m κ) (k : κ) : Prop :=
  (l.waiting k).Pairwise fun a b => a.1 < b.1

instance [DecidableEq κ] (l : Lot m κ) (k : κ) : Decidable (Lined l k) :=
  inferInstanceAs (Decidable (List.Pairwise _ _))

variable {l : Lot m κ} {k : κ} {a : Nat × κ} {i : Fin m}

theorem mem_waiting [DecidableEq κ] : a ∈ l.waiting k ↔ a.2 = k ∧ ∃ i, l.slots i = some a := by
  simp only [waiting, List.mem_filterMap, List.mem_finRange, true_and, Option.filter_eq_some_iff,
    decide_eq_true_eq]
  constructor
  · rintro ⟨i, here, same⟩
    exact ⟨same, i, here⟩
  · rintro ⟨same, i, here⟩
    exact ⟨i, here, same⟩

theorem park_slots : (l.park i k).slots = Function.update l.slots i (some (l.count, k)) := rfl

/-- Slot by slot, the items under `k` correspond to what `g` makes of the slots
that `p` picks. -/
theorem waiting_forall₂ [DecidableEq κ] {β : Type u} {R : Nat × κ → β → Prop} {p : Fin m → Bool}
    {g : Fin m → β}
    (picks : ∀ i, p i = true ↔ ∃ a, l.slots i = some a ∧ a.2 = k)
    (related : ∀ i a, l.slots i = some a → a.2 = k → R a (g i)) :
    List.Forall₂ R (l.waiting k) (((List.finRange m).filter p).map g) := by
  unfold waiting
  induction List.finRange m with
  | nil => exact .nil
  | cons i is ih =>
    by_cases mine : p i = true
    · obtain ⟨a, here, same⟩ := (picks i).mp mine
      have found : (l.slots i).filter (fun a => a.2 = k) = some a :=
        Option.filter_eq_some_iff.mpr ⟨here, decide_eq_true same⟩
      simp only [List.filterMap_cons, found, List.filter_cons_of_pos mine, List.map_cons]
      exact .cons (related i a here same) ih
    · have absent : (l.slots i).filter (fun a => a.2 = k) = none := by
        rw [Option.filter_eq_none_iff]
        intro a here same
        exact mine ((picks i).mpr ⟨a, here, of_decide_eq_true same⟩)
      simp only [List.filterMap_cons, absent, List.filter_cons_of_neg mine]
      exact ih

/-! ## Nothing is lost or repeated -/

theorem kept_empty : Kept (empty : Lot m κ) := by
  constructor
  · exact List.nodup_nil
  · intro a mem
    cases mem
  · intro i a here
    cases here
  · intro i j a b here
    cases here
  · intro q issued
    exact absurd issued (Nat.not_lt_zero q)

theorem Kept.pass (kept : Kept l) (k : κ) : Kept (l.pass k) := by
  constructor
  · rw [Lot.pass, List.map_append, List.nodup_append]
    refine ⟨kept.once, List.nodup_singleton _, ?_⟩
    intro q mem r new
    obtain ⟨a, gone, rfl⟩ := List.mem_map.mp mem
    rw [List.mem_singleton.mp new]
    exact Nat.ne_of_lt (kept.issued a gone)
  · intro a mem
    rcases List.mem_append.mp mem with gone | new
    · exact Nat.lt_succ_of_lt (kept.issued a gone)
    · rw [List.mem_singleton.mp new]
      exact Nat.lt_succ_self _
  · intro i a here
    obtain ⟨issued, fresh⟩ := kept.parked i a here
    refine ⟨Nat.lt_succ_of_lt issued, ?_⟩
    intro b mem
    rcases List.mem_append.mp mem with gone | new
    · exact fresh b gone
    · rw [List.mem_singleton.mp new]
      exact Nat.ne_of_gt issued
  · exact kept.apart
  · intro q issued
    rcases Nat.lt_succ_iff_lt_or_eq.mp issued with old | rfl
    · rcases kept.all q old with ⟨a, gone, rfl⟩ | here
      · exact .inl ⟨a, List.mem_append_left _ gone, rfl⟩
      · exact .inr here
    · exact .inl ⟨_, List.mem_append_right _ (List.mem_singleton_self _), rfl⟩

theorem Kept.park (kept : Kept l) (free : l.slots i = none) (k : κ) : Kept (l.park i k) := by
  have old {j : Fin m} {b : Nat × κ} (other : j ≠ i) (here : (l.park i k).slots j = some b) :
      l.slots j = some b := by
    rwa [park_slots, Function.update_of_ne other] at here
  have new {b : Nat × κ} (here : (l.park i k).slots i = some b) : b = (l.count, k) := by
    rw [park_slots, Function.update_self] at here
    exact (Option.some.inj here).symm
  constructor
  · exact kept.once
  · intro b gone
    exact Nat.lt_succ_of_lt (kept.issued b gone)
  · intro j b here
    by_cases same : j = i
    · subst same
      rw [new here]
      exact ⟨Nat.lt_succ_self _, fun c gone => Nat.ne_of_lt (kept.issued c gone)⟩
    · obtain ⟨issued, fresh⟩ := kept.parked j b (old same here)
      exact ⟨Nat.lt_succ_of_lt issued, fresh⟩
  · intro j j' b c here here' same
    by_cases hj : j = i <;> by_cases hj' : j' = i
    · exact hj.trans hj'.symm
    · subst hj
      rw [new here] at same
      exact absurd same (Nat.ne_of_gt (kept.parked j' c (old hj' here')).1)
    · subst hj'
      rw [new here'] at same
      exact absurd same (Nat.ne_of_lt (kept.parked j b (old hj here)).1)
    · exact kept.apart j j' b c (old hj here) (old hj' here') same
  · intro q issued
    rcases Nat.lt_succ_iff_lt_or_eq.mp issued with before | rfl
    · rcases kept.all q before with gone | ⟨j, b, here, rfl⟩
      · exact .inl gone
      · refine .inr ⟨j, b, ?_, rfl⟩
        have other : j ≠ i := by
          rintro rfl
          rw [free] at here
          cases here
        rwa [park_slots, Function.update_of_ne other]
    · exact .inr ⟨i, (l.count, k), Function.update_self .., rfl⟩

section
variable [DecidableEq κ]

theorem release_slots {j : Fin m} :
    (l.release k).slots j = some a ↔ l.slots j = some a ∧ a.2 ≠ k := by
  rw [Lot.release, Option.filter_eq_some_iff, decide_eq_true_eq]

theorem Kept.waiting_nodup (kept : Kept l) (k : κ) : ((l.waiting k).map Prod.fst).Nodup := by
  rw [List.Nodup, List.pairwise_map, waiting, List.pairwise_filterMap]
  apply (List.nodup_finRange m).imp
  intro i j differ a here b here' same
  obtain ⟨at_i, -⟩ := Option.filter_eq_some_iff.mp here
  obtain ⟨at_j, -⟩ := Option.filter_eq_some_iff.mp here'
  exact differ (kept.apart i j a b at_i at_j same)

theorem Kept.release (kept : Kept l) (k : κ) : Kept (l.release k) := by
  constructor
  · rw [Lot.release, List.map_append, List.nodup_append]
    refine ⟨kept.once, kept.waiting_nodup k, ?_⟩
    intro q mem r new
    obtain ⟨a, gone, rfl⟩ := List.mem_map.mp mem
    obtain ⟨b, waits, rfl⟩ := List.mem_map.mp new
    obtain ⟨-, i, here⟩ := mem_waiting.mp waits
    exact (kept.parked i b here).2 a gone
  · intro a mem
    rcases List.mem_append.mp mem with gone | waits
    · exact kept.issued a gone
    · obtain ⟨-, i, here⟩ := mem_waiting.mp waits
      exact (kept.parked i a here).1
  · intro i a here
    obtain ⟨before, other⟩ := release_slots.mp here
    obtain ⟨issued, fresh⟩ := kept.parked i a before
    refine ⟨issued, ?_⟩
    intro b mem
    rcases List.mem_append.mp mem with gone | waits
    · exact fresh b gone
    · obtain ⟨same, j, there⟩ := mem_waiting.mp waits
      intro again
      have slot : j = i := kept.apart j i b a there before again
      subst slot
      have item : b = a := Option.some.inj (there.symm.trans before)
      exact other (item ▸ same)
  · intro i j a b here there same
    exact kept.apart i j a b (release_slots.mp here).1 (release_slots.mp there).1 same
  · intro q issued
    rcases kept.all q issued with ⟨a, gone, rfl⟩ | ⟨i, a, here, rfl⟩
    · exact .inl ⟨a, List.mem_append_left _ gone, rfl⟩
    · by_cases mine : a.2 = k
      · exact .inl ⟨a, List.mem_append_right _ (mem_waiting.mpr ⟨mine, i, here⟩), rfl⟩
      · exact .inr ⟨i, a, release_slots.mpr ⟨here, mine⟩, rfl⟩

end

/-! ## Order -/

theorem InOrder.pass (ordered : InOrder l) (kept : Kept l) (k : κ) : InOrder (l.pass k) := by
  apply List.pairwise_append.mpr
  refine ⟨ordered, List.pairwise_singleton .., ?_⟩
  intro a gone b new _
  rw [List.mem_singleton.mp new]
  exact kept.issued a gone

/-- An item may pass when none waits under its key. -/
theorem Ahead.pass (ahead : Ahead l) (alone : ∀ i b, l.slots i = some b → b.2 ≠ k) :
    Ahead (l.pass k) := by
  intro a mem i b here same
  rcases List.mem_append.mp mem with gone | new
  · exact ahead a gone i b here same
  · rw [List.mem_singleton.mp new] at same
    exact absurd same.symm (alone i b here)

theorem Ahead.park (ahead : Ahead l) (kept : Kept l) (i : Fin m) (k : κ) : Ahead (l.park i k) := by
  intro a gone j b here same
  rw [park_slots] at here
  by_cases slot : j = i
  · subst slot
    rw [Function.update_self] at here
    rw [← Option.some.inj here]
    exact kept.issued a gone
  · rw [Function.update_of_ne slot] at here
    exact ahead a gone j b here same

section
variable [DecidableEq κ]

theorem Ahead.release (ahead : Ahead l) (k : κ) : Ahead (l.release k) := by
  intro a mem i b here same
  obtain ⟨before, other⟩ := release_slots.mp here
  rcases List.mem_append.mp mem with gone | waits
  · exact ahead a gone i b before same
  · obtain ⟨mine, -⟩ := mem_waiting.mp waits
    exact absurd (same.symm.trans mine) other

/-- A release keeps the order if and only if what it releases is lined up. -/
theorem inOrder_release (ordered : InOrder l) (ahead : Ahead l) (k : κ) :
    InOrder (l.release k) ↔ Lined l k := by
  have one : ∀ a ∈ l.waiting k, ∀ b ∈ l.waiting k, a.2 = b.2 := by
    intro a mem b mem'
    exact (mem_waiting.mp mem).1.trans (mem_waiting.mp mem').1.symm
  constructor
  · intro after
    have released := (List.pairwise_append.mp after).2.1
    exact released.imp_of_mem fun mem mem' before => before (one _ mem _ mem')
  · intro lined
    apply List.pairwise_append.mpr
    refine ⟨ordered, ?_, ?_⟩
    · apply List.Pairwise.imp _ lined
      intro a b before _
      exact before
    · intro a gone b waits same
      obtain ⟨-, i, here⟩ := mem_waiting.mp waits
      exact ahead a gone i b here same

end

end Lot

end MyOS.Parking
