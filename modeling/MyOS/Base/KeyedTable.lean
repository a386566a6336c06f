import MyOS.Base.Slots

/-!
# Fixed tables of records under keys

A table whose records are live or free, and in which at most one live record
stands under a key. A new record goes to a free slot or, when there is none, to
slot 0, whose record is lost.
-/

namespace MyOS.KeyedTable

universe u v
variable {n : Nat} {α : Type u} {κ : Type v} [BEq κ] (live : α → Bool) (key : α → κ)

/-- The first live record under a key. -/
def find (t : Fin n → α) (k : κ) : Option (Fin n) := Slots.first t fun a => live a && key a == k

/-- No two live records stand under one key. -/
def Apart (t : Fin n → α) : Prop :=
  ∀ i j, live (t i) = true → live (t j) = true → key (t i) = key (t j) → i = j

variable {live key} {t : Fin n → α} {i j : Fin n} {k : κ} {a : α}

section
variable [LawfulBEq κ]

theorem find_eq_none : find live key t k = none ↔ ∀ i, live (t i) = true → key (t i) ≠ k := by
  rw [find, Slots.first_eq_none]
  apply forall_congr'
  intro i
  cases live (t i) <;> simp

theorem find_holds (found : find live key t k = some i) : live (t i) = true ∧ key (t i) = k := by
  simpa using Slots.first_holds found

namespace Apart

theorem find_iff (apart : Apart live key t) :
    find live key t k = some i ↔ live (t i) = true ∧ key (t i) = k := by
  constructor
  · exact find_holds
  · rintro ⟨alive, rfl⟩
    have hit : (live (t i) && key (t i) == key (t i)) = true := by simpa using alive
    obtain ⟨j, found⟩ := Slots.first_exists (p := fun a => live a && key a == key (t i)) hit
    obtain ⟨alive', same⟩ := find_holds found
    have here : j = i := apart j i alive' alive same
    rwa [here] at found

omit [BEq κ] [LawfulBEq κ] in
/-- A record may be put into a slot if no other slot has a live one under its key. -/
theorem put (apart : Apart live key t)
    (own : ∀ j, live (t j) = true → key (t j) = key a → j = i) :
    Apart live key (Function.update t i a) := by
  intro j l alive alive' same
  by_cases hj : j = i <;> by_cases hl : l = i
  · exact hj.trans hl.symm
  · subst hj
    rw [Function.update_of_ne hl] at alive' same
    rw [Function.update_self] at same
    exact (own l alive' same.symm).symm
  · subst hl
    rw [Function.update_of_ne hj] at alive same
    rw [Function.update_self] at same
    exact own j alive same
  · rw [Function.update_of_ne hj] at alive same
    rw [Function.update_of_ne hl] at alive' same
    exact apart j l alive alive' same

end Apart

/-- Under another key the records stay, but for the one put over. -/
theorem find_put_of_ne (apart : Apart live key t) (other : key a ≠ k)
    (after : Apart live key (Function.update t i a)) :
    find live key (Function.update t i a) k = (find live key t k).filter (· ≠ i) := by
  apply Option.ext
  intro j
  rw [after.find_iff, Option.filter_eq_some_iff, apart.find_iff]
  by_cases here : j = i
  · subst here
    simp [other]
  · simp [here]

end

/-- The slot of a new record is free, or it is slot 0 and every record is live. -/
theorem claim_cases (t : Fin (n + 1) → α) (free : α → Bool) :
    free (t (Slots.claim t free)) = true ∨
      Slots.claim t free = 0 ∧ ∀ i, free (t i) = false := by
  unfold Slots.claim
  cases found : Slots.first t free with
  | some i => exact .inl (Slots.first_holds found)
  | none => exact .inr ⟨rfl, Slots.first_eq_none.mp found⟩

/-! ## Storing -/

section
variable {t : Fin (n + 1) → α} {free : α → Bool} {l : Fin (n + 1)}

/-- The slot of a record under `k`: the one of the live record under `k`, or a new one. -/
def slotFor (live : α → Bool) (key : α → κ) (free : α → Bool) (t : Fin (n + 1) → α) (k : κ) :
    Fin (n + 1) :=
  (find live key t k).getD (Slots.claim t free)

def store (live : α → Bool) (key : α → κ) (free : α → Bool) (t : Fin (n + 1) → α) (a : α) :
    Fin (n + 1) → α :=
  Function.update t (slotFor live key free t (key a)) a

variable [LawfulBEq κ]

theorem Apart.slotFor_owns (apart : Apart live key t) {j : Fin (n + 1)}
    (alive : live (t j) = true) :
    slotFor live key free t (key (t j)) = j := by
  rw [slotFor, apart.find_iff.mpr ⟨alive, rfl⟩, Option.getD_some]

theorem Apart.store (apart : Apart live key t) : Apart live key (store live key free t a) := by
  apply apart.put
  intro j alive same
  rw [← same]
  exact (apart.slotFor_owns alive).symm

/-- A live record is found under its key once it is stored. -/
theorem Apart.find_store (apart : Apart live key t) (alive : live a = true) :
    (find live key (KeyedTable.store live key free t a) (key a)).map
      (KeyedTable.store live key free t a) = some a := by
  have slot : KeyedTable.store live key free t a (slotFor live key free t (key a)) = a :=
    Function.update_self ..
  have found : find live key (KeyedTable.store live key free t a) (key a) =
      some (slotFor live key free t (key a)) := by
    apply apart.store.find_iff.mpr
    rw [slot]
    exact ⟨alive, rfl⟩
  rw [found, Option.map_some, slot]

/-- A record that is found under another key was there before. -/
theorem Apart.find_store_of_ne (apart : Apart live key t) (other : key a ≠ k)
    (found : find live key (KeyedTable.store live key free t a) k = some l) :
    find live key t k = some l ∧ KeyedTable.store live key free t a l = t l := by
  rw [KeyedTable.store, find_put_of_ne apart other apart.store, Option.filter_eq_some_iff] at found
  obtain ⟨before, elsewhere⟩ := found
  exact ⟨before, Function.update_of_ne (by simpa using elsewhere) ..⟩

/-- Only the record of slot 0 can be lost, to one under a new key, and only when
no slot is free. -/
theorem Apart.lost_store (apart : Apart live key t) (dead : ∀ a, free a = true → live a = false)
    (alive : live a = true) (before : find live key t k = some l)
    (after : find live key (KeyedTable.store live key free t a) k = none) :
    l = 0 ∧ (∀ i, free (t i) = false) ∧ find live key t (key a) = none := by
  have other : key a ≠ k := by
    rintro rfl
    have found : (find live key (KeyedTable.store live key free t a) (key a)).map _ = some a :=
      apart.find_store alive
    rw [after] at found
    cases found
  have taken : l = slotFor live key free t (key a) := by
    rw [KeyedTable.store, find_put_of_ne apart other apart.store, before] at after
    simpa [Option.filter] using after
  have unknown : find live key t (key a) = none := by
    cases known : find live key t (key a) with
    | none => rfl
    | some j =>
      rw [slotFor, known, Option.getD_some] at taken
      subst taken
      exact absurd ((find_holds known).2.symm.trans (find_holds before).2) other
  rw [slotFor, unknown, Option.getD_none] at taken
  rcases claim_cases t free with vacant | ⟨first, full⟩
  · rw [← taken] at vacant
    have held := (find_holds before).1
    rw [dead _ vacant] at held
    cases held
  · exact ⟨taken.trans first, full, unknown⟩

end

end MyOS.KeyedTable
