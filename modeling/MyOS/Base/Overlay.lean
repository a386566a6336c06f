import Mathlib.Data.Set.Basic
import Mathlib.Logic.Function.Basic
import Mathlib.Tactic.Common

/-!
# A picture and what covers part of it

`real` is the picture as it is shown and `clean` the one without the cover. The
cover lies on a set of places; `shot` is the picture from which it was laid.
-/

namespace MyOS.Overlay

universe u v
variable {ι : Type u} {α : Type v}

/-- A drawing call paints some places, whatever they held. -/
def Paints (d : (ι → α) → ι → α) : Prop :=
  ∀ i, (∀ c, d c i = c i) ∨ ∃ a, ∀ c, d c i = a

theorem paints_id : Paints (fun c : ι → α => c) := fun _ => .inl fun _ => rfl

theorem Paints.comp {d d' : (ι → α) → ι → α} (first : Paints d) (second : Paints d') :
    Paints (fun c => d' (d c)) := by
  intro i
  rcases second i with kept | ⟨a, painted⟩
  · rcases first i with kept' | ⟨a, painted'⟩
    · exact .inl fun c => (kept (d c)).trans (kept' c)
    · exact .inr ⟨a, fun c => (kept (d c)).trans (painted' c)⟩
  · exact .inr ⟨a, fun c => painted (d c)⟩

theorem paints_foldl {β : Type*} {d : β → (ι → α) → ι → α} (each : ∀ b, Paints (d b))
    (bs : List β) : Paints (fun c => bs.foldl (fun c b => d b c) c) := by
  induction bs with
  | nil => exact paints_id
  | cons b bs ih => exact (each b).comp ih

theorem paints_update [DecidableEq ι] (i : ι) (a : α) :
    Paints (fun c : ι → α => Function.update c i a) := by
  intro j
  by_cases here : j = i
  · subst here
    exact .inr ⟨a, fun c => Function.update_self ..⟩
  · exact .inl fun c => Function.update_of_ne here ..

/-! ## A list of single places -/

section
variable [DecidableEq ι] {β : Type*} {place : β → ι} {value : β → α} {bs : List β} {i : ι}

theorem foldl_update_other (other : ∀ b ∈ bs, place b ≠ i) (c : ι → α) :
    bs.foldl (fun c b => Function.update c (place b) (value b)) c i = c i := by
  induction bs generalizing c with
  | nil => rfl
  | cons b bs ih =>
    rw [List.foldl_cons, ih fun b' mem => other b' (List.mem_cons_of_mem b mem)]
    exact Function.update_of_ne (other b List.mem_cons_self).symm ..

theorem foldl_update_mem {shot : ι → α} (values : ∀ b ∈ bs, value b = shot (place b))
    (here : ∃ b ∈ bs, place b = i) (c : ι → α) :
    bs.foldl (fun c b => Function.update c (place b) (value b)) c i = shot i := by
  induction bs generalizing c with
  | nil => exact absurd here (by simp)
  | cons b bs ih =>
    rw [List.foldl_cons]
    by_cases later : ∃ b' ∈ bs, place b' = i
    · exact ih (fun b' mem => values b' (List.mem_cons_of_mem b mem)) later _
    · have other : ∀ b' ∈ bs, place b' ≠ i := fun b' mem same => later ⟨b', mem, same⟩
      have first : place b = i := by
        obtain ⟨b', mem, same⟩ := here
        rcases List.mem_cons.mp mem with rfl | mem
        · exact same
        · exact absurd same (other b' mem)
      rw [foldl_update_other other, ← first, Function.update_self]
      exact values b List.mem_cons_self

end

/-- The two pictures are the same outside the cover. -/
def AgreeOff (B : Set ι) (real clean : ι → α) : Prop := ∀ i ∉ B, real i = clean i

variable {B : Set ι} {real real' clean shot : ι → α} {d : (ι → α) → ι → α}

theorem AgreeOff.paint (agree : AgreeOff B real clean) (paints : Paints d) :
    AgreeOff B (d real) (d clean) := by
  intro i outside
  rcases paints i with kept | ⟨a, painted⟩
  · rw [kept, kept]
    exact agree i outside
  · rw [painted, painted]

theorem AgreeOff.change (agree : AgreeOff B real clean) (inside : ∀ i ∉ B, real' i = real i) :
    AgreeOff B real' clean :=
  fun i outside => (inside i outside).trans (agree i outside)

/-- With the old picture put back in its place the cover leaves no trace if and
only if the picture has not changed there. -/
theorem AgreeOff.uncover_iff (agree : AgreeOff B real clean) (back : ∀ i ∈ B, real' i = shot i)
    (outside : ∀ i ∉ B, real' i = real i) : real' = clean ↔ ∀ i ∈ B, clean i = shot i := by
  constructor
  · intro same i inside
    rw [← same]
    exact back i inside
  · intro unchanged
    funext i
    by_cases inside : i ∈ B
    · rw [back i inside, unchanged i inside]
    · rw [outside i inside]
      exact agree i inside

end MyOS.Overlay
