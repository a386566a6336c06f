import MyOS.Base.Memory

/-!
# Memories that record where they are written

An operation on such a memory is known by its writes: `Within P` says that it has
written only in `P`, and so has left everything else as it was. Where reads matter
as well, `touch` records them among the places.
-/

namespace MyOS

structure Written where
  bytes : Mem
  places : List Nat

namespace Written

def put (o : Written) (i : Nat) (b : UInt8) : Written := ⟨o.bytes.set i b, o.places ++ [i]⟩

def copy (o : Written) (i : Nat) (bs : List UInt8) : Written :=
  ⟨o.bytes.store i bs, o.places ++ List.range' i bs.length⟩

def touch (o : Written) (i : Nat) : Written := ⟨o.bytes, o.places ++ [i]⟩

/-- `c = m[i]; m[i] = m[j]; m[j] = c;` -/
def swap (o : Written) (i j : Nat) : Written :=
  (((o.touch i).touch j).put i (o.bytes j)).put j (o.bytes i)

structure Within (P : Nat → Prop) (o o' : Written) : Prop where
  places : ∀ i ∈ o'.places, i ∈ o.places ∨ P i
  kept : ∀ i, ¬ P i → o'.bytes i = o.bytes i

variable {P Q : Nat → Prop} {o o' o'' : Written} {i : Nat} {b : UInt8} {bs : List UInt8}

theorem Within.refl (P : Nat → Prop) (o : Written) : Within P o o :=
  ⟨fun _ => .inl, fun _ _ => rfl⟩

theorem Within.trans (first : Within P o o') (second : Within P o' o'') : Within P o o'' where
  places i mem := by
    rcases second.places i mem with before | here
    · exact first.places i before
    · exact .inr here
  kept i outside := (second.kept i outside).trans (first.kept i outside)

theorem Within.put (h : Within P o o') (inside : P i) : Within P o (o'.put i b) where
  places j mem := by
    rcases List.mem_append.mp mem with before | here
    · exact h.places j before
    · rw [List.mem_singleton] at here
      exact .inr (here ▸ inside)
  kept j outside := by
    have other : j ≠ i := fun same => outside (same ▸ inside)
    exact (Mem.set_of_ne o'.bytes i b other).trans (h.kept j outside)

theorem Within.touch (h : Within P o o') (inside : P i) : Within P o (o'.touch i) where
  places j mem := by
    rcases List.mem_append.mp mem with before | here
    · exact h.places j before
    · rw [List.mem_singleton] at here
      exact .inr (here ▸ inside)
  kept := h.kept

theorem Within.swap (h : Within P o o') {j : Nat} (first : P i) (second : P j) :
    Within P o (o'.swap i j) :=
  (((h.touch first).touch second).put first).put second

theorem Within.copy (h : Within P o o') (inside : ∀ j, i ≤ j → j < i + bs.length → P j) :
    Within P o (o'.copy i bs) where
  places j mem := by
    rcases List.mem_append.mp mem with before | here
    · exact h.places j before
    · have range := List.mem_range'_1.mp here
      exact .inr (inside j range.1 range.2)
  kept j outside := by
    have other : j < i ∨ i + bs.length ≤ j := by
      by_contra overlap
      exact outside (inside j (by omega) (by omega))
    exact (Mem.store_outside o'.bytes i bs other).trans (h.kept j outside)

theorem mem_places_copy {j : Nat} (low : i ≤ j) (high : j < i + bs.length) :
    j ∈ (o.copy i bs).places :=
  List.mem_append_right _ (List.mem_range'_1.mpr ⟨low, high⟩)

end Written

end MyOS
