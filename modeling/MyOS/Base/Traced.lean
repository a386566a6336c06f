import MyOS.Base.Memory

/-!
# Computations that record what they read

`Traced α` is a value together with the offsets read on the way to it, oldest
first. What a parser returns and what it touches are then two projections of
one definition.
-/

namespace MyOS

universe u

structure Traced (α : Type u) where
  val : α
  reads : List Nat

namespace Traced

variable {α β : Type u}

instance : Monad Traced where
  pure a := ⟨a, []⟩
  bind x f := ⟨(f x.val).val, x.reads ++ (f x.val).reads⟩

/-- Read the `n` bytes from `off` on and return what `a` they make. -/
def read (off n : Nat) (a : α) : Traced α := ⟨a, (List.range n).map (off + ·)⟩

/-- Every offset read satisfies `P`. -/
def Within (P : Nat → Prop) (x : Traced α) : Prop := ∀ i ∈ x.reads, P i

variable (P : Nat → Prop) (x : Traced α) (f : α → Traced β) (a : α)

@[simp] theorem val_pure : (pure a : Traced α).val = a := rfl
@[simp] theorem reads_pure : (pure a : Traced α).reads = [] := rfl
@[simp] theorem val_bind : (x >>= f).val = (f x.val).val := rfl
@[simp] theorem reads_bind : (x >>= f).reads = x.reads ++ (f x.val).reads := rfl
@[simp] theorem val_read (off n : Nat) : (read off n a).val = a := rfl

@[simp] theorem val_ite (c : Prop) {_ : Decidable c} (x y : Traced α) :
    (if c then x else y).val = if c then x.val else y.val := by split <;> rfl

@[simp] theorem within_pure : Within P (pure a : Traced α) := by simp [Within]

@[simp] theorem within_bind : Within P (x >>= f) ↔ Within P x ∧ Within P (f x.val) := by
  simp [Within, or_imp, forall_and]

@[simp] theorem within_read (off n : Nat) : Within P (read off n a) ↔ ∀ i < n, P (off + i) := by
  simp [Within, read]

/-- What follows a computation depends on its value alone. -/
theorem bind_congr_val {f g : α → Traced β} (same : f x.val = g x.val) :
    (x >>= f) = x >>= g := by
  change (⟨(f x.val).val, x.reads ++ (f x.val).reads⟩ : Traced β) = _
  rw [same]
  rfl

/-! Reads of one field of a memory. -/

def u8 (m : Mem) (off : Nat) : Traced UInt8 := read off 1 (m off)
def u16 (m : Mem) (off : Nat) : Traced UInt16 := read off 2 (m.load16 off)
def u32 (m : Mem) (off : Nat) : Traced UInt32 := read off 4 (m.load32 off)

section
variable (m : Mem) (off : Nat)

@[simp] theorem val_u8 : (u8 m off).val = m off := rfl
@[simp] theorem val_u16 : (u16 m off).val = m.load16 off := rfl
@[simp] theorem val_u32 : (u32 m off).val = m.load32 off := rfl

@[simp] theorem within_u8 : Within P (u8 m off) ↔ P off := by simp [u8]

@[simp] theorem within_u16 : Within P (u16 m off) ↔ P off ∧ P (off + 1) := by
  rw [u16, within_read]
  constructor
  · intro all
    exact ⟨all 0 (by omega), all 1 (by omega)⟩
  · rintro ⟨p0, p1⟩ i hi
    rcases i with _ | _ | i
    · exact p0
    · exact p1
    · omega

@[simp] theorem within_u32 :
    Within P (u32 m off) ↔ P off ∧ P (off + 1) ∧ P (off + 2) ∧ P (off + 3) := by
  rw [u32, within_read]
  constructor
  · intro all
    exact ⟨all 0 (by omega), all 1 (by omega), all 2 (by omega), all 3 (by omega)⟩
  · rintro ⟨p0, p1, p2, p3⟩ i hi
    rcases i with _ | _ | _ | _ | i
    · exact p0
    · exact p1
    · exact p2
    · exact p3
    · omega

end

theorem within_ite (c : Prop) {_ : Decidable c} (x y : Traced α) :
    Within P (if c then x else y) ↔ (c → Within P x) ∧ (¬ c → Within P y) := by
  split <;> simp [*]

end Traced

end MyOS
