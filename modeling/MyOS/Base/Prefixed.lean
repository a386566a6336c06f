import Mathlib.Algebra.Order.Ring.Nat
import Mathlib.Data.List.Basic
import Mathlib.Tactic.Common

/-!
# Strings behind their lengths

A sequence of byte strings, each behind a byte with its length; a zero ends the
sequence, so that no string is empty.
-/

namespace MyOS.Prefixed

def encode : List (List UInt8) → List UInt8
  | [] => [0]
  | s :: ss => s.length.toUInt8 :: (s ++ encode ss)

/-- The number of bytes of the encoding. -/
def size (ss : List (List UInt8)) : Nat := (ss.map fun s => s.length + 1).sum + 1

/-- Every string has from one byte to `limit` of them. -/
def Fits (limit : Nat) (ss : List (List UInt8)) : Prop := ∀ s ∈ ss, 1 ≤ s.length ∧ s.length ≤ limit

instance (limit : Nat) : DecidablePred (Fits limit) :=
  fun ss => inferInstanceAs (Decidable (∀ s ∈ ss, _))

/-- The strings, and what follows them. -/
def decode : List UInt8 → Option (List (List UInt8) × List UInt8)
  | [] => none
  | n :: rest =>
    if n = 0 then some ([], rest)
    else if rest.length < n.toNat then none
    else (decode (rest.drop n.toNat)).map fun (ss, rest') => (rest.take n.toNat :: ss, rest')
termination_by bytes => bytes.length
decreasing_by
  rw [List.length_drop, List.length_cons]
  exact Nat.lt_succ_of_le (Nat.sub_le ..)

@[simp] theorem size_nil : size [] = 1 := rfl

theorem size_cons (s : List UInt8) (ss : List (List UInt8)) :
    size (s :: ss) = s.length + 1 + size ss := by
  rw [size, List.map_cons, List.sum_cons, size, Nat.add_assoc]

theorem size_pos (ss : List (List UInt8)) : 0 < size ss := Nat.succ_pos _

theorem fits_nil (limit : Nat) : Fits limit [] := List.forall_mem_nil _

theorem fits_cons {limit : Nat} {s : List UInt8} {ss : List (List UInt8)} :
    Fits limit (s :: ss) ↔ (1 ≤ s.length ∧ s.length ≤ limit) ∧ Fits limit ss :=
  List.forall_mem_cons

theorem length_encode (ss : List (List UInt8)) : (encode ss).length = size ss := by
  induction ss with
  | nil => rfl
  | cons s ss ih =>
    rw [encode, List.length_cons, List.length_append, ih, size_cons]
    omega

theorem toNat_length {s : List UInt8} {limit : Nat} (short : s.length ≤ limit)
    (byte : limit < 256) : s.length.toUInt8.toNat = s.length := by
  rw [UInt8.toNat_ofNat']
  exact Nat.mod_eq_of_lt (by omega)

/-- Strings that fit are read back, whatever follows them. -/
theorem decode_encode {limit : Nat} (byte : limit < 256) {ss : List (List UInt8)}
    (fits : Fits limit ss) (rest : List UInt8) : decode (encode ss ++ rest) = some (ss, rest) := by
  induction ss with
  | nil =>
    rw [encode, List.singleton_append, decode, if_pos rfl]
  | cons s ss ih =>
    obtain ⟨⟨some, short⟩, fits⟩ := fits_cons.mp fits
    have value := toNat_length short byte
    have nonzero : s.length.toUInt8 ≠ 0 := by
      intro zero
      rw [zero] at value
      exact absurd value (by rw [UInt8.toNat_zero]; omega)
    rw [encode, List.cons_append, decode, if_neg nonzero, value, List.append_assoc,
      if_neg (by rw [List.length_append]; omega), List.drop_left, ih fits, List.take_left]
    rfl

end MyOS.Prefixed
