import Mathlib.Algebra.Order.Ring.Nat
import Mathlib.Tactic.Common

/-!
# Streams numbered modulo 2^32

A stream whose elements carry 32-bit sequence numbers, cut into pieces. As long
as it is shorter than the sequence space, a number determines the offset.
-/

namespace MyOS.SeqStream

universe u
variable {α : Type u}

/-- The number of the element at `off`, when the first one has number `base`. -/
def seqAt (base : UInt32) (off : Nat) : UInt32 := base + off.toUInt32

theorem toUInt32_add (m n : Nat) : (m + n).toUInt32 = m.toUInt32 + n.toUInt32 := by
  apply UInt32.toNat_inj.mp
  simp [Nat.toUInt32]

@[simp] theorem seqAt_zero (base : UInt32) : seqAt base 0 = base := UInt32.add_zero base

theorem seqAt_add (base : UInt32) (m n : Nat) : seqAt base (m + n) = seqAt base m + n.toUInt32 := by
  rw [seqAt, seqAt, toUInt32_add, UInt32.add_assoc]

theorem seqAt_seqAt (base : UInt32) (m n : Nat) : seqAt (seqAt base m) n = seqAt base (m + n) :=
  (seqAt_add base m n).symm

/-- The offset can be read back from the number. -/
theorem offset_seqAt (base : UInt32) {off : Nat} (short : off < 2 ^ 32) :
    (seqAt base off - base).toNat = off := by
  have cancel : seqAt base off - base = off.toUInt32 := by rw [seqAt]; grind
  rw [cancel]
  exact UInt32.toNat_ofNat_of_lt' short

theorem seqAt_inj {base : UInt32} {m n : Nat} (hm : m < 2 ^ 32) (hn : n < 2 ^ 32)
    (same : seqAt base m = seqAt base n) : m = n := by
  rw [← offset_seqAt base hm, same, offset_seqAt base hn]

/-- `piece` is what the stream holds from `off` on. -/
structure PieceAt (stream : List α) (off : Nat) (piece : List α) : Prop where
  inside : off + piece.length ≤ stream.length
  content : (stream.drop off).take piece.length = piece

/-- A piece that starts where a prefix ends makes it a longer prefix. -/
theorem PieceAt.extends {stream piece : List α} {off : Nat} (h : PieceAt stream off piece) :
    stream.take off ++ piece = stream.take (off + piece.length) := by
  rw [List.take_add, h.content]

/-! ## Pieces one behind the other -/

/-- Each piece has the number at which the one before it ended. -/
def Tiles (seq : α → UInt32) (len : α → Nat) : UInt32 → List α → UInt32 → Prop
  | start, [], stop => start = stop
  | start, p :: ps, stop => seq p = start ∧ Tiles seq len (seqAt start (len p)) ps stop

variable {seq : α → UInt32} {len : α → Nat} {start mid stop : UInt32} {ps qs : List α}

theorem Tiles.append (first : Tiles seq len start ps mid) (second : Tiles seq len mid qs stop) :
    Tiles seq len start (ps ++ qs) stop := by
  induction ps generalizing start with
  | nil =>
    cases first
    exact second
  | cons p ps ih => exact ⟨first.1, ih first.2⟩

/-- Empty pieces stay where they are. -/
theorem tiles_empty (empty : ∀ p ∈ ps, seq p = start ∧ len p = 0) :
    Tiles seq len start ps start := by
  induction ps with
  | nil => rfl
  | cons p ps ih =>
    obtain ⟨here, none⟩ := empty p List.mem_cons_self
    refine ⟨here, ?_⟩
    rw [none, seqAt_zero]
    exact ih fun q mem => empty q (List.mem_cons_of_mem p mem)

end MyOS.SeqStream
