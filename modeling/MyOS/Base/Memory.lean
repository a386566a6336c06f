import Mathlib.Algebra.Order.Ring.Nat
import Mathlib.Tactic.Common
import Mathlib.Logic.Function.Basic

/-!
# Byte memory

A pointer is modelled by the bytes it gives access to. Nothing stops a read
past the object the pointer came from: bounds are statements about offsets.
-/

namespace MyOS

/-- The bytes reached through a pointer, by their offset from it. -/
abbrev Mem := Nat → UInt8

namespace Mem

/-- The memory that starts with `bytes` and is zero behind them. -/
def ofList (bytes : List UInt8) : Mem := fun i => bytes.getD i 0

/-- Pointer arithmetic: the pointer `off` bytes further on. -/
def advance (m : Mem) (off : Nat) : Mem := fun i => m (off + i)

/-- One byte written. -/
def set (m : Mem) (off : Nat) (b : UInt8) : Mem := Function.update m off b

/-- The `n` bytes from offset `off` on. -/
def load (m : Mem) (off n : Nat) : List UInt8 := (List.range n).map fun i => m (off + i)

/-- The memory after `bytes` have been written at offset `off`. -/
def store (m : Mem) (off : Nat) (bytes : List UInt8) : Mem :=
  fun i => if off ≤ i then bytes[i - off]?.getD (m i) else m i

variable (m : Mem) (off n : Nat) (bytes : List UInt8)

@[simp] theorem set_same (b : UInt8) : m.set off b off = b := Function.update_self ..

theorem set_of_ne {i : Nat} (b : UInt8) (h : i ≠ off) : m.set off b i = m i :=
  Function.update_of_ne h ..

@[simp] theorem length_load : (m.load off n).length = n := by simp [load]

@[simp] theorem load_zero : m.load off 0 = [] := rfl

@[simp] theorem getElem_load {i : Nat} (h : i < (m.load off n).length) :
    (m.load off n)[i] = m (off + i) := by simp [load]

theorem load_congr {m m' : Mem} {off off' n : Nat}
    (h : ∀ i < n, m (off + i) = m' (off' + i)) : m.load off n = m'.load off' n := by
  apply List.ext_getElem (by simp)
  intro i hi _
  simpa using h i (by simpa using hi)

theorem load_add (a b : Nat) : m.load off (a + b) = m.load off a ++ m.load (off + a) b := by
  simp [load, List.range_add, Nat.add_assoc]

theorem store_inside {i : Nat} (h : i < bytes.length) : m.store off bytes (off + i) = bytes[i] := by
  simp [store, h]

theorem store_outside {i : Nat} (h : i < off ∨ off + bytes.length ≤ i) :
    m.store off bytes i = m i := by
  rcases h with h | h
  · simp [store, Nat.not_le.mpr h]
  · simp only [store]
    rw [if_pos (by omega), List.getElem?_eq_none (by omega), Option.getD_none]

@[simp] theorem store_nil : m.store off [] = m := by
  funext i
  simp [store]

theorem load_store : (m.store off bytes).load off bytes.length = bytes := by
  apply List.ext_getElem (by simp)
  intro i hi _
  simp [store_inside m off bytes (by simpa using hi)]

theorem store_load : m.store off (m.load off n) = m := by
  funext i
  by_cases h : off ≤ i ∧ i < off + n
  · obtain ⟨k, rfl⟩ := Nat.exists_eq_add_of_le h.1
    have hk : k < (m.load off n).length := by rw [length_load]; omega
    rw [store_inside _ _ _ hk, getElem_load]
  · exact store_outside _ _ _ (by rw [length_load]; omega)

/-- A write does not reach the bytes before it. -/
theorem load_store_before {at' : Nat} (h : at' + n ≤ off) :
    (m.store off bytes).load at' n = m.load at' n := by
  apply load_congr
  intro i hi
  exact store_outside m off bytes (by omega)

theorem store_singleton (b : UInt8) : m.store off [b] = m.set off b := by
  funext i
  by_cases h : i = off
  · subst h; simp [store]
  · rw [store_outside _ _ _ (by simp only [List.length_singleton]; omega), set_of_ne _ _ _ h]

/-- A write can be made in two parts, and the parts in either order. -/
theorem store_append (a b : List UInt8) :
    m.store off (a ++ b) = (m.store off a).store (off + a.length) b ∧
    m.store off (a ++ b) = (m.store (off + a.length) b).store off a := by
  refine ⟨funext fun i => ?_, funext fun i => ?_⟩ <;>
    simp only [store, List.getElem?_append, Nat.sub_sub]
  all_goals
    rcases Nat.lt_or_ge i off with low | high
    · simp [show ¬ off ≤ i by omega, show ¬ off + a.length ≤ i by omega]
    · by_cases inside : i - off < a.length
      · simp [high, inside, show ¬ off + a.length ≤ i by omega]
      · simp [high, inside, show off + a.length ≤ i by omega]

theorem store_cons (b : UInt8) (bs : List UInt8) :
    m.store off (b :: bs) = (m.set off b).store (off + 1) bs := by
  simpa only [List.singleton_append, store_singleton, List.length_singleton] using
    (store_append m off [b] bs).1

theorem store_concat (b : UInt8) (bs : List UInt8) :
    m.store off (bs ++ [b]) = (m.set (off + bs.length) b).store off bs := by
  simpa only [store_singleton] using (store_append m off bs [b]).2

theorem load_succ : m.load off (n + 1) = m off :: m.load (off + 1) n := by
  rw [Nat.add_comm, load_add]
  rfl

theorem load_concat : m.load off (n + 1) = m.load off n ++ [m (off + n)] := by
  rw [load_add]
  rfl

/-- A byte written outside a range is not seen by loads of the range. -/
theorem load_set {i : Nat} (b : UInt8) (h : i < off ∨ off + n ≤ i) :
    (m.set i b).load off n = m.load off n := by
  apply load_congr
  intro j hj
  exact set_of_ne _ _ _ (by omega)

/-- Appending behind what a buffer already holds. -/
theorem load_store_append (a : Nat) :
    (m.store a bytes).load 0 (a + bytes.length) = m.load 0 a ++ bytes := by
  rw [load_add, load_store_before m a a bytes (by omega), Nat.zero_add, load_store]

theorem load_ofList {a k : Nat} (h : a + k ≤ bytes.length) :
    (ofList bytes).load a k = (bytes.drop a).take k := by
  apply List.ext_getElem (by simp; omega)
  intro i hi _
  have : a + i < bytes.length := by simp at hi; omega
  simp [ofList, this]

/-- `bytes` stand at `off`. -/
def Holds (m : Mem) (off : Nat) (bytes : List UInt8) : Prop := m.load off bytes.length = bytes

theorem holds_cons (b : UInt8) (bs : List UInt8) :
    m.Holds off (b :: bs) ↔ m off = b ∧ m.Holds (off + 1) bs := by
  rw [Holds, List.length_cons, load_succ, List.cons.injEq, Holds]

theorem holds_append (a b : List UInt8) :
    m.Holds off (a ++ b) ↔ m.Holds off a ∧ m.Holds (off + a.length) b := by
  rw [Holds, List.length_append, load_add]
  constructor
  · intro both
    exact List.append_inj both (length_load ..)
  · rintro ⟨first, second⟩
    rw [first, second]

theorem holds_advance (start : Nat) :
    (m.advance start).Holds off bytes ↔ m.Holds (start + off) bytes := by
  have same : (m.advance start).load off bytes.length = m.load (start + off) bytes.length := by
    apply load_congr
    intro i _
    rw [advance, Nat.add_assoc]
  rw [Holds, Holds, same]

theorem holds_ofList (more : List UInt8) : (ofList (bytes ++ more)).Holds 0 bytes := by
  rw [Holds, load_ofList _ (by simp), List.drop_zero, List.take_left']
  rfl

/-- Of writes one after the other, the last one over a place decides what it holds. -/
theorem foldl_store {α : Type*} (place : α → Nat) (part : α → List UInt8) (xs : List α) (i : Nat) :
    xs.foldl (fun m x => m.store (place x) (part x)) m i =
      match xs.reverse.find? fun x => place x ≤ i ∧ i < place x + (part x).length with
      | some x => (part x).getD (i - place x) 0
      | none => m i := by
  induction xs generalizing m with
  | nil => rfl
  | cons x xs ih =>
    rw [List.foldl_cons, ih, List.reverse_cons, List.find?_append]
    cases xs.reverse.find? fun x => place x ≤ i ∧ i < place x + (part x).length with
    | some y => rfl
    | none =>
      by_cases covered : place x ≤ i ∧ i < place x + (part x).length
      · have inside : i - place x < (part x).length := by omega
        simp [store, covered, inside]
      · have outside : m.store (place x) (part x) i = m i := store_outside _ _ _ (by omega)
        simp [covered, outside]

/-! ## Words in native byte order -/

/-- `*(const uint16_t*)(p + off)` on a little-endian machine. -/
def load16 (m : Mem) (off : Nat) : UInt16 := (m off).toUInt16 ||| (m (off + 1)).toUInt16 <<< 8

/-- `*(const uint32_t*)(p + off)` on a little-endian machine. -/
def load32 (m : Mem) (off : Nat) : UInt32 :=
  (m off).toUInt32 ||| (m (off + 1)).toUInt32 <<< 8 ||| (m (off + 2)).toUInt32 <<< 16 |||
    (m (off + 3)).toUInt32 <<< 24

end Mem

/-- The two bytes of a word in native (little-endian) order. -/
def bytes16 (x : UInt16) : List UInt8 := [x.toUInt8, (x >>> 8).toUInt8]

/-- The four bytes of a word in native (little-endian) order. -/
def bytes32 (x : UInt32) : List UInt8 :=
  [x.toUInt8, (x >>> 8).toUInt8, (x >>> 16).toUInt8, (x >>> 24).toUInt8]

@[simp] theorem length_bytes16 (x : UInt16) : (bytes16 x).length = 2 := rfl

@[simp] theorem length_bytes32 (x : UInt32) : (bytes32 x).length = 4 := rfl

end MyOS
