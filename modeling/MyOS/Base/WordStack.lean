import Mathlib.Logic.Function.Basic
import Mathlib.Tactic.Common

/-!
# A stack of words in memory

Words are kept by their address and the stack grows downwards, four bytes a
word. Addresses wrap round, so a stack holds less than the address space.
-/

namespace MyOS.WordStack

abbrev Words := UInt32 → UInt32

/-- The words from address `p` upwards, the top of the stack first. -/
def Holds (m : Words) : UInt32 → List UInt32 → Prop
  | _, [] => True
  | p, w :: ws => m p = w ∧ Holds m (p + 4) ws

variable {m m' : Words} {p : UInt32} {w : UInt32} {ws : List UInt32}

theorem Holds.top (holds : Holds m p (w :: ws)) : m p = w := holds.1

theorem add_four (p : UInt32) (i : Nat) :
    p + 4 + 4 * UInt32.ofNat i = p + 4 * UInt32.ofNat (i + 1) := by
  rw [UInt32.ofNat_add, UInt32.mul_add, UInt32.add_assoc, UInt32.add_comm 4]
  rfl

theorem Holds.get (holds : Holds m p ws) {i : Nat} (at_i : ws[i]? = some w) :
    m (p + 4 * UInt32.ofNat i) = w := by
  induction ws generalizing p i with
  | nil => cases at_i
  | cons v ws ih =>
    cases i with
    | zero =>
      cases at_i
      have here : p + 4 * UInt32.ofNat 0 = p := UInt32.add_zero p
      rw [here]
      exact holds.1
    | succ i =>
      rw [← add_four]
      exact ih holds.2 at_i

/-- Only the words themselves matter. -/
theorem Holds.congr (holds : Holds m p ws)
    (same : ∀ i < ws.length, m' (p + 4 * UInt32.ofNat i) = m (p + 4 * UInt32.ofNat i)) :
    Holds m' p ws := by
  induction ws generalizing p with
  | nil => trivial
  | cons v ws ih =>
    constructor
    · have here : p + 4 * UInt32.ofNat 0 = p := UInt32.add_zero p
      have first := same 0 (Nat.zero_lt_succ _)
      rw [here] at first
      exact first.trans holds.1
    · apply ih holds.2
      intro i inside
      rw [add_four]
      exact same (i + 1) (Nat.succ_lt_succ inside)

/-- The word below the top is none of those on the stack. -/
theorem below_ne {i : Nat} (room : 4 * (i + 1) < UInt32.size) :
    p + 4 * UInt32.ofNat i ≠ p - 4 := by
  intro same
  have size : UInt32.size = 4294967296 := rfl
  have value := congrArg UInt32.toNat same
  have := p.toNat_lt
  simp only [UInt32.toNat_add, UInt32.toNat_mul, UInt32.toNat_sub, UInt32.toNat_ofNat',
    UInt32.toNat_ofNat] at value
  omega

theorem Holds.update (holds : Holds m p ws) (room : 4 * ws.length < UInt32.size) (w : UInt32) :
    Holds (Function.update m (p - 4) w) (p - 4) (w :: ws) := by
  constructor
  · exact Function.update_self ..
  · rw [UInt32.sub_add_cancel]
    apply holds.congr
    intro i inside
    exact Function.update_of_ne (below_ne (by omega)) ..

/-! ## The stack as a machine uses it -/

structure Stack where
  esp : UInt32
  mem : Words

namespace Stack

def push (s : Stack) (w : UInt32) : Stack := ⟨s.esp - 4, Function.update s.mem (s.esp - 4) w⟩

def pushAll (s : Stack) (l : List UInt32) : Stack := l.foldl push s

/-- The word on top. -/
def top (s : Stack) : UInt32 := s.mem s.esp

def drop (s : Stack) (n : Nat) : Stack := { s with esp := s.esp + 4 * UInt32.ofNat n }

/-- The words from the top on. -/
def On (s : Stack) (ws : List UInt32) : Prop := Holds s.mem s.esp ws

variable {s : Stack} {l : List UInt32}

theorem On.push (on : On s ws) (room : 4 * ws.length < UInt32.size) (w : UInt32) :
    On (s.push w) (w :: ws) := Holds.update on room w

theorem On.pushAll (on : On s ws) (room : 4 * (ws.length + l.length) ≤ UInt32.size) :
    On (s.pushAll l) (l.reverse ++ ws) := by
  induction l generalizing s ws with
  | nil => exact on
  | cons w l ih =>
    rw [List.length_cons] at room
    have rest := ih (on.push (by omega) w) (by rw [List.length_cons]; omega)
    rw [List.reverse_cons, List.append_assoc, List.singleton_append]
    exact rest

theorem On.top (on : On s (w :: ws)) : s.top = w := on.1

theorem On.word (on : On s ws) {i : Nat} (at_i : ws[i]? = some w) : (s.drop i).top = w :=
  Holds.get on at_i

theorem drop_drop (s : Stack) (n k : Nat) : (s.drop n).drop k = s.drop (n + k) := by
  simp only [drop, UInt32.ofNat_add, UInt32.mul_add, UInt32.add_assoc]

theorem On.drop (on : On s ws) (n : Nat) : On (s.drop n) (ws.drop n) := by
  induction n generalizing s ws with
  | zero =>
    have here : s.drop 0 = s := by
      rw [Stack.drop]
      exact congrArg (Stack.mk · s.mem) (UInt32.add_zero s.esp)
    rw [here]
    exact on
  | succ n ih =>
    cases ws with
    | nil => trivial
    | cons w ws =>
      rw [Nat.add_comm, ← drop_drop, Nat.add_comm, List.drop_succ_cons]
      exact ih on.2

theorem esp_pushAll (s : Stack) (l : List UInt32) :
    (s.pushAll l).esp + 4 * UInt32.ofNat l.length = s.esp := by
  induction l generalizing s with
  | nil => exact UInt32.add_zero s.esp
  | cons w l ih =>
    have rest := ih (s.push w)
    rw [List.length_cons, ← add_four, UInt32.add_assoc, UInt32.add_comm 4, ← UInt32.add_assoc]
    have next := congrArg (· + 4) rest
    exact next.trans (UInt32.sub_add_cancel ..)

end Stack

end MyOS.WordStack
