import MyOS.Base.Written

/-!
# Buffers filled from the front

`Filled size o o' s` says that the buffer `o` of `size` bytes has become `o'` by
accesses inside it, and starts with `s` now. Each operation of a printer has its
rule.
-/

namespace MyOS

structure Filled (size : Nat) (o o' : Written) (s : List UInt8) : Prop where
  inside : Written.Within (· < size) o o'
  text : o'.bytes.Holds 0 s

/-- `n` exchanges, from the ends of the `len` bytes at `start` inwards. -/
def Written.exchange (o : Written) (start len n : Nat) : Written :=
  (List.range n).foldl (fun o i => o.swap (start + i) (start + len - 1 - i)) o

namespace Written

theorem bytes_swap (o : Written) (i k j : Nat) : (o.swap i k).bytes j =
    if j = k then o.bytes i else if j = i then o.bytes k else o.bytes j := by
  change ((o.bytes.set i (o.bytes k)).set k (o.bytes i)) j = _
  split
  · rename_i second
    simp only [second, Mem.set_same]
  · rename_i other
    rw [Mem.set_of_ne _ _ _ other]
    split
    · rename_i first
      simp only [first, Mem.set_same]
    · rename_i neither
      rw [Mem.set_of_ne _ _ _ neither]

theorem bytes_exchange (o : Written) (start : Nat) {len n : Nat} (half : 2 * n ≤ len) (j : Nat) :
    (o.exchange start len n).bytes j =
      if start ≤ j ∧ j < start + n ∨ start + len ≤ j + n ∧ j < start + len
      then o.bytes (2 * start + len - 1 - j) else o.bytes j := by
  induction n generalizing j with
  | zero =>
    rw [if_neg (by omega)]
    rfl
  | succ n ih =>
    have before := ih (by omega)
    simp only [Written.exchange, List.range_succ, List.foldl_append]
    change ((o.exchange start len n).swap (start + n) (start + len - 1 - n)).bytes j = _
    simp only [bytes_swap, before]
    split
    · rw [if_neg (by omega), if_pos (by omega)]
      congr 1
      omega
    · split
      · rw [if_neg (by omega), if_pos (by omega)]
        congr 1
        omega
      · rename_i neither other
        have same : (start ≤ j ∧ j < start + (n + 1) ∨
            start + len ≤ j + (n + 1) ∧ j < start + len) ↔
            (start ≤ j ∧ j < start + n ∨ start + len ≤ j + n ∧ j < start + len) := by omega
        simp only [same]

theorem Within.exchange {P : Nat → Prop} {o o' : Written} (h : Within P o o') {start len n : Nat}
    (inside : ∀ j, start ≤ j → j < start + len → P j) (half : 2 * n ≤ len) :
    Within P o (o'.exchange start len n) := by
  induction n with
  | zero => exact h
  | succ n ih =>
    simp only [Written.exchange, List.range_succ, List.foldl_append]
    exact (ih (by omega)).swap (inside _ (by omega) (by omega)) (inside _ (by omega) (by omega))

end Written

namespace Filled

variable {size : Nat} {o o' : Written} {s t : List UInt8}

theorem start (size : Nat) (o : Written) : Filled size o o [] :=
  ⟨.refl _ o, rfl⟩

theorem put (h : Filled size o o' s) (room : s.length < size) (c : UInt8) :
    Filled size o (o'.put s.length c) (s ++ [c]) := by
  refine ⟨h.inside.put room, (Mem.holds_append _ _ s [c]).mpr ⟨?_, ?_⟩⟩
  · exact (Mem.load_set o'.bytes 0 s.length c (.inr (by omega))).trans h.text
  · simp only [Nat.zero_add, Mem.holds_cons]
    exact ⟨Mem.set_same .., rfl⟩

theorem touch (h : Filled size o o' s) {i : Nat} (inside : i < size) :
    Filled size o (o'.touch i) s :=
  ⟨h.inside.touch inside, h.text⟩

theorem get (h : Filled size o o' s) {i : Nat} (here : i < s.length) : o'.bytes i = s[i] := by
  have place : i < (o'.bytes.load 0 s.length).length := by
    rw [Mem.length_load]
    exact here
  have byte := Mem.getElem_load o'.bytes 0 s.length place
  rw [Nat.zero_add] at byte
  exact byte.symm.trans (List.getElem_of_eq h.text place)

theorem of_bytes (inside : Written.Within (· < size) o o')
    (bytes : ∀ i, (here : i < s.length) → o'.bytes i = s[i]) : Filled size o o' s := by
  refine ⟨inside, List.ext_getElem (Mem.length_load ..) fun i _ here => ?_⟩
  simp only [Mem.getElem_load, Nat.zero_add]
  exact bytes i here

theorem front (h : Filled size o o' (s ++ t)) : Filled size o o' s :=
  ⟨h.inside, ((Mem.holds_append _ 0 s t).mp h.text).1⟩

/-- The rest is turned around in place. -/
theorem reverse (h : Filled size o o' (s ++ t)) (room : (s ++ t).length ≤ size) :
    Filled size o (o'.exchange s.length t.length (t.length / 2)) (s ++ t.reverse) := by
  rw [List.length_append] at room
  have half : 2 * (t.length / 2) ≤ t.length := Nat.mul_div_le ..
  refine of_bytes (h.inside.exchange ?_ half) fun i here => ?_
  · intro j low high
    omega
  · rw [List.length_append, List.length_reverse] at here
    rw [Written.bytes_exchange _ _ half]
    split
    · rename_i moved
      rw [h.get (by rw [List.length_append]; omega), List.getElem_append_right (by omega),
        List.getElem_append_right (by omega), List.getElem_reverse]
      congr 1
      omega
    · rename_i kept
      rw [h.get (by rw [List.length_append]; omega)]
      by_cases front : i < s.length
      · rw [List.getElem_append_left front, List.getElem_append_left front]
      · -- the byte in the middle, which stays
        rw [List.getElem_append_right (by omega), List.getElem_append_right (by omega),
          List.getElem_reverse]
        congr 1
        omega

end Filled

end MyOS
