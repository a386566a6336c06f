import Mathlib.Data.List.Basic
import Mathlib.Tactic.Common

/-!
# Nested spans

A text is read from its start on; spans are opened, and the one opened last is
closed first. Listed in the order of their starts, a span lies inside an earlier
one or behind it.
-/

namespace MyOS.Nested

universe u
variable {α : Type u}

/-- The index of the last element that satisfies `p`. -/
def lastIdx (p : α → Bool) : List α → Option Nat
  | [] => none
  | x :: xs =>
    match lastIdx p xs with
    | some i => some (i + 1)
    | none => if p x then some 0 else none

section
variable {p : α → Bool} {l a b : List α} {x : α} {i : Nat}

theorem lastIdx_none_iff : lastIdx p l = none ↔ ∀ x ∈ l, p x = false := by
  induction l with
  | nil => exact iff_of_true rfl fun _ mem => nomatch mem
  | cons x xs ih =>
    rw [lastIdx]
    cases later : lastIdx p xs with
    | some i =>
      rw [later] at ih
      exact iff_of_false (nomatch ·) fun none => nomatch ih.mpr fun y mem => none y (.tail _ mem)
    | none =>
      have rest := ih.mp later
      cases here : p x with
      | true =>
        exact iff_of_false (nomatch ·) fun none => nomatch (none x (.head _)).symm.trans here
      | false =>
        refine iff_of_true rfl fun y mem => ?_
        rcases List.mem_cons.mp mem with rfl | mem
        · exact here
        · exact rest y mem

/-- What stands behind the last one decides nothing. -/
theorem lastIdx_append (none : lastIdx p b = none) : lastIdx p (a ++ b) = lastIdx p a := by
  induction a with
  | nil => exact none
  | cons x xs ih => rw [List.cons_append, lastIdx, ih, lastIdx]

theorem lastIdx_append_cons (sat : p x = true) (none : lastIdx p b = none) :
    lastIdx p (a ++ x :: b) = some a.length := by
  induction a with
  | nil => rw [List.nil_append, lastIdx, none, if_pos sat, List.length_nil]
  | cons y ys ih => rw [List.cons_append, lastIdx, ih, List.length_cons]

theorem lastIdx_split (last : lastIdx p l = some i) :
    ∃ a x b, l = a ++ x :: b ∧ a.length = i ∧ p x = true ∧ lastIdx p b = none := by
  induction l generalizing i with
  | nil => cases last
  | cons x xs ih =>
    rw [lastIdx] at last
    cases later : lastIdx p xs with
    | some j =>
      rw [later] at last
      obtain ⟨a, y, b, rfl, length, sat, none⟩ := ih later
      cases last
      exact ⟨x :: a, y, b, rfl, by rw [List.length_cons, length], sat, none⟩
    | none =>
      rw [later] at last
      by_cases here : p x
      · simp only [here, if_true] at last
        cases last
        exact ⟨[], x, xs, rfl, rfl, here, later⟩
      · simp only [here] at last
        cases last

theorem lastIdx_map {β : Type*} (f : β → α) (l : List β) :
    lastIdx p (l.map f) = lastIdx (p ∘ f) l := by
  induction l with
  | nil => rfl
  | cons x xs ih => rw [List.map_cons, lastIdx, lastIdx, ih, Function.comp_apply]

/-- It depends on `p` alone. -/
theorem lastIdx_congr {β : Type*} {q : β → Bool} {l' : List β} (same : l.map p = l'.map q) :
    lastIdx p l = lastIdx q l' := by
  have left := lastIdx_map (p := id) p l
  have right := lastIdx_map (p := id) q l'
  rw [same] at left
  exact left.symm.trans right

end

/-! ## One element of a list -/

section
variable {a b : List α} {x : α} {i : Nat}

theorem exists_append_cons {l : List α} (inside : i < l.length) :
    ∃ a x b, l = a ++ x :: b ∧ a.length = i := by
  refine ⟨l.take i, l[i], l.drop (i + 1), ?_, List.length_take_of_le (Nat.le_of_lt inside)⟩
  rw [← List.drop_eq_getElem_cons inside, List.take_append_drop]

theorem modify_append_cons (f : α → α) : (a ++ x :: b).modify a.length f = a ++ f x :: b := by
  induction a with
  | nil => rfl
  | cons y a ih =>
    rw [List.cons_append, List.length_cons, List.modify_succ_cons, ih, List.cons_append]

theorem mem_modify {l : List α} {f : α → α} {y : α} (mem : y ∈ l.modify i f) :
    y ∈ l ∨ ∃ x ∈ l, y = f x := by
  by_cases inside : i < l.length
  · obtain ⟨a, x, b, rfl, rfl⟩ := exists_append_cons inside
    rw [modify_append_cons] at mem
    rcases List.mem_append.mp mem with mem | mem
    · exact .inl (List.mem_append_left _ mem)
    · rcases List.mem_cons.mp mem with rfl | mem
      · exact .inr ⟨x, by simp, rfl⟩
      · exact .inl (List.mem_append_right _ (.tail _ mem))
  · rw [List.modify_eq_self (Nat.not_lt.mp inside)] at mem
    exact .inl mem

/-- A change that a relation does not see. -/
theorem pairwise_modify {R : α → α → Prop} {l : List α} {f : α → α}
    (left : ∀ x y, R x y → R (f x) y) (right : ∀ x y, R x y → R x (f y)) (all : l.Pairwise R) :
    (l.modify i f).Pairwise R := by
  by_cases inside : i < l.length
  · obtain ⟨a, x, b, rfl, rfl⟩ := exists_append_cons inside
    rw [modify_append_cons]
    obtain ⟨front, back, cross⟩ := List.pairwise_append.mp all
    obtain ⟨first, rest⟩ := List.pairwise_cons.mp back
    refine List.pairwise_append.mpr ⟨front, List.pairwise_cons.mpr ⟨?_, rest⟩, ?_⟩
    · exact fun y mem => left x y (first y mem)
    · intro y mem z below
      rcases List.mem_cons.mp below with rfl | below
      · exact right y x (cross y mem x (.head _))
      · exact cross y mem z (.tail _ below)
  · rwa [List.modify_eq_self (Nat.not_lt.mp inside)]

theorem map_modify {β : Type*} {l : List α} {f : α → α} {g : α → β} (same : ∀ x, g (f x) = g x) :
    (l.modify i f).map g = l.map g := by
  by_cases inside : i < l.length
  · obtain ⟨a, x, b, rfl, rfl⟩ := exists_append_cons inside
    rw [modify_append_cons, List.map_append, List.map_append, List.map_cons, List.map_cons, same]
  · rw [List.modify_eq_self (Nat.not_lt.mp inside)]

end

/-! ## Spans -/

/-- From `start` up to `stop`, or still open. -/
structure Extent where
  start : Nat
  stop : Option Nat

def Extent.isOpen (s : Extent) : Bool := s.stop.isNone

/-- The span `b`, which begins behind the start of `a`, lies behind `a` or inside it. -/
def Follows (a b : Extent) : Prop :=
  a.start < b.start ∧ ∀ e, a.stop = some e → e ≤ b.start ∨ ∃ e', b.stop = some e' ∧ e' < e

/-- The spans of a text that has been read up to `now`. -/
structure Laminar (now : Nat) (l : List Extent) : Prop where
  follows : l.Pairwise Follows
  inside : ∀ s ∈ l, s.start < now ∧ ∀ e, s.stop = some e → s.start ≤ e ∧ e ≤ now

namespace Laminar

variable {now now' : Nat} {l a b : List Extent}

theorem nil (now : Nat) : Laminar now [] := ⟨.nil, fun _ mem => nomatch mem⟩

theorem mono (lam : Laminar now l) (later : now ≤ now') : Laminar now' l where
  follows := lam.follows
  inside s mem :=
    ⟨Nat.lt_of_lt_of_le (lam.inside s mem).1 later,
      fun e stop =>
        ⟨((lam.inside s mem).2 e stop).1, Nat.le_trans ((lam.inside s mem).2 e stop).2 later⟩⟩

/-- A span that begins at or behind the end of the text read. -/
theorem push (lam : Laminar now l) {s : Extent} (behind : now ≤ s.start) (start : s.start < now')
    (stop : ∀ e, s.stop = some e → s.start ≤ e ∧ e ≤ now') : Laminar now' (l ++ [s]) where
  follows := by
    refine List.pairwise_append.mpr ⟨lam.follows, List.pairwise_singleton .., ?_⟩
    intro x mem y last
    rw [List.mem_singleton.mp last]
    obtain ⟨before, ended⟩ := lam.inside x mem
    exact ⟨Nat.lt_of_lt_of_le before behind,
      fun e stop => .inl (Nat.le_trans (ended e stop).2 behind)⟩
  inside x mem := by
    rcases List.mem_append.mp mem with mem | last
    · exact (lam.mono (Nat.le_trans behind (Nat.le_of_lt start))).inside x mem
    · rw [List.mem_singleton.mp last]
      exact ⟨start, stop⟩

/-- The span opened last is closed. -/
theorem close {st : Nat} (lam : Laminar now (a ++ ⟨st, none⟩ :: b))
    (closed : lastIdx Extent.isOpen b = none) {e : Nat} (behind : now < e) (read : e ≤ now') :
    Laminar now' (a ++ ⟨st, some e⟩ :: b) where
  follows := by
    obtain ⟨left, right, cross⟩ := List.pairwise_append.mp lam.follows
    obtain ⟨first, rest⟩ := List.pairwise_cons.mp right
    refine List.pairwise_append.mpr ⟨left, List.pairwise_cons.mpr ⟨?_, rest⟩, ?_⟩
    · intro y mem
      refine ⟨(first y mem).1, fun d stop => ?_⟩
      cases stop
      have inner := lastIdx_none_iff.mp closed y mem
      obtain ⟨d, ended⟩ := Option.isSome_iff_exists.mp (Option.isNone_eq_false_iff.mp inner)
      have below := ((lam.inside y (by simp [mem])).2 d ended).2
      exact .inr ⟨d, ended, Nat.lt_of_le_of_lt below behind⟩
    · intro x mem y below
      rcases List.mem_cons.mp below with rfl | below
      · obtain ⟨before, apart⟩ := cross x mem ⟨st, none⟩ (.head _)
        refine ⟨before, fun d stop => ?_⟩
        rcases apart d stop with behind | ⟨d', ended, -⟩
        · exact .inl behind
        · cases ended
      · exact cross x mem y (.tail _ below)
  inside x mem := by
    rcases List.mem_append.mp mem with mem | mem
    · exact (lam.mono (Nat.le_trans (Nat.le_of_lt behind) read)).inside x (by simp [mem])
    · rcases List.mem_cons.mp mem with rfl | mem
      · have before : st < now := (lam.inside ⟨st, none⟩ (by simp)).1
        have reached : st < e := Nat.lt_trans before behind
        refine ⟨Nat.lt_of_lt_of_le reached read, fun d stop => ?_⟩
        cases stop
        exact ⟨Nat.le_of_lt reached, read⟩
      · exact (lam.mono (Nat.le_trans (Nat.le_of_lt behind) read)).inside x (by simp [mem])

end Laminar

end MyOS.Nested
