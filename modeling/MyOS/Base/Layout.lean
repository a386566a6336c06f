import Mathlib.Data.List.TakeWhile
import Mathlib.Tactic.Common

/-!
# Text laid out in lines

A text is divided at a separator, and what stands between two separators is divided
again where it is wider than a line. The layout keeps everything but the separators.
-/

namespace MyOS.Layout

universe u

section
variable {α : Type u} {width : Nat} {l : List α}

/-- A line of its own for every `width` elements; an empty field is an empty line. -/
def pieces (width : Nat) (l : List α) : List (List α) :=
  if _wide : 0 < width ∧ width < l.length then l.take width :: pieces width (l.drop width) else [l]
termination_by l.length
decreasing_by
  rw [List.length_drop]
  omega

theorem pieces_narrow (narrow : l.length ≤ width) : pieces width l = [l] := by
  rw [pieces, dif_neg (by omega)]

theorem pieces_wide (some : 0 < width) (wide : width < l.length) :
    pieces width l = l.take width :: pieces width (l.drop width) := by
  rw [pieces, dif_pos ⟨some, wide⟩]

theorem flatten_pieces (width : Nat) (l : List α) : (pieces width l).flatten = l := by
  fun_induction pieces width l with
  | case1 l wide ih => rw [List.flatten_cons, ih, List.take_append_drop]
  | case2 l narrow => exact List.flatten_singleton

end

section
variable {α : Type u} [DecidableEq α] {sep : α} {width : Nat} {l : List α}

/-- What stands between the separators. Behind the last separator there is one only
if the text goes on. -/
def fields (sep : α) (l : List α) : List (List α) :=
  let fs := l.splitOn sep
  if fs.getLast? = some [] then fs.dropLast else fs

def layout (sep : α) (width : Nat) (l : List α) : List (List α) :=
  (fields sep l).flatMap (pieces width)

/-- The first line of a text, and what follows it with its separator. -/
def nextLine (sep : α) (width : Nat) (l : List α) : List α × List α :=
  let line := (l.takeWhile (· ≠ sep)).take width
  let rest := l.drop line.length
  (line, if rest.head? = some sep then rest.tail else rest)

theorem fields_nil (sep : α) : fields sep [] = [] := by
  simp [fields]

theorem fields_last (some : l ≠ []) (plain : sep ∉ l) : fields sep l = [l] := by
  rw [fields, List.splitOn_eq_singleton plain, List.getLast?_singleton, if_neg]
  intro empty
  exact some (Option.some.inj empty)

theorem fields_cons (plain : sep ∉ l) (rest : List α) :
    fields sep (l ++ sep :: rest) = l :: fields sep rest := by
  have whole : rest.splitOn sep ≠ [] := by simp
  have last : (l :: rest.splitOn sep).getLast? = (rest.splitOn sep).getLast? := by
    obtain ⟨s, ss, cons⟩ := List.exists_cons_of_ne_nil whole
    rw [cons, List.getLast?_cons_cons]
  rw [fields, List.splitOn_append_cons_self_of_not_mem plain, last, fields]
  split
  · exact List.dropLast_cons_of_ne_nil whole
  · rfl

theorem layout_nil (sep : α) (width : Nat) : layout sep width [] = [] := by
  rw [layout, fields_nil, List.flatMap_nil]

theorem layout_last (some : l ≠ []) (plain : sep ∉ l) : layout sep width l = pieces width l := by
  rw [layout, fields_last some plain, List.flatMap_singleton]

theorem layout_cons (plain : sep ∉ l) (rest : List α) :
    layout sep width (l ++ sep :: rest) = pieces width l ++ layout sep width rest := by
  rw [layout, fields_cons plain, List.flatMap_cons, layout]

/-- A text is a field alone, or one with a separator and more text behind it. -/
theorem text_cases (sep : α) (l : List α) :
    sep ∉ l ∨ ∃ field rest, sep ∉ field ∧ l = field ++ sep :: rest := by
  by_cases divided : sep ∈ l
  · obtain ⟨field, rest, parts, plain⟩ := List.eq_append_cons_of_mem divided
    exact .inr ⟨field, rest, plain, parts⟩
  · exact .inl divided

theorem takeWhile_plain (plain : sep ∉ l) : l.takeWhile (· ≠ sep) = l := by
  apply List.takeWhile_eq_self_iff.mpr
  intro c mem
  exact decide_eq_true fun same => plain (same ▸ mem)

theorem takeWhile_field (plain : sep ∉ l) (rest : List α) :
    (l ++ sep :: rest).takeWhile (· ≠ sep) = l := by
  have inside : ∀ c ∈ l, decide (c ≠ sep) = true := fun c mem =>
    decide_eq_true fun same => plain (same ▸ mem)
  rw [List.takeWhile_append_of_pos inside]
  simp

/-- The layout line by line. -/
theorem layout_next (width_pos : 0 < width) (some : l ≠ []) :
    layout sep width l = (nextLine sep width l).1 :: layout sep width (nextLine sep width l).2 := by
  rcases text_cases sep l with plain | ⟨field, more, plain, rfl⟩
  · have line : (nextLine sep width l).1 = l.take width := by
      rw [nextLine, takeWhile_plain plain]
    have rest : (nextLine sep width l).2 = l.drop width := by
      simp only [nextLine, takeWhile_plain plain]
      rw [if_neg]
      · rw [List.length_take]
        rcases Nat.le_total width l.length with wide | narrow
        · rw [Nat.min_eq_left wide]
        · rw [Nat.min_eq_right narrow, List.drop_length, List.drop_eq_nil_of_le narrow]
      · intro first
        exact plain (List.mem_of_mem_drop (List.mem_of_mem_head? first))
    rw [line, rest, layout_last some plain]
    by_cases wide : width < l.length
    · have more : l.drop width ≠ [] := fun none => by
        have := List.drop_eq_nil_iff.mp none
        omega
      rw [pieces_wide width_pos wide, layout_last more fun mem => plain (List.mem_of_mem_drop mem)]
    · rw [pieces_narrow (by omega), List.drop_eq_nil_of_le (by omega), layout_nil,
        List.take_of_length_le (by omega)]
  · have line : (nextLine sep width (field ++ sep :: more)).1 = field.take width := by
      rw [nextLine, takeWhile_field plain]
    rw [line, layout_cons plain]
    by_cases wide : width < field.length
    · have rest : (nextLine sep width (field ++ sep :: more)).2 =
          field.drop width ++ sep :: more := by
        simp only [nextLine, takeWhile_field plain]
        rw [List.length_take, Nat.min_eq_left (by omega),
          List.drop_append_of_le_length (by omega), if_neg]
        intro first
        obtain ⟨c, tail, cons⟩ := List.exists_cons_of_ne_nil (fun none => by
          have := List.drop_eq_nil_iff.mp none
          omega : field.drop width ≠ [])
        rw [cons, List.cons_append, List.head?_cons] at first
        have mem : c ∈ field := List.mem_of_mem_drop (cons ▸ List.mem_cons_self)
        exact plain (Option.some.inj first ▸ mem)
      rw [pieces_wide width_pos wide, rest, layout_cons fun mem => plain (List.mem_of_mem_drop mem)]
      rfl
    · have rest : (nextLine sep width (field ++ sep :: more)).2 = more := by
        simp only [nextLine, takeWhile_field plain]
        rw [List.take_of_length_le (by omega), List.drop_left, List.head?_cons, if_pos rfl,
          List.tail_cons]
      rw [pieces_narrow (by omega), rest, List.take_of_length_le (by omega)]
      rfl

theorem layout_eq_nil_iff (sep : α) (width_pos : 0 < width) : layout sep width l = [] ↔ l = [] := by
  constructor
  · intro none
    by_contra some
    rw [layout_next width_pos some] at none
    cases none
  · rintro rfl
    exact layout_nil sep width

theorem filter_plain (plain : sep ∉ l) : l.filter (· ≠ sep) = l := by
  apply List.filter_eq_self.mpr
  intro c mem
  exact decide_eq_true fun same => plain (same ▸ mem)

/-- Nothing but the separators is lost. -/
theorem flatten_layout (sep : α) (width : Nat) (l : List α) :
    (layout sep width l).flatten = l.filter (· ≠ sep) := by
  rcases text_cases sep l with plain | ⟨field, rest, plain, rfl⟩
  · rw [filter_plain plain]
    by_cases some : l = []
    · rw [some, layout_nil, List.flatten_nil]
    · rw [layout_last some plain, flatten_pieces]
  · have shorter : rest.length < (field ++ sep :: rest).length := by
      rw [List.length_append, List.length_cons]
      omega
    rw [layout_cons plain, List.flatten_append, flatten_pieces, flatten_layout sep width rest,
      List.filter_append, filter_plain plain, List.filter_cons_of_neg (by simp)]
termination_by l.length

end

end MyOS.Layout
