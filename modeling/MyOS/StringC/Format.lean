import MyOS.Base.Filled
import MyOS.StringC

/-!
string.c: `snprintf`, byte by byte. The buffer starts at offset 0, and a string
argument is the bytes before its NUL.
-/

namespace MyOS.Format

/-- `while (*s && i < size-1) buf[i++] = *s++;` with `i` behind the buffer. -/
def copyArg (cap : Nat) : List UInt8 → Written × Nat → Written × Nat
  | [], o => o
  | c :: s, (o, i) => if i < cap then copyArg cap s (o.put i c, i + 1) else (o, i)

/-- `for (const char *p = fmt; *p && i < size-1; ++p)` -/
def formatLoop (cap : Nat) : List UInt8 → List (List UInt8) → Written × Nat → Written × Nat
  | [], _, o => o
  | 37 :: 115 :: fmt, args, o =>
    if o.2 < cap then formatLoop cap fmt args.tail (copyArg cap (args.headD []) o) else o
  | c :: fmt, args, o =>
    if o.2 < cap then formatLoop cap fmt args (o.1.put o.2 c, o.2 + 1) else o

/-- The buffer after the call, and the value returned; `none` is `NULL`. -/
def snprintfTo (buf : Option Written) (size : UInt32) (fmt : List UInt8)
    (args : List (List UInt8)) : Option Written × Int32 :=
  match buf with
  | none => (none, 0)
  | some o =>
    if size = 0 then (some o, 0)
    else
      let (o, i) := formatLoop (size - 1).toNat fmt args (o, 0)
      (some (o.put i 0), Int32.ofNat i)

/-! ## The text in the buffer -/

section
variable {size cap : Nat} {o : Written} {s : List UInt8}

/-- What both loops keep: the buffer holds the text written so far, and `i` is its length. -/
structure Holding (size : Nat) (o : Written) (s : List UInt8) (r : Written × Nat) : Prop where
  filled : Filled size o r.1 s
  next : r.2 = s.length

theorem Holding.put {r : Written × Nat} (h : Holding size o s r) (room : r.2 < size) (c : UInt8) :
    Holding size o (s ++ [c]) (r.1.put r.2 c, r.2 + 1) := by
  rw [h.next] at *
  exact ⟨h.filled.put room c, by rw [List.length_append, List.length_singleton]⟩

theorem copyArg_holding (inside : cap < size) (a : List UInt8) {r : Written × Nat}
    (h : Holding size o s r) :
    Holding size o (s ++ a.take (cap - s.length)) (copyArg cap a r) := by
  induction a generalizing s r with
  | nil =>
    rw [List.take_nil, List.append_nil]
    exact h
  | cons c a ih =>
    rw [copyArg]
    split
    · rename_i room
      have here := h.next
      have more := ih (h.put (by omega) c)
      have rest : cap - s.length = cap - (s ++ [c]).length + 1 := by
        rw [List.length_append, List.length_singleton]
        omega
      rw [rest, List.take_succ_cons, ← List.singleton_append, ← List.append_assoc]
      exact more
    · rename_i full
      have here := h.next
      rw [Nat.sub_eq_zero_of_le (by omega), List.take_zero, List.append_nil]
      exact h

/-- The buffer holds what the list model of the loop says. -/
theorem formatLoop_holding (inside : cap < size) (fmt : List UInt8) (args : List (List UInt8))
    {r : Written × Nat} (h : Holding size o s r) :
    Holding size o (snprintfLoop cap fmt args s) (formatLoop cap fmt args r) := by
  induction fmt, args, s using snprintfLoop.induct cap generalizing r with
  | case1 args s =>
    rw [snprintfLoop, formatLoop]
    exact h
  | case2 fmt args s room ih =>
    rw [snprintfLoop, formatLoop, if_pos room, if_pos (h.next ▸ room)]
    exact ih (copyArg_holding inside _ h)
  | case3 fmt args s full =>
    rw [snprintfLoop, formatLoop, if_neg full, if_neg (h.next ▸ full)]
    exact h
  | case4 c fmt args s text room ih =>
    have here := h.next
    rw [snprintfLoop, formatLoop, if_pos room, if_pos (h.next ▸ room)]
    · exact ih (h.put (by omega) c)
    · exact text
    · exact text
  | case5 c fmt args s text full =>
    rw [snprintfLoop, formatLoop, if_neg full, if_neg (h.next ▸ full)]
    · exact h
    · exact text
    · exact text

end

/-! ## Formats whose only conversion is `%s` -/

/-- A piece of a format, with the argument it takes. -/
inductive Piece
  | char (c : UInt8) (plain : c ≠ 37 ∧ c ≠ 0)
  | arg (s : List UInt8) (text : 0 ∉ s)

namespace Piece

def format : Piece → List UInt8
  | char c _ => [c]
  | arg _ _ => [37, 115]

def argument : Piece → Option (List UInt8)
  | char _ _ => none
  | arg s _ => some s

def expansion : Piece → List UInt8
  | char c _ => [c]
  | arg s _ => s

end Piece

def formatOf (ps : List Piece) : List UInt8 := ps.flatMap Piece.format

def argsOf (ps : List Piece) : List (List UInt8) := ps.filterMap Piece.argument

def expanded (ps : List Piece) : List UInt8 := ps.flatMap Piece.expansion

theorem formatted_formatOf (ps : List Piece) :
    formatted (formatOf ps) (argsOf ps) = expanded ps := by
  induction ps with
  | nil => rfl
  | cons p ps ih =>
    cases p with
    | char c plain =>
      change formatted (c :: formatOf ps) (argsOf ps) = c :: expanded ps
      rw [formatted, ih]
      intro fmt percent
      exact absurd percent plain.1
    | arg s text =>
      change s ++ formatted (formatOf ps) (argsOf ps) = s ++ expanded ps
      rw [ih]

/-- As much of the text as fits in front of the NUL is written, nothing outside
the buffer is, and the number of characters is returned (as an `int`). -/
theorem snprintf_exact (ps : List Piece) {size : UInt32} (room : size ≠ 0) (o : Written) :
    let text := (expanded ps).take (size.toNat - 1)
    ∃ o' ret, snprintfTo (some o) size (formatOf ps) (argsOf ps) = (some o', ret) ∧
      text.length = min (size.toNat - 1) (expanded ps).length ∧
      o'.bytes.Holds 0 (text ++ [0]) ∧ Written.Within (· < size.toNat) o o' ∧
      ret = Int32.ofNat text.length ∧
      (text.length < 2147483648 → ret.toInt = text.length) := by
  intro text
  have nonzero : size.toNat ≠ 0 := fun zero => room (UInt32.toNat_inj.mp zero)
  have one : (1 : UInt32) ≤ size := UInt32.le_iff_toNat_le.mpr (Nat.pos_of_ne_zero nonzero)
  have cap : (size - 1).toNat = size.toNat - 1 := UInt32.toNat_sub_of_le _ _ one
  have empty : Holding size.toNat o [] (o, 0) := ⟨Filled.start _ o, rfl⟩
  have loop := formatLoop_holding (by omega : size.toNat - 1 < size.toNat) (formatOf ps)
    (argsOf ps) empty
  have shown : snprintfLoop (size.toNat - 1) (formatOf ps) (argsOf ps) [] = text := by
    have whole := snprintf_eq size.toNat (formatOf ps) (argsOf ps)
    rw [formatted_formatOf] at whole
    exact whole
  have length : text.length = min (size.toNat - 1) (expanded ps).length := List.length_take
  rw [shown] at loop
  have ended := loop.filled.put (by omega) 0
  refine ⟨_, _, ?_, length, ended.text, ended.inside, rfl, ?_⟩
  · simp only [snprintfTo, if_neg room, cap, loop.next]
  · intro small
    exact Int32.toInt_ofNat_of_lt small

/-- "/%s" with "ab" into three bytes, where the argument is cut. -/
theorem snprintf_exact_cut :
    let ps : List Piece := [.char 47 (by decide), .arg [97, 98] (by decide)]
    let text := (expanded ps).take ((3 : UInt32).toNat - 1)
    let o : Written := ⟨fun _ => 0, []⟩
    ∃ o' ret, snprintfTo (some o) 3 (formatOf ps) (argsOf ps) = (some o', ret) ∧
      text.length = min ((3 : UInt32).toNat - 1) (expanded ps).length ∧
      o'.bytes.Holds 0 (text ++ [0]) ∧ Written.Within (· < (3 : UInt32).toNat) o o' ∧
      ret = Int32.ofNat text.length ∧ (text.length < 2147483648 → ret.toInt = text.length) :=
  snprintf_exact _ (by decide) _

end MyOS.Format
