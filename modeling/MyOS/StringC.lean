import Mathlib.Data.List.TakeWhile
import MyOS.Base.Memory
import MyOS.Base.Occurrence

/-!
string.c: `memset`, the block copies and the functions on C strings. `memcpy` goes
between two objects, `memmove` within one; each loop is translated as written and
then shown to be one `Mem.store` of what the source range held. A C string is the
bytes before its NUL, and a pointer into it is what follows it up to there.
-/

namespace MyOS

/-- `while (n--) *p++ = v;` with an absolute pointer. -/
def memset (ram : Mem) (p : UInt32) (v : UInt8) : Nat → Mem
  | 0 => ram
  | n + 1 => memset (ram.set p.toNat v) (p + 1) v n

/-- `while (n--) *D++ = *S++;` -/
def memcpy (D : Mem) (d : Nat) (S : Mem) (s : Nat) : Nat → Mem
  | 0 => D
  | n + 1 => memcpy (D.set d (S s)) (d + 1) S (s + 1) n

theorem memcpy_eq (D : Mem) (d : Nat) (S : Mem) (s n : Nat) :
    memcpy D d S s n = D.store d (S.load s n) := by
  induction n generalizing D d s with
  | zero => simp [memcpy]
  | succ n ih => rw [memcpy, ih, Mem.load_succ, Mem.store_cons]

/-- `for (i = 0; i < n; i++) d[i] = s[i];` inside one object. -/
def copyUp (m : Mem) (d s : Nat) : Nat → Mem
  | 0 => m
  | n + 1 => copyUp (m.set d (m s)) (d + 1) (s + 1) n

/-- `for (i = n; i > 0; i--) d[i-1] = s[i-1];` inside one object. -/
def copyDown (m : Mem) (d s : Nat) : Nat → Mem
  | 0 => m
  | n + 1 => copyDown (m.set (d + n) (m (s + n))) d s n

def memmove (m : Mem) (dest src n : Nat) : Mem :=
  if dest = src ∨ n = 0 then m
  else if dest < src then copyUp m dest src n
  else copyDown m dest src n

/-- Copying upwards never overwrites a byte still to be read when the
destination lies below the source. -/
theorem copyUp_eq (m : Mem) {d s : Nat} (n : Nat) (h : d < s) :
    copyUp m d s n = m.store d (m.load s n) := by
  induction n generalizing m d s with
  | zero => simp [copyUp]
  | succ n ih =>
    rw [copyUp, ih _ (by omega), Mem.load_set _ _ _ _ (by omega), Mem.load_succ, Mem.store_cons]

theorem copyDown_eq (m : Mem) {d s : Nat} (n : Nat) (h : s < d) :
    copyDown m d s n = m.store d (m.load s n) := by
  induction n generalizing m with
  | zero => simp [copyDown]
  | succ n ih =>
    rw [copyDown, ih, Mem.load_set _ _ _ _ (by omega), Mem.load_concat, Mem.store_concat,
      Mem.length_load]

/-- The destination receives what the source range held before the call. -/
theorem memmove_eq (m : Mem) (dest src n : Nat) :
    memmove m dest src n = m.store dest (m.load src n) := by
  unfold memmove
  split
  · rename_i trivial
    rcases trivial with rfl | rfl
    · exact (Mem.store_load m dest n).symm
    · simp
  · rename_i apart
    split
    · exact copyUp_eq m n (by assumption)
    · exact copyDown_eq m n (by omega)

/-- However the ranges overlap, no source byte is lost and nothing else is touched. -/
theorem memmove_exact (m : Mem) (dest src n : Nat) :
    (∀ i < n, memmove m dest src n (dest + i) = m (src + i)) ∧
      ∀ i, i < dest ∨ dest + n ≤ i → memmove m dest src n i = m i := by
  have size := Mem.length_load m src n
  rw [memmove_eq]
  constructor
  · intro i inside
    have here : i < (m.load src n).length := by omega
    rw [Mem.store_inside m dest _ here, Mem.getElem_load]
  · intro i outside
    exact Mem.store_outside m dest _ (by omega)

/-- The C string left in the destination, for `n > 0`. Unlike the standard
function this one stops one byte early and always ends with a NUL. -/
def strncpy (src : List UInt8) (n : Nat) : List UInt8 := src.take (n - 1)

theorem strncpy_fits {src : List UInt8} {n : Nat} (short : src.length ≤ n - 1) :
    strncpy src n = src := List.take_of_length_le short

/-- A string literal. -/
def ascii (s : String) : List UInt8 := s.toList.map fun c => c.toNat.toUInt8

/-- The C string at the start of a buffer that ends with a NUL. -/
def cString (buf : List UInt8) : List UInt8 := buf.takeWhile (· ≠ 0)

theorem not_mem_cString (buf : List UInt8) : 0 ∉ cString buf := by
  intro zero
  have nonzero := List.mem_takeWhile_imp zero
  simp at nonzero

theorem cString_append {a : List UInt8} (text : 0 ∉ a) (b : List UInt8) :
    cString (a ++ b) = a ++ cString b := by
  apply List.takeWhile_append_of_pos
  intro c mem
  exact decide_eq_true fun zero => text (zero ▸ mem)

/-- Nothing behind a NUL belongs to the string. -/
theorem cString_cut {a : List UInt8} (zero : 0 ∈ a) (b : List UInt8) :
    cString (a ++ b) = cString a := by
  have short : (cString a).length ≠ a.length := by
    intro same
    have whole : cString a = a := (List.takeWhile_prefix _).eq_of_length same
    apply not_mem_cString a
    rw [whole]
    exact zero
  exact List.takeWhile_append.trans (if_neg short)

/-- The first bytes of a buffer are those of its string exactly if none is a NUL. -/
theorem take_cString_iff (buf : List UInt8) (n : Nat) :
    (cString buf).take n = buf.take n ↔ 0 ∉ buf.take n := by
  constructor
  · intro same zero
    rw [← same] at zero
    exact not_mem_cString buf (List.mem_of_mem_take zero)
  · intro text
    have front := cString_append text (buf.drop n)
    rw [List.take_append_drop] at front
    have upto : (buf.take n).length = min n buf.length := List.length_take
    rw [front]
    by_cases short : n ≤ buf.length
    · exact List.take_left' (by omega)
    · rw [List.drop_eq_nil_of_le (by omega)]
      change (buf.take n ++ []).take n = buf.take n
      simp only [List.append_nil, List.take_take, Nat.min_self]

def strchr : List UInt8 → UInt8 → Option (List UInt8)
  | [], _ => none
  | x :: s, c => if x = c then some (x :: s) else strchr s c

theorem strchr_suffix {s found : List UInt8} {c : UInt8} (hit : strchr s c = some found) :
    found <:+ s := by
  induction s with
  | nil => cases hit
  | cons x s ih =>
    rw [strchr] at hit
    split at hit
    · cases hit
      exact List.suffix_refl _
    · exact (ih hit).trans (List.suffix_cons x s)

theorem strchr_absent {l : List UInt8} {c : UInt8} (plain : c ∉ l) : strchr l c = none := by
  induction l with
  | nil => rfl
  | cons x l ih =>
    have other : x ≠ c := fun same => plain (same ▸ List.mem_cons_self)
    simp only [strchr, if_neg other]
    exact ih fun later => plain (List.mem_cons_of_mem x later)

theorem strchr_append {l : List UInt8} {c : UInt8} (plain : c ∉ l) (rest : List UInt8) :
    strchr (l ++ c :: rest) c = some (c :: rest) := by
  induction l with
  | nil => rw [List.nil_append, strchr, if_pos rfl]
  | cons x l ih =>
    have other : x ≠ c := fun same => plain (same ▸ List.mem_cons_self)
    simp only [List.cons_append, strchr, if_neg other]
    exact ih fun later => plain (List.mem_cons_of_mem x later)

/-- The inner loop of `strstr`: the needle ends before the two differ. -/
def matchesAt : List UInt8 → List UInt8 → Bool
  | _, [] => true
  | [], _ :: _ => false
  | x :: h, y :: n => if x = y then matchesAt h n else false

def strstrFrom (needle : List UInt8) : List UInt8 → Option (List UInt8)
  | [] => none
  | x :: haystack =>
    if matchesAt (x :: haystack) needle then some (x :: haystack) else strstrFrom needle haystack

def strstr (haystack needle : List UInt8) : Option (List UInt8) :=
  if needle = [] then some haystack else strstrFrom needle haystack

theorem strstr_suffix {haystack needle found : List UInt8}
    (hit : strstr haystack needle = some found) : found <:+ haystack := by
  rw [strstr] at hit
  split at hit
  · cases hit
    exact List.suffix_refl _
  · induction haystack with
    | nil => cases hit
    | cons x haystack ih =>
      rw [strstrFrom] at hit
      split at hit
      · cases hit
        exact List.suffix_refl _
      · exact (ih hit).trans (List.suffix_cons x haystack)

theorem matchesAt_iff (h n : List UInt8) : matchesAt h n = true ↔ n <+: h := by
  induction n generalizing h with
  | nil => simp [matchesAt]
  | cons y n ih =>
    cases h with
    | nil => simp [matchesAt]
    | cons x h =>
      simp only [matchesAt, List.cons_prefix_cons]
      split
      · rename_i same
        simp only [ih h, and_iff_right same.symm]
      · rename_i differ
        exact iff_of_false Bool.false_ne_true fun both => differ both.1.symm

/-- The search returns the first place of the needle. -/
theorem strstr_some_iff {needle : List UInt8} (some : needle ≠ []) (haystack found : List UInt8) :
    strstr haystack needle = .some found ↔
      ∃ p, Occurrence.First needle haystack p ∧ found = haystack.drop p := by
  simp only [strstr, if_neg some]
  induction haystack with
  | nil =>
    refine iff_of_false (by simp [strstrFrom]) ?_
    rintro ⟨p, first, -⟩
    exact Occurrence.not_at_nil some p first.here
  | cons x s ih =>
    rw [strstrFrom]
    split
    · rename_i here
      have start := Occurrence.at_zero_iff.mpr ((matchesAt_iff _ _).mp here)
      have first : Occurrence.First needle (x :: s) 0 := ⟨start, fun q below => nomatch below⟩
      constructor
      · intro same
        exact ⟨0, first, (Option.some.inj same).symm⟩
      · rintro ⟨p, first', rfl⟩
        simp only [first'.unique first, List.drop_zero]
    · rename_i other
      have other := mt (matchesAt_iff _ _).mpr other
      rw [ih]
      constructor
      · rintro ⟨p, first, rfl⟩
        exact ⟨p + 1, (Occurrence.first_succ_iff other).mpr first, rfl⟩
      · rintro ⟨p, first, rfl⟩
        cases p with
        | zero => exact absurd (Occurrence.at_zero_iff.mp first.here) other
        | succ p => exact ⟨p, (Occurrence.first_succ_iff other).mp first, rfl⟩

theorem strstr_none_iff {needle : List UInt8} (some : needle ≠ []) (haystack : List UInt8) :
    strstr haystack needle = none ↔ ∀ p, ¬ Occurrence.At needle haystack p := by
  constructor
  · intro none p here
    obtain ⟨p, first⟩ := Occurrence.exists_first ⟨p, here⟩
    have found := (strstr_some_iff some haystack _).mpr ⟨p, first, rfl⟩
    rw [none] at found
    cases found
  · intro nowhere
    cases found : strstr haystack needle with
    | none => rfl
    | some t =>
      obtain ⟨p, first, -⟩ := (strstr_some_iff some haystack t).mp found
      exact absurd first.here (nowhere p)

/-- `(unsigned char)*a - (unsigned char)*b` -/
def headDiff (a b : List UInt8) : Int := (a.headD 0).toNat - (b.headD 0).toNat

def strcmp : List UInt8 → List UInt8 → Int
  | x :: a, y :: b => if x = y then strcmp a b else headDiff (x :: a) (y :: b)
  | a, b => headDiff a b

def strncmp : List UInt8 → List UInt8 → Nat → Int
  | _, _, 0 => 0
  | x :: a, y :: b, n + 1 => if x = y then strncmp a b n else headDiff (x :: a) (y :: b)
  | a, b, _ + 1 => headDiff a b

/-- The first bytes of `a` are compared equal to all of `b` exactly if they are. -/
theorem strncmp_zero_iff {b : List UInt8} (text : 0 ∉ b) (a : List UInt8) :
    strncmp a b b.length = 0 ↔ b <+: a := by
  induction b generalizing a with
  | nil => simp [strncmp]
  | cons y b ih =>
    obtain ⟨nonzero, text⟩ := not_or.mp (mt List.mem_cons.mpr text)
    cases a with
    | nil =>
      have differ : headDiff [] (y :: b) ≠ 0 := by
        intro same
        apply nonzero
        apply UInt8.toNat_inj.mp
        simp only [headDiff, List.headD_nil, List.headD_cons] at same
        omega
      simp [strncmp, differ]
    | cons x a =>
      simp only [List.length_cons, strncmp, List.cons_prefix_cons]
      split
      · rename_i head
        rw [ih text a]
        exact (and_iff_right head.symm).symm
      · rename_i head
        have differ : headDiff (x :: a) (y :: b) ≠ 0 := by
          intro same
          apply head
          apply UInt8.toNat_inj.mp
          simp only [headDiff, List.headD_cons] at same
          omega
        exact iff_of_false differ fun both => head both.1.symm

/-- The loop of `snprintf` with room for `cap` characters; `%s` takes the next argument. -/
def snprintfLoop (cap : Nat) : List UInt8 → List (List UInt8) → List UInt8 → List UInt8
  | [], _, buf => buf
  | 37 :: 115 :: fmt, args, buf =>
    if buf.length < cap then
      snprintfLoop cap fmt args.tail (buf ++ (args.headD []).take (cap - buf.length))
    else buf
  | c :: fmt, args, buf =>
    if buf.length < cap then snprintfLoop cap fmt args (buf ++ [c]) else buf

/-- The string left in the buffer, for `size > 0`; its length is the value returned. -/
def snprintf (size : Nat) (fmt : List UInt8) (args : List (List UInt8)) : List UInt8 :=
  snprintfLoop (size - 1) fmt args []

theorem length_snprintfLoop (cap : Nat) (fmt : List UInt8) (args : List (List UInt8))
    (buf : List UInt8) : buf.length ≤ (snprintfLoop cap fmt args buf).length := by
  induction fmt, args, buf using snprintfLoop.induct cap with
  | case1 args buf => rw [snprintfLoop]
  | case2 fmt args buf room ih =>
    simp only [snprintfLoop, if_pos room]
    rw [List.length_append] at ih
    omega
  | case3 fmt args buf full => rw [snprintfLoop, if_neg full]
  | case4 c fmt args buf text room ih =>
    rw [snprintfLoop, if_pos room]
    · rw [List.length_append] at ih
      omega
    · exact text
  | case5 c fmt args buf text full =>
    rw [snprintfLoop, if_neg full]
    exact text

/-- The whole text of a format, whatever its length. -/
def formatted : List UInt8 → List (List UInt8) → List UInt8
  | [], _ => []
  | 37 :: 115 :: fmt, args => args.headD [] ++ formatted fmt args.tail
  | c :: fmt, args => c :: formatted fmt args

theorem snprintfLoop_eq (cap : Nat) (fmt : List UInt8) (args : List (List UInt8))
    (buf : List UInt8) (room : buf.length ≤ cap) :
    snprintfLoop cap fmt args buf = (buf ++ formatted fmt args).take cap := by
  induction fmt, args, buf using snprintfLoop.induct cap with
  | case1 args buf => rw [snprintfLoop, formatted, List.append_nil, List.take_of_length_le room]
  | case2 fmt args buf more ih =>
    have filled : (buf ++ (args.headD []).take (cap - buf.length)).length ≤ cap := by
      simp only [List.length_append, List.length_take]
      omega
    rw [snprintfLoop, if_pos more, ih filled, formatted, ← List.append_assoc]
    by_cases fits : (args.headD []).length ≤ cap - buf.length
    · rw [List.take_of_length_le fits]
    · -- The argument alone fills the buffer, and what follows it is lost.
      have whole : (buf ++ (args.headD []).take (cap - buf.length)).length = cap := by
        simp only [List.length_append, List.length_take]
        omega
      have enough : cap ≤ (buf ++ args.headD []).length := by
        rw [List.length_append]
        omega
      rw [List.take_left' whole, List.take_append_of_le_length enough, List.take_append,
        List.take_of_length_le room]
  | case3 fmt args buf full =>
    rw [snprintfLoop, if_neg full, List.take_append_of_le_length (by omega),
      List.take_of_length_le room]
  | case4 c fmt args buf text more ih =>
    have filled : (buf ++ [c]).length ≤ cap := by
      simp only [List.length_append, List.length_singleton]
      omega
    rw [snprintfLoop, if_pos more, ih filled, formatted, List.append_assoc, List.singleton_append]
    · exact text
    · exact text
  | case5 c fmt args buf text full =>
    rw [snprintfLoop, if_neg full, List.take_append_of_le_length (by omega),
      List.take_of_length_le room]
    exact text

/-- What does not fit into the buffer is cut off, and the length returned is
the one of what is left. -/
theorem snprintf_eq (size : Nat) (fmt : List UInt8) (args : List (List UInt8)) :
    snprintf size fmt args = (formatted fmt args).take (size - 1) :=
  snprintfLoop_eq (size - 1) fmt args [] (Nat.zero_le _)

theorem snprintf_pos {size : Nat} (room : 1 < size) {c : UInt8} (text : c ≠ 37)
    (fmt : List UInt8) (args : List (List UInt8)) : 0 < (snprintf size (c :: fmt) args).length := by
  have first : snprintf size (c :: fmt) args = snprintfLoop (size - 1) fmt args [c] := by
    rw [snprintf, snprintfLoop, if_pos (by rw [List.length_nil]; omega)]
    · rfl
    · intro fmt percent
      exact absurd percent text
  rw [first]
  exact length_snprintfLoop (size - 1) fmt args [c]

end MyOS
