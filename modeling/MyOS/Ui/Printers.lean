import MyOS.Base.Decimal
import MyOS.Base.Filled
import MyOS.Ui.Screens

/-!
# The three decimal printers

The result of `calc_eval`, the exit code in `syscall_handler_c` and the return code
in `show_desktop` are written out by loops of their own, here with the accesses to
their local arrays.
-/

namespace MyOS.Printers

open Decimal

/-! ## Digits of an `int` -/

theorem toNat_tenth {t : Int32} (pos : 0 < t.toInt) :
    (t / 10).toInt.toNat = t.toInt.toNat / 10 := by
  have ten : (10 : Int32).toInt = 10 := rfl
  rw [Int32.toInt_div_of_ne_right t 10 (by decide), ten, Int.tdiv_eq_ediv_of_nonneg (le_of_lt pos)]
  omega

theorem tenth_lt {t : Int32} (more : t > 0) : (t / 10).toInt.toNat < t.toInt.toNat := by
  have pos : 0 < t.toInt := Int32.lt_iff_toInt_lt.mp more
  rw [toNat_tenth pos]
  omega

theorem lastDigit {t : Int32} (pos : 0 < t.toInt) :
    48 + (t % 10).toUInt32.toUInt8 = (48 + t.toInt.toNat % 10).toUInt8 := by
  have ten : (10 : Int32).toInt = 10 := rfl
  have rem : (t % 10).toInt = t.toInt % 10 := by
    simp only [Int32.toInt_mod, ten, Int.tmod_eq_emod_of_nonneg (le_of_lt pos)]
  have nonneg : 0 ≤ t % 10 := by
    rw [Int32.le_iff_toInt_le, rem, Int32.toInt_zero]
    omega
  have low : (t % 10).toUInt32.toNat = t.toInt.toNat % 10 := by
    rw [Int32.toNat_toUInt32_of_le nonneg, ← Int32.toNat_toInt, rem]
    omega
  have base : (48 : UInt8).toNat = 48 := rfl
  apply UInt8.toNat_inj.mp
  rw [UInt8.toNat_add, UInt32.toNat_toUInt8, low, toNat_digit (Nat.mod_lt _ (by decide)), base]
  omega

/-- The digits of `t`, the last one first; none if `t` is not positive. -/
def digits (t : Int32) : List UInt8 := lowFirst t.toInt.toNat

theorem digits_pos {t : Int32} (more : t > 0) :
    digits t = (48 + (t % 10).toUInt32.toUInt8) :: digits (t / 10) := by
  have pos : 0 < t.toInt := Int32.lt_iff_toInt_lt.mp more
  rw [digits, lowFirst_pos (by omega), ← toNat_tenth pos, ← lastDigit pos, digits]

theorem digits_done {t : Int32} (done : ¬ t > 0) : digits t = [] := by
  have neg : ¬ 0 < t.toInt := fun pos => done (Int32.lt_iff_toInt_lt.mpr pos)
  rw [digits, Int.toNat_of_nonpos (by omega), lowFirst_zero]

theorem length_digits (t : Int32) : (digits t).length ≤ 10 := by
  have small := t.toInt_lt
  exact length_lowFirst (by omega)

/-! ## The loops -/

/-- `while (t > 0) { b[n++] = '0' + t % 10; t /= 10; }` -/
def putDigits (b : Written) (n : Nat) (t : Int32) : Written × Nat :=
  if _more : t > 0 then
    putDigits (b.put n (48 + (t % 10).toUInt32.toUInt8)) (n + 1) (t / 10)
  else (b, n)
termination_by t.toInt.toNat
decreasing_by exact tenth_lt _more

/-- The same loop with `&& n < size` in its condition. -/
def putDigitsBelow (size : Nat) (b : Written) (n : Nat) (t : Int32) : Written × Nat :=
  if _more : t > 0 ∧ n < size then
    putDigitsBelow size (b.put n (48 + (t % 10).toUInt32.toUInt8)) (n + 1) (t / 10)
  else (b, n)
termination_by t.toInt.toNat
decreasing_by exact tenth_lt _more.1

/-- `while (n--) body(n);` -/
def countDown {σ : Type} (body : Nat → σ → σ) : Nat → σ → σ
  | 0, s => s
  | n + 1, s => countDown body n (body n s)

/-! ## The printers -/

/-- `expr` and `expr_len` -/
structure Line where
  expr : Written
  len : Nat

def calcAdd (c : UInt8) (l : Line) : Line :=
  if l.len < 63 then ⟨(l.expr.put l.len c).put (l.len + 1) 0, l.len + 1⟩ else l

def calcClear (l : Line) : Line := ⟨l.expr.put 0 0, 0⟩

/-- `calc_add(buf[n])` -/
def addBack (n : Nat) (r : Written × Line) : Written × Line :=
  (r.1.touch n, calcAdd (r.1.bytes n) r.2)

/-- The end of `calc_eval`, from `calc_clear` on. -/
def calcWriteBack (res : Int32) (buf : Written) (l : Line) : Written × Line :=
  let l := calcClear l
  let (buf, n) := if res = 0 then (buf.put 0 48, 1) else (buf, 0)
  let (buf, n) := putDigits buf n (if res < 0 then -res else res)
  let (buf, n) := if res < 0 then (buf.put n 45, n + 1) else (buf, n)
  countDown addBack n (buf, l)

/-- `buf[n++] = tmp[ti]`, with `tmp`, `buf` and `n`. -/
def copyBack (ti : Nat) (r : Written × Written × Nat) : Written × Written × Nat :=
  (r.1.touch ti, r.2.1.put r.2.2 (r.1.bytes ti), r.2.2 + 1)

/-- The exit code in `syscall_handler_c`: `tmp` and `buf`. -/
def writeExitCode (v : Int32) (tmp buf : Written) : Written × Written :=
  if v = 0 then (tmp, (buf.put 0 48).put 1 0)
  else
    let (tmp, ti) := putDigitsBelow 16 tmp 0 (if v < 0 then -v else v)
    let (tmp, ti) := if v < 0 then (tmp.put ti 45, ti + 1) else (tmp, ti)
    let (tmp, buf, n) := countDown copyBack ti (tmp, buf, 0)
    (tmp, buf.put n 0)

/-- The return code in `show_desktop`: `numbuf`, whose digits are turned around in
place. -/
def writeReturnCode (t : Int32) (numbuf : Written) : Written :=
  if t = 0 then (numbuf.put 0 48).put 1 0
  else
    let (numbuf, n) := if t < 0 then (numbuf.put 0 45, 1) else (numbuf, 0)
    let (numbuf, stop) := putDigits numbuf n (if t < 0 then -t else t)
    let st := stop - n
    let numbuf := numbuf.exchange n st (st / 2)
    numbuf.put (n + st) 0

/-- The text in an array of `size` bytes. -/
def text (size : Nat) (b : Written) : List UInt8 := cString (b.bytes.load 0 size)

/-! ## What they write -/

/-- The value printed behind a minus sign: the negation wraps around. -/
def magnitude (v : Int32) : Int32 := if v < 0 then -v else v

def sign (v : Int32) : List UInt8 := if v < 0 then [45] else []

/-- What each of the three makes of `v`. -/
def printed (v : Int32) : List UInt8 :=
  if v = 0 then [48] else sign v ++ (digits (magnitude v)).reverse

theorem putDigits_filled {size : Nat} {b b' : Written} {s : List UInt8} (h : Filled size b b' s)
    (t : Int32) (room : s.length + (digits t).length ≤ size) :
    Filled size b (putDigits b' s.length t).1 (s ++ digits t) ∧
      (putDigits b' s.length t).2 = (s ++ digits t).length := by
  rw [putDigits]
  by_cases more : t > 0
  · have step := digits_pos more
    rw [step, List.length_cons] at room
    rw [dif_pos more, step, List.append_cons]
    have here : s.length < size := by omega
    have next := putDigits_filled (h.put here (48 + (t % 10).toUInt32.toUInt8)) (t / 10)
      (by rw [List.length_append, List.length_singleton]; omega)
    rwa [List.length_append, List.length_singleton] at next
  · rw [dif_neg more, digits_done more, List.append_nil]
    exact ⟨h, rfl⟩
termination_by t.toInt.toNat
decreasing_by exact tenth_lt more

theorem putDigitsBelow_eq {size n : Nat} (b : Written) (t : Int32)
    (room : n + (digits t).length ≤ size) : putDigitsBelow size b n t = putDigits b n t := by
  rw [putDigitsBelow, putDigits]
  by_cases more : t > 0
  · rw [digits_pos more, List.length_cons] at room
    rw [dif_pos ⟨more, by omega⟩, dif_pos more]
    exact putDigitsBelow_eq _ (t / 10) (by omega)
  · rw [dif_neg fun both => more both.1, dif_neg more]
termination_by t.toInt.toNat
decreasing_by exact tenth_lt more

/-! ## One buffer after the other -/

/-- A buffer filled with `s`, and the index behind it. -/
structure Upto (size : Nat) (o : Written) (r : Written × Nat) (s : List UInt8) : Prop where
  filled : Filled size o r.1 s
  index : r.2 = s.length

section
variable {size : Nat} {o : Written} {r : Written × Nat} {s : List UInt8}

theorem Upto.start (size : Nat) (o : Written) : Upto size o (o, 0) [] :=
  ⟨Filled.start size o, rfl⟩

theorem Upto.put (h : Upto size o r s) (room : s.length < size) (c : UInt8) :
    Upto size o (r.1.put r.2 c, r.2 + 1) (s ++ [c]) := by
  refine ⟨?_, ?_⟩
  · rw [h.index]
    exact h.filled.put room c
  · simp only [h.index, List.length_append, List.length_singleton]

theorem Upto.digits (h : Upto size o r s) (t : Int32)
    (room : s.length + (digits t).length ≤ size) :
    Upto size o (putDigits r.1 r.2 t) (s ++ Printers.digits t) := by
  obtain ⟨filled, index⟩ := putDigits_filled h.filled t room
  rw [h.index]
  exact ⟨filled, index⟩

/-- The minus sign of a negative value. -/
theorem Upto.sign (h : Upto size o r s) (room : s.length < size) (v : Int32) :
    Upto size o (if v < 0 then (r.1.put r.2 45, r.2 + 1) else r) (s ++ Printers.sign v) := by
  rw [Printers.sign]
  split
  · exact h.put room 45
  · rw [List.append_nil]
    exact h

end

/-- A rule for `while (n--)`. -/
theorem countDown_inv {σ : Type} {body : Nat → σ → σ} {I : Nat → σ → Prop}
    (step : ∀ n s, I (n + 1) s → I n (body n s)) {n : Nat} {s : σ} (start : I n s) :
    I 0 (countDown body n s) := by
  induction n generalizing s with
  | zero => exact start
  | succ n ih => exact ih (step n s start)

theorem text_filled {size : Nat} {b b' : Written} {s : List UInt8} (h : Filled size b b' (s ++ [0]))
    (room : s.length < size) (plain : 0 ∉ s) : text size b' = s := by
  obtain ⟨more, rfl⟩ := Nat.exists_eq_add_of_lt room
  have front : b'.bytes.load 0 (s.length + 1) = s ++ [0] := by
    have held := h.text
    rwa [Mem.Holds, List.length_append, List.length_singleton] at held
  rw [text, Nat.add_right_comm, Mem.load_add, front, List.append_assoc, cString_append plain]
  exact List.append_nil s

/-- A line that has become `s` by accesses inside `expr`. -/
structure LineIs (start : Written) (l : Line) (s : List UInt8) : Prop where
  filled : Filled 64 start l.expr (s ++ [0])
  len : l.len = s.length

theorem calcClear_is (l : Line) : LineIs l.expr (calcClear l) [] :=
  ⟨(Filled.start 64 l.expr).put (by decide) 0, rfl⟩

theorem LineIs.add {start : Written} {l : Line} {s : List UInt8} (h : LineIs start l s)
    (room : s.length < 63) (c : UInt8) : LineIs start (calcAdd c l) (s ++ [c]) := by
  simp only [calcAdd, h.len, if_pos room]
  have added := h.filled.front.put (by omega) c
  have ended := added.put (by rw [List.length_append, List.length_singleton]; omega) 0
  constructor
  · rwa [List.length_append, List.length_singleton] at ended
  · simp only [List.length_append, List.length_singleton]

/-- `buf` holds `t`, and what is behind its first `n` bytes has been added to the
line, backwards. -/
structure Adding (buf line : Written) (t : List UInt8) (n : Nat) (r : Written × Line) : Prop where
  below : n ≤ t.length
  read : Filled 20 buf r.1 t
  added : LineIs line r.2 (t.drop n).reverse

theorem Adding.step {buf line : Written} {t : List UInt8} (size : t.length ≤ 20) (n : Nat)
    (r : Written × Line) (h : Adding buf line t (n + 1) r) : Adding buf line t n (addBack n r) := by
  have below := h.below
  refine ⟨by omega, h.read.touch (by omega), ?_⟩
  simp only [List.drop_eq_getElem_cons below, List.reverse_cons, addBack, h.read.get below]
  refine h.added.add ?_ _
  simp only [List.length_reverse, List.length_drop]
  omega

theorem addBack_is {buf b line : Written} {t : List UInt8} (read : Filled 20 buf b t) {l : Line}
    (empty : LineIs line l []) (size : t.length ≤ 20) :
    Filled 20 buf (countDown addBack t.length (b, l)).1 t ∧
      LineIs line (countDown addBack t.length (b, l)).2 t.reverse := by
  have start : Adding buf line t t.length (b, l) := by
    refine ⟨Nat.le_refl _, read, ?_⟩
    rw [List.drop_length]
    exact empty
  have done := countDown_inv (I := Adding buf line t) (Adding.step size) start
  exact ⟨done.read, done.added⟩

/-- `tmp` holds `t`, and what is behind its first `ti` bytes has been copied to
`buf`, backwards. -/
structure Copying (tmp buf : Written) (t : List UInt8) (ti : Nat) (r : Written × Written × Nat) :
    Prop where
  below : ti ≤ t.length
  read : Filled 16 tmp r.1 t
  copied : Filled 32 buf r.2.1 (t.drop ti).reverse
  count : r.2.2 = (t.drop ti).reverse.length

theorem Copying.step {tmp buf : Written} {t : List UInt8} (size : t.length ≤ 16) (ti : Nat)
    (r : Written × Written × Nat) (h : Copying tmp buf t (ti + 1) r) :
    Copying tmp buf t ti (copyBack ti r) := by
  have below := h.below
  have room : (t.drop (ti + 1)).reverse.length < 32 := by
    simp only [List.length_reverse, List.length_drop]
    omega
  have next : (t.drop ti).reverse = (t.drop (ti + 1)).reverse ++ [t[ti]] := by
    simp only [List.drop_eq_getElem_cons below, List.reverse_cons]
  refine ⟨by omega, h.read.touch (by omega), ?_, ?_⟩
  · simp only [next, copyBack, h.read.get below, h.count]
    exact h.copied.put room _
  · simp only [next, copyBack, h.count, List.length_append, List.length_singleton]

theorem copyBack_is {tmp b : Written} {t : List UInt8} (read : Filled 16 tmp b t)
    (size : t.length ≤ 16) (buf : Written) :
    Filled 16 tmp (countDown copyBack t.length (b, buf, 0)).1 t ∧
      Filled 32 buf (countDown copyBack t.length (b, buf, 0)).2.1 t.reverse ∧
      (countDown copyBack t.length (b, buf, 0)).2.2 = t.reverse.length := by
  have start : Copying tmp buf t t.length (b, buf, 0) := by
    refine ⟨Nat.le_refl _, read, ?_, ?_⟩
    · rw [List.drop_length]
      exact Filled.start 32 buf
    · rw [List.drop_length]
      rfl
  have done := countDown_inv (I := Copying tmp buf t) (Copying.step size) start
  exact ⟨done.read, done.copied, done.count⟩

/-! ## The three texts -/

theorem length_sign (v : Int32) : (sign v).length ≤ 1 := by
  rw [sign]
  split <;> simp

theorem plain_digits (t : Int32) : 0 ∉ digits t := by
  intro zero
  exact absurd (digits_lowFirst _ 0 zero) (by decide)

theorem plain_printed (v : Int32) : 0 ∉ printed v := by
  have plain := plain_digits (magnitude v)
  simp only [printed, sign]
  split
  · decide
  · split <;> simp [plain]

theorem length_printed (v : Int32) : (printed v).length ≤ 11 := by
  have few := length_digits (magnitude v)
  have one := length_sign v
  rw [printed]
  split
  · decide
  · simp only [List.length_append, List.length_reverse]
    omega

/-- What is written backwards. -/
theorem reverse_written (v : Int32) :
    ((if v = 0 then [48] else []) ++ digits (magnitude v) ++ sign v).reverse = printed v := by
  have one : (sign v).reverse = sign v := by
    rw [sign]
    split <;> rfl
  simp only [printed, List.reverse_append, List.reverse_append, one]
  split
  · rename_i zero
    subst zero
    decide +kernel
  · simp only [List.reverse_nil, List.append_nil]

theorem calcWriteBack_is (res : Int32) (buf : Written) (l : Line) :
    Written.Within (· < 20) buf (calcWriteBack res buf l).1 ∧
      LineIs l.expr (calcWriteBack res buf l).2 (printed res) := by
  have few := length_digits (magnitude res)
  have one := length_sign res
  have zero : (if res = 0 then [(48 : UInt8)] else []).length ≤ 1 := by split <;> simp
  have first : Upto 20 buf (if res = 0 then (buf.put 0 48, 1) else (buf, 0))
      (if res = 0 then [48] else []) := by
    split
    · exact (Upto.start 20 buf).put (by decide) 48
    · exact Upto.start 20 buf
  have second := first.digits (magnitude res) (by omega)
  have third := second.sign (by rw [List.length_append]; omega) res
  have done := addBack_is third.filled (calcClear_is l) (by simp only [List.length_append]; omega)
  rw [reverse_written, ← third.index] at done
  exact ⟨done.1.inside, done.2⟩

theorem writeExitCode_is (v : Int32) (tmp buf : Written) :
    Written.Within (· < 16) tmp (writeExitCode v tmp buf).1 ∧
      Filled 32 buf (writeExitCode v tmp buf).2 (printed v ++ [0]) := by
  have few := length_digits (magnitude v)
  have one := length_sign v
  rw [writeExitCode]
  by_cases zero : v = 0
  · rw [if_pos zero, printed, if_pos zero]
    exact ⟨.refl _ tmp, (((Filled.start 32 buf).put (by decide) 48).put (by decide) 0)⟩
  · have loop : putDigitsBelow 16 tmp 0 (if v < 0 then -v else v) = putDigits tmp 0 (magnitude v) :=
      putDigitsBelow_eq tmp (magnitude v) (by omega)
    have first := (Upto.start 16 tmp).digits (magnitude v) (by rw [List.length_nil]; omega)
    have second := first.sign (by rw [List.length_append, List.length_nil]; omega) v
    have written := reverse_written v
    obtain ⟨read, copied, count⟩ := copyBack_is second.filled
      (by simp only [List.length_append, List.length_nil]; omega) buf
    rw [if_neg zero] at written
    rw [written, ← second.index] at copied count
    rw [← second.index] at read
    have ended := copied.put (by have := length_printed v; omega) 0
    rw [← count] at ended
    simp only [if_neg zero, loop]
    exact ⟨read.inside, ended⟩

theorem writeReturnCode_is (t : Int32) (numbuf : Written) :
    Filled 16 numbuf (writeReturnCode t numbuf) (printed t ++ [0]) := by
  have few := length_digits (magnitude t)
  have one := length_sign t
  have all := length_printed t
  rw [writeReturnCode]
  by_cases zero : t = 0
  · rw [if_pos zero, printed, if_pos zero]
    exact ((Filled.start 16 numbuf).put (by decide) 48).put (by decide) 0
  · rw [if_neg zero]
    obtain ⟨r, signed⟩ : ∃ r, r = if t < 0 then (numbuf.put 0 45, 1) else (numbuf, 0) := ⟨_, rfl⟩
    have first : Upto 16 numbuf r (sign t) := by
      rw [signed]
      exact (Upto.start 16 numbuf).sign (by decide) t
    have second := first.digits (magnitude t) (by omega)
    have whole : printed t = sign t ++ (digits (magnitude t)).reverse := by
      rw [printed, if_neg zero]
    have turned := second.filled.reverse (by rw [List.length_append]; omega)
    rw [← whole] at turned
    have ended := turned.put (by omega) 0
    have st : (digits (magnitude t)).length = (putDigits r.1 r.2 (magnitude t)).2 - r.2 := by
      rw [second.index, first.index, List.length_append, Nat.add_sub_cancel_left]
    have stop : (printed t).length = r.2 + (digits (magnitude t)).length := by
      simp only [whole, first.index, List.length_append, List.length_reverse]
    rw [stop, st, ← first.index] at ended
    rw [← signed]
    exact ended

/-! ## The numeral of a value -/

theorem magnitude_eq {v : Int32} (above : v ≠ Int32.minValue) :
    (magnitude v).toInt.toNat = v.toInt.natAbs := by
  have low : v.toInt ≠ -2 ^ 31 := fun least => above (Int32.toInt_inj.mp least)
  have range := v.le_toInt
  rw [magnitude]
  split
  · rename_i neg
    have below : v.toInt < 0 := Int32.lt_iff_toInt_lt.mp neg
    rw [Int32.toInt_neg, Int.bmod_eq_of_le (by omega) (by omega)]
    omega
  · rename_i other
    have nonneg : ¬ v.toInt < 0 := fun neg => other (Int32.lt_iff_toInt_lt.mpr neg)
    omega

theorem printed_least : printed Int32.minValue = [45] := by decide +kernel

theorem printed_eq {v : Int32} (above : v ≠ Int32.minValue) : printed v = signed v.toInt := by
  have size := magnitude_eq above
  rw [printed]
  by_cases zero : v = 0
  · rw [if_pos zero, zero]
    rfl
  · have nonzero : v.toInt.natAbs ≠ 0 := fun none =>
      zero (Int32.toInt_inj.mp (Int.natAbs_eq_zero.mp none))
    simp only [if_neg zero, digits, size, signed, numeral, if_neg nonzero, sign]
    by_cases neg : v < 0
    · have below : v.toInt < 0 := Int32.lt_iff_toInt_lt.mp neg
      simp only [if_pos neg, if_pos below]
      rfl
    · have nonneg : ¬ v.toInt < 0 := fun below => neg (Int32.lt_iff_toInt_lt.mpr below)
      simp only [if_neg neg, if_neg nonneg]
      rfl

theorem printed_iff (v : Int32) (n : Int) :
    printed v = signed n ↔ v ≠ Int32.minValue ∧ v.toInt = n := by
  by_cases least : v = Int32.minValue
  · simp only [least, printed_least]
    exact iff_of_false (fun minus => signed_ne_minus n minus.symm) fun both => both.1 rfl
  · rw [printed_eq least]
    exact ⟨fun same => ⟨least, signed_injective same⟩, fun both => congrArg signed both.2⟩

/-- Each printer writes the numeral of `v`, whatever its arrays held before, and
stays inside them. -/
structure Canonical (v : Int32) : Prop where
  result : ∀ buf l, text 64 (calcWriteBack v buf l).2.expr = signed v.toInt ∧
    Written.Within (· < 20) buf (calcWriteBack v buf l).1 ∧
    Written.Within (· < 64) l.expr (calcWriteBack v buf l).2.expr
  exitCode : ∀ tmp buf, text 32 (writeExitCode v tmp buf).2 = signed v.toInt ∧
    Written.Within (· < 16) tmp (writeExitCode v tmp buf).1 ∧
    Written.Within (· < 32) buf (writeExitCode v tmp buf).2
  returnCode : ∀ numbuf, text 16 (writeReturnCode v numbuf) = signed v.toInt ∧
    Written.Within (· < 16) numbuf (writeReturnCode v numbuf)

/-- The printers are right but for the value whose negation is itself. -/
theorem canonical_iff (v : Int32) : Canonical v ↔ v ≠ Int32.minValue := by
  have few := length_printed v
  have plain := plain_printed v
  constructor
  · intro canonical
    have all := (canonical.returnCode ⟨fun _ => 0, []⟩).1
    rw [text_filled (writeReturnCode_is v _) (by omega) plain] at all
    exact ((printed_iff v v.toInt).mp all).1
  · intro above
    have right := printed_eq above
    refine ⟨fun buf l => ?_, fun tmp buf => ?_, fun numbuf => ?_⟩
    · obtain ⟨inside, line⟩ := calcWriteBack_is v buf l
      exact ⟨(text_filled line.filled (by omega) plain).trans right, inside, line.filled.inside⟩
    · obtain ⟨inside, filled⟩ := writeExitCode_is v tmp buf
      exact ⟨(text_filled filled (by omega) plain).trans right, inside, filled.inside⟩
    · have filled := writeReturnCode_is v numbuf
      exact ⟨(text_filled filled (by omega) plain).trans right, filled.inside⟩

/-- Of the least value only the minus sign is written. -/
theorem least_without_digits : ¬ Canonical Int32.minValue := by
  intro canonical
  have all := (canonical.returnCode ⟨fun _ => 0, []⟩).1
  rw [text_filled (writeReturnCode_is Int32.minValue _) (by decide +kernel)
    (plain_printed Int32.minValue), printed_least] at all
  exact signed_ne_minus _ all.symm

/-! ## The texts on the screen -/

theorem decimalDigits_eq {more : Nat} (t : Int32) (room : (digits t).length ≤ more) :
    decimalDigits more t = digits t := by
  induction more generalizing t with
  | zero => exact (List.eq_nil_of_length_eq_zero (Nat.le_zero.mp room)).symm
  | succ more ih =>
    rw [decimalDigits]
    split
    · rename_i pos
      rw [digits_pos pos] at room ⊢
      rw [ih _ (Nat.le_of_succ_le_succ room)]
    · rename_i done
      exact (digits_done done).symm

theorem exitDigits_eq (room : Nat) (t : Int32) : exitDigits room t = decimalDigits room t := by
  induction room generalizing t with
  | zero => rfl
  | succ room ih => rw [exitDigits, decimalDigits, ih]

theorem foldl_calcAdd {s t : List UInt8} (room : s.length + t.length ≤ 63) :
    t.foldl MyOS.calcAdd s = s ++ t := by
  induction t generalizing s with
  | nil => exact (List.append_nil s).symm
  | cons c t ih =>
    rw [List.length_cons] at room
    rw [List.foldl_cons, MyOS.calcAdd, if_pos (by omega), ih, List.append_assoc]
    · rfl
    · rw [List.length_append, List.length_singleton]
      omega

/-- The line behind `calc_eval`. -/
theorem calcEval_eq (expr : List UInt8) :
    calcEval expr = printed (calcLoop expr.length 43 0 expr) := by
  rw [calcEval]
  generalize calcLoop expr.length 43 0 expr = res
  have few := length_printed res
  have written := reverse_written res
  rw [decimalDigits_eq _ (length_digits _)]
  change ((if res = 0 then [48] else []) ++ digits (magnitude res) ++ sign res).reverse.foldl
    MyOS.calcAdd [] = printed res
  rw [written, foldl_calcAdd (by rw [List.length_nil]; omega), List.nil_append]

theorem calcEval_written (expr : List UInt8) (buf : Written) (l : Line) :
    text 64 (calcWriteBack (calcLoop expr.length 43 0 expr) buf l).2.expr = calcEval expr := by
  rw [calcEval_eq]
  generalize calcLoop expr.length 43 0 expr = res
  have few := length_printed res
  exact text_filled (calcWriteBack_is res buf l).2.filled (by omega) (plain_printed res)

/-- The text of an exit code is what `buf` holds. -/
theorem exitText_written (v : Int32) (tmp buf : Written) :
    text 32 (writeExitCode v tmp buf).2 = exitText v := by
  have room : (digits (magnitude v)).length ≤ 16 := Nat.le_trans (length_digits _) (by decide)
  have few := length_printed v
  rw [text_filled (writeExitCode_is v tmp buf).2 (by omega) (plain_printed v)]
  simp only [exitText, exitDigits_eq]
  rw [printed, ← decimalDigits_eq _ room, magnitude, sign]
  split
  · rfl
  · split
    · rw [List.reverse_append]
      rfl
    · rfl

/-- The text of a return code is what `numbuf` holds. -/
theorem returnText_written (v : Int32) (numbuf : Written) :
    text 16 (writeReturnCode v numbuf) = returnText v := by
  have few := length_printed v
  rw [text_filled (writeReturnCode_is v numbuf) (by omega) (plain_printed v), returnText, printed,
    ← decimalDigits_eq _ (length_digits (magnitude v)), sign, magnitude]
  split
  · rfl
  · split <;> rfl

end MyOS.Printers
