import MyOS.Ui.Printers

/-!
# What the calculator computes

An expression is a number and then operators with a number behind each, taken from
left to right. The loop of `calc_eval` steps over the operator twice and so over the
first digit behind it.
-/

namespace MyOS.Calculator

open Decimal

inductive Op
  | plus | minus | times | divide
  deriving DecidableEq

def Op.char : Op → UInt8
  | .plus => 43
  | .minus => 45
  | .times => 42
  | .divide => 47

def Op.apply : Op → Int → Int → Int
  | .plus, r, n => r + n
  | .minus, r, n => r - n
  | .times, r, n => r * n
  | .divide, r, n => r.tdiv n

structure Expression where
  first : List UInt8
  rest : List (Op × List UInt8)
  number : Number first
  numbers : ∀ p ∈ rest, Number p.2

def restText (rest : List (Op × List UInt8)) : List UInt8 :=
  rest.flatMap fun p => p.1.char :: p.2

namespace Expression

variable (e : Expression)

def text : List UInt8 := e.first ++ restText e.rest

/-- The value behind the first `k` operators. -/
def valueAt (k : Nat) : Int :=
  (e.rest.take k).foldl (fun r p => p.1.apply r (value p.2)) (value e.first)

def val : Int := e.valueAt e.rest.length

/-- It fits into the line, an `int` holds every value on the way, and nothing is
divided by zero. -/
structure Legal : Prop where
  length : e.text.length ≤ 63
  operands : ∀ p ∈ e.rest, value p.2 < 2 ^ 31
  values : ∀ k ≤ e.rest.length, -2 ^ 31 ≤ e.valueAt k ∧ e.valueAt k < 2 ^ 31
  divisors : ∀ p ∈ e.rest, p.1 = .divide → value p.2 ≠ 0

/-- The operators and numbers with the first digit behind each operator left out; a
last operator with nothing behind it then is left out as well. -/
def misread : List (Op × List UInt8) → List (Op × List UInt8)
  | [] => []
  | [p] => if p.2.tail = [] then [] else [(p.1, p.2.tail)]
  | p :: rest => (p.1, p.2.tail) :: misread rest

/-- The value of an operand, of which nothing may be left. -/
def operand (p : Op × List UInt8) : Int :=
  if p.1 = .divide ∧ value p.2 = 0 then 1 else value p.2

/-- The value of the expression so misread, in 32 bits. -/
def misreadVal : Int :=
  (misread e.rest).foldl (fun r p => (p.1.apply r (operand p)).bmod (2 ^ 32)) (value e.first)

end Expression

/-! ## Numbers -/

def number32 (ds : List UInt8) : Int32 :=
  ds.foldl (fun v c => v * 10 + (c - 48).toUInt32.toInt32) 0

theorem calcNumber_eq (v : Int32) (s : List UInt8) :
    calcNumber v s = scan (fun v c => v * 10 + (c - 48).toUInt32.toInt32) v s := by
  induction s generalizing v with
  | nil => rfl
  | cons c s ih =>
    rw [calcNumber, scan, ih]
    rfl

theorem ofInt_digit {c : UInt8} (isDigit : IsDigit c) :
    (c - 48).toUInt32.toInt32 = Int32.ofInt (digit c) := by
  have bits : (c - 48).toUInt32 = UInt32.ofNat (digit c) := by
    apply UInt32.toNat_inj.mp
    have small := (c - 48).toNat_lt
    rw [toNat_sub_digit isDigit] at small
    rw [UInt8.toNat_toUInt32, toNat_sub_digit isDigit, UInt32.toNat_ofNat_of_lt' (by
      rw [UInt32.size]; omega)]
  rw [bits]
  rfl

theorem number32_ofInt {ds : List UInt8} (digits : ∀ c ∈ ds, IsDigit c) :
    number32 ds = Int32.ofInt (value ds) := by
  refine foldl_extend _ (fun (r : Int32) v => r = Int32.ofInt v) ?_ digits rfl
  intro r v c isDigit rep
  rw [rep, ofInt_digit isDigit, Int.natCast_add, Int.natCast_mul, Int32.ofInt_add, Int32.ofInt_mul]
  rfl

theorem number32_eq {ds : List UInt8} (digits : ∀ c ∈ ds, IsDigit c) (small : value ds < 2 ^ 31) :
    (number32 ds).toInt = value ds := by
  rw [number32_ofInt digits, Int32.toInt_ofInt_of_le (by omega) (by omega)]

theorem calcApply_char (op : Op) (r v : Int32) : (calcApply op.char r v).toInt =
    (op.apply r.toInt (if op = .divide ∧ v = 0 then 1 else v.toInt)).bmod (2 ^ 32) := by
  cases op with
  | plus => exact Int32.toInt_add r v
  | minus => exact Int32.toInt_sub r v
  | times => exact Int32.toInt_mul r v
  | divide =>
    by_cases zero : v = 0
    · rw [zero]
      exact Int32.toInt_div r 1
    · have divides : calcApply Op.divide.char r v = r / v := by simp [calcApply, Op.char, zero]
      rw [divides, if_neg fun both => zero both.2]
      exact Int32.toInt_div r v

/-! ## The loop -/

theorem not_digit_char (op : Op) : ¬ IsDigit op.char := by cases op <;> decide

/-- The last turn. -/
theorem calcLoop_last (fuel : Nat) (op : UInt8) (res : Int32) {ds : List UInt8}
    (digits : ∀ c ∈ ds, IsDigit c) (more : ds ≠ []) :
    calcLoop (fuel + 1) op res ds = calcApply op res (number32 ds) := by
  have read : calcNumber 0 ds = (number32 ds, []) := by
    rw [calcNumber_eq, ← List.append_nil ds, scan_append _ digits stops_nil, List.append_nil]
    rfl
  cases ds with
  | nil => exact absurd rfl more
  | cons d ds =>
    rw [calcLoop, read]
    exact List.cons_ne_nil d ds

/-- A turn in front of an operator. -/
theorem calcLoop_operator (fuel : Nat) (op : UInt8) (res : Int32) {ds : List UInt8}
    (digits : ∀ c ∈ ds, IsDigit c) (next : Op) (tail : List UInt8) :
    calcLoop (fuel + 1) op res (ds ++ next.char :: tail) =
      calcLoop fuel next.char (calcApply op res (number32 ds)) tail.tail := by
  have read : calcNumber 0 (ds ++ next.char :: tail) = (number32 ds, next.char :: tail) := by
    simp only [calcNumber_eq, scan_append _ digits (stops_cons (not_digit_char next) tail)]
    rfl
  obtain ⟨c, s, front⟩ := List.exists_cons_of_ne_nil
    (List.append_ne_nil_of_right_ne_nil ds (List.cons_ne_nil next.char tail))
  rw [front] at read ⊢
  rw [calcLoop, read]
  exact List.cons_ne_nil c s

/-- What the loop makes of the misread operators, behind the first digit of the
operand of `op`. -/
theorem calcLoop_eq {rest : List (Op × List UInt8)} (numbers : ∀ p ∈ rest, Number p.2) (op : Op)
    {n : List UInt8} (digits : ∀ c ∈ n.tail, IsDigit c) {fuel : Nat}
    (enough : (n.tail ++ restText rest).length ≤ fuel) (res : Int32) :
    calcLoop fuel op.char res (n.tail ++ restText rest) =
      (Expression.misread ((op, n) :: rest)).foldl
        (fun r p => calcApply p.1.char r (number32 p.2)) res := by
  induction rest generalizing op n fuel res with
  | nil =>
    have text : n.tail ++ restText [] = n.tail := List.append_nil n.tail
    rw [text] at enough ⊢
    by_cases last : n.tail = []
    · have none : Expression.misread [(op, n)] = [] := if_pos last
      simp only [none, last]
      cases fuel <;> rfl
    · have one : Expression.misread [(op, n)] = [(op, n.tail)] := if_neg last
      obtain ⟨fuel, rfl⟩ : ∃ f, fuel = f + 1 := Nat.exists_eq_succ_of_ne_zero (by
        have := List.length_pos_of_ne_nil last
        omega)
      simp only [calcLoop_last fuel _ res digits last, one]
      rfl
  | cons p rest ih =>
    obtain ⟨o, m⟩ := p
    obtain ⟨number, behind⟩ := List.forall_mem_cons.mp numbers
    have text : restText ((o, m) :: rest) = o.char :: (m ++ restText rest) := rfl
    have digits' : ∀ c ∈ m.tail, IsDigit c := fun c mem =>
      number.digits c (List.mem_of_mem_tail mem)
    have tail : (m ++ restText rest).tail = m.tail ++ restText rest :=
      List.tail_append_of_ne_nil number.some
    rw [text] at enough ⊢
    have size : (m.tail ++ restText rest).length + 1 ≤ fuel := by
      rw [← tail, List.length_tail]
      simp only [List.length_append, List.length_cons] at enough ⊢
      have := List.length_pos_of_ne_nil number.some
      omega
    obtain ⟨fuel, rfl⟩ : ∃ f, fuel = f + 1 := Nat.exists_eq_succ_of_ne_zero (by omega)
    simp only [calcLoop_operator fuel _ res digits, tail]
    exact ih behind o digits' (by omega) (calcApply op.char res (number32 n.tail))

theorem calcLoop_text (e : Expression) : calcLoop e.text.length 43 0 e.text =
    (Expression.misread e.rest).foldl (fun r p => calcApply p.1.char r (number32 p.2))
      (number32 e.first) := by
  have all := calcLoop_eq e.numbers .plus (n := 48 :: e.first) e.number.digits (Nat.le_refl _) 0
  have start : Expression.misread ((.plus, 48 :: e.first) :: e.rest) =
      (.plus, e.first) :: Expression.misread e.rest := by
    cases e.rest with
    | nil => exact if_neg e.number.some
    | cons p rest => rfl
  have sum : calcApply Op.plus.char 0 (number32 e.first) = number32 e.first :=
    Int32.zero_add (number32 e.first)
  rw [start, List.foldl_cons, sum] at all
  exact all

/-- A misread operand is that of an operator, without its first digit. -/
theorem mem_misread {rest : List (Op × List UInt8)} {q : Op × List UInt8}
    (mem : q ∈ Expression.misread rest) : ∃ p ∈ rest, q = (p.1, p.2.tail) := by
  induction rest with
  | nil => cases mem
  | cons p rest ih =>
    cases rest with
    | nil =>
      rw [Expression.misread] at mem
      split at mem
      · cases mem
      · exact ⟨p, List.mem_cons_self, List.mem_singleton.mp mem⟩
    | cons p' rest =>
      rcases List.mem_cons.mp mem with rfl | later
      · exact ⟨p, List.mem_cons_self, rfl⟩
      · obtain ⟨p, here, same⟩ := ih later
        exact ⟨p, List.mem_cons_of_mem _ here, same⟩

theorem foldl_calcApply {ops : List (Op × List UInt8)}
    (numbers : ∀ p ∈ ops, (∀ c ∈ p.2, IsDigit c) ∧ value p.2 < 2 ^ 31) (r : Int32) :
    (ops.foldl (fun r p => calcApply p.1.char r (number32 p.2)) r).toInt =
      ops.foldl (fun r p => (p.1.apply r (Expression.operand p)).bmod (2 ^ 32)) r.toInt := by
  induction ops generalizing r with
  | nil => rfl
  | cons p ops ih =>
    obtain ⟨⟨digits, small⟩, later⟩ := List.forall_mem_cons.mp numbers
    have number := number32_eq digits small
    have zero : number32 p.2 = 0 ↔ value p.2 = 0 := by
      rw [← Int32.toInt_inj, number, Int32.toInt_zero, Int.natCast_eq_zero]
    have operand : (if p.1 = .divide ∧ number32 p.2 = 0 then 1 else (number32 p.2).toInt) =
        Expression.operand p := by
      simp only [Expression.operand, zero, number]
    simp only [List.foldl_cons, List.foldl_cons, ih later, calcApply_char, operand]

/-- The calculator is right if and only if leaving out the digits makes no
difference, and the value is not the least one. -/
theorem calculated_iff (e : Expression) (legal : e.Legal) :
    calcEval e.text = signed e.val ↔ e.misreadVal = e.val ∧ e.val ≠ -2 ^ 31 := by
  have operands : ∀ p ∈ Expression.misread e.rest,
      (∀ c ∈ p.2, IsDigit c) ∧ value p.2 < 2 ^ 31 := by
    intro q mem
    obtain ⟨p, here, rfl⟩ := mem_misread mem
    refine ⟨fun c inside => (e.numbers p here).digits c (List.mem_of_mem_tail inside), ?_⟩
    exact Nat.lt_of_le_of_lt (value_tail_le p.2) (legal.operands p here)
  have first : (number32 e.first).toInt = value e.first := by
    have range := (legal.values 0 (Nat.zero_le _)).2
    have start : e.valueAt 0 = value e.first := rfl
    exact number32_eq e.number.digits (by omega)
  have result := foldl_calcApply operands (number32 e.first)
  rw [first, ← Expression.misreadVal, ← calcLoop_text] at result
  simp only [Printers.calcEval_eq, Printers.printed_iff, result]
  constructor
  · rintro ⟨above, same⟩
    refine ⟨same, fun least => above (Int32.toInt_inj.mp ?_)⟩
    simp only [result, same, least]
    rfl
  · rintro ⟨same, above⟩
    refine ⟨fun least => above ?_, same⟩
    rw [← same, ← result, least]
    rfl

/-! ## Two expressions -/

/-- `3+04` -/
def threePlusFour : Expression :=
  ⟨[51], [(.plus, [48, 52])], by decide +kernel, by decide +kernel⟩

/-- `1+2` -/
def onePlusTwo : Expression := ⟨[49], [(.plus, [50])], by decide +kernel, by decide +kernel⟩

/-- The digit left out is a zero. -/
theorem calculated_iff_threePlusFour :
    calcEval threePlusFour.text = signed threePlusFour.val := by
  have legal : threePlusFour.Legal :=
    ⟨by decide +kernel, by decide +kernel, by decide +kernel, by decide +kernel⟩
  refine (calculated_iff threePlusFour legal).mpr ?_
  decide +kernel

/-- The last operand has one digit, so it is left out with its operator. -/
theorem onePlusTwo_one : onePlusTwo.Legal ∧ ¬ calcEval onePlusTwo.text = signed onePlusTwo.val := by
  refine ⟨⟨by decide +kernel, by decide +kernel, by decide +kernel, by decide +kernel⟩, ?_⟩
  have text : calcEval onePlusTwo.text = signed 1 := by decide +kernel
  have val : onePlusTwo.val = 3 := by decide +kernel
  simp only [text, val]
  exact fun same => absurd (signed_injective same) (by decide)

end MyOS.Calculator
