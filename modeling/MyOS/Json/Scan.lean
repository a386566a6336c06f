import MyOS.Base.Nested
import MyOS.Json.Lexical

/-!
# The tokenizer as a machine

What `jsmn_parse` does with an array of tokens, in terms of the tokens allocated so
far: no index is out of bounds, and the entries behind them do not matter.
-/

namespace MyOS.Jsmn

open Nested

/-- The tokens allocated so far, and the one whose size the next token counts to. -/
structure Scan where
  pos : Nat
  toks : List Token
  super : Option Nat

def Scan.init : Scan := ⟨0, [], none⟩

/-- The character at `pos`, if the text has not come to its end. -/
def charAt (js : List UInt8) (pos : Nat) : Option UInt8 := (js[pos]?).filter (· != 0)

def Token.sizeUp (t : Token) : Token := { t with size := t.size + 1 }

def grow (super : Option Nat) (ts : List Token) : List Token :=
  match super with
  | some i => ts.modify i Token.sizeUp
  | none => ts

namespace Scan

variable (cap : Nat) (s : Scan)

/-- A string or a primitive, with the text read up to `pos`. -/
def add (t : Token) (pos : Nat) : Except Error Scan :=
  if s.toks.length < cap then .ok { pos, toks := grow s.super s.toks ++ [t], super := s.super }
  else .error .nomem

def enter (type : JsmnType) : Except Error Scan :=
  if s.toks.length < cap then
    .ok
      { pos := s.pos + 1
        toks := grow s.super s.toks ++ [⟨type, s.pos, -1, 0⟩]
        super := s.toks.length }
  else .error .nomem

def leave (type : JsmnType) : Except Error Scan :=
  match lastIdx Token.isOpen s.toks with
  | none => .error .inval
  | some i =>
    if s.toks[i]?.map Token.type = some type then
      let toks := s.toks.modify i fun t => { t with stop := s.pos + 1 }
      .ok { pos := s.pos + 1, toks, super := lastIdx Token.isOpen toks }
    else .error .inval

def step (js : List UInt8) (c : UInt8) : Except Error Scan :=
  if c = 123 then s.enter cap .object
  else if c = 91 then s.enter cap .array
  else if c = 125 then s.leave .object
  else if c = 93 then s.leave .array
  else if c = 34 then
    match stringLoop 0 (js.drop (s.pos + 1)) with
    | .error e => .error e
    | .ok n => s.add cap ⟨.string, (s.pos + 1 : Nat), (s.pos + 1 + n : Nat), 0⟩ (s.pos + n + 2)
  else if c ∈ [9, 13, 10, 32, 44] then .ok { s with pos := s.pos + 1 }
  else if c = 58 then
    .ok { s with pos := s.pos + 1, super := if s.toks = [] then none else some (s.toks.length - 1) }
  else
    match primitiveLoop (js.drop s.pos) with
    | none => .error .inval
    | some n => s.add cap ⟨.primitive, s.pos, s.pos + n, 0⟩ (s.pos + n)

end Scan

/-- A run up to its end: without an error, or with the error that ended it. -/
inductive Parses (js : List UInt8) (cap : Nat) : Scan → Option Error → Scan → Prop
  | complete {s : Scan} (ended : charAt js s.pos = none)
      (closed : lastIdx Token.isOpen s.toks = none) :
      Parses js cap s none s
  | part {s : Scan} (ended : charAt js s.pos = none) (opened : lastIdx Token.isOpen s.toks ≠ none) :
      Parses js cap s (some .part) s
  | stop {s : Scan} {c : UInt8} {e : Error} (here : charAt js s.pos = some c)
      (fails : s.step cap js c = .error e) : Parses js cap s (some e) s
  | next {s s' t : Scan} {c : UInt8} {r : Option Error} (here : charAt js s.pos = some c)
      (turn : s.step cap js c = .ok s') (rest : Parses js cap s' r t) : Parses js cap s r t

theorem charAt_eq {js : List UInt8} {pos : Nat} {c : UInt8} (here : charAt js pos = some c) :
    js[pos]? = some c ∧ c ≠ 0 ∧ js.drop pos = c :: js.drop (pos + 1) := by
  obtain ⟨found, nonzero⟩ := Option.filter_eq_some_iff.mp here
  obtain ⟨below, same⟩ := List.getElem?_eq_some_iff.mp found
  exact ⟨found, bne_iff_ne.mp nonzero, same ▸ List.drop_eq_getElem_cons below⟩

theorem charAt_drop {js l : List UInt8} {pos : Nat} {c : UInt8} (split : js.drop pos = c :: l)
    (nonzero : c ≠ 0) : charAt js pos = some c := by
  have found : js[pos]? = some c := by
    have head := congrArg (·[0]?) split
    simpa using head
  exact Option.filter_eq_some_iff.mpr ⟨found, bne_iff_ne.mpr nonzero⟩

/-! ## What a turn can do -/

def opening : JsmnType → UInt8
  | .object => 123
  | _ => 91

def closing : JsmnType → UInt8
  | .object => 125
  | _ => 93

/-- The characters a turn steps over. -/
def isPad (c : UInt8) : Bool := c ∈ [9, 13, 10, 32, 44]

/-- The characters that begin no primitive. -/
def isSpecial (c : UInt8) : Bool := c ∈ [123, 91, 125, 93, 34, 58] || isPad c

inductive Turned (js : List UInt8) (cap : Nat) (s : Scan) : Scan → Prop
  | enter {type : JsmnType} {rest : List UInt8} (container : type = .object ∨ type = .array)
      (here : js.drop s.pos = opening type :: rest) (room : s.toks.length < cap) :
      Turned js cap s ⟨s.pos + 1, grow s.super s.toks ++ [⟨type, s.pos, -1, 0⟩], some s.toks.length⟩
  | leave {t : Token} {a b : List Token} {rest : List UInt8}
      (container : t.type = .object ∨ t.type = .array)
      (here : js.drop s.pos = closing t.type :: rest) (toks : s.toks = a ++ t :: b)
      (opened : t.isOpen) (closed : lastIdx Token.isOpen b = none) :
      Turned js cap s ⟨s.pos + 1, a ++ { t with stop := s.pos + 1 } :: b, lastIdx Token.isOpen a⟩
  | string {body rest : List UInt8} (here : js.drop s.pos = 34 :: (body ++ 34 :: rest))
      (ok : StringBody body) (room : s.toks.length < cap) :
      Turned js cap s ⟨s.pos + body.length + 2,
        grow s.super s.toks ++
          [⟨.string, (s.pos + 1 : Nat), (s.pos + 1 + body.length : Nat), 0⟩], s.super⟩
  | pad {c : UInt8} {rest : List UInt8} (here : js.drop s.pos = c :: rest) (pad : isPad c) :
      Turned js cap s { s with pos := s.pos + 1 }
  | colon {rest : List UInt8} (here : js.drop s.pos = 58 :: rest) :
      Turned js cap s
        { s with pos := s.pos + 1, super := if s.toks = [] then none else some (s.toks.length - 1) }
  | primitive {c : UInt8} {text rest : List UInt8} (here : js.drop s.pos = c :: text ++ rest)
      (first : isSpecial c = false) (all : ∀ d ∈ c :: text, inPrimitive d) (ends : Ends rest)
      (room : s.toks.length < cap) :
      Turned js cap s ⟨s.pos + (c :: text).length,
        grow s.super s.toks ++
          [⟨.primitive, s.pos, (s.pos + (c :: text).length : Nat), 0⟩], s.super⟩

theorem stop_ne (pos : Nat) : ((pos : Int) + 1 == -1) = false := by
  rw [beq_eq_false_iff_ne]
  omega

theorem closed_cons {t : Token} {b : List Token} (ended : (t.stop == -1) = false)
    (closed : lastIdx Token.isOpen b = none) : lastIdx Token.isOpen (t :: b) = none := by
  have shut : t.isOpen = false := by rw [Token.isOpen, ended, Bool.and_false]
  simp only [lastIdx, closed, shut]
  rfl

section
variable {js : List UInt8} {cap : Nat} {s s' : Scan}

theorem add_ok_iff {t : Token} {pos : Nat} : s.add cap t pos = .ok s' ↔
    s.toks.length < cap ∧ s' = ⟨pos, grow s.super s.toks ++ [t], s.super⟩ := by
  unfold Scan.add
  split
  · rename_i room
    exact ⟨fun same => ⟨room, (Except.ok.inj same).symm⟩, fun both => congrArg _ both.2.symm⟩
  · rename_i full
    exact iff_of_false (nomatch ·) fun both => full both.1

theorem enter_ok_iff {type : JsmnType} : s.enter cap type = .ok s' ↔ s.toks.length < cap ∧
    s' = ⟨s.pos + 1, grow s.super s.toks ++ [⟨type, s.pos, -1, 0⟩], some s.toks.length⟩ := by
  unfold Scan.enter
  split
  · rename_i room
    exact ⟨fun same => ⟨room, (Except.ok.inj same).symm⟩, fun both => congrArg _ both.2.symm⟩
  · rename_i full
    exact iff_of_false (nomatch ·) fun both => full both.1

theorem leave_eq {t : Token} {a b : List Token} (toks : s.toks = a ++ t :: b) (opened : t.isOpen)
    (closed : lastIdx Token.isOpen b = none) (type : JsmnType) : s.leave type =
      if t.type = type then
        .ok ⟨s.pos + 1, a ++ { t with stop := s.pos + 1 } :: b, lastIdx Token.isOpen a⟩
      else .error .inval := by
  have last : lastIdx Token.isOpen (a ++ t :: b) = some a.length :=
    lastIdx_append_cons opened closed
  have here : (a ++ t :: b)[a.length]? = some t := by simp
  have shut : lastIdx Token.isOpen ({ t with stop := (s.pos : Int) + 1 } :: b) = none :=
    closed_cons (stop_ne s.pos) closed
  simp only [Scan.leave, toks, last, here, Option.map_some, Option.some.injEq, modify_append_cons,
    lastIdx_append shut]

theorem leave_ok {type : JsmnType} (left : s.leave type = .ok s') : ∃ a t b, s.toks = a ++ t :: b ∧
    t.isOpen ∧ lastIdx Token.isOpen b = none ∧ t.type = type ∧
    s' = ⟨s.pos + 1, a ++ { t with stop := s.pos + 1 } :: b, lastIdx Token.isOpen a⟩ := by
  cases last : lastIdx Token.isOpen s.toks with
  | none =>
    simp only [Scan.leave, last] at left
    cases left
  | some i =>
    obtain ⟨a, t, b, toks, -, opened, closed⟩ := lastIdx_split last
    rw [leave_eq toks opened closed] at left
    split at left
    · rename_i same
      exact ⟨a, t, b, toks, opened, closed, same, (Except.ok.inj left).symm⟩
    · cases left

theorem special_of_ends {c : UInt8} (ends : endsPrimitive c) : isSpecial c = true := by
  simp only [endsPrimitive, decide_eq_true_eq, List.mem_cons, List.not_mem_nil, or_false] at ends
  rcases ends with rfl | rfl | rfl | rfl | rfl | rfl | rfl | rfl <;> rfl

/-- What begins nothing else begins a primitive. -/
theorem step_plain {c : UInt8} (plain : isSpecial c = false) : s.step cap js c =
    match primitiveLoop (js.drop s.pos) with
    | none => .error .inval
    | some n => s.add cap ⟨.primitive, s.pos, s.pos + n, 0⟩ (s.pos + n) := by
  simp only [isSpecial, isPad, Bool.or_eq_false_iff, decide_eq_false_iff_not] at plain
  obtain ⟨other, pad⟩ := plain
  simp only [List.mem_cons, List.not_mem_nil, or_false, not_or] at other
  obtain ⟨brace, bracket, brace', bracket', quote, colon⟩ := other
  rw [Scan.step, if_neg brace, if_neg bracket, if_neg brace', if_neg bracket', if_neg quote,
    if_neg pad, if_neg colon]

theorem step_turned {c : UInt8} (here : charAt js s.pos = some c)
    (turn : s.step cap js c = .ok s') : Turned js cap s s' := by
  obtain ⟨-, nonzero, split⟩ := charAt_eq here
  unfold Scan.step at turn
  by_cases brace : c = 123
  · subst brace
    obtain ⟨room, rfl⟩ := enter_ok_iff.mp turn
    exact .enter (.inl rfl) split room
  rw [if_neg brace] at turn
  by_cases bracket : c = 91
  · subst bracket
    obtain ⟨room, rfl⟩ := enter_ok_iff.mp turn
    exact .enter (.inr rfl) split room
  rw [if_neg bracket] at turn
  by_cases brace' : c = 125
  · subst brace'
    obtain ⟨a, t, b, toks, opened, closed, type, rfl⟩ := leave_ok turn
    exact .leave (.inl type) (by rw [type]; exact split) toks opened closed
  rw [if_neg brace'] at turn
  by_cases bracket' : c = 93
  · subst bracket'
    obtain ⟨a, t, b, toks, opened, closed, type, rfl⟩ := leave_ok turn
    exact .leave (.inr type) (by rw [type]; exact split) toks opened closed
  rw [if_neg bracket'] at turn
  by_cases quote : c = 34
  · subst quote
    rw [if_pos rfl] at turn
    cases found : stringLoop 0 (js.drop (s.pos + 1)) with
    | error e =>
      rw [found] at turn
      cases turn
    | ok n =>
      rw [found] at turn
      obtain ⟨body, rest, whole, ok, rfl⟩ := rest_zero.mp ((stringLoop_iff ..).mp found)
      obtain ⟨room, rfl⟩ := add_ok_iff.mp turn
      exact .string (whole ▸ split) ok room
  rw [if_neg quote] at turn
  by_cases pad : c ∈ [9, 13, 10, 32, 44]
  · rw [if_pos pad] at turn
    cases turn
    exact .pad split (decide_eq_true pad)
  rw [if_neg pad] at turn
  by_cases colon : c = 58
  · subst colon
    cases turn
    exact .colon split
  rw [if_neg colon] at turn
  have special : isSpecial c = false := by
    simp only [isSpecial, isPad, Bool.or_eq_false_iff, decide_eq_false_iff_not]
    refine ⟨?_, pad⟩
    simp only [List.mem_cons, List.not_mem_nil, or_false, not_or]
    exact ⟨brace, bracket, brace', bracket', quote, colon⟩
  cases found : primitiveLoop (js.drop s.pos) with
  | none =>
    rw [found] at turn
    cases turn
  | some n =>
    rw [found] at turn
    obtain ⟨text, rest, whole, all, ends, rfl⟩ := (primitiveLoop_iff ..).mp found
    obtain ⟨room, rfl⟩ := add_ok_iff.mp turn
    cases text with
    | nil =>
      rw [List.nil_append] at whole
      have stops := ends c (by rw [← whole, split]; rfl)
      rcases stops with zero | stops
      · exact absurd zero nonzero
      · rw [special_of_ends stops] at special
        cases special
    | cons d text =>
      obtain rfl : c = d := (List.cons.inj (split.symm.trans whole)).1
      exact .primitive whole special all ends room

/-- Every turn is one of these, and each of these is a turn. -/
theorem step_ok_iff {c : UInt8} (here : charAt js s.pos = some c) :
    s.step cap js c = .ok s' ↔ Turned js cap s s' := by
  refine ⟨step_turned here, fun turned => ?_⟩
  obtain ⟨-, nonzero, split⟩ := charAt_eq here
  cases turned with
  | enter container found room =>
    obtain rfl := (List.cons.inj (split.symm.trans found)).1
    rcases container with rfl | rfl
    · exact enter_ok_iff.mpr ⟨room, rfl⟩
    · exact enter_ok_iff.mpr ⟨room, rfl⟩
  | @leave t a b rest container found toks opened closed =>
    obtain rfl := (List.cons.inj (split.symm.trans found)).1
    have left := leave_eq toks opened closed t.type
    rw [if_pos rfl] at left
    rcases container with type | type
    · rw [type] at left ⊢
      exact left
    · rw [type] at left ⊢
      exact left
  | string found ok room =>
    obtain ⟨rfl, tail⟩ := List.cons.inj (split.symm.trans found)
    have loop := (stringLoop_iff 0 _ _).mpr (rest_zero.mpr ⟨_, _, tail, ok, rfl⟩)
    simp only [Scan.step, loop]
    exact add_ok_iff.mpr ⟨room, rfl⟩
  | pad found pad =>
    obtain rfl := (List.cons.inj (split.symm.trans found)).1
    simp only [isPad, decide_eq_true_eq, List.mem_cons, List.not_mem_nil, or_false] at pad
    rcases pad with rfl | rfl | rfl | rfl | rfl <;> rfl
  | colon found =>
    obtain rfl := (List.cons.inj (split.symm.trans found)).1
    rfl
  | primitive found first all ends room =>
    obtain rfl := (List.cons.inj (split.symm.trans found)).1
    have loop := (primitiveLoop_iff _ _).mpr ⟨_, _, found, all, ends, rfl⟩
    rw [step_plain first, loop]
    exact add_ok_iff.mpr ⟨room, rfl⟩

end

/-- The index in `super` is that of a token. -/
def Scan.Valid (s : Scan) : Prop := ∀ i, s.super = some i → i < s.toks.length

theorem length_grow (super : Option Nat) (ts : List Token) :
    (grow super ts).length = ts.length := by
  cases super with
  | none => rfl
  | some i => exact List.length_modify ..

section
variable {js : List UInt8} {cap : Nat} {s s' : Scan}

theorem lastIdx_lt {a : List Token} {i : Nat} (last : lastIdx Token.isOpen a = some i) :
    i < a.length := by
  obtain ⟨b, t, c, rfl, rfl, -⟩ := lastIdx_split last
  simp

theorem Turned.valid (turned : Turned js cap s s') (valid : s.Valid) : s'.Valid := by
  intro i super
  cases turned with
  | enter =>
    cases super
    simp [length_grow]
  | leave =>
    have := lastIdx_lt super
    simp only [List.length_append, List.length_cons]
    omega
  | string =>
    have := valid i super
    simp only [List.length_append, List.length_singleton, length_grow]
    omega
  | pad => exact valid i super
  | colon =>
    by_cases none : s.toks = []
    · simp only [if_pos none] at super
      cases super
    · simp only [if_neg none] at super
      cases super
      exact Nat.sub_lt (List.length_pos_iff.mpr none) Nat.one_pos
  | primitive =>
    have := valid i super
    simp only [List.length_append, List.length_singleton, length_grow]
    omega

/-- A turn goes on in the text, and stays in it. -/
theorem Turned.pos (turned : Turned js cap s s') : s.pos < s'.pos ∧ s'.pos ≤ js.length := by
  have read {l : List UInt8} (here : js.drop s.pos = l) : l.length = js.length - s.pos := by
    rw [← here, List.length_drop]
  cases turned with
  | enter _ here => have := read here; simp at this ⊢; omega
  | leave _ here => have := read here; simp at this ⊢; omega
  | string here => have := read here; simp at this ⊢; omega
  | pad here => have := read here; simp at this ⊢; omega
  | colon here => have := read here; simp at this ⊢; omega
  | primitive here => have := read here; simp at this ⊢; omega

/-- At most one token is added, where there is room. -/
theorem Turned.length (turned : Turned js cap s s') :
    s'.toks.length = s.toks.length ∨ s'.toks.length = s.toks.length + 1 ∧ s.toks.length < cap := by
  cases turned with
  | enter _ _ room => exact .inr ⟨by simp [length_grow], room⟩
  | leave _ _ toks => exact .inl (by simp [toks])
  | string _ _ room => exact .inr ⟨by simp [length_grow], room⟩
  | pad => exact .inl rfl
  | colon => exact .inl rfl
  | primitive _ _ _ _ room => exact .inr ⟨by simp [length_grow], room⟩

end

/-! ## The machine is the function -/

namespace Scan

def superIndex (s : Scan) : Int :=
  match s.super with
  | some i => i
  | none => -1

def parser (s : Scan) : Parser := ⟨s.pos, s.toks.length, s.superIndex⟩

/-- In an array with the entries `free` behind the tokens. -/
def work (s : Scan) (free : List Token) : Work := ⟨s.parser, some (s.toks ++ free), s.toks.length⟩

/-- At the end of a turn, in front of `parser->pos++`. -/
def behind (s : Scan) (free : List Token) : Work :=
  { s.work free with p := { s.parser with pos := s.pos - 1 } }

/-- The function does what the machine does. -/
def Agrees (s : Scan) (free : List Token) (r : Except Error Scan) (t : Option Turn) : Prop :=
  match r with
  | .error e => ∃ count, t = some (.ret e.code { s.work free with count })
  | .ok s' =>
    ∃ free', free' <:+ free ∧ s'.toks.length + free'.length = s.toks.length + free.length ∧
      t = some (.next (s'.behind free'))

end Scan

theorem openBelow_eq (ts : List Token) {n : Nat} (below : n ≤ ts.length) :
    openBelow ts n = some (lastIdx Token.isOpen (ts.take n)) := by
  induction n with
  | zero => rfl
  | succ n ih =>
    have inside : n < ts.length := below
    rw [openBelow, List.getElem?_eq_getElem inside, List.take_succ_eq_append_getElem inside]
    change (if ts[n].isOpen then some (some n) else openBelow ts n) = _
    by_cases opened : ts[n].isOpen
    · rw [if_pos opened, lastIdx_append_cons opened rfl,
        List.length_take_of_le (Nat.le_of_lt inside)]
    · have last : lastIdx Token.isOpen [ts[n]] = none := by
        simp only [lastIdx, opened]
        rfl
      rw [if_neg opened, ih (Nat.le_of_lt inside), lastIdx_append last]

section
variable {s : Scan} {free : List Token}

theorem openBelow_toks (toks free : List Token) :
    openBelow (toks ++ free) toks.length = some (lastIdx Token.isOpen toks) := by
  rw [openBelow_eq _ (by simp), List.take_left]

theorem sizeUp_eq {toks : List Token} {i : Nat} (inside : i < toks.length) (rest : List Token) :
    sizeUp (toks ++ rest) i = some (grow (some i) toks ++ rest) := by
  obtain ⟨a, t, b, rfl, rfl⟩ := exists_append_cons inside
  rw [grow, modify_append_cons]
  simp [sizeUp, tokenAt, Token.sizeUp]

/-- What is counted to the superior token. -/
theorem countTo_eq (valid : s.Valid) (rest : List Token) :
    countTo (s.toks ++ rest) s.superIndex = some (grow s.super s.toks ++ rest) := by
  unfold countTo Scan.superIndex
  cases here : s.super with
  | none => rfl
  | some i =>
    have nonneg : (i : Int) ≠ -1 := by omega
    dsimp only
    rw [if_pos nonneg, sizeUp_eq (valid i here)]

theorem alloc_full (p : Parser) (next : p.toknext = s.toks.length) :
    jsmnAllocToken p (s.toks ++ []) = none := by
  rw [List.append_nil, jsmnAllocToken, if_pos (Nat.le_of_eq next.symm)]

theorem alloc_some (p : Parser) (next : p.toknext = s.toks.length) (f : Token) :
    jsmnAllocToken p (s.toks ++ f :: free) =
      some (s.toks.length, { p with toknext := s.toks.length + 1 },
      s.toks ++ { f with start := -1, stop := -1, size := 0 } :: free) := by
  have room : ¬ (s.toks ++ f :: free).length ≤ p.toknext := by
    rw [next, List.length_append, List.length_cons]
    omega
  rw [jsmnAllocToken, if_neg room, next, modify_append_cons]

/-- A string or a primitive of the text is a token where there is room. -/
theorem valueTurn_add (valid : s.Valid) {t : Token} {pos : Nat} {o : Outcome}
    (full : free = [] → o = ⟨Error.nomem.code, s.parser, some (s.toks ++ free)⟩)
    (fits : ∀ f rest, free = f :: rest →
      o = ⟨0, { s.parser with pos := pos - 1, toknext := s.toks.length + 1 },
      some (s.toks ++ t :: rest)⟩) :
    s.Agrees free (s.add (s.toks.length + free.length) t pos) (valueTurn (s.work free) o) := by
  cases free with
  | nil =>
    rw [full rfl, Scan.add, if_neg (by simp)]
    exact ⟨_, rfl⟩
  | cons f rest =>
    rw [fits f rest rfl, Scan.add, if_pos (by simp)]
    have counted := countTo_eq valid (t :: rest)
    refine ⟨rest, List.suffix_cons f rest, ?_, ?_⟩
    · simp only [List.length_append, length_grow, List.length_cons, List.length_nil]
      omega
    · simp only [valueTurn, Scan.work, lt_irrefl, if_false, Scan.parser, counted,
        Option.bind_eq_bind, Option.bind_some]
      simp [Scan.behind, Scan.work, Scan.parser, Scan.superIndex, length_grow]

theorem openTurn_enter (valid : s.Valid) (type : JsmnType) :
    s.Agrees free (s.enter (s.toks.length + free.length) type) (openTurn (s.work free) type) := by
  cases free with
  | nil =>
    rw [Scan.enter, if_neg (by simp)]
    simp only [openTurn, Scan.work, alloc_full s.parser rfl]
    exact ⟨_, rfl⟩
  | cons f rest =>
    have fresh : jsmnAllocToken s.parser (s.toks ++ f :: rest) = _ := alloc_some s.parser rfl f
    have counted := countTo_eq valid ({ f with start := -1, stop := -1, size := 0 } :: rest)
    have put (t t' : Token) : (grow s.super s.toks ++ t :: rest).set s.toks.length t' =
        grow s.super s.toks ++ t' :: rest := by
      rw [← length_grow s.super s.toks]
      simp
    rw [Scan.enter, if_pos (by simp)]
    refine ⟨rest, List.suffix_cons f rest, ?_, ?_⟩
    · simp only [List.length_append, length_grow, List.length_cons, List.length_nil]
      omega
    · simp only [openTurn, Scan.work, fresh]
      simp only [Scan.parser, counted, Option.bind_eq_bind, Option.bind_some]
      simp [put, Scan.behind, Scan.work, Scan.parser, Scan.superIndex, length_grow]

theorem closeTurn_leave (type : JsmnType) :
    s.Agrees free (s.leave type) (closeTurn (s.work free) type) := by
  have found : openBelow (s.toks ++ free) s.parser.toknext = some (lastIdx Token.isOpen s.toks) :=
    openBelow_toks s.toks free
  simp only [closeTurn, Scan.work, found, Option.bind_eq_bind, Option.bind_some]
  cases last : lastIdx Token.isOpen s.toks with
  | none =>
    simp only [Scan.leave, last]
    exact ⟨_, rfl⟩
  | some i =>
    obtain ⟨a, t, b, whole, rfl, opened, closed⟩ := lastIdx_split last
    have here (rest : List Token) : (a ++ t :: b ++ rest)[a.length]? = some t := by simp
    rw [leave_eq whole opened closed]
    simp only [whole, here, Option.bind_some]
    by_cases same : t.type = type
    · rw [if_neg (not_not.mpr same), if_pos same]
      let t' : Token := { t with stop := s.pos + 1 }
      have put : (a ++ t :: b ++ free).set a.length { t with stop := (s.parser.pos : Int) + 1 } =
          a ++ t' :: b ++ free := by
        simp [t', Scan.parser]
      have front : a ++ t' :: b ++ free = (a ++ [t']) ++ (b ++ free) := by simp
      have outer : openBelow (a ++ t' :: b ++ free) (a.length + 1) =
          some (lastIdx Token.isOpen a) := by
        rw [openBelow_eq _ (by simp), front, List.take_left' (by simp),
          lastIdx_append (closed_cons (stop_ne s.pos) rfl)]
      have length : (a ++ t' :: b).length = (a ++ t :: b).length := by simp
      have next : s.toks.length = (a ++ t :: b).length := congrArg List.length whole
      refine ⟨free, List.suffix_refl free, ?_, ?_⟩
      · rw [next]
        exact congrArg (· + free.length) length
      · rw [put, outer]
        simp only [Option.bind_some, Scan.behind, Scan.work, Scan.parser, Nat.add_sub_cancel,
          next, ← length]
        rfl
    · rw [if_pos same, if_neg same]
      exact ⟨(a ++ t :: b).length, by simp only [Scan.work, whole]⟩

/-- The superior token, if there is one, is in the array. -/
theorem tokenAt_super (valid : s.Valid) (rest : List Token) (given : s.superIndex ≠ -1) :
    ∃ t, tokenAt (s.toks ++ rest) s.superIndex = some t := by
  unfold Scan.superIndex at given ⊢
  cases here : s.super with
  | none =>
    rw [here] at given
    exact absurd rfl given
  | some i =>
    have inside : i < (s.toks ++ rest).length := by
      rw [List.length_append]
      exact Nat.lt_add_right _ (valid i here)
    have nonneg : (0 : Int) ≤ i := Int.natCast_nonneg i
    refine ⟨(s.toks ++ rest)[i], ?_⟩
    rw [tokenAt, if_pos nonneg, Int.toNat_natCast, List.getElem?_eq_getElem inside]

theorem commaTurn_eq (valid : s.Valid) : commaTurn (s.work free) = some (.next (s.work free)) := by
  change (if s.superIndex ≠ -1 then
    (tokenAt (s.toks ++ free) s.superIndex).map fun _ => Turn.next (s.work free)
    else some (Turn.next (s.work free))) = _
  by_cases given : s.superIndex ≠ -1
  · obtain ⟨t, there⟩ := tokenAt_super valid free given
    rw [if_pos given, there, Option.map_some]
  · rw [if_neg given]

theorem Error.code_neg (e : Error) : e.code < 0 := by
  cases e <;> decide

theorem valueTurn_error (e : Error) :
    s.Agrees free (.error e)
      (valueTurn (s.work free) ⟨e.code, s.parser, some (s.toks ++ free)⟩) := by
  rw [valueTurn, if_pos e.code_neg]
  exact ⟨_, rfl⟩

theorem stringTurn (valid : s.Valid) (js : List UInt8) :
    s.Agrees free
      (match stringLoop 0 (js.drop (s.pos + 1)) with
        | .error e => .error e
        | .ok n => s.add (s.toks.length + free.length)
            ⟨.string, (s.pos + 1 : Nat), (s.pos + 1 + n : Nat), 0⟩ (s.pos + n + 2))
      (valueTurn (s.work free) (jsmnParseString s.parser js (some (s.toks ++ free)))) := by
  have start : s.parser.pos = s.pos := rfl
  cases found : stringLoop 0 (js.drop (s.pos + 1)) with
  | error e =>
    simp only [jsmnParseString, start, found]
    exact valueTurn_error e
  | ok n =>
    refine valueTurn_add valid ?_ ?_
    · rintro rfl
      simp only [jsmnParseString, start, found, alloc_full s.parser rfl]
    · rintro f rest rfl
      simp only [jsmnParseString, start, found, alloc_some s.parser rfl, jsmnFillToken]
      simp
      omega

theorem primitiveTurn (valid : s.Valid) (js : List UInt8) :
    s.Agrees free
      (match primitiveLoop (js.drop s.pos) with
        | none => .error .inval
        | some n =>
          s.add (s.toks.length + free.length) ⟨.primitive, s.pos, s.pos + n, 0⟩ (s.pos + n))
      (valueTurn (s.work free) (jsmnParsePrimitive s.parser js (some (s.toks ++ free)))) := by
  have start : s.parser.pos = s.pos := rfl
  cases found : primitiveLoop (js.drop s.pos) with
  | none =>
    simp only [jsmnParsePrimitive, start, found]
    exact valueTurn_error .inval
  | some n =>
    refine valueTurn_add valid ?_ ?_
    · rintro rfl
      simp only [jsmnParsePrimitive, start, found, alloc_full s.parser rfl]
    · rintro f rest rfl
      simp only [jsmnParsePrimitive, start, found, alloc_some s.parser rfl, jsmnFillToken]
      simp

/-- A turn of the function is a turn of the machine. -/
theorem turn_agrees (valid : s.Valid) (js : List UInt8) (c : UInt8) :
    s.Agrees free (s.step (s.toks.length + free.length) js c) (turn js (s.work free) c) := by
  unfold Scan.step turn
  split
  · exact openTurn_enter valid .object
  split
  · exact openTurn_enter valid .array
  split
  · exact closeTurn_leave .object
  split
  · exact closeTurn_leave .array
  split
  · exact stringTurn valid js
  have pads : c ∈ [9, 13, 10, 32, 44] ↔ c ∈ [9, 13, 10, 32] ∨ c = 44 := by
    simp only [List.mem_cons, List.not_mem_nil, or_false, or_assoc]
  by_cases blank : c ∈ [9, 13, 10, 32]
  · rw [if_pos (pads.mpr (.inl blank)), if_pos blank]
    exact ⟨free, List.suffix_refl free, rfl, rfl⟩
  rw [if_neg blank]
  by_cases comma : c = 44
  · subst comma
    rw [if_pos (pads.mpr (.inr rfl)), if_neg (by decide), if_pos rfl, commaTurn_eq valid]
    exact ⟨free, List.suffix_refl free, rfl, rfl⟩
  rw [if_neg (mt pads.mp (not_or.mpr ⟨blank, comma⟩)), if_neg comma]
  split
  · refine ⟨free, List.suffix_refl free, rfl, ?_⟩
    cases toks : s.toks with
    | nil => simp [Scan.behind, Scan.work, Scan.parser, Scan.superIndex, toks]
    | cons t ts => simp [Scan.behind, Scan.work, Scan.parser, Scan.superIndex, toks]
  · exact primitiveTurn valid js

/-- What the function returns. -/
def result (r : Option Error) (s : Scan) : Int :=
  match r with
  | none => s.toks.length
  | some e => e.code

/-- The function comes to the end the machine comes to. -/
def Ended (out : Option (Int × Work)) (r : Option Error) (s : Scan) (free : List Token) : Prop :=
  ∃ count, out = some (result r s, { s.work free with count })

theorem finish_eq (s : Scan) (free : List Token) : finish (s.work free) =
    match lastIdx Token.isOpen s.toks with
    | some _ => some (Error.part.code, s.work free)
    | none => some ((s.toks.length : Int), s.work free) := by
  have found : openBelow (s.toks ++ free) s.parser.toknext = some (lastIdx Token.isOpen s.toks) :=
    openBelow_toks s.toks free
  change (openBelow (s.toks ++ free) s.parser.toknext >>= fun
    | some _ => some (Error.part.code, s.work free)
    | none => some ((s.toks.length : Int), s.work free)) = _
  rw [found]
  rfl

/-- At the end of the text, or at a NUL in it. -/
theorem parseLoop_end {js : List UInt8} {fuel : Nat} (ended : charAt js s.pos = none) :
    parseLoop js (fuel + 1) (s.work free) = finish (s.work free) := by
  rw [parseLoop]
  have start : (s.work free).p.pos = s.pos := rfl
  rw [start]
  cases read : js[s.pos]? with
  | none => rfl
  | some c =>
    have zero : c = 0 := by simpa [charAt, read] using ended
    exact if_pos zero

theorem parseLoop_ends {js : List UInt8} {fuel : Nat} (valid : s.Valid)
    (enough : js.length - s.pos < fuel) : ∃ r s' free',
      Parses js (s.toks.length + free.length) s r s' ∧ free' <:+ free ∧
      s'.toks.length + free'.length = s.toks.length + free.length ∧
      Ended (parseLoop js fuel (s.work free)) r s' free' := by
  induction fuel generalizing s free with
  | zero => exact absurd enough (Nat.not_lt_zero _)
  | succ fuel ih =>
    cases here : charAt js s.pos with
    | none =>
      rw [parseLoop_end here, finish_eq]
      cases last : lastIdx Token.isOpen s.toks with
      | none =>
        exact ⟨none, s, free, .complete here last, List.suffix_refl free, rfl, s.toks.length, rfl⟩
      | some i =>
        have opened : lastIdx Token.isOpen s.toks ≠ none := by simp [last]
        exact ⟨some .part, s, free, .part here opened, List.suffix_refl free, rfl,
          s.toks.length, rfl⟩
    | some c =>
      obtain ⟨found, nonzero, -⟩ := charAt_eq here
      have read : js[(s.work free).p.pos]? = some c := found
      rw [parseLoop, read]
      dsimp only
      rw [if_neg nonzero]
      have agrees : s.Agrees free _ _ := turn_agrees valid js c
      cases turned : s.step (s.toks.length + free.length) js c with
      | error e =>
        rw [turned] at agrees
        obtain ⟨count, same⟩ := agrees
        rw [same]
        exact ⟨some e, s, free, .stop here turned, List.suffix_refl free, rfl, count, rfl⟩
      | ok s' =>
        rw [turned] at agrees
        obtain ⟨free', suffix, length, same⟩ := agrees
        have turn := (step_ok_iff here).mp turned
        have ahead := turn.pos
        obtain ⟨r, t, free'', run, suffix', length', ended⟩ :=
          @ih s' free' (turn.valid valid) (by omega)
        have resumed : s'.pos - 1 + 1 = s'.pos := by omega
        rw [length] at run length'
        refine ⟨r, t, free'', .next here turned run, suffix'.trans suffix, length', ?_⟩
        rw [same]
        simp only [Option.bind_eq_bind, Option.bind_some, Scan.behind, resumed]
        exact ended

end

end MyOS.Jsmn
