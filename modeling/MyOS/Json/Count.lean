import MyOS.Json.Calls

/-!
# Calls without an array

With `NULL` for the array `jsmn_parse` counts the tokens and does not see which
bracket closes which. An array of that many tokens is large enough.
-/

namespace MyOS.Jsmn

open Nested

/-- The work of a counting call: no array, and `n` tokens so far. -/
def counting (p : Parser) (n : Int) : Work := ⟨p, none, n⟩

/-- What a counting turn may change of the parser. -/
structure Kept (p p' : Parser) : Prop where
  toknext : p'.toknext = p.toknext
  toksuper : p'.toksuper = p.toksuper ∨ p'.toksuper = (p.toknext : Int) - 1

theorem Kept.refl (p : Parser) : Kept p p := ⟨rfl, .inl rfl⟩

theorem Kept.trans {p q r : Parser} (first : Kept p q) (second : Kept q r) : Kept p r where
  toknext := second.toknext.trans first.toknext
  toksuper := by
    rcases second.toksuper with same | last
    · exact same ▸ first.toksuper
    · exact .inr (first.toknext ▸ last)

/-- A counting turn at `p` goes on to `p'` and counts `k` tokens. -/
structure Counts (js : List UInt8) (p : Parser) (n : Int) (c : UInt8) (pos k : Nat) : Prop where
  turn : ∃ p', turn js (counting p n) c = some (.next (counting p' (n + k))) ∧
    p'.pos + 1 = pos ∧ Kept p p'

/-- A counting turn fails, and not for lack of tokens. -/
def Fails (js : List UInt8) (p : Parser) (n : Int) (c : UInt8) : Prop :=
  ∃ e : Error, e ≠ .nomem ∧ turn js (counting p n) c = some (.ret e.code (counting p n))

section
variable {js : List UInt8} {p : Parser} {n : Int} {c : UInt8}

theorem null_bracket (opens : c = 123 ∨ c = 91) : Counts js p n c (p.pos + 1) 1 := by
  rcases opens with rfl | rfl <;> exact ⟨p, rfl, rfl, .refl p⟩

theorem null_pad (pad : c = 125 ∨ c = 93 ∨ isPad c) : Counts js p n c (p.pos + 1) 0 := by
  have same : turn js (counting p n) c = some (.next (counting p n)) := by
    rcases pad with rfl | rfl | pad
    · rfl
    · rfl
    · simp only [isPad, decide_eq_true_eq, List.mem_cons, List.not_mem_nil, or_false] at pad
      rcases pad with rfl | rfl | rfl | rfl | rfl <;> rfl
  exact ⟨p, by rw [same, Nat.cast_zero, Int.add_zero], rfl, .refl p⟩

theorem null_colon : Counts js p n 58 (p.pos + 1) 0 := by
  refine ⟨{ p with toksuper := (p.toknext : Int) - 1 }, ?_, rfl, rfl, .inr rfl⟩
  rw [Nat.cast_zero, Int.add_zero]
  rfl

theorem null_string {m : Nat} (found : stringLoop 0 (js.drop (p.pos + 1)) = .ok m) :
    Counts js p n 34 (p.pos + m + 2) 1 := by
  refine ⟨{ p with pos := p.pos + 1 + m }, ?_, by simp only; omega, rfl, .inl rfl⟩
  have here : turn js (counting p n) 34 = valueTurn (counting p n) (jsmnParseString p js none) :=
    rfl
  simp only [here, jsmnParseString, found]
  rfl

theorem null_string_fails {e : Error} (found : stringLoop 0 (js.drop (p.pos + 1)) = .error e)
    (other : e ≠ .nomem) : Fails js p n 34 := by
  have here : turn js (counting p n) 34 = valueTurn (counting p n) (jsmnParseString p js none) :=
    rfl
  refine ⟨e, other, ?_⟩
  simp only [here, jsmnParseString, found, valueTurn, if_pos e.code_neg]
  rfl

theorem turn_plain {w : Work} (plain : isSpecial c = false) :
    turn js w c = valueTurn w (jsmnParsePrimitive w.p js w.tokens) := by
  simp only [isSpecial, isPad, Bool.or_eq_false_iff, decide_eq_false_iff_not, List.mem_cons,
    List.not_mem_nil, or_false, not_or] at plain
  obtain ⟨⟨brace, bracket, brace', bracket', quote, colon⟩, tab, cr, lf, blank, comma⟩ := plain
  have pad : ¬ c ∈ ([9, 13, 10, 32] : List UInt8) := by
    simp only [List.mem_cons, List.not_mem_nil, or_false, not_or]
    exact ⟨tab, cr, lf, blank⟩
  rw [turn, if_neg brace, if_neg bracket, if_neg brace', if_neg bracket', if_neg quote, if_neg pad,
    if_neg colon, if_neg comma]

theorem null_primitive {m : Nat} (plain : isSpecial c = false)
    (found : primitiveLoop (js.drop p.pos) = some (m + 1)) :
    Counts js p n c (p.pos + (m + 1)) 1 := by
  refine ⟨{ p with pos := p.pos + (m + 1) - 1 }, ?_, by simp only; omega, rfl, .inl rfl⟩
  simp only [turn_plain plain, counting, jsmnParsePrimitive, found]
  rfl

theorem null_primitive_fails (plain : isSpecial c = false)
    (found : primitiveLoop (js.drop p.pos) = none) : Fails js p n c := by
  refine ⟨.inval, by decide, ?_⟩
  simp only [turn_plain plain, counting, jsmnParsePrimitive, found]
  rfl

theorem stringLoop_ne_nomem (hex : Nat) (l : List UInt8) : stringLoop hex l ≠ .error .nomem := by
  have pass {k : Nat} {x : Except Error Nat} (ne : x ≠ .error .nomem) :
      x.map (· + k) ≠ .error .nomem := by
    cases x with
    | error e => exact fun same => ne (congrArg Except.error (Except.error.inj same))
    | ok m => exact nofun
  fun_induction stringLoop hex l with
  | case3 _ _ _ _ _ _ ih => exact pass ih
  | case7 _ _ _ _ _ _ _ ih => exact pass ih
  | case8 _ _ _ _ _ _ ih => exact pass ih
  | case10 _ _ _ _ _ _ _ ih => exact pass ih
  | _ => exact nofun

/-- What a character that is no delimiter begins. -/
theorem primitiveLoop_pos {l : List UInt8} {m : Nat} (here : js.drop p.pos = c :: l)
    (nonzero : c ≠ 0) (plain : isSpecial c = false)
    (found : primitiveLoop (js.drop p.pos) = some m) : ∃ k, m = k + 1 := by
  obtain ⟨text, rest, whole, -, ends, rfl⟩ := (primitiveLoop_iff ..).mp found
  cases text with
  | nil =>
    rw [List.nil_append] at whole
    rcases ends c (by rw [← whole, here]; rfl) with zero | stops
    · exact absurd zero nonzero
    · rw [special_of_ends stops] at plain
      cases plain
  | cons d text => exact ⟨text.length, rfl⟩

/-- A counting turn counts or fails. -/
theorem null_turn (here : charAt js p.pos = some c) (n : Int) : Fails js p n c ∨
    ∃ pos k, p.pos < pos ∧ Counts js p n c pos k := by
  obtain ⟨-, nonzero, split⟩ := charAt_eq here
  by_cases opens : c = 123 ∨ c = 91
  · exact .inr ⟨_, _, Nat.lt_succ_self _, null_bracket opens⟩
  by_cases pad : c = 125 ∨ c = 93 ∨ isPad c
  · exact .inr ⟨_, _, Nat.lt_succ_self _, null_pad pad⟩
  by_cases colon : c = 58
  · subst colon
    exact .inr ⟨_, _, Nat.lt_succ_self _, null_colon⟩
  by_cases quote : c = 34
  · subst quote
    cases found : stringLoop 0 (js.drop (p.pos + 1)) with
    | error e =>
      exact .inl (null_string_fails found fun none => stringLoop_ne_nomem _ _ (none ▸ found))
    | ok m => exact .inr ⟨_, _, by omega, null_string found⟩
  have plain : isSpecial c = false := by
    obtain ⟨brace, bracket⟩ := not_or.mp opens
    obtain ⟨brace', others⟩ := not_or.mp pad
    obtain ⟨bracket', blank⟩ := not_or.mp others
    rw [isSpecial, Bool.eq_false_iff.mpr blank, Bool.or_false, decide_eq_false_iff_not]
    simp only [List.mem_cons, List.not_mem_nil, or_false, not_or]
    exact ⟨brace, bracket, brace', bracket', quote, colon⟩
  cases found : primitiveLoop (js.drop p.pos) with
  | none => exact .inl (null_primitive_fails plain found)
  | some m =>
    obtain ⟨k, rfl⟩ := primitiveLoop_pos split nonzero plain found
    exact .inr ⟨_, _, by omega, null_primitive plain found⟩

/-! ## A counting call -/

variable {fuel : Nat}

theorem null_end (ended : charAt js p.pos = none) :
    parseLoop js (fuel + 1) (counting p n) = some (n, counting p n) := by
  rw [parseLoop]
  have start : (counting p n).p.pos = p.pos := rfl
  rw [start]
  cases read : js[p.pos]? with
  | none => rfl
  | some c =>
    have zero : c = 0 := by simpa [charAt, read] using ended
    exact if_pos zero

theorem null_next (here : charAt js p.pos = some c) : parseLoop js (fuel + 1) (counting p n) =
    match turn js (counting p n) c with
    | none => none
    | some (.ret r w) => some (r, w)
    | some (.next w) => parseLoop js fuel { w with p := { w.p with pos := w.p.pos + 1 } } := by
  obtain ⟨found, nonzero, -⟩ := charAt_eq here
  have read : js[(counting p n).p.pos]? = some c := found
  rw [parseLoop, read]
  dsimp only
  rw [if_neg nonzero]
  cases turn js (counting p n) c with
  | none => rfl
  | some t => cases t <;> rfl

theorem Counts.loop {pos k : Nat} (here : charAt js p.pos = some c)
    (counts : Counts js p n c pos k) :
    ∃ p', p'.pos = pos ∧ Kept p p' ∧
      parseLoop js (fuel + 1) (counting p n) = parseLoop js fuel (counting p' (n + k)) := by
  obtain ⟨p', same, rfl, kept⟩ := counts.turn
  refine ⟨{ p' with pos := p'.pos + 1 }, rfl, ⟨kept.toknext, kept.toksuper⟩, ?_⟩
  rw [null_next here, same]
  rfl

theorem Fails.loop (here : charAt js p.pos = some c) (fails : Fails js p n c) :
    ∃ r, r < 0 ∧ parseLoop js (fuel + 1) (counting p n) = some (r, counting p n) := by
  obtain ⟨e, -, same⟩ := fails
  refine ⟨e.code, e.code_neg, ?_⟩
  rw [null_next here, same]

/-- A counting call comes to an end, and never counts down. -/
theorem null_ends (n : Int) (enough : js.length - p.pos < fuel) : ∃ r p' n',
    parseLoop js fuel (counting p n) = some (r, counting p' n') ∧ Kept p p' ∧ (r < 0 ∨ n ≤ r) := by
  induction fuel generalizing p n with
  | zero => exact absurd enough (Nat.not_lt_zero _)
  | succ fuel ih =>
    cases here : charAt js p.pos with
    | none => exact ⟨n, p, n, null_end here, .refl p, .inr le_rfl⟩
    | some c =>
      obtain ⟨inside, -⟩ := List.getElem?_eq_some_iff.mp (charAt_eq here).1
      rcases null_turn here n with fails | ⟨pos, k, ahead, counts⟩
      · obtain ⟨r, negative, same⟩ := @Fails.loop _ _ _ _ fuel here fails
        exact ⟨r, p, n, same, .refl p, .inl negative⟩
      · obtain ⟨q, rfl, kept, same⟩ := @Counts.loop _ _ _ _ fuel _ _ here counts
        obtain ⟨r, p', n', rest, kept', reached⟩ := @ih q (n + k) (by omega)
        exact ⟨r, p', n', same.trans rest, kept.trans kept', by omega⟩

/-! ## Counting and parsing -/

variable {cap : Nat} {s s' : Scan}

/-- A turn counts the tokens it adds. -/
theorem Turned.counts (turned : Turned js cap s s') (place : p.pos = s.pos)
    (here : charAt js s.pos = some c) (n : Int) :
    ∃ k, s'.toks.length = s.toks.length + k ∧ Counts js p n c s'.pos k := by
  obtain ⟨-, -, split⟩ := charAt_eq here
  cases turned with
  | @enter type rest container found =>
    obtain rfl := (List.cons.inj (split.symm.trans found)).1
    refine ⟨1, by simp [length_grow], place ▸ null_bracket ?_⟩
    rcases container with rfl | rfl
    · exact .inl rfl
    · exact .inr rfl
  | leave container found toks =>
    obtain rfl := (List.cons.inj (split.symm.trans found)).1
    refine ⟨0, by simp [toks], place ▸ null_pad ?_⟩
    rcases container with type | type
    · exact .inl (by rw [type]; rfl)
    · exact .inr (.inl (by rw [type]; rfl))
  | string found ok =>
    obtain ⟨rfl, tail⟩ := List.cons.inj (split.symm.trans found)
    have loop := (stringLoop_iff 0 _ _).mpr (rest_zero.mpr ⟨_, _, tail, ok, rfl⟩)
    exact ⟨1, by simp [length_grow], place ▸ null_string (place.symm ▸ loop)⟩
  | pad found pad =>
    obtain rfl := (List.cons.inj (split.symm.trans found)).1
    exact ⟨0, rfl, place ▸ null_pad (.inr (.inr pad))⟩
  | colon found =>
    obtain rfl := (List.cons.inj (split.symm.trans found)).1
    exact ⟨0, rfl, place ▸ null_colon⟩
  | primitive found first all ends =>
    obtain rfl := (List.cons.inj (split.symm.trans found)).1
    have loop := (primitiveLoop_iff _ _).mpr ⟨_, _, found, all, ends, rfl⟩
    exact ⟨1, by simp [length_grow], place ▸ null_primitive first (place.symm ▸ loop)⟩

/-- There is no room for one more token; with room for it, it is added. -/
def Lacks (cap : Nat) (s : Scan) (r : Nat → Except Error Scan) : Prop :=
  r cap = .error .nomem → cap ≤ s.toks.length ∧
    ∃ s', r (s.toks.length + 1) = .ok s' ∧ s'.toks.length = s.toks.length + 1

theorem lacks_add (t : Token) (pos : Nat) : Lacks cap s fun cap => s.add cap t pos := by
  intro full
  have none : ¬ s.toks.length < cap := by
    intro room
    simp only [Scan.add, if_pos room] at full
    cases full
  exact ⟨Nat.not_lt.mp none, _, add_ok_iff.mpr ⟨Nat.lt_succ_self _, rfl⟩, by simp [length_grow]⟩

theorem lacks_enter (type : JsmnType) : Lacks cap s fun cap => s.enter cap type := by
  intro full
  have none : ¬ s.toks.length < cap := by
    intro room
    simp only [Scan.enter, if_pos room] at full
    cases full
  exact ⟨Nat.not_lt.mp none, _, enter_ok_iff.mpr ⟨Nat.lt_succ_self _, rfl⟩, by simp [length_grow]⟩

theorem leave_ne_nomem (type : JsmnType) : s.leave type ≠ .error .nomem := by
  unfold Scan.leave
  split
  · exact nofun
  · split
    · exact nofun
    · exact nofun

theorem lacks_step (c : UInt8) : Lacks cap s fun cap => s.step cap js c := by
  unfold Scan.step
  split
  · exact lacks_enter .object
  split
  · exact lacks_enter .array
  split
  · exact fun full => absurd full (leave_ne_nomem .object)
  split
  · exact fun full => absurd full (leave_ne_nomem .array)
  split
  · cases found : stringLoop 0 (js.drop (s.pos + 1)) with
    | error e => exact fun full => absurd (Except.error.inj full ▸ found) (stringLoop_ne_nomem _ _)
    | ok n => exact lacks_add _ _
  split
  · exact nofun
  split
  · exact nofun
  cases primitiveLoop (js.drop s.pos) with
  | none => exact nofun
  | some n => exact lacks_add _ _

/-- The run of a call with an array, and the call that counts. -/
theorem Parses.counted {r : Option Error} {t : Scan} (run : Parses js cap s r t)
    (place : p.pos = s.pos) (enough : js.length - p.pos < fuel) :
    (r = none → ∃ w, parseLoop js fuel (counting p s.toks.length) =
      some ((t.toks.length : Int), w)) ∧
    (r = some .nomem → ∃ n w, parseLoop js fuel (counting p s.toks.length) = some (n, w) ∧
      (n < 0 ∨ (cap : Int) < n)) := by
  induction run generalizing p fuel with
  | complete ended closed =>
    obtain ⟨fuel, rfl⟩ := Nat.exists_eq_add_one_of_ne_zero (Nat.ne_of_gt (Nat.zero_lt_of_lt enough))
    exact ⟨fun _ => ⟨_, null_end (place ▸ ended)⟩, nofun⟩
  | part => exact ⟨nofun, nofun⟩
  | @stop s c e here fails =>
    refine ⟨nofun, fun lack => ?_⟩
    obtain rfl := Option.some.inj lack
    obtain ⟨full, s', turn, more⟩ := lacks_step c fails
    obtain ⟨fuel, rfl⟩ := Nat.exists_eq_add_one_of_ne_zero (Nat.ne_of_gt (Nat.zero_lt_of_lt enough))
    have turned := (step_ok_iff here).mp turn
    obtain ⟨k, added, counts⟩ := turned.counts place here s.toks.length
    obtain rfl : k = 1 := by omega
    have ahead := turned.pos
    obtain ⟨inside, -⟩ := List.getElem?_eq_some_iff.mp (charAt_eq here).1
    obtain ⟨q, next, -, same⟩ := @Counts.loop _ _ _ _ fuel _ _ (place ▸ here) counts
    obtain ⟨n, p', n', rest, -, reached⟩ :=
      @null_ends js q fuel (s.toks.length + (1 : Nat)) (by omega)
    exact ⟨n, _, same.trans rest, by omega⟩
  | @next s s' t c r here turn rest ih =>
    obtain ⟨fuel, rfl⟩ := Nat.exists_eq_add_one_of_ne_zero (Nat.ne_of_gt (Nat.zero_lt_of_lt enough))
    have turned := (step_ok_iff here).mp turn
    obtain ⟨k, added, counts⟩ := turned.counts place here s.toks.length
    have ahead := turned.pos
    obtain ⟨inside, -⟩ := List.getElem?_eq_some_iff.mp (charAt_eq here).1
    obtain ⟨q, next, -, same⟩ := @Counts.loop _ _ _ _ fuel _ _ (place ▸ here) counts
    rw [same]
    have total : (s.toks.length : Int) + k = s'.toks.length := by omega
    rw [total]
    exact ih next (by omega)

/-- The count of a call without an array is the number of tokens of every call that
succeeds, and no array of that many entries is too small. -/
theorem count_fits (js : List UInt8) : ∃ n w, jsmnParse jsmnInit js none = some (n, w) ∧
    ∀ ts r w', jsmnParse jsmnInit js (some ts) = some (r, w') →
      (0 ≤ r → r = n) ∧ (0 ≤ n → n ≤ ts.length → r ≠ Error.nomem.code) := by
  have enough : js.length - jsmnInit.pos < js.length + 1 := by omega
  obtain ⟨n, p, m, count, -, -⟩ := null_ends 0 enough
  refine ⟨n, counting p m, count, ?_⟩
  intro ts r w' call
  obtain ⟨e, t, free, k, run, -, length, same⟩ := jsmnParse_init js ts
  cases call.symm.trans same
  obtain ⟨success, lack⟩ := run.counted rfl enough
  have counted : parseLoop js (js.length + 1) (counting jsmnInit Scan.init.toks.length) =
      some (n, counting p m) :=
    count
  constructor
  · intro nonneg
    cases e with
    | none =>
      obtain ⟨w, found⟩ := success rfl
      cases counted.symm.trans found
      rfl
    | some e => exact absurd nonneg (Int.not_le.mpr e.code_neg)
  · rintro count fits nomem
    cases e with
    | none =>
      have nonneg : (0 : Int) ≤ t.toks.length := Int.natCast_nonneg _
      have negative : (Error.nomem.code : Int) = -1 := rfl
      simp only [result] at nomem
      omega
    | some e =>
      cases e with
      | nomem =>
        obtain ⟨n', w, found, low | high⟩ := lack rfl
        · cases counted.symm.trans found
          omega
        · cases counted.symm.trans found
          omega
      | inval => cases nomem
      | part => cases nomem

end

/-! ## Any calls -/

/-- A parser and an array after `jsmn_init` and calls of `jsmn_parse`, each with any
text and with this array or without one. The array may have grown in between. -/
inductive Used : Parser → List Token → Prop
  | init (ts : List Token) : Used jsmnInit ts
  | grow {p : Parser} {ts : List Token} (used : Used p ts) (more : List Token) : Used p (ts ++ more)
  | parse {p : Parser} {ts left : List Token} {js : List UInt8} {r : Int} {w : Work}
      (used : Used p ts) (call : jsmnParse p js (some ts) = some (r, w))
      (tokens : w.tokens = some left) : Used w.p left
  | count {p : Parser} {ts : List Token} {js : List UInt8} {r : Int} {w : Work} (used : Used p ts)
      (call : jsmnParse p js none = some (r, w)) : Used w.p ts

/-- The parser is that of a machine whose tokens are the first of the array. -/
theorem Used.machine {p : Parser} {ts : List Token} (used : Used p ts) :
    ∃ (s : Scan) (free : List Token), s.Valid ∧ p = s.parser ∧ ts = s.toks ++ free := by
  induction used with
  | init ts => exact ⟨Scan.init, ts, valid_init, rfl, rfl⟩
  | grow _ more ih =>
    obtain ⟨s, free, valid, rfl, rfl⟩ := ih
    exact ⟨s, free ++ more, valid, rfl, List.append_assoc ..⟩
  | @parse p ts left js r w _ call tokens ih =>
    obtain ⟨s, free, valid, rfl, rfl⟩ := ih
    obtain ⟨e, t, free', run, -, -, count, same⟩ := jsmnParse_ends valid js free
    cases call.symm.trans same
    cases tokens
    exact ⟨t, free', run.reaches.valid valid, rfl, rfl⟩
  | @count p ts js r w _ call ih =>
    obtain ⟨s, free, valid, rfl, rfl⟩ := ih
    have enough : js.length - s.parser.pos < js.length + 1 := by omega
    obtain ⟨r', p', n', same, kept, -⟩ := null_ends s.parser.toknext enough
    cases call.symm.trans same
    have next : p'.toknext = s.toks.length := kept.toknext
    have whole (super : Option Nat)
        (index : Scan.superIndex ⟨p'.pos, s.toks, super⟩ = p'.toksuper) :
        p' = Scan.parser ⟨p'.pos, s.toks, super⟩ := by
      rw [Scan.parser, index, ← next]
    rcases kept.toksuper with same | last
    · exact ⟨⟨p'.pos, s.toks, s.super⟩, free, valid, whole _ same.symm, rfl⟩
    · by_cases fresh : s.toks = []
      · refine ⟨⟨p'.pos, s.toks, none⟩, free, ?_, whole _ ?_, rfl⟩
        · rintro i same
          cases same
        · rw [last, Scan.parser, fresh]
          rfl
      · have first : 0 < s.toks.length := List.length_pos_iff.mpr fresh
        refine ⟨⟨p'.pos, s.toks, some (s.toks.length - 1)⟩, free, ?_, whole _ ?_, rfl⟩
        · rintro i same
          cases same
          exact Nat.sub_lt first Nat.one_pos
        · rw [last, Scan.parser]
          simp only [Scan.superIndex]
          omega

/-- After any calls, a call returns: with an error or the number of tokens, which is
that of the entries used; the entries behind them it does not touch. -/
theorem used_returns {p : Parser} {ts : List Token} (used : Used p ts) (js : List UInt8) :
    (∃ r w, jsmnParse p js none = some (r, w)) ∧
    ∃ r w left, jsmnParse p js (some ts) = some (r, w) ∧ w.tokens = some left ∧
      (r = w.p.toknext ∨ ∃ e : Error, r = e.code) ∧
      p.toknext ≤ w.p.toknext ∧ w.p.toknext ≤ ts.length ∧
      left.length = ts.length ∧ left.drop w.p.toknext = ts.drop w.p.toknext := by
  obtain ⟨s, free, valid, rfl, rfl⟩ := used.machine
  constructor
  · have enough : js.length - s.parser.pos < js.length + 1 := by omega
    obtain ⟨r, p, n, same, -, -⟩ := null_ends s.parser.toknext enough
    exact ⟨r, counting p n, same⟩
  · obtain ⟨e, t, free', run, suffix, length, count, same⟩ := jsmnParse_ends valid js free
    have before : s.toks.length ≤ t.toks.length := by
      have shorter := suffix.length_le
      omega
    have rest : free' = (s.toks ++ free).drop t.toks.length := by
      rw [List.drop_append, List.drop_eq_nil_of_le before, List.nil_append]
      have start : t.toks.length - s.toks.length = free.length - free'.length := by
        have shorter := suffix.length_le
        omega
      rw [start]
      exact List.suffix_iff_eq_drop.mp suffix
    refine ⟨_, _, _, same, rfl, ?_, before, ?_, ?_, ?_⟩
    · cases e with
      | none => exact .inl rfl
      | some e => exact .inr ⟨e, rfl⟩
    · rw [List.length_append, ← length]
      exact Nat.le_add_right _ _
    · rw [List.length_append, List.length_append, length]
    · exact (List.drop_left).trans rest

/-- The parser that `["a` has left in an array for one token, which is grown to two. -/
theorem used_returns_string :
    (∃ r w, jsmnParse ⟨1, 1, 0⟩ (ascii "[\"ab\",1]") none = some (r, w)) ∧
    ∃ r w left, jsmnParse ⟨1, 1, 0⟩ (ascii "[\"ab\",1]")
        (some [⟨.array, 0, -1, 0⟩, ⟨.undefined, 0, 0, 0⟩]) = some (r, w) ∧
      w.tokens = some left ∧ 1 ≤ w.p.toknext ∧ w.p.toknext ≤ 2 ∧ left.length = 2 := by
  have part : jsmnParse jsmnInit (ascii "[\"a") (some [⟨.undefined, 0, 0, 0⟩]) =
      some (-3, ⟨⟨1, 1, 0⟩, some [⟨.array, 0, -1, 0⟩], 1⟩) := rfl
  have used : Used ⟨1, 1, 0⟩ [⟨.array, 0, -1, 0⟩, ⟨.undefined, 0, 0, 0⟩] :=
    .grow (.parse (.init _) part rfl) [⟨.undefined, 0, 0, 0⟩]
  obtain ⟨counted, r, w, left, call, tokens, -, more, room, length, -⟩ :=
    used_returns used (ascii "[\"ab\",1]")
  exact ⟨counted, r, w, left, call, tokens, more, room, length⟩

end MyOS.Jsmn
