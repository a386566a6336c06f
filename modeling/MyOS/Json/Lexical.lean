import MyOS.Json.Jsmn

/-!
# The two kinds of small tokens

What `jsmn_parse_string` and `jsmn_parse_primitive` take for one.
-/

namespace MyOS.Jsmn

/-- What may stand between two quotes. -/
inductive StringBody : List UInt8 → Prop
  | nil : StringBody []
  | char {c : UInt8} {s : List UInt8} (plain : c ≠ 0 ∧ c ≠ 34 ∧ c ≠ 92) (rest : StringBody s) :
      StringBody (c :: s)
  | escape {e : UInt8} {s : List UInt8} (known : isEscape e) (rest : StringBody s) :
      StringBody (92 :: e :: s)
  | unicode {digits s : List UInt8} (four : digits.length = 4) (hex : ∀ d ∈ digits, isHex d)
      (rest : StringBody s) : StringBody (92 :: 117 :: (digits ++ s))

theorem StringBody.of_plain {s : List UInt8} (plain : ∀ c ∈ s, c ≠ 0 ∧ c ≠ 34 ∧ c ≠ 92) :
    StringBody s := by
  induction s with
  | nil => exact .nil
  | cons c s ih =>
    exact .char (plain c List.mem_cons_self) (ih fun d mem => plain d (List.mem_cons_of_mem c mem))

/-- Behind the opening quote, or behind a `\u` with some of its digits missing. -/
def Rest (hex : Nat) (l : List UInt8) (n : Nat) : Prop :=
  ∃ digits body rest, l = digits ++ (body ++ 34 :: rest) ∧ digits.length = hex ∧
    (∀ d ∈ digits, isHex d) ∧ StringBody body ∧ n = hex + body.length

theorem isHex_ne_zero {c : UInt8} (hex : isHex c) : c ≠ 0 := by
  rintro rfl
  cases hex

theorem isEscape_ne_unicode {e : UInt8} (known : isEscape e) : e ≠ 117 := by
  rintro rfl
  cases known

theorem isEscape_ne_zero {e : UInt8} (known : isEscape e) : e ≠ 0 := by
  rintro rfl
  cases known

theorem map_ok_iff {ε α β : Type} {f : α → β} {x : Except ε α} {b : β} :
    x.map f = .ok b ↔ ∃ a, x = .ok a ∧ f a = b := by
  cases x with
  | error e => exact iff_of_false (nomatch ·) fun ⟨_, same, _⟩ => nomatch same
  | ok a =>
    constructor
    · intro same
      exact ⟨a, rfl, Except.ok.inj same⟩
    · rintro ⟨a, same, rfl⟩
      cases same
      rfl

theorem rest_digit {hex n : Nat} {c : UInt8} {l : List UInt8} :
    Rest (hex + 1) (c :: l) n ↔ isHex c ∧ ∃ m, Rest hex l m ∧ m + 1 = n := by
  constructor
  · rintro ⟨digits, body, rest, whole, length, all, ok, rfl⟩
    obtain ⟨d, digits, rfl⟩ := List.exists_cons_of_length_eq_add_one length
    obtain ⟨rfl, tail⟩ := List.cons.inj whole
    exact ⟨all c (.head _), _, ⟨digits, body, rest, tail, Nat.succ.inj length,
      fun d mem => all d (.tail _ mem), ok, rfl⟩, by omega⟩
  · rintro ⟨here, m, ⟨digits, body, rest, rfl, length, all, ok, rfl⟩, rfl⟩
    refine ⟨c :: digits, body, rest, rfl, congrArg Nat.succ length, ?_, ok, by omega⟩
    intro d mem
    rcases List.mem_cons.mp mem with rfl | mem
    · exact here
    · exact all d mem

theorem rest_zero {l : List UInt8} {n : Nat} :
    Rest 0 l n ↔ ∃ body rest, l = body ++ 34 :: rest ∧ StringBody body ∧ n = body.length := by
  constructor
  · rintro ⟨digits, body, rest, whole, length, -, ok, rfl⟩
    obtain rfl := List.eq_nil_of_length_eq_zero length
    exact ⟨body, rest, whole, ok, Nat.zero_add _⟩
  · rintro ⟨body, rest, whole, ok, rfl⟩
    exact ⟨[], body, rest, whole, rfl, fun _ mem => absurd mem List.not_mem_nil, ok,
      (Nat.zero_add _).symm⟩

theorem rest_quote {l : List UInt8} {n : Nat} : Rest 0 (34 :: l) n ↔ n = 0 := by
  rw [rest_zero]
  constructor
  · rintro ⟨body, rest, whole, ok, rfl⟩
    cases ok with
    | nil => rfl
    | char plain => exact absurd (List.cons.inj whole).1.symm plain.2.1
    | escape => exact absurd (List.cons.inj whole).1 (by decide)
    | unicode => exact absurd (List.cons.inj whole).1 (by decide)
  · rintro rfl
    exact ⟨[], l, rfl, .nil, rfl⟩

/-- A plain character, an escaped one, and a `\u`. -/
theorem rest_plain {c : UInt8} {l : List UInt8} {n : Nat} (plain : c ≠ 0 ∧ c ≠ 34 ∧ c ≠ 92) :
    Rest 0 (c :: l) n ↔ ∃ m, Rest 0 l m ∧ m + 1 = n := by
  simp only [rest_zero]
  constructor
  · rintro ⟨body, rest, whole, ok, rfl⟩
    cases ok with
    | nil => exact absurd (List.cons.inj whole).1 plain.2.1
    | char _ more =>
      obtain ⟨rfl, tail⟩ := List.cons.inj whole
      exact ⟨_, ⟨_, rest, tail, more, rfl⟩, rfl⟩
    | escape => exact absurd (List.cons.inj whole).1 plain.2.2
    | unicode => exact absurd (List.cons.inj whole).1 plain.2.2
  · rintro ⟨m, ⟨body, rest, rfl, ok, rfl⟩, rfl⟩
    exact ⟨c :: body, rest, rfl, .char plain ok, rfl⟩

theorem rest_escape {e : UInt8} {l : List UInt8} {n : Nat} (known : isEscape e) :
    Rest 0 (92 :: e :: l) n ↔ ∃ m, Rest 0 l m ∧ m + 2 = n := by
  simp only [rest_zero]
  constructor
  · rintro ⟨body, rest, whole, ok, rfl⟩
    cases ok with
    | nil => exact absurd (List.cons.inj whole).1 (by decide)
    | char plain => exact absurd (List.cons.inj whole).1.symm plain.2.2
    | escape _ more =>
      obtain ⟨rfl, tail⟩ := List.cons.inj (List.cons.inj whole).2
      exact ⟨_, ⟨_, rest, tail, more, rfl⟩, rfl⟩
    | unicode =>
      exact absurd (List.cons.inj (List.cons.inj whole).2).1 (isEscape_ne_unicode known)
  · rintro ⟨m, ⟨body, rest, rfl, ok, rfl⟩, rfl⟩
    exact ⟨92 :: e :: body, rest, rfl, .escape known ok, rfl⟩

theorem rest_unicode {l : List UInt8} {n : Nat} :
    Rest 0 (92 :: 117 :: l) n ↔ ∃ m, Rest 4 l m ∧ m + 2 = n := by
  rw [rest_zero]
  constructor
  · rintro ⟨body, rest, whole, ok, rfl⟩
    cases ok with
    | nil => exact absurd (List.cons.inj whole).1 (by decide)
    | char plain => exact absurd (List.cons.inj whole).1.symm plain.2.2
    | escape known =>
      exact absurd (List.cons.inj (List.cons.inj whole).2).1.symm (isEscape_ne_unicode known)
    | @unicode digits s four hex more =>
      have tail : l = digits ++ s ++ 34 :: rest := (List.cons.inj (List.cons.inj whole).2).2
      rw [List.append_assoc] at tail
      refine ⟨_, ⟨digits, s, rest, tail, four, hex, more, rfl⟩, ?_⟩
      rw [List.length_cons, List.length_cons, List.length_append, four]
  · rintro ⟨m, ⟨digits, body, rest, rfl, four, hex, ok, rfl⟩, rfl⟩
    refine ⟨92 :: 117 :: (digits ++ body), rest, ?_, .unicode four hex ok, ?_⟩
    · simp only [List.cons_append, List.append_assoc]
    · rw [List.length_cons, List.length_cons, List.length_append, four]

/-- Nothing else stands behind a backslash, and no body goes on behind a NUL. -/
theorem rest_head {c : UInt8} {l : List UInt8} {n : Nat} (h : Rest 0 (c :: l) n) :
    c ≠ 0 ∧ (c = 92 → ∃ e l', l = e :: l' ∧ (isEscape e ∨ e = 117)) := by
  obtain ⟨body, rest, whole, ok, -⟩ := rest_zero.mp h
  cases ok with
  | nil =>
    rw [(List.cons.inj whole).1]
    exact ⟨by decide, fun backslash => absurd backslash (by decide)⟩
  | char plain =>
    rw [(List.cons.inj whole).1]
    exact ⟨plain.1, fun backslash => absurd backslash plain.2.2⟩
  | escape known =>
    rw [(List.cons.inj whole).1]
    exact ⟨by decide, fun _ => ⟨_, _, (List.cons.inj whole).2, .inl known⟩⟩
  | unicode =>
    rw [(List.cons.inj whole).1]
    exact ⟨by decide, fun _ => ⟨_, _, (List.cons.inj whole).2, .inr rfl⟩⟩

theorem not_rest_nil (hex n : Nat) : ¬ Rest hex [] n := by
  rintro ⟨digits, body, rest, whole, -⟩
  simp at whole

theorem not_rest_nul (hex n : Nat) (l : List UInt8) : ¬ Rest hex (0 :: l) n := by
  intro h
  cases hex with
  | zero => exact (rest_head h).1 rfl
  | succ hex => exact isHex_ne_zero (rest_digit.mp h).1 rfl

/-- The loop finds the closing quote exactly behind such a body. -/
theorem stringLoop_iff (hex : Nat) (l : List UInt8) (n : Nat) :
    stringLoop hex l = .ok n ↔ Rest hex l n := by
  induction hex, l using stringLoop.induct generalizing n with
  | case1 hex => exact iff_of_false (nomatch ·) (not_rest_nil hex n)
  | case2 hex rest =>
    rw [stringLoop.eq_def]
    dsimp only
    rw [if_pos rfl]
    exact iff_of_false (nomatch ·) (not_rest_nul hex n rest)
  | case3 hex c rest nonzero some here ih =>
    obtain ⟨hex, rfl⟩ := Nat.exists_eq_add_one_of_ne_zero (Nat.ne_of_gt some)
    rw [stringLoop.eq_def]
    dsimp only
    rw [if_neg nonzero, if_pos some, if_pos here, map_ok_iff, rest_digit]
    simp only [Nat.add_sub_cancel] at ih ⊢
    simp only [ih, here, true_and]
  | case4 hex c rest nonzero some other =>
    obtain ⟨hex, rfl⟩ := Nat.exists_eq_add_one_of_ne_zero (Nat.ne_of_gt some)
    rw [stringLoop.eq_def]
    dsimp only
    rw [if_neg nonzero, if_pos some, if_neg other, rest_digit]
    exact iff_of_false (nomatch ·) fun both => other both.1
  | case5 hex rest none nonzero =>
    obtain rfl := Nat.eq_zero_of_not_pos none
    rw [stringLoop.eq_def]
    dsimp only
    rw [if_neg nonzero, if_neg none, if_pos rfl, rest_quote]
    exact ⟨fun same => (Except.ok.inj same).symm, fun zero => congrArg _ zero.symm⟩
  | case6 hex none nonzero other =>
    obtain rfl := Nat.eq_zero_of_not_pos none
    rw [stringLoop.eq_def]
    dsimp only
    rw [if_neg nonzero, if_neg none, if_neg other, if_pos rfl]
    refine iff_of_false (nomatch ·) fun h => ?_
    obtain ⟨e, l, whole, -⟩ := (rest_head h).2 rfl
    cases whole
  | case7 hex none e rest known nonzero other ih =>
    obtain rfl := Nat.eq_zero_of_not_pos none
    rw [stringLoop.eq_def]
    dsimp only
    rw [if_neg nonzero, if_neg none, if_neg other, if_pos rfl]
    simp only [if_pos known, map_ok_iff, ih, rest_escape known]
  | case8 hex none rest nonzero other unknown ih =>
    obtain rfl := Nat.eq_zero_of_not_pos none
    rw [stringLoop.eq_def]
    dsimp only
    rw [if_neg nonzero, if_neg none, if_neg other, if_pos rfl]
    simp only [if_neg unknown, if_true, map_ok_iff, ih, rest_unicode]
  | case9 hex none e rest unknown notU nonzero other =>
    obtain rfl := Nat.eq_zero_of_not_pos none
    rw [stringLoop.eq_def]
    dsimp only
    rw [if_neg nonzero, if_neg none, if_neg other, if_pos rfl]
    simp only [if_neg unknown, if_neg notU]
    refine iff_of_false (nomatch ·) fun h => ?_
    obtain ⟨_, _, whole, known | isU⟩ := (rest_head h).2 rfl
    · exact unknown ((List.cons.inj whole).1 ▸ known)
    · exact notU ((List.cons.inj whole).1.trans isU)
  | case10 hex c rest nonzero none quote backslash ih =>
    obtain rfl := Nat.eq_zero_of_not_pos none
    rw [stringLoop.eq_def]
    dsimp only
    rw [if_neg nonzero, if_neg none, if_neg quote, if_neg backslash, map_ok_iff,
      rest_plain ⟨nonzero, quote, backslash⟩]
    simp only [ih]

/-! ## Primitives -/

/-- The characters of a primitive. -/
def inPrimitive (c : UInt8) : Bool := 32 ≤ c && c < 127 && !endsPrimitive c

/-- Where it ends: at the end of the text or at a delimiter. -/
def Ends (rest : List UInt8) : Prop := ∀ c ∈ rest.head?, c = 0 ∨ endsPrimitive c

theorem ends_nil : Ends [] := fun _ head => nomatch head

theorem printable_of_inPrimitive {c : UInt8} (inside : inPrimitive c) : ¬ (c < 32 ∨ 127 ≤ c) := by
  simp only [inPrimitive, Bool.and_eq_true, decide_eq_true_eq] at inside
  rintro (low | high)
  · exact absurd low (UInt8.not_lt.mpr inside.1.1)
  · exact absurd inside.1.2 (UInt8.not_lt.mpr high)

theorem not_ends_of_inPrimitive {c : UInt8} (inside : inPrimitive c) :
    ¬ (c = 0 ∨ endsPrimitive c) := by
  have printable := printable_of_inPrimitive inside
  simp only [inPrimitive, Bool.and_eq_true, Bool.not_eq_true'] at inside
  rintro (rfl | ends)
  · exact printable (.inl (by decide))
  · rw [ends] at inside
    cases inside.2

theorem inPrimitive_of {c : UInt8} (printable : ¬ (c < 32 ∨ 127 ≤ c))
    (within : ¬ (c = 0 ∨ endsPrimitive c)) :
    inPrimitive c := by
  obtain ⟨low, high⟩ := not_or.mp printable
  have other := (not_or.mp within).2
  simp only [inPrimitive, Bool.and_eq_true, decide_eq_true_eq, Bool.not_eq_true']
  exact ⟨⟨UInt8.not_lt.mp low, UInt8.not_le.mp high⟩, Bool.eq_false_iff.mpr other⟩

/-- The loop takes the characters up to the next delimiter, if all of them are printable. -/
theorem primitiveLoop_iff (l : List UInt8) (n : Nat) : primitiveLoop l = some n ↔
    ∃ text rest, l = text ++ rest ∧ (∀ c ∈ text, inPrimitive c) ∧ Ends rest ∧ n = text.length := by
  induction l generalizing n with
  | nil =>
    constructor
    · intro found
      exact ⟨[], [], rfl, fun _ mem => absurd mem List.not_mem_nil, ends_nil,
        (Option.some.inj found).symm⟩
    · rintro ⟨text, rest, whole, -, -, rfl⟩
      rw [(List.append_eq_nil_iff.mp whole.symm).1]
      rfl
  | cons c l ih =>
    rw [primitiveLoop]
    by_cases ends : c = 0 ∨ endsPrimitive c
    · rw [if_pos ends]
      constructor
      · intro found
        refine ⟨[], c :: l, rfl, fun _ mem => absurd mem List.not_mem_nil, ?_,
          (Option.some.inj found).symm⟩
        intro d head
        cases head
        exact ends
      · rintro ⟨text, rest, whole, all, -, rfl⟩
        cases text with
        | nil => rfl
        | cons d text =>
          rw [(List.cons.inj whole).1] at ends
          exact absurd ends (not_ends_of_inPrimitive (all d (.head _)))
    · rw [if_neg ends]
      by_cases bad : c < 32 ∨ 127 ≤ c
      · rw [if_pos bad]
        refine iff_of_false (nomatch ·) ?_
        rintro ⟨text, rest, whole, all, stops, -⟩
        cases text with
        | nil =>
          rw [List.nil_append] at whole
          exact ends (stops c (whole ▸ rfl))
        | cons d text =>
          rw [(List.cons.inj whole).1] at bad
          exact printable_of_inPrimitive (all d (.head _)) bad
      · rw [if_neg bad, Option.map_eq_some_iff]
        constructor
        · rintro ⟨m, found, rfl⟩
          obtain ⟨text, rest, rfl, all, stops, rfl⟩ := (ih m).mp found
          refine ⟨c :: text, rest, rfl, ?_, stops, rfl⟩
          intro d mem
          rcases List.mem_cons.mp mem with rfl | mem
          · exact inPrimitive_of bad ends
          · exact all d mem
        · rintro ⟨text, rest, whole, all, stops, rfl⟩
          cases text with
          | nil =>
            rw [List.nil_append] at whole
            exact absurd (stops c (whole ▸ rfl)) ends
          | cons d text =>
            exact ⟨text.length, (ih _).mpr ⟨text, rest, (List.cons.inj whole).2,
              fun e mem => all e (.tail _ mem), stops, rfl⟩, rfl⟩

end MyOS.Jsmn
