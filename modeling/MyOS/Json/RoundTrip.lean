import MyOS.Json.Count
import MyOS.Json.Text

/-!
# From the text of a value to its tokens

The machine reads the text of a JSON value to its end and adds exactly the tokens of
the value.
-/

namespace MyOS.Jsmn

open Nested

/-- Where the machine is behind a value. -/
def Json.behind (v : Json) (s : Scan) : Scan :=
  ⟨s.pos + v.text.length, grow s.super s.toks ++ v.tokens s.pos,
    if v.isContainer then lastIdx Token.isOpen s.toks else s.super⟩

def Json.Parsed (v : Json) : Prop := ∀ {js rest : List UInt8} {cap : Nat} {s : Scan},
  js.drop s.pos = v.text ++ rest → Ends rest → s.Valid →
    s.toks.length + (v.tokens s.pos).length ≤ cap →
    Reaches js cap s (v.behind s)

/-- The items of an open array. -/
def Items.Parsed (items : Items) : Prop :=
  ∀ {first : Bool} {js rest : List UInt8} {cap pos : Nat} {a b : List Token} {t : Token},
    js.drop pos = items.text first ++ rest → Ends rest → t.isOpen → lastIdx Token.isOpen b = none →
    (a ++ t :: b).length + (items.tokens first pos).length ≤ cap →
    Reaches js cap ⟨pos, a ++ t :: b, some a.length⟩
      ⟨pos + (items.text first).length,
        a ++ { t with size := t.size + items.count } :: (b ++ items.tokens first pos),
        some a.length⟩

/-- The members of an open object, where it is the superior token or a key in it is. -/
def Members.Parsed (members : Members) : Prop :=
  ∀ {first : Bool} {js rest : List UInt8} {cap pos : Nat} {a : List Token} {t : Token},
    js.drop pos = members.text first ++ rest → Ends rest → t.isOpen →
    (∀ {b : List Token}, lastIdx Token.isOpen b = none →
      (a ++ t :: b).length + (members.tokens first pos).length ≤ cap →
      ∃ super, Reaches js cap ⟨pos, a ++ t :: b, some a.length⟩
        ⟨pos + (members.text first).length,
          a ++ { t with size := t.size + members.counted true } ::
            (b ++ members.tokens first pos), super⟩) ∧
    ∀ {b c : List Token} {key : Token}, lastIdx Token.isOpen (b ++ key :: c) = none →
      (a ++ t :: (b ++ key :: c)).length + (members.tokens first pos).length ≤ cap →
      ∃ super, Reaches js cap ⟨pos, a ++ t :: (b ++ key :: c), some (a ++ t :: b).length⟩
        ⟨pos + (members.text first).length,
          a ++ { t with size := t.size + members.counted false } ::
            (b ++ { key with size := key.size + members.head } :: (c ++ members.tokens first pos)),
            super⟩

section
variable {js rest : List UInt8} {cap : Nat} {s : Scan}

theorem Quoted.parsed (q : Quoted) : (Json.string q).Parsed := by
  intro js rest cap s here ends valid room
  exact reaches_quoted q here room

theorem Literal.parsed (l : Literal) : (Json.literal l).Parsed := by
  intro js rest cap s here ends valid room
  have turn := Turned.primitive here l.plain l.all ends room
  exact .tail .refl turn

theorem lastIdx_grow (super : Option Nat) (toks : List Token) :
    lastIdx Token.isOpen (grow super toks) = lastIdx Token.isOpen toks := by
  refine lastIdx_congr ?_
  cases super with
  | none => rfl
  | some i => exact map_modify fun _ => rfl

/-- A container with its contents. -/
theorem container_parsed {type : JsmnType} {gap : Blanks} {inner : List UInt8} {toks : List Token}
    {size : Nat} (container : isContainer type)
    (here : js.drop s.pos = opening type :: (gap.text ++ (inner ++ closing type :: rest)))
    (closed : lastIdx Token.isOpen toks = none) (room : s.toks.length < cap)
    (contents : ∃ super, Reaches js cap
      ⟨s.pos + 1 + gap.text.length, grow s.super s.toks ++ [⟨type, s.pos, -1, 0⟩],
        some (grow s.super s.toks).length⟩
      ⟨s.pos + 1 + gap.text.length + inner.length,
        grow s.super s.toks ++ ⟨type, s.pos, -1, size⟩ :: toks, super⟩) :
    Reaches js cap s ⟨s.pos + 1 + gap.text.length + inner.length + 1,
      grow s.super s.toks ++
        ⟨type, s.pos, (s.pos + 1 + gap.text.length + inner.length + 1 : Nat), size⟩ :: toks,
      lastIdx Token.isOpen s.toks⟩ := by
  obtain ⟨super, contents⟩ := contents
  have enter : Turned js cap s _ := .enter container here room
  have inside : js.drop (s.pos + 1) = gap.text ++ (inner ++ closing type :: rest) :=
    drop_part (l := [opening type]) here
  have blanks := @reaches_blanks js (inner ++ closing type :: rest) cap
    ⟨s.pos + 1, grow s.super s.toks ++ [⟨type, s.pos, -1, 0⟩], some s.toks.length⟩ gap inside
  have bracket : js.drop (s.pos + 1 + gap.text.length + inner.length) = closing type :: rest :=
    drop_part (drop_part inside)
  have opened : Token.isOpen ⟨type, s.pos, -1, size⟩ := isOpen_begun ..
  have leave := @Turned.leave js cap
    ⟨s.pos + 1 + gap.text.length + inner.length,
      grow s.super s.toks ++ ⟨type, s.pos, -1, size⟩ :: toks, super⟩
    ⟨type, s.pos, -1, size⟩ (grow s.super s.toks) toks rest container bracket rfl opened closed
  rw [lastIdx_grow] at leave
  rw [length_grow] at contents
  exact .tail ((Reaches.tail .refl enter).trans (blanks.trans contents)) leave

theorem size_zero (type : JsmnType) (start stop : Int) (n : Nat) :
    ({ (⟨type, start, stop, 0⟩ : Token) with size := 0 + (n : Int) } : Token) =
      ⟨type, start, stop, n⟩ := by
  rw [Int.zero_add]

end

/-- Behind an item of an array. -/
theorem Json.behind_item (v : Json) {pos : Nat} {a b : List Token} {t : Token} (opened : t.isOpen)
    (closed : lastIdx Token.isOpen b = none) : v.behind ⟨pos, a ++ t :: b, some a.length⟩ =
      ⟨pos + v.text.length, a ++ t.sizeUp :: (b ++ v.tokens pos), some a.length⟩ := by
  have last : lastIdx Token.isOpen (a ++ t :: b) = some a.length :=
    lastIdx_append_cons opened closed
  simp only [Json.behind, last, grow, modify_append_cons, ite_self, List.append_assoc,
    List.cons_append]

/-- Behind the value of a key: the superior token is the key again or the object. -/
theorem Json.behind_key (v : Json) {pos : Nat} {a b : List Token} {t key : Token}
    (opened : t.isOpen) (closed : lastIdx Token.isOpen (b ++ [key]) = none) :
    v.behind ⟨pos, a ++ t :: (b ++ [key]), some (a ++ t :: b).length⟩ =
      ⟨pos + v.text.length, a ++ t :: (b ++ key.sizeUp :: v.tokens pos),
        if v.isContainer then some a.length else some (a ++ t :: b).length⟩ := by
  have last : lastIdx Token.isOpen (a ++ t :: (b ++ [key])) = some a.length :=
    lastIdx_append_cons opened closed
  have split : a ++ t :: (b ++ [key]) = (a ++ t :: b) ++ key :: [] := by simp
  have grown : grow (some (a ++ t :: b).length) (a ++ t :: (b ++ [key])) =
      (a ++ t :: b) ++ key.sizeUp :: [] := by
    rw [split, grow, modify_append_cons]
  simp only [Json.behind, last, grown, List.append_assoc, List.cons_append, List.nil_append]

theorem size_add (t : Token) (n : Nat) :
    ({ t.sizeUp with size := t.sizeUp.size + (n : Int) } : Token) =
      { t with size := t.size + (n + 1 : Nat) } := by
  have sum : t.size + 1 + (n : Int) = t.size + (n + 1 : Nat) := by omega
  simp only [Token.sizeUp, sum]

section
variable {js tail : List UInt8} {cap pos : Nat} {a b c : List Token} {t key : Token}

/-- A key and its value, whatever token counts the key. -/
theorem member_parsed {v : Json} (inner : v.Parsed) {first : Bool}
    {before colon value behind : Blanks} {q : Quoted} {toks : List Token} {i start n : Nat}
    (grown : grow (some i) toks = a ++ t :: b) (opened : t.isOpen)
    (closed : lastIdx Token.isOpen b = none)
    (here : js.drop pos = comma first ++ (before.text ++ (q.text ++ (colon.text ++
      58 :: (value.text ++ (v.text ++ (behind.text ++ tail))))))) (ends : Ends tail)
    (placed : pos + (comma first).length + before.text.length = start)
    (value_placed : start + q.text.length + colon.text.length + 1 + value.text.length = n)
    (room : toks.length + 1 + (v.tokens n).length ≤ cap) :
    Reaches js cap ⟨pos, toks, some i⟩
      ⟨n + v.text.length + behind.text.length, a ++ t :: (b ++ q.token start 1 :: v.tokens n),
        if v.isContainer then some a.length else some (a ++ t :: b).length⟩ := by
  subst value_placed
  have split : a ++ t :: b ++ [q.token start 0] = a ++ t :: (b ++ [q.token start 0]) := by simp
  have shut : lastIdx Token.isOpen (b ++ [q.token start 0]) = none :=
    closed_append closed (closed_token rfl)
  -- Up to the colon.
  have lead : Reaches js cap ⟨pos, toks, some i⟩ _ :=
    (reaches_comma first here).trans (reaches_blanks before (drop_part here))
  have quoted := drop_part (drop_part here)
  simp only [placed] at lead quoted
  have name : Reaches js cap ⟨start, toks, some i⟩ _ :=
    reaches_quoted q quoted (by simp only; omega)
  simp only [grown, split] at name
  have gap : Reaches js cap ⟨start + q.text.length, a ++ t :: (b ++ [q.token start 0]), some i⟩ _ :=
    reaches_blanks colon (drop_part quoted)
  have sign := drop_part (drop_part quoted)
  have turn : Turned js cap
      ⟨start + q.text.length + colon.text.length, a ++ t :: (b ++ [q.token start 0]), some i⟩ _ :=
        .colon sign
  have nonempty : a ++ t :: (b ++ [q.token start 0]) ≠ [] := by simp
  have last : (a ++ t :: (b ++ [q.token start 0])).length - 1 = (a ++ t :: b).length := by
    rw [← split, List.length_append, List.length_singleton, Nat.add_sub_cancel]
  simp only [if_neg nonempty, last] at turn
  -- The value.
  have next := drop_part (l := [58]) sign
  have blanks : Reaches js cap ⟨start + q.text.length + colon.text.length + 1,
      a ++ t :: (b ++ [q.token start 0]), some (a ++ t :: b).length⟩ _ := reaches_blanks value next
  have text := drop_part next
  have length : toks.length = (a ++ t :: b).length := by rw [← grown, length_grow]
  have item : Reaches js cap ⟨start + q.text.length + colon.text.length + 1 + value.text.length,
      a ++ t :: (b ++ [q.token start 0]), some (a ++ t :: b).length⟩ _ :=
    inner text (ends_blank behind ends)
      (by rintro j same; cases same; simp)
      (by
        rw [length] at room
        simp only [List.length_append, List.length_cons, List.length_nil] at room ⊢
        omega)
  rw [v.behind_key opened shut] at item
  have whole := (((((lead.trans name).trans gap).trans (.tail .refl turn)).trans blanks).trans item)
  exact whole.trans (reaches_blanks behind (drop_part text))

/-- The members behind the first, as the value of the first leaves the superior token. -/
theorem rest_parsed {rest : Members} (others : rest.Parsed) (own : Bool)
    (here : js.drop pos = rest.text false ++ tail) (ends : Ends tail) (opened : t.isOpen)
    (closed : lastIdx Token.isOpen (b ++ key :: c) = none)
    (room : (a ++ t :: (b ++ key :: c)).length + (rest.tokens false pos).length ≤ cap) :
    ∃ super, Reaches js cap
      ⟨pos, a ++ t :: (b ++ key :: c), if own then some a.length else some (a ++ t :: b).length⟩
      ⟨pos + (rest.text false).length, a ++ { t with size := t.size + rest.counted own } ::
        (b ++ { key with size := key.size + (if own then 0 else rest.head : Nat) } ::
          (c ++ rest.tokens false pos)),
        super⟩ := by
  obtain ⟨counted, later⟩ := @others false js tail cap pos a t here ends opened
  cases own with
  | false => exact later closed room
  | true =>
    obtain ⟨super, run⟩ := counted closed room
    refine ⟨super, ?_⟩
    simp only [List.append_assoc, List.cons_append] at run
    simp only [if_true, Nat.cast_zero, Int.add_zero]
    exact run

end

mutual

theorem Json.parsed (v : Json) : v.Parsed := by
  cases v with
  | string q => exact q.parsed
  | literal l => exact l.parsed
  | array gap items =>
    intro js rest cap s here ends valid room
    have others : items.Parsed := items.parsed
    have whole : js.drop s.pos =
        opening .array :: (gap.text ++ (items.text true ++ closing .array :: rest)) := by
      rw [here]
      simp [Json.text, opening, closing]
    simp only [Json.tokens, List.length_cons] at room
    have length : s.pos + (Json.array gap items).text.length =
        s.pos + 1 + gap.text.length + (items.text true).length + 1 := by
      simp only [Json.text, List.length_cons, List.length_append, List.length_nil]
      omega
    have inside := drop_part (l := [opening .array]) whole
    have contents :=
      @others true js (93 :: rest) cap (s.pos + 1 + gap.text.length) (grow s.super s.toks) []
      ⟨.array, s.pos, -1, 0⟩ (drop_part inside) (ends_cons rfl) (isOpen_begun ..) rfl
      (by simp only [List.length_append, length_grow, List.length_singleton]; omega)
    rw [size_zero] at contents
    rw [Json.behind, length, Json.tokens]
    exact container_parsed (.inr rfl) whole (items.closed true _) (by omega) ⟨_, contents⟩
  | object gap members =>
    intro js rest cap s here ends valid room
    have others : members.Parsed := members.parsed
    have whole : js.drop s.pos =
        opening .object :: (gap.text ++ (members.text true ++ closing .object :: rest)) := by
      rw [here]
      simp [Json.text, opening, closing]
    simp only [Json.tokens, List.length_cons] at room
    have length : s.pos + (Json.object gap members).text.length =
        s.pos + 1 + gap.text.length + (members.text true).length + 1 := by
      simp only [Json.text, List.length_cons, List.length_append, List.length_nil]
      omega
    have inside := drop_part (l := [opening .object]) whole
    obtain ⟨own, -⟩ :=
      @others true js (125 :: rest) cap (s.pos + 1 + gap.text.length) (grow s.super s.toks)
      ⟨.object, s.pos, -1, 0⟩ (drop_part inside) (ends_cons rfl) (isOpen_begun ..)
    obtain ⟨super, contents⟩ := @own [] rfl
      (by simp only [List.length_append, length_grow, List.length_singleton]; omega)
    rw [size_zero] at contents
    rw [Json.behind, length, Json.tokens]
    exact container_parsed (.inl rfl) whole (members.closed true _) (by omega) ⟨super, contents⟩

theorem Items.parsed (items : Items) : items.Parsed := by
  cases items with
  | nil =>
    intro first js rest cap pos a b t here ends opened closed room
    simp only [Items.text, Items.tokens, Items.count, List.length_nil, Nat.add_zero, Nat.cast_zero,
      Int.add_zero, List.append_nil]
    exact .refl
  | cons before v behind rest =>
    have value : v.Parsed := v.parsed
    have others : rest.Parsed := rest.parsed
    intro first js tail cap pos a b t here ends opened closed room
    simp only [Items.text, List.append_assoc] at here
    have lead : Reaches js cap ⟨pos, a ++ t :: b, some a.length⟩ _ :=
      (reaches_comma first here).trans (reaches_blanks before (drop_part here))
    have text := drop_part (drop_part here)
    simp only [Items.tokens, List.length_append, List.length_cons] at room lead
    obtain ⟨start, placed⟩ :
        ∃ start, pos + (comma first).length + before.text.length = start := ⟨_, rfl⟩
    rw [placed] at text room lead
    have later : js.drop (start + v.text.length + behind.text.length) = rest.text false ++ tail :=
      drop_part (drop_part text)
    have item : Reaches js cap ⟨start, a ++ t :: b, some a.length⟩ _ :=
      value text (ends_blank behind (rest.ends ends)) (by rintro i same; cases same; simp)
        (by simp only [List.length_append, List.length_cons]; omega)
    rw [v.behind_item opened closed] at item
    have gap : Reaches js cap
        ⟨start + v.text.length, a ++ t.sizeUp :: (b ++ v.tokens start), some a.length⟩ _ :=
      reaches_blanks behind (drop_part text)
    have more := @others false js tail cap _ a (b ++ v.tokens start) t.sizeUp later ends opened
      (closed_append closed (v.closed start))
      (by simp only [List.length_append, List.length_cons]; omega)
    have length : pos + (Items.text first (.cons before v behind rest)).length =
        start + v.text.length + behind.text.length + (rest.text false).length := by
      simp only [Items.text, List.length_append]
      omega
    rw [size_add, List.append_assoc] at more
    simp only [length, Items.tokens, Items.count, placed]
    exact lead.trans (item.trans (gap.trans more))

theorem Members.parsed (members : Members) : members.Parsed := by
  cases members with
  | nil =>
    intro first js rest cap pos a t here ends opened
    simp only [Members.text, Members.tokens, Members.counted, Members.head, List.length_nil,
      Nat.add_zero, Nat.cast_zero, Int.add_zero, List.append_nil]
    exact ⟨fun _ _ => ⟨_, .refl⟩, fun _ _ => ⟨_, .refl⟩⟩
  | cons before q colon value v behind rest =>
    have inner : v.Parsed := v.parsed
    have others : rest.Parsed := rest.parsed
    intro first js tail cap pos a t here ends opened
    simp only [Members.text, List.append_assoc, List.cons_append] at here
    obtain ⟨start, placed⟩ :
        ∃ start, pos + (comma first).length + before.text.length = start := ⟨_, rfl⟩
    obtain ⟨n, value_placed⟩ :
        ∃ n, start + q.text.length + colon.text.length + 1 + value.text.length = n :=
      ⟨_, rfl⟩
    have length : pos + (Members.text first (.cons before q colon value v behind rest)).length =
        n + v.text.length + behind.text.length + (rest.text false).length := by
      simp only [Members.text, List.length_append, List.length_cons]
      omega
    have later : js.drop (n + v.text.length + behind.text.length) = rest.text false ++ tail := by
      have text :=
        drop_part (drop_part (l := [58]) (drop_part (drop_part (drop_part (drop_part here)))))
      rw [placed, List.length_singleton, value_placed] at text
      exact drop_part (drop_part text)
    have one : (Members.cons before q colon value v behind rest).head = 1 := rfl
    simp only [length, Members.tokens, placed, value_placed, one]
    constructor
    · intro b closed room
      simp only [List.length_append, List.length_cons] at room
      have grown : grow (some a.length) (a ++ t :: b) = a ++ t.sizeUp :: b := modify_append_cons _
      have member : Reaches js cap _ _ :=
        member_parsed inner grown opened closed here (rest.ends ends) placed value_placed
        (by simp only [List.length_append, List.length_cons]; omega)
      have shut : lastIdx Token.isOpen (b ++ q.token start 1 :: v.tokens n) = none :=
        closed_append closed (closed_token (v.closed n))
      obtain ⟨super, run⟩ := @rest_parsed js tail cap _ a b _ t.sizeUp (q.token start 1) rest others
        v.isContainer later ends opened shut
        (by simp only [List.length_append, List.length_cons]; omega)
      have counted : t.size + 1 + (rest.counted v.isContainer : Nat) =
          t.size + (1 + rest.counted v.isContainer : Nat) := by omega
      simp only [Token.sizeUp, counted] at run member
      exact ⟨super, member.trans run⟩
    · intro b c key closed room
      simp only [List.length_append, List.length_cons] at room
      have split : a ++ t :: (b ++ key :: c) = (a ++ t :: b) ++ key :: c := by simp
      have grown : grow (some (a ++ t :: b).length) (a ++ t :: (b ++ key :: c)) =
          a ++ t :: (b ++ key.sizeUp :: c) := by
        rw [split, grow, modify_append_cons, List.append_assoc, List.cons_append]
      have still : lastIdx Token.isOpen (b ++ key.sizeUp :: c) = none := by
        rw [← modify_append_cons Token.sizeUp]
        exact (lastIdx_grow (some b.length) _).trans closed
      have member : Reaches js cap _ _ :=
        member_parsed inner grown opened still here (rest.ends ends) placed value_placed
        (by simp only [List.length_append, List.length_cons]; omega)
      have shut : lastIdx Token.isOpen
          (b ++ key.sizeUp :: c ++ q.token start 1 :: v.tokens n) = none :=
        closed_append still (closed_token (v.closed n))
      obtain ⟨super, run⟩ :=
        @rest_parsed js tail cap _ a (b ++ key.sizeUp :: c) _ t (q.token start 1) rest others
        v.isContainer later ends opened shut
        (by simp only [List.length_append, List.length_cons]; omega)
      have whole := member.trans run
      simp only [List.append_assoc, List.cons_append, Token.sizeUp] at whole
      simp only [Members.counted, Bool.false_eq_true, if_false, Nat.zero_add, Nat.cast_one]
      exact ⟨super, whole⟩

end

/-! ## Arrays of any size -/

/-- With more room nothing but a lack of room changes. -/
def Settled (r : Nat → Except Error Scan) : Prop :=
  ∀ {cap cap' : Nat}, cap ≤ cap' → r cap ≠ .error .nomem → r cap' = r cap

section
variable {js : List UInt8} {cap cap' : Nat} {s t : Scan} {r : Option Error}

theorem settled_add (token : Token) (pos : Nat) : Settled fun cap => s.add cap token pos := by
  intro cap cap' larger other
  by_cases room : s.toks.length < cap
  · simp only [Scan.add, if_pos room, if_pos (room.trans_le larger)]
  · exact absurd (by simp only [Scan.add, if_neg room]) other

theorem settled_enter (type : JsmnType) : Settled fun cap => s.enter cap type := by
  intro cap cap' larger other
  by_cases room : s.toks.length < cap
  · simp only [Scan.enter, if_pos room, if_pos (room.trans_le larger)]
  · exact absurd (by simp only [Scan.enter, if_neg room]) other

theorem settled_step (c : UInt8) : Settled fun cap => s.step cap js c := by
  unfold Scan.step
  split
  · exact settled_enter .object
  split
  · exact settled_enter .array
  split
  · exact fun _ _ => rfl
  split
  · exact fun _ _ => rfl
  split
  · cases stringLoop 0 (js.drop (s.pos + 1)) with
    | error e => exact fun _ _ => rfl
    | ok n => exact settled_add _ _
  split
  · exact fun _ _ => rfl
  split
  · exact fun _ _ => rfl
  cases primitiveLoop (js.drop s.pos) with
  | none => exact fun _ _ => rfl
  | some n => exact settled_add _ _

theorem Parses.settled (run : Parses js cap s r t) (larger : cap ≤ cap') (other : r ≠ some .nomem) :
    Parses js cap' s r t := by
  induction run with
  | complete ended closed => exact .complete ended closed
  | part ended opened => exact .part ended opened
  | @stop s c e here fails =>
    have ne : s.step cap js c ≠ .error .nomem := by
      rw [fails]
      exact fun same => other (congrArg some (Except.error.inj same))
    exact .stop here ((settled_step c larger ne).trans fails)
  | @next s s' u c r here turn _ ih =>
    have ne : s.step cap js c ≠ .error .nomem := by
      rw [turn]
      exact nofun
    exact .next here ((settled_step c larger ne).trans turn) (ih other)

end

/-! ## The text of a value -/

/-- A value with blanks on both sides. -/
structure Source where
  before : Blanks
  value : Json
  behind : Blanks

namespace Source

def text (d : Source) : List UInt8 := d.before.text ++ (d.value.text ++ d.behind.text)

def tokens (d : Source) : List Token := d.value.tokens d.before.text.length

theorem parses (d : Source) {cap : Nat} (room : d.tokens.length ≤ cap) :
    Parses d.text cap Scan.init none ⟨d.text.length, d.tokens, none⟩ := by
  have ends : Ends d.behind.text := List.append_nil d.behind.text ▸ ends_blank d.behind ends_nil
  have here : d.text.drop d.before.text.length = d.value.text ++ d.behind.text := List.drop_left
  have rest : d.text.drop (d.before.text.length + d.value.text.length) = d.behind.text :=
    drop_part here
  have first := @reaches_blanks d.text (d.value.text ++ d.behind.text) cap Scan.init d.before rfl
  have start : Scan.init.pos + d.before.text.length = d.before.text.length := Nat.zero_add _
  rw [start] at first
  have value : Reaches d.text cap ⟨d.before.text.length, [], none⟩ _ :=
    d.value.parsed here ends (fun _ super => nomatch super) ((Nat.zero_add _).trans_le room)
  have behind : d.value.behind ⟨d.before.text.length, [], none⟩ =
      ⟨d.before.text.length + d.value.text.length, d.tokens, none⟩ := by
    simp only [Json.behind, grow, lastIdx, ite_self, List.nil_append]
    rfl
  rw [behind] at value
  have last : Reaches d.text cap ⟨d.before.text.length + d.value.text.length, d.tokens, none⟩ _ :=
    @reaches_blanks d.text [] cap _ d.behind (by rw [List.append_nil]; exact rest)
  have length : d.before.text.length + d.value.text.length + d.behind.text.length =
      d.text.length := by
    simp only [text, List.length_append]
    omega
  rw [length] at last
  refine Reaches.parses ((first.trans value).trans last) (.complete ?_ (d.value.closed _))
  simp only [charAt, List.getElem?_eq_none le_rfl, Option.filter_none]

theorem counted (d : Source) :
    ∃ w, jsmnParse jsmnInit d.text none = some ((d.tokens.length : Int), w) := by
  have enough : d.text.length - jsmnInit.pos < d.text.length + 1 := by omega
  exact ((d.parses le_rfl).counted rfl enough).1 rfl

theorem accepted (d : Source) {ts : List Token} (room : d.tokens.length ≤ ts.length) : ∃ s count,
    Parses d.text ts.length Scan.init none s ∧ s.toks = d.tokens ∧
    jsmnParse jsmnInit d.text (some ts) = some ((d.tokens.length : Int),
      ⟨s.parser, some (d.tokens ++ ts.drop d.tokens.length), count⟩) := by
  obtain ⟨r, t, free, k, run, suffix, length, same⟩ := jsmnParse_init d.text ts
  have here := d.parses room
  obtain ⟨rfl, rfl⟩ := run.unique here
  have rest : free = ts.drop d.tokens.length := by
    have start : ts.length - free.length = d.tokens.length := by simp only at length; omega
    rw [← start]
    exact List.suffix_iff_eq_drop.mp suffix
  exact ⟨_, k, here, rfl, by rw [← rest]; exact same⟩

theorem lacked (d : Source) {ts : List Token} (full : ts.length < d.tokens.length) :
    ∃ w, jsmnParse jsmnInit d.text (some ts) = some (Error.nomem.code, w) := by
  obtain ⟨r, t, free, k, run, -, length, same⟩ := jsmnParse_init d.text ts
  have lack : r = some .nomem := by
    by_contra other
    have larger := run.settled (Nat.le_of_lt full) other
    obtain ⟨-, rfl⟩ := larger.unique (d.parses le_rfl)
    simp only at length
    omega
  rw [lack] at same
  exact ⟨_, same⟩

/-- Of the text of a value `jsmn_parse` makes the tokens of the value, in an array that
is large enough; without an array it counts them, and a smaller array it reports. -/
theorem tokenized (d : Source) :
    (∃ w, jsmnParse jsmnInit d.text none = some ((d.tokens.length : Int), w)) ∧
    (∀ ts, d.tokens.length ≤ ts.length → ∃ w,
      jsmnParse jsmnInit d.text (some ts) = some ((d.tokens.length : Int), w) ∧
        w.tokens = some (d.tokens ++ ts.drop d.tokens.length)) ∧
    ∀ ts, ts.length < d.tokens.length → ∃ w, jsmnParse jsmnInit d.text (some ts) =
      some (Error.nomem.code, w) := by
  refine ⟨d.counted, fun ts room => ?_, fun ts full => d.lacked full⟩
  obtain ⟨s, count, -, -, call⟩ := d.accepted room
  exact ⟨_, call, rfl⟩

end Source

/-- The second key is counted by the first, not by the object. -/
example : (jsmnParse jsmnInit (ascii "\x7b\"a\":1,\"b\":2\x7d")
    (some (List.replicate 5 ⟨.undefined, 0, 0, 0⟩))).map
    (fun p => (p.1, (p.2.tokens.getD []).map Token.size)) = some (5, [1, 2, 0, 1, 0]) := by
  decide +kernel

end MyOS.Jsmn
