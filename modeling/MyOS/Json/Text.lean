import MyOS.Json.Tokens

/-!
# JSON texts

The text of a JSON value with any blanks between its parts, and the tokens that
`jsmn_parse` makes of it. A key counts its value and, since a comma leaves the superior
token as it is, also the key that comes behind it; an object counts a key only where
no such key stands in front of it.
-/

namespace MyOS.Jsmn

open Nested

structure Blanks where
  text : List UInt8
  blank : ∀ c ∈ text, c ∈ [9, 13, 10, 32]

structure Quoted where
  body : List UInt8
  ok : StringBody body

/-- A number, `true`, `false` or `null`. -/
structure Literal where
  first : UInt8
  more : List UInt8
  plain : isSpecial first = false
  all : ∀ c ∈ first :: more, inPrimitive c

mutual

inductive Json
  | string (s : Quoted)
  | literal (l : Literal)
  | array (gap : Blanks) (items : Items)
  | object (gap : Blanks) (members : Members)

inductive Items
  | nil
  | cons (before : Blanks) (v : Json) (behind : Blanks) (rest : Items)

inductive Members
  | nil
  | cons (before : Blanks) (key : Quoted) (colon value : Blanks) (v : Json) (behind : Blanks)
      (rest : Members)

end

def Quoted.text (s : Quoted) : List UInt8 := 34 :: (s.body ++ [34])

/-- A comma stands in front of every item but the first. -/
def comma (first : Bool) : List UInt8 := if first then [] else [44]

mutual

def Json.text : Json → List UInt8
  | .string s => s.text
  | .literal l => l.first :: l.more
  | .array gap items => 91 :: (gap.text ++ (items.text true ++ [93]))
  | .object gap members => 123 :: (gap.text ++ (members.text true ++ [125]))

def Items.text (first : Bool) : Items → List UInt8
  | .nil => []
  | .cons before v behind rest =>
    comma first ++ (before.text ++ (v.text ++ (behind.text ++ rest.text false)))

def Members.text (first : Bool) : Members → List UInt8
  | .nil => []
  | .cons before key colon value v behind rest =>
    comma first ++ (before.text ++ (key.text ++ (colon.text ++
      58 :: (value.text ++ (v.text ++ (behind.text ++ rest.text false))))))

end

def Json.isContainer : Json → Bool
  | .string _ => false
  | .literal _ => false
  | .array .. => true
  | .object .. => true

def Items.count : Items → Nat
  | .nil => 0
  | .cons _ _ _ rest => rest.count + 1

/-- The key of the first member, if there is one. -/
def Members.head : Members → Nat
  | .nil => 0
  | .cons .. => 1

/-- The keys that an object counts: the first, and those behind a container. -/
def Members.counted (own : Bool) : Members → Nat
  | .nil => 0
  | .cons _ _ _ _ v _ rest => (if own then 1 else 0) + rest.counted v.isContainer

def Quoted.token (s : Quoted) (pos : Nat) (size : Int) : Token :=
  ⟨.string, (pos + 1 : Nat), (pos + 1 + s.body.length : Nat), size⟩

mutual

/-- The tokens of a value whose text begins at `pos`. -/
def Json.tokens (pos : Nat) : Json → List Token
  | .string s => [s.token pos 0]
  | .literal l => [⟨.primitive, pos, (pos + (l.first :: l.more).length : Nat), 0⟩]
  | .array gap items =>
    ⟨.array, pos, (pos + 1 + gap.text.length + (items.text true).length + 1 : Nat), items.count⟩ ::
      items.tokens true (pos + 1 + gap.text.length)
  | .object gap members =>
    ⟨.object, pos, (pos + 1 + gap.text.length + (members.text true).length + 1 : Nat),
      members.counted true⟩ ::
      members.tokens true (pos + 1 + gap.text.length)

def Items.tokens (first : Bool) (pos : Nat) : Items → List Token
  | .nil => []
  | .cons before v behind rest =>
    let start := pos + (comma first).length + before.text.length
    v.tokens start ++ rest.tokens false (start + v.text.length + behind.text.length)

def Members.tokens (first : Bool) (pos : Nat) : Members → List Token
  | .nil => []
  | .cons before key colon value v behind rest =>
    let start := pos + (comma first).length + before.text.length
    let inner := start + key.text.length + colon.text.length + 1 + value.text.length
    key.token start (1 + (if v.isContainer then 0 else rest.head : Nat)) ::
      (v.tokens inner ++ rest.tokens false (inner + v.text.length + behind.text.length))

end

/-! ## No token is left open -/

theorem closed_append {a b : List Token} (left : lastIdx Token.isOpen a = none)
    (right : lastIdx Token.isOpen b = none) : lastIdx Token.isOpen (a ++ b) = none :=
  (lastIdx_append right).trans left

theorem closed_token {type : JsmnType} {start size : Int} {stop : Nat} {b : List Token}
    (closed : lastIdx Token.isOpen b = none) :
    lastIdx Token.isOpen (⟨type, start, stop, size⟩ :: b) = none := by
  simp only [lastIdx, closed, isOpen_stop]
  rfl

mutual

theorem Json.closed (v : Json) (pos : Nat) : lastIdx Token.isOpen (v.tokens pos) = none := by
  cases v with
  | string s => exact closed_token rfl
  | literal l => exact closed_token rfl
  | array gap items => exact closed_token (items.closed true _)
  | object gap members => exact closed_token (members.closed true _)

theorem Items.closed (items : Items) (first : Bool) (pos : Nat) :
    lastIdx Token.isOpen (items.tokens first pos) = none := by
  cases items with
  | nil => rfl
  | cons before v behind rest => exact closed_append (v.closed _) (rest.closed false _)

theorem Members.closed (members : Members) (first : Bool) (pos : Nat) :
    lastIdx Token.isOpen (members.tokens first pos) = none := by
  cases members with
  | nil => rfl
  | cons before key colon value v behind rest =>
    exact closed_token (closed_append (v.closed _) (rest.closed false _))

end

/-! ## What stands behind a value -/

theorem ends_append {l rest : List UInt8} (all : ∀ c ∈ l, endsPrimitive c) (ends : Ends rest) :
    Ends (l ++ rest) := by
  cases l with
  | nil => exact ends
  | cons d l =>
    intro c head
    cases head
    exact .inr (all d (.head _))

theorem ends_blank (gap : Blanks) {rest : List UInt8} (ends : Ends rest) :
    Ends (gap.text ++ rest) := by
  refine ends_append (fun c mem => ?_) ends
  have blank := gap.blank c mem
  simp only [List.mem_cons, List.not_mem_nil, or_false] at blank
  rcases blank with rfl | rfl | rfl | rfl <;> rfl

theorem ends_cons {c : UInt8} {rest : List UInt8} (stops : endsPrimitive c) : Ends (c :: rest) := by
  intro d head
  cases head
  exact .inr stops

theorem Items.ends (items : Items) {rest : List UInt8} (ends : Ends rest) :
    Ends (items.text false ++ rest) := by
  cases items with
  | nil => exact ends
  | cons before v behind more => exact ends_cons rfl

theorem Members.ends (members : Members) {rest : List UInt8} (ends : Ends rest) :
    Ends (members.text false ++ rest) := by
  cases members with
  | nil => exact ends
  | cons before key colon value v behind more => exact ends_cons rfl

/-! ## The parts of a text -/

section
variable {js l rest : List UInt8} {cap : Nat} {s t u : Scan}

theorem Reaches.trans (first : Reaches js cap s t) (second : Reaches js cap t u) :
    Reaches js cap s u := by
  induction second with
  | refl => exact first
  | tail _ turn ih => exact .tail ih turn

theorem drop_part {pos : Nat} (here : js.drop pos = l ++ rest) :
    js.drop (pos + l.length) = rest := by
  rw [← List.drop_drop, here, List.drop_left]

theorem reaches_pads (here : js.drop s.pos = l ++ rest) (all : ∀ c ∈ l, isPad c) :
    Reaches js cap s { s with pos := s.pos + l.length } := by
  induction l generalizing s with
  | nil => exact .refl
  | cons c l ih =>
    have first : Turned js cap s { s with pos := s.pos + 1 } := .pad here (all c (.head _))
    have next : js.drop (s.pos + 1) = l ++ rest := drop_part (l := [c]) here
    have others := @ih { s with pos := s.pos + 1 } next fun d mem => all d (.tail _ mem)
    rw [List.length_cons, Nat.add_comm l.length 1, ← Nat.add_assoc]
    exact Reaches.trans (.tail .refl first) others

theorem reaches_blanks (gap : Blanks) (here : js.drop s.pos = gap.text ++ rest) :
    Reaches js cap s { s with pos := s.pos + gap.text.length } := by
  refine reaches_pads here fun c mem => ?_
  have blank := gap.blank c mem
  simp only [List.mem_cons, List.not_mem_nil, or_false] at blank
  rcases blank with rfl | rfl | rfl | rfl <;> rfl

theorem reaches_comma (first : Bool) (here : js.drop s.pos = comma first ++ rest) :
    Reaches js cap s { s with pos := s.pos + (comma first).length } := by
  refine reaches_pads here fun c mem => ?_
  cases first with
  | true => exact absurd mem List.not_mem_nil
  | false =>
    rw [List.mem_singleton.mp mem]
    rfl

theorem reaches_quoted (q : Quoted) (here : js.drop s.pos = q.text ++ rest)
    (room : s.toks.length < cap) :
    Reaches js cap s
      ⟨s.pos + q.text.length, grow s.super s.toks ++ [q.token s.pos 0], s.super⟩ := by
  have whole : js.drop s.pos = 34 :: (q.body ++ 34 :: rest) := by
    rw [here, Quoted.text, List.cons_append, List.append_assoc]
    rfl
  have length : s.pos + q.text.length = s.pos + q.body.length + 2 := by
    simp only [Quoted.text, List.length_cons, List.length_append, List.length_nil]
    omega
  rw [length]
  exact .tail .refl (.string whole q.ok room)

end

end MyOS.Jsmn
