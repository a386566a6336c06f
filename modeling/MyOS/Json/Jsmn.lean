import MyOS.Ui.Content

/-!
json.h: the tokenizer, as kernel.c compiles it (neither `JSMN_STRICT` nor
`JSMN_PARENT_LINKS`). `js` are the `len` bytes of the text, and the array of tokens
has `num_tokens` entries. An access outside of the array has no result.
-/

namespace MyOS.Jsmn

/-- `jsmntok_t`; while a token is open its end is -1. -/
structure Token where
  type : JsmnType
  start : Int
  stop : Int
  size : Int
  deriving DecidableEq

def Token.isOpen (t : Token) : Bool := t.start != -1 && t.stop == -1

structure Parser where
  pos : Nat
  toknext : Nat
  toksuper : Int
  deriving DecidableEq

def jsmnInit : Parser := ⟨0, 0, -1⟩

inductive Error
  | nomem | inval | part
  deriving DecidableEq

def Error.code : Error → Int
  | nomem => -1
  | inval => -2
  | part => -3

/-- The index of the fresh token; its type is left as it was. -/
def jsmnAllocToken (p : Parser) (tokens : List Token) : Option (Nat × Parser × List Token) :=
  if tokens.length ≤ p.toknext then none
  else some (p.toknext, { p with toknext := p.toknext + 1 },
    tokens.modify p.toknext fun t => { t with start := -1, stop := -1, size := 0 })

def jsmnFillToken (tokens : List Token) (i : Nat) (type : JsmnType) (start stop : Int) :
    List Token :=
  tokens.set i ⟨type, start, stop, 0⟩

/-- What a function returns and leaves behind; `tokens` may be `NULL`. -/
structure Outcome where
  r : Int
  p : Parser
  tokens : Option (List Token)

/-! ## Primitives and strings -/

/-- The characters that end a primitive. -/
def endsPrimitive (c : UInt8) : Bool := c ∈ [58, 9, 13, 10, 32, 44, 93, 125]

/-- The loop over the text from a primitive on: how many characters it takes, or none. -/
def primitiveLoop : List UInt8 → Option Nat
  | [] => some 0
  | c :: rest =>
    if c = 0 ∨ endsPrimitive c then some 0
    else if c < 32 ∨ 127 ≤ c then none
    else (primitiveLoop rest).map (· + 1)

def jsmnParsePrimitive (p : Parser) (js : List UInt8) (tokens : Option (List Token)) : Outcome :=
  match primitiveLoop (js.drop p.pos) with
  | none => ⟨Error.inval.code, p, tokens⟩
  | some n =>
    match tokens with
    | none => ⟨0, { p with pos := p.pos + n - 1 }, none⟩
    | some ts =>
      match jsmnAllocToken p ts with
      | none => ⟨Error.nomem.code, p, some ts⟩
      | some (i, fresh, ts) =>
        ⟨0, { fresh with pos := p.pos + n - 1 },
          some (jsmnFillToken ts i .primitive p.pos (p.pos + n))⟩

def isHex (c : UInt8) : Bool := 48 ≤ c && c ≤ 57 || 65 ≤ c && c ≤ 70 || 97 ≤ c && c ≤ 102

/-- The characters that may stand behind a backslash, 'u' apart. -/
def isEscape (c : UInt8) : Bool := c ∈ [34, 47, 92, 98, 102, 114, 110, 116]

/-- The loop behind the opening quote: how many characters come before the closing
one. `hex` digits of a `\u` are still to come. -/
def stringLoop : Nat → List UInt8 → Except Error Nat
  | _, [] => .error .part
  | hex, c :: rest =>
    if c = 0 then .error .part
    else if 0 < hex then
      if isHex c then (stringLoop (hex - 1) rest).map (· + 1) else .error .inval
    else if c = 34 then .ok 0
    else if c = 92 then
      match rest with
      -- A backslash at the very end is an ordinary character.
      | [] => .error .part
      | e :: rest =>
        if isEscape e then (stringLoop 0 rest).map (· + 2)
        else if e = 117 then (stringLoop 4 rest).map (· + 2)
        else .error .inval
    else (stringLoop 0 rest).map (· + 1)

def jsmnParseString (p : Parser) (js : List UInt8) (tokens : Option (List Token)) : Outcome :=
  match stringLoop 0 (js.drop (p.pos + 1)) with
  | .error e => ⟨e.code, p, tokens⟩
  | .ok n =>
    match tokens with
    | none => ⟨0, { p with pos := p.pos + 1 + n }, none⟩
    | some ts =>
      match jsmnAllocToken p ts with
      | none => ⟨Error.nomem.code, p, some ts⟩
      | some (i, fresh, ts) =>
        ⟨0, { fresh with pos := p.pos + 1 + n },
          some (jsmnFillToken ts i .string (p.pos + 1 : Nat) (p.pos + 1 + n : Nat))⟩

/-! ## The main loop -/

structure Work where
  p : Parser
  tokens : Option (List Token)
  count : Int

inductive Turn
  | next (w : Work)
  | ret (r : Int) (w : Work)

/-- `tokens[i]` -/
def tokenAt (ts : List Token) (i : Int) : Option Token := if 0 ≤ i then ts[i.toNat]? else none

/-- `tokens[i].size++` -/
def sizeUp (ts : List Token) (i : Int) : Option (List Token) :=
  (tokenAt ts i).map fun t => ts.set i.toNat { t with size := t.size + 1 }

/-- `if (parser->toksuper != -1) tokens[parser->toksuper].size++;` -/
def countTo (ts : List Token) (toksuper : Int) : Option (List Token) :=
  if toksuper ≠ -1 then sizeUp ts toksuper else some ts

/-- `for (i = n - 1; i >= 0; i--)` up to a token that is open. -/
def openBelow (ts : List Token) : Nat → Option (Option Nat)
  | 0 => some none
  | n + 1 => do
    let t ← ts[n]?
    if t.isOpen then some (some n) else openBelow ts n

/-- `case '{': case '[':` -/
def openTurn (w : Work) (type : JsmnType) : Option Turn :=
  let count := w.count + 1
  match w.tokens with
  | none => some (.next { w with count })
  | some ts =>
    match jsmnAllocToken w.p ts with
    | none => some (.ret Error.nomem.code { w with count })
    | some (i, p, ts) => do
      let ts ← countTo ts p.toksuper
      let t ← ts[i]?
      let ts := ts.set i { t with type := type, start := p.pos }
      some (.next ⟨{ p with toksuper := (p.toknext : Int) - 1 }, some ts, count⟩)

/-- `case '}': case ']':` -/
def closeTurn (w : Work) (type : JsmnType) : Option Turn :=
  match w.tokens with
  | none => some (.next w)
  | some ts => do
    match ← openBelow ts w.p.toknext with
    | none => some (.ret Error.inval.code w)
    | some i =>
      let t ← ts[i]?
      if t.type ≠ type then some (.ret Error.inval.code w)
      else
        let ts := ts.set i { t with stop := w.p.pos + 1 }
        let outer ← openBelow ts (i + 1)
        let toksuper : Int := match outer with
          | some j => j
          | none => -1
        some (.next { w with p := { w.p with toksuper }, tokens := some ts })

/-- Behind a string or a primitive. -/
def valueTurn (w : Work) (o : Outcome) : Option Turn :=
  if o.r < 0 then some (.ret o.r { w with p := o.p, tokens := o.tokens })
  else
    match o.tokens with
    | none => some (.next ⟨o.p, none, w.count + 1⟩)
    | some ts => do
      let ts ← countTo ts o.p.toksuper
      some (.next ⟨o.p, some ts, w.count + 1⟩)

/-- `case ',':` looks at the type of the superior token and leaves everything as it is. -/
def commaTurn (w : Work) : Option Turn :=
  match w.tokens with
  | some ts =>
    if w.p.toksuper ≠ -1 then (tokenAt ts w.p.toksuper).map fun _ => .next w else some (.next w)
  | none => some (.next w)

def turn (js : List UInt8) (w : Work) (c : UInt8) : Option Turn :=
  if c = 123 then openTurn w .object
  else if c = 91 then openTurn w .array
  else if c = 125 then closeTurn w .object
  else if c = 93 then closeTurn w .array
  else if c = 34 then valueTurn w (jsmnParseString w.p js w.tokens)
  else if c ∈ [9, 13, 10, 32] then some (.next w)
  else if c = 58 then some (.next { w with p := { w.p with toksuper := (w.p.toknext : Int) - 1 } })
  else if c = 44 then commaTurn w
  else valueTurn w (jsmnParsePrimitive w.p js w.tokens)

/-- Behind the text a token must not be open any more. -/
def finish (w : Work) : Option (Int × Work) :=
  match w.tokens with
  | none => some (w.count, w)
  | some ts => do
    match ← openBelow ts w.p.toknext with
    | some _ => some (Error.part.code, w)
    | none => some (w.count, w)

/-- The loop, for as many turns as there is fuel. -/
def parseLoop (js : List UInt8) : Nat → Work → Option (Int × Work)
  | 0, _ => none
  | fuel + 1, w =>
    match js[w.p.pos]? with
    | none => finish w
    | some c =>
      if c = 0 then finish w
      else do
        match ← turn js w c with
        | .ret r w => some (r, w)
        | .next w => parseLoop js fuel { w with p := { w.p with pos := w.p.pos + 1 } }

/-- Each turn goes on by a character at least. -/
def jsmnParse (p : Parser) (js : List UInt8) (tokens : Option (List Token)) : Option (Int × Work) :=
  parseLoop js (js.length + 1) ⟨p, tokens, p.toknext⟩

end MyOS.Jsmn
