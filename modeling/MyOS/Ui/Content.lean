import MyOS.Ui.Graphics

/-!
kernel.c: what the applications put on the screen that is computed and not fixed:
the result of the calculator, the lines of a page and of a JSON document.
-/

namespace MyOS

/-! ## The calculator -/

def calcAdd (expr : List UInt8) (c : UInt8) : List UInt8 :=
  if expr.length < 63 then expr ++ [c] else expr

/-- `while (i < expr_len && expr[i] is a digit) v = v*10 + (expr[i]-'0');` with
what follows the digits. -/
def calcNumber (v : Int32) : List UInt8 → Int32 × List UInt8
  | [] => (v, [])
  | c :: rest =>
    if 48 ≤ c ∧ c ≤ 57 then calcNumber (v * 10 + (c - 48).toUInt32.toInt32) rest else (v, c :: rest)

def calcApply (op : UInt8) (res v : Int32) : Int32 :=
  if op = 43 then res + v
  else if op = 45 then res - v
  else if op = 42 then res * v
  else if op = 47 then res / (if v ≠ 0 then v else 1)
  else res

/-- The loop of `calc_eval`. The counter is advanced behind an operator and once
more by the loop itself. -/
def calcLoop : Nat → UInt8 → Int32 → List UInt8 → Int32
  | 0, _, res, _ => res
  | _ + 1, _, res, [] => res
  | fuel + 1, op, res, expr =>
    let (v, rest) := calcNumber 0 expr
    let res := calcApply op res v
    match rest with
    | [] => res
    | op :: rest => calcLoop fuel op res rest.tail

/-- `while (t > 0) { buf[n++] = (t%10) + '0'; t /= 10; }`; ten digits are enough
for an `int`. -/
def decimalDigits : Nat → Int32 → List UInt8
  | 0, _ => []
  | more + 1, t =>
    if t > 0 then (48 + (t % 10).toUInt32.toUInt8) :: decimalDigits more (t / 10) else []

def calcEval (expr : List UInt8) : List UInt8 :=
  let res := calcLoop expr.length 43 0 expr
  let neg := res < 0
  let buf := (if res = 0 then [48] else []) ++ decimalDigits 10 (if neg then -res else res) ++
    (if neg then [45] else [])
  buf.reverse.foldl calcAdd []

/-! ## A page -/

/-- One turn of the loop over `bodybuf`: the line and what follows it. -/
def pageLine (body : List UInt8) : List UInt8 × List UInt8 :=
  let tmp := (body.takeWhile (· ≠ 10)).take 127
  let rest := body.drop tmp.length
  (tmp.dropWhile (· = 32), if rest.head? = some 10 then rest.tail else rest)

/-- The lines drawn, and the rest of the page. -/
def pageLines : Nat → List UInt8 → List (List UInt8) × List UInt8
  | 0, body => ([], body)
  | lines + 1, body =>
    if body = [] then ([], [])
    else
      let (line, rest) := pageLine body
      let (more, last) := pageLines lines rest
      (line :: more, last)

/-- The message of a failed fetch: `snprintf` knows no `%d` and no `%u`. -/
def fetchFailed : List UInt8 :=
  snprintf 128 (ascii "Fetch failed! dns_ok=%d, resolved_ip=%u, got=%d") []

/-! ## A JSON document -/

inductive JsmnType
  | undefined | object | array | string | primitive
  deriving DecidableEq

structure JsmnTok where
  type : JsmnType
  start : Nat
  stop : Nat
  deriving DecidableEq

/-- A copy of a token of at most 63 bytes, as a C string. -/
def tokenText (body : List UInt8) (t : JsmnTok) : List UInt8 :=
  cString ((body.drop t.start).take (min 63 (t.stop - t.start)))

/-- A line for every string token that follows a string token, up to `maxLines`. -/
def jsonLines (body : List UInt8) : Nat → List JsmnTok → List (List UInt8)
  | 0, _ => []
  | _ + 1, [] => []
  | _ + 1, [_] => []
  | lines + 1, key :: val :: ts =>
    if val.type = .string ∧ key.type = .string then
      snprintf 128 (ascii "%s: %s") [tokenText body key, tokenText body val] ::
        jsonLines body lines (val :: ts)
    else jsonLines body (lines + 1) (val :: ts)

end MyOS
