import MyOS.Json.RoundTrip
import MyOS.Ui.Viewer

/-!
# From a body to the lines of the viewer

`json_viewer_ui` gives the body to `jsmn_parse` and copies the tokens out of it.
-/

namespace MyOS.Jsmn

/-! ## The loop over the tokens -/

/-- `memcpy(key, bodybuf + t->start, key_len)`, if that lies in the body. -/
def viewerText (body : List UInt8) (t : Token) : Option (List UInt8) :=
  let len := min 63 (t.stop - t.start)
  if 0 ≤ t.start ∧ 0 ≤ len ∧ t.start + len ≤ body.length then
    some (cString ((body.drop t.start.toNat).take len.toNat))
  else none

/-- `for (int i = 1; i < r; i++)`, with `left` turns to come and `line` lines drawn. -/
def viewerLoop (body : List UInt8) (t : List Token) : Nat → Nat → Nat → Option (List (List UInt8))
  | 0, _, _ => some []
  | left + 1, i, line => do
    let key ← t[i - 1]?
    let val ← t[i]?
    if val.type = .string ∧ key.type = .string then
      let keyText ← viewerText body key
      let valText ← viewerText body val
      let text := snprintf 128 (ascii "%s: %s") [keyText, valText]
      if Viewer.Document.maxLines ≤ line + 1 then some [text]
      else (viewerLoop body t left (i + 1) (line + 1)).map (text :: ·)
    else viewerLoop body t left (i + 1) line

/-- What is drawn of a body; `t` is the array on the stack. -/
def viewerLines (body : List UInt8) (t : List Token) : Option (List (List UInt8)) := do
  let (r, w) ← jsmnParse jsmnInit (cString body) (some t)
  if r < 0 then some [ascii "Failed to parse JSON"]
  else
    let t ← w.tokens
    viewerLoop (cString body) t (r.toNat - 1) 1 0

def Token.tok (t : Token) : JsmnTok := ⟨t.type, t.start.toNat, t.stop.toNat⟩

section
variable {body : List UInt8} {toks free : List Token}

theorem viewerText_eq {t : Token} (inside : 0 ≤ t.start ∧ t.start ≤ t.stop ∧ t.stop ≤ body.length) :
    viewerText body t = some (tokenText body t.tok) := by
  obtain ⟨nonneg, ordered, within⟩ := inside
  have len : (min 63 (t.stop - t.start)).toNat = min 63 (t.stop.toNat - t.start.toNat) := by omega
  have fits : 0 ≤ t.start ∧ 0 ≤ min 63 (t.stop - t.start) ∧
      t.start + min 63 (t.stop - t.start) ≤ body.length := by
    omega
  simp only [viewerText, if_pos fits, tokenText, Token.tok, len]

/-- The loop from the token `i` on. -/
theorem viewerLoop_eq (wellFormed : WellFormed body toks) {left i line : Nat} (begun : 0 < i)
    (last : i + left = toks.length) (more : line < Viewer.Document.maxLines) :
    viewerLoop body (toks ++ free) left i line =
      some (jsonLines body (Viewer.Document.maxLines - line)
        ((toks.drop (i - 1)).map Token.tok)) := by
  induction left generalizing i line with
  | zero =>
    have alone : toks.drop (i - 1) = [toks[i - 1]] := by
      rw [List.drop_eq_getElem_cons (by omega)]
      congr 1
      exact List.drop_eq_nil_of_le (by omega)
    obtain ⟨lines, same⟩ := Nat.exists_eq_add_one_of_ne_zero (Nat.sub_ne_zero_of_lt more)
    rw [alone, same]
    rfl
  | succ left ih =>
    have key : (toks ++ free)[i - 1]? = some toks[i - 1] := by
      rw [List.getElem?_append_left (by omega), List.getElem?_eq_getElem (by omega)]
    have val : (toks ++ free)[i]? = some toks[i] := by
      rw [List.getElem?_append_left (by omega), List.getElem?_eq_getElem (by omega)]
    have behind : i - 1 + 1 = i := Nat.sub_add_cancel begun
    have here : toks.drop (i - 1) = toks[i - 1] :: toks[i] :: toks.drop (i + 1) := by
      rw [List.drop_eq_getElem_cons (by omega)]
      congr 1
      rw [behind]
      exact List.drop_eq_getElem_cons (by omega)
    have next : toks.drop (i + 1 - 1) = toks[i] :: toks.drop (i + 1) :=
      List.drop_eq_getElem_cons (by omega)
    obtain ⟨lines, same⟩ := Nat.exists_eq_add_one_of_ne_zero (Nat.sub_ne_zero_of_lt more)
    have keyText := viewerText_eq (wellFormed.inside toks[i - 1] (List.getElem_mem _))
    have valText := viewerText_eq (wellFormed.inside toks[i] (List.getElem_mem _))
    have types : ∀ t : Token, t.tok.type = t.type := fun _ => rfl
    rw [viewerLoop, here, same]
    simp only [key, val, Option.bind_eq_bind, Option.bind_some, keyText, valText, List.map_cons,
      jsonLines, types]
    by_cases both : toks[i].type = .string ∧ toks[i - 1].type = .string
    · rw [if_pos both, if_pos both]
      by_cases enough : Viewer.Document.maxLines ≤ line + 1
      · have none : lines = 0 := by omega
        rw [if_pos enough, none]
        rfl
      · have rest := @ih (i + 1) (line + 1) (Nat.succ_pos i) (by omega) (by omega)
        have fewer : Viewer.Document.maxLines - (line + 1) = lines := by omega
        rw [if_neg enough, rest, next, fewer]
        rfl
    · have rest := @ih (i + 1) line (Nat.succ_pos i) (by omega) more
      rw [if_neg both, if_neg both, rest, next, same]
      rfl

theorem maxLines_pos : 0 < Viewer.Document.maxLines := by decide

/-- What is drawn of a body that is accepted. -/
theorem viewerLines_accepted {body : List UInt8} {t free : List Token} {s : Scan} {w : Work}
    {cap : Nat} (run : Parses (cString body) cap Scan.init none s)
    (left : w.tokens = some (s.toks ++ free))
    (call : jsmnParse jsmnInit (cString body) (some t) = some ((s.toks.length : Int), w)) :
    viewerLines body t =
      some (jsonLines (cString body) Viewer.Document.maxLines (s.toks.map Token.tok)) := by
  have wellFormed := run.wellFormed
  generalize s.toks = toks at wellFormed left call
  simp only [viewerLines, call, Option.bind_eq_bind, Option.bind_some,
    if_neg (Int.not_lt.mpr (Int.natCast_nonneg toks.length)), left, Int.toNat_natCast]
  cases toks with
  | nil =>
    obtain ⟨lines, same⟩ := Nat.exists_eq_add_one_of_ne_zero (Nat.ne_of_gt maxLines_pos)
    rw [same]
    rfl
  | cons first toks =>
    have loop :=
      @viewerLoop_eq _ _ free wellFormed toks.length 1 0 Nat.one_pos (Nat.add_comm ..) maxLines_pos
    exact loop

theorem jsonLines_bounds (body : List UInt8) (lines : Nat) (ts : List JsmnTok) :
    (jsonLines body lines ts).length ≤ lines ∧ ∀ l ∈ jsonLines body lines ts, l.length ≤ 127 := by
  fun_induction jsonLines body lines ts with
  | case1 => exact ⟨le_rfl, nofun⟩
  | case2 => exact ⟨Nat.zero_le _, nofun⟩
  | case3 => exact ⟨Nat.zero_le _, nofun⟩
  | case4 lines key val ts both ih =>
    refine ⟨Nat.succ_le_succ ih.1, fun l mem => ?_⟩
    rcases List.mem_cons.mp mem with rfl | mem
    · rw [snprintf_eq]
      exact List.length_take_le ..
    · exact ih.2 l mem
  | case5 lines key val ts other ih => exact ih

/-- Whatever the body is and whatever stands on the stack, the viewer copies nothing
but parts of the body, and draws no more than fits: some lines, or one message. -/
theorem viewerLines_safe (body : List UInt8) (t : List Token) :
    ∃ lines, viewerLines body t = some lines ∧
    lines.length ≤ Viewer.Document.maxLines ∧ ∀ l ∈ lines, l.length ≤ 127 := by
  obtain ⟨e, s, free, count, run, -, -, same⟩ := jsmnParse_init (cString body) t
  cases e with
  | some e =>
    refine ⟨[ascii "Failed to parse JSON"], ?_, maxLines_pos, ?_⟩
    · have negative : result (some e) s < 0 := e.code_neg
      simp only [viewerLines, same, Option.bind_eq_bind, Option.bind_some, if_pos negative]
    · intro l mem
      rw [List.mem_singleton.mp mem]
      decide
  | none =>
    exact ⟨_, viewerLines_accepted run rfl same, jsonLines_bounds ..⟩

end

/-! ## Documents -/

mutual

/-- A value as a token with its children; the child of a key is its value. -/
def Json.node (pos : Nat) : Json → Viewer.Node
  | .string s => .mk (s.token pos 0).tok .nil
  | .literal l => .mk ⟨.primitive, pos, pos + (l.first :: l.more).length⟩ .nil
  | .array gap items =>
    .mk ⟨.array, pos, pos + 1 + gap.text.length + (items.text true).length + 1⟩
      (items.nodes true (pos + 1 + gap.text.length))
  | .object gap members =>
    .mk ⟨.object, pos, pos + 1 + gap.text.length + (members.text true).length + 1⟩
      (members.nodes true (pos + 1 + gap.text.length))

def Items.nodes (first : Bool) (pos : Nat) : Items → Viewer.Nodes
  | .nil => .nil
  | .cons before v behind rest =>
    let start := pos + (comma first).length + before.text.length
    .cons (v.node start) (rest.nodes false (start + v.text.length + behind.text.length))

def Members.nodes (first : Bool) (pos : Nat) : Members → Viewer.Nodes
  | .nil => .nil
  | .cons before key colon value v behind rest =>
    let start := pos + (comma first).length + before.text.length
    let inner := start + key.text.length + colon.text.length + 1 + value.text.length
    .cons (.mk (key.token start 0).tok (.cons (v.node inner) .nil))
      (rest.nodes false (inner + v.text.length + behind.text.length))

end

mutual

theorem Json.node_tokens (v : Json) (pos : Nat) :
    (v.node pos).tokens = (v.tokens pos).map Token.tok := by
  cases v with
  | string s => rfl
  | literal l => rfl
  | array gap items =>
    have inner := items.nodes_tokens true (pos + 1 + gap.text.length)
    simp only [Json.node, Json.tokens, Viewer.Node.tokens, inner, List.map_cons]
    rfl
  | object gap members =>
    have inner := members.nodes_tokens true (pos + 1 + gap.text.length)
    simp only [Json.node, Json.tokens, Viewer.Node.tokens, inner, List.map_cons]
    rfl

theorem Items.nodes_tokens (items : Items) (first : Bool) (pos : Nat) :
    (items.nodes first pos).tokens = (items.tokens first pos).map Token.tok := by
  cases items with
  | nil => rfl
  | cons before v behind rest =>
    simp only [Items.nodes, Items.tokens, Viewer.Nodes.tokens, List.map_append, v.node_tokens,
      rest.nodes_tokens]

theorem Members.nodes_tokens (members : Members) (first : Bool) (pos : Nat) :
    (members.nodes first pos).tokens = (members.tokens first pos).map Token.tok := by
  cases members with
  | nil => rfl
  | cons before key colon value v behind rest =>
    simp only [Members.nodes, Members.tokens, Viewer.Nodes.tokens, Viewer.Node.tokens,
      List.map_cons, List.map_append, v.node_tokens, rest.nodes_tokens, List.append_nil,
      List.cons_append]
    rfl

end

mutual

/-- Every key is a string. -/
theorem Json.keys (v : Json) (pos : Nat) :
    ∀ p ∈ (v.node pos).members false, p.1.type = .string := by
  intro p mem
  cases v with
  | string s => simp [Json.node, Viewer.Node.members, Viewer.Nodes.members] at mem
  | literal l => simp [Json.node, Viewer.Node.members, Viewer.Nodes.members] at mem
  | array gap items =>
    simp only [Json.node, Viewer.Node.members, Bool.false_eq_true, if_false, List.nil_append] at mem
    exact items.keys true _ p mem
  | object gap members =>
    simp only [Json.node, Viewer.Node.members, Bool.false_eq_true, if_false, List.nil_append] at mem
    exact members.keys true _ p mem

theorem Items.keys (items : Items) (first : Bool) (pos : Nat) :
    ∀ p ∈ (items.nodes first pos).members false, p.1.type = .string := by
  intro p mem
  cases items with
  | nil => exact absurd mem List.not_mem_nil
  | cons before v behind rest =>
    simp only [Items.nodes, Viewer.Nodes.members] at mem
    rcases List.mem_append.mp mem with here | later
    · exact v.keys _ p here
    · exact rest.keys false _ p later

theorem Members.keys (members : Members) (first : Bool) (pos : Nat) :
    ∀ p ∈ (members.nodes first pos).members true, p.1.type = .string := by
  intro p mem
  cases members with
  | nil => exact absurd mem List.not_mem_nil
  | cons before key colon value v behind rest =>
    simp only [Members.nodes, Viewer.Nodes.members, Viewer.Node.members, if_true] at mem
    rcases List.mem_append.mp mem with here | later
    · rcases List.mem_append.mp here with own | below
      · simp only [Viewer.stringMember] at own
        split at own
        · rw [List.mem_singleton.mp own]
          rfl
        · exact absurd own List.not_mem_nil
      · rw [List.append_nil] at below
        exact v.keys _ p below
    · exact rest.keys false _ p later

end

/-! ## No NUL in a text -/

theorem StringBody.plain {s : List UInt8} (ok : StringBody s) : 0 ∉ s := by
  induction ok with
  | nil => exact List.not_mem_nil
  | char plain _ ih =>
    rw [List.mem_cons, not_or]
    exact ⟨fun same => plain.1 same.symm, ih⟩
  | escape known _ ih =>
    simp only [List.mem_cons, not_or]
    exact ⟨by decide, fun same => isEscape_ne_zero known same.symm, ih⟩
  | unicode _ hex _ ih =>
    simp only [List.mem_cons, List.mem_append, not_or]
    exact ⟨by decide, by decide, fun digit => isHex_ne_zero (hex 0 digit) rfl, ih⟩

theorem Blanks.plain (gap : Blanks) : 0 ∉ gap.text :=
  fun mem => absurd (gap.blank 0 mem) (by decide)

theorem Quoted.plain (s : Quoted) : 0 ∉ s.text := by
  simp only [Quoted.text, List.mem_cons, List.mem_append, List.not_mem_nil, or_false, not_or]
  exact ⟨by decide, s.ok.plain, by decide⟩

theorem comma_plain (first : Bool) : 0 ∉ comma first := by
  cases first <;> decide

mutual

theorem Json.text_plain (v : Json) : 0 ∉ v.text := by
  cases v with
  | string s => exact s.plain
  | literal l => exact fun mem => not_ends_of_inPrimitive (l.all 0 mem) (.inl rfl)
  | array gap items =>
    simp only [Json.text, List.mem_cons, List.mem_append, List.not_mem_nil, or_false, not_or]
    exact ⟨by decide, gap.plain, items.text_plain true, by decide⟩
  | object gap members =>
    simp only [Json.text, List.mem_cons, List.mem_append, List.not_mem_nil, or_false, not_or]
    exact ⟨by decide, gap.plain, members.text_plain true, by decide⟩

theorem Items.text_plain (items : Items) (first : Bool) : 0 ∉ items.text first := by
  cases items with
  | nil => exact List.not_mem_nil
  | cons before v behind rest =>
    simp only [Items.text, List.mem_append, not_or]
    exact ⟨comma_plain first, before.plain, v.text_plain, behind.plain, rest.text_plain false⟩

theorem Members.text_plain (members : Members) (first : Bool) : 0 ∉ members.text first := by
  cases members with
  | nil => exact List.not_mem_nil
  | cons before key colon value v behind rest =>
    simp only [Members.text, List.mem_cons, List.mem_append, not_or]
    exact ⟨comma_plain first, before.plain, key.plain, colon.plain, by decide, value.plain,
      v.text_plain, behind.plain, rest.text_plain false⟩

end

namespace Source

variable (d : Source)

theorem plain : 0 ∉ d.text := by
  simp only [text, List.mem_append, not_or]
  exact ⟨d.before.plain, d.value.text_plain, d.behind.plain⟩

theorem wellFormed : WellFormed d.text d.tokens := (d.parses le_rfl).wellFormed

/-- The document that the viewer is meant to show. -/
def document (few : d.tokens.length ≤ 128) : Viewer.Document where
  body := d.text
  roots := .cons (d.value.node d.before.text.length) .nil
  plain := d.plain
  few := by
    simp only [Viewer.Nodes.tokens, Json.node_tokens, List.append_nil, List.length_map]
    exact few
  inside t mem := by
    simp only [Viewer.Nodes.tokens, Json.node_tokens, List.append_nil] at mem
    obtain ⟨token, here, rfl⟩ := List.mem_map.mp mem
    obtain ⟨nonneg, ordered, within⟩ := d.wellFormed.inside token here
    simp only [Token.tok]
    omega

theorem document_keys (few : d.tokens.length ≤ 128) :
    ∀ p ∈ (d.document few).members, p.1.type = .string := by
  intro p mem
  simp only [Viewer.Document.members, document, Viewer.Nodes.members, List.append_nil] at mem
  exact d.value.keys _ p mem

/-- A document with at most 128 tokens is drawn as the lines of neighbouring strings.
Where these are few enough, the string members are among them, in their order. A
document with more tokens is reported as no JSON. -/
theorem shown (t : List Token) (stack : t.length = 128) :
    (∀ few : d.tokens.length ≤ 128, ∃ lines, viewerLines d.text t = some lines ∧
      lines = ((Viewer.pairs (d.document few).tokens).take Viewer.Document.maxLines).map
        (d.document few).cutLine ∧
      ((Viewer.pairs (d.document few).tokens).length ≤ Viewer.Document.maxLines →
        ((d.document few).members.map (d.document few).cutLine).Sublist lines)) ∧
    (128 < d.tokens.length → viewerLines d.text t = some [ascii "Failed to parse JSON"]) := by
  have body : cString d.text = d.text := by
    have whole := cString_append d.plain []
    rw [List.append_nil] at whole
    exact whole.trans (List.append_nil _)
  constructor
  · intro few
    obtain ⟨s, count, run, toks, call⟩ := d.accepted (stack ▸ few)
    rw [← body] at run call
    rw [← toks] at call
    have drawn := viewerLines_accepted run rfl call
    rw [toks] at drawn
    have tokens : (d.document few).tokens = d.tokens.map Token.tok := by
      simp only [Viewer.Document.tokens, document, Viewer.Nodes.tokens, Json.node_tokens,
        List.append_nil]
      rfl
    have lines : viewerLines d.text t =
        some (jsonLines (d.document few).body Viewer.Document.maxLines
        (d.document few).tokens) := by
      rw [drawn, body, tokens]
      rfl
    rw [Viewer.Document.jsonLines_eq] at lines
    refine ⟨_, lines, rfl, fun fits => ?_⟩
    rw [List.take_of_length_le fits]
    exact ((d.document few).members_sublist (d.document_keys few)).map _
  · intro many
    obtain ⟨w, call⟩ := d.lacked (stack ▸ many)
    have negative : Error.nomem.code < 0 := Error.code_neg _
    simp only [viewerLines, body, call, Option.bind_eq_bind, Option.bind_some, if_pos negative]

end Source

theorem blank_nil : ∀ c ∈ ([] : List UInt8), c ∈ [9, 13, 10, 32] := List.forall_mem_nil _

theorem stringBody_title : StringBody (ascii "title") := .of_plain (by decide +kernel)

theorem stringBody_a : StringBody [97] := .of_plain (by decide +kernel)

theorem stringBody_b : StringBody [98] := .of_plain (by decide +kernel)

/-- `{"title":"a","b":["a"]}` -/
def titled : Source :=
  let gap : Blanks := ⟨[], blank_nil⟩
  let key : Quoted := ⟨ascii "title", stringBody_title⟩
  let a : Quoted := ⟨[97], stringBody_a⟩
  let b : Quoted := ⟨[98], stringBody_b⟩
  ⟨gap, .object gap (.cons gap key gap gap (.string a) gap
    (.cons gap b gap gap (.array gap (.cons gap (.string a) gap .nil)) gap .nil)), gap⟩

end MyOS.Jsmn
