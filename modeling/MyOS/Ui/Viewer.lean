import MyOS.Ui.Content

/-!
# The lines of the JSON viewer

`jsmn_parse` lists the tokens of a document in order: a token and then its children,
where the children of an object are its keys and the child of a key is its value.
`json_viewer_ui` sees only that list and takes any two neighbouring strings for a
key and its value.
-/

namespace MyOS.Viewer

/-! ## Documents -/

mutual

/-- A token with its children. -/
inductive Node
  | mk (tok : JsmnTok) (children : Nodes)

inductive Nodes
  | nil
  | cons (node : Node) (nodes : Nodes)

end

def Node.tok : Node → JsmnTok
  | .mk tok _ => tok

mutual

def Node.tokens : Node → List JsmnTok
  | .mk tok children => tok :: children.tokens

def Nodes.tokens : Nodes → List JsmnTok
  | .nil => []
  | .cons node nodes => node.tokens ++ nodes.tokens

end

/-- The member a key makes with its value, if that is a string. -/
def stringMember (key : JsmnTok) : Nodes → List (JsmnTok × JsmnTok)
  | .nil => []
  | .cons val _ => if val.tok.type = .string then [(key, val.tok)] else []

mutual

/-- The members with a string for a value, in the order of the document; `inObject`
tells a key from other tokens. -/
def Node.members (inObject : Bool) : Node → List (JsmnTok × JsmnTok)
  | .mk tok children => (if inObject then stringMember tok children else []) ++
      children.members (tok.type = .object)

def Nodes.members (inObject : Bool) : Nodes → List (JsmnTok × JsmnTok)
  | .nil => []
  | .cons node nodes => node.members inObject ++ nodes.members inObject

end

/-- A body as `jsmn_parse` accepts it. -/
structure Document where
  body : List UInt8
  roots : Nodes
  plain : 0 ∉ body
  few : roots.tokens.length ≤ 128
  inside : ∀ t ∈ roots.tokens, t.start ≤ t.stop ∧ t.stop ≤ body.length

namespace Document

variable (d : Document)

def tokens : List JsmnTok := d.roots.tokens

def members : List (JsmnTok × JsmnTok) := d.roots.members false

/-- The text of a token. -/
def slice (t : JsmnTok) : List UInt8 := (d.body.drop t.start).take (t.stop - t.start)

/-- `key: value`, with 63 characters of each. -/
def line (p : JsmnTok × JsmnTok) : List UInt8 :=
  (d.slice p.1).take 63 ++ ascii ": " ++ (d.slice p.2).take 63

/-- `max_lines` -/
def maxLines : Nat := (400 - (30 + 8 + 12) - 16) / 10

/-- What is drawn are the string-valued members of the document. -/
def Covered : Prop := jsonLines d.body maxLines d.tokens = (d.members.take maxLines).map d.line

end Document

/-! ## Neighbouring strings -/

/-- The pairs that the loop takes for key and value. -/
def pairs : List JsmnTok → List (JsmnTok × JsmnTok)
  | key :: val :: ts =>
    (if val.type = .string ∧ key.type = .string then [(key, val)] else []) ++ pairs (val :: ts)
  | _ => []

theorem pairs_cons (t : JsmnTok) (ts : List JsmnTok) : (pairs ts).Sublist (pairs (t :: ts)) := by
  cases ts with
  | nil => exact List.Sublist.refl _
  | cons val ts => exact List.sublist_append_right ..

theorem pairs_append (a b : List JsmnTok) : (pairs a ++ pairs b).Sublist (pairs (a ++ b)) := by
  induction a with
  | nil => exact List.Sublist.refl _
  | cons t a ih =>
    cases a with
    | nil => exact pairs_cons t b
    | cons val a =>
      simp only [pairs, List.append_assoc]
      exact List.Sublist.append_left ih _

/-- The members with a string for a key. -/
def named (ms : List (JsmnTok × JsmnTok)) : List (JsmnTok × JsmnTok) :=
  ms.filter fun p => p.1.type = .string

theorem stringMember_sublist (key : JsmnTok) (children : Nodes) :
    (named (stringMember key children) ++ pairs children.tokens).Sublist
      (pairs (key :: children.tokens)) := by
  cases children with
  | nil => exact List.Sublist.refl _
  | cons val nodes =>
    obtain ⟨val, below⟩ := val
    by_cases both : val.type = .string ∧ key.type = .string
    · have own : named (stringMember key (.cons (.mk val below) nodes)) = [(key, val)] := by
        simp [stringMember, Node.tok, named, both]
      have pair : pairs (key :: (Nodes.cons (.mk val below) nodes).tokens) =
          (key, val) :: pairs (Nodes.cons (.mk val below) nodes).tokens := by
        simp [Nodes.tokens, Node.tokens, pairs, both]
      simp only [own, pair]
      exact List.Sublist.refl _
    · have own : named (stringMember key (.cons (.mk val below) nodes)) = [] := by
        by_cases string : val.type = .string
        · have other : key.type ≠ .string := fun same => both ⟨string, same⟩
          simp [stringMember, Node.tok, named, string, other]
        · simp [stringMember, Node.tok, named, string]
      rw [own]
      exact pairs_cons key _

mutual

/-- A member with a string for a key is a pair, and keeps its place among them. -/
theorem Node.named_sublist (inObject : Bool) (n : Node) :
    (named (n.members inObject)).Sublist (pairs n.tokens) := by
  cases n with
  | mk tok children =>
    have below := Nodes.named_sublist (tok.type = .object) children
    have own := stringMember_sublist tok children
    simp only [Node.members, Node.tokens, named, List.filter_append]
    cases inObject with
    | false => exact below.trans (pairs_cons tok _)
    | true => exact ((List.Sublist.refl _).append below).trans own

theorem Nodes.named_sublist (inObject : Bool) (ns : Nodes) :
    (named (ns.members inObject)).Sublist (pairs ns.tokens) := by
  cases ns with
  | nil => exact List.Sublist.refl _
  | cons node nodes =>
    have here := Node.named_sublist inObject node
    have later := Nodes.named_sublist inObject nodes
    simp only [Nodes.members, Nodes.tokens, named, List.filter_append]
    exact (here.append later).trans (pairs_append _ _)

end

/-! ## What is drawn -/

namespace Document

variable (d : Document)

/-- A line as far as `line_buf` holds it. -/
def cutLine (p : JsmnTok × JsmnTok) : List UInt8 := (d.line p).take 127

theorem tokenText_eq (t : JsmnTok) : tokenText d.body t = (d.slice t).take 63 := by
  have plain : 0 ∉ (d.body.drop t.start).take (min 63 (t.stop - t.start)) := fun zero =>
    d.plain (List.mem_of_mem_drop (List.mem_of_mem_take zero))
  have whole := cString_append plain []
  rw [List.append_nil] at whole
  simp only [tokenText, whole, slice, List.take_take]
  exact List.append_nil _

theorem cutLine_eq (p : JsmnTok × JsmnTok) :
    snprintf 128 (ascii "%s: %s") [tokenText d.body p.1, tokenText d.body p.2] = d.cutLine p := by
  simp only [snprintf_eq, tokenText_eq, tokenText_eq, cutLine, line]
  congr 1
  simp [formatted, ascii]

theorem jsonLines_eq (lines : Nat) (ts : List JsmnTok) :
    jsonLines d.body lines ts = ((pairs ts).take lines).map d.cutLine := by
  induction ts generalizing lines with
  | nil => cases lines <;> rfl
  | cons key ts ih =>
    cases lines with
    | zero => cases ts <;> rfl
    | succ lines =>
      cases ts with
      | nil => rfl
      | cons val ts =>
        simp only [jsonLines, pairs]
        by_cases both : val.type = .string ∧ key.type = .string
        · rw [if_pos both, if_pos both, ih, List.singleton_append, List.take_succ_cons,
            List.map_cons, ← cutLine_eq]
        · rw [if_neg both, if_neg both, ih, List.nil_append]

/-- The first lines stand for the members: every line fits, and the pairs taken are
the members; or they differ from them and still read the same, where there are
enough members, or one with another key than a string. -/
structure Aligned : Prop where
  short : ∀ p ∈ d.members.take maxLines, (d.slice p.1).length < 63 ∨ (d.slice p.2).length < 63
  same : (pairs d.tokens).take maxLines = d.members.take maxLines ∨
    (maxLines ≤ d.members.length ∨ ∃ p ∈ d.members, p.1.type ≠ .string) ∧
      ((pairs d.tokens).take maxLines).map d.cutLine = (d.members.take maxLines).map d.line

theorem length_line_iff (p : JsmnTok × JsmnTok) : (d.line p).length ≤ 127 ↔
    (d.slice p.1).length < 63 ∨ (d.slice p.2).length < 63 := by
  have middle : (ascii ": ").length = 2 := by decide
  simp only [line, List.length_append, List.length_take, middle]
  omega

theorem members_sublist (keys : ∀ p ∈ d.members, p.1.type = .string) :
    d.members.Sublist (pairs d.tokens) := by
  have all : named d.members = d.members :=
    List.filter_eq_self.mpr fun p mem => decide_eq_true (keys p mem)
  rw [← all]
  exact Nodes.named_sublist false d.roots

/-- The viewer shows the string-valued members if and only if the neighbouring
strings are aligned with them. -/
theorem covered_iff : d.Covered ↔ d.Aligned := by
  simp only [Covered, jsonLines_eq]
  constructor
  · intro drawn
    refine ⟨fun p mem => ?_, ?_⟩
    · have shown : d.line p ∈ ((pairs d.tokens).take maxLines).map d.cutLine := by
        rw [drawn]
        exact List.mem_map_of_mem mem
      obtain ⟨q, -, cut⟩ := List.mem_map.mp shown
      rw [← length_line_iff, ← cut]
      exact List.length_take_le 127 _
    · by_cases enough : maxLines ≤ d.members.length
      · exact .inr ⟨.inl enough, drawn⟩
      by_cases keys : ∀ p ∈ d.members, p.1.type = .string
      · -- As many pairs as members, which are among them.
        have sublist := d.members_sublist keys
        have count := congrArg List.length drawn
        simp only [List.length_map, List.length_take] at count
        have whole := sublist.eq_of_length (by omega)
        exact .inl (by rw [whole])
      · push Not at keys
        exact .inr ⟨.inr keys, drawn⟩
  · rintro ⟨short, same | ⟨-, same⟩⟩
    · rw [same]
      refine List.map_congr_left fun p mem => ?_
      exact List.take_of_length_le ((d.length_line_iff p).mpr (short p mem))
    · exact same

end Document

/-! ## A document with two members -/

def token (type : JsmnType) (start stop : Nat) : JsmnTok := ⟨type, start, stop⟩

def leaf (start stop : Nat) : Node := .mk (token .string start stop) .nil

/-- `"a":"b"` and `"c":"d"` in an object. -/
def twoMembers : Document where
  body := ascii "\x7b\"a\":\"b\",\"c\":\"d\"\x7d"
  roots := .cons (.mk (token .object 0 17) (.cons (.mk (token .string 2 3) (.cons (leaf 6 7) .nil))
    (.cons (.mk (token .string 10 11) (.cons (leaf 14 15) .nil)) .nil))) .nil
  plain := by decide +kernel
  few := by decide +kernel
  inside := by decide +kernel

/-- The value of the first and the key of the second are drawn as a line between
the two. -/
theorem twoMembers_misdrawn : ¬ twoMembers.Covered := by
  intro drawn
  have count := congrArg List.length drawn
  revert count
  decide +kernel

end MyOS.Viewer
