import MyOS.Json.Scan

/-!
# Calls of the tokenizer

A parser serves for several calls: a text that came in parts, an array that was too
small at first, and a call without an array that counts the tokens.
-/

namespace MyOS.Jsmn

open Nested

/-! ## Runs of the machine -/

/-- Turns without an error. -/
inductive Reaches (js : List UInt8) (cap : Nat) (s : Scan) : Scan → Prop
  | refl : Reaches js cap s s
  | tail {t u : Scan} (before : Reaches js cap s t) (turn : Turned js cap t u) : Reaches js cap s u

section
variable {js : List UInt8} {cap : Nat} {s t u : Scan} {r : Option Error}

theorem Turned.here (turned : Turned js cap s t) : ∃ c, charAt js s.pos = some c := by
  cases turned with
  | @enter type rest container here room =>
    have nonzero : opening type ≠ 0 := by cases type <;> decide
    exact ⟨_, charAt_drop here nonzero⟩
  | leave container here =>
    rename_i token a b rest toks opened closed
    have nonzero : closing token.type ≠ 0 := by cases token.type <;> decide
    exact ⟨_, charAt_drop here nonzero⟩
  | string here => exact ⟨_, charAt_drop here (by decide)⟩
  | @pad c rest here pad =>
    have nonzero : c ≠ 0 := by
      rintro rfl
      cases pad
    exact ⟨_, charAt_drop here nonzero⟩
  | colon here => exact ⟨_, charAt_drop here (by decide)⟩
  | @primitive c text rest here first all =>
    have nonzero : c ≠ 0 := fun zero => not_ends_of_inPrimitive (all c (.head _)) (.inl zero)
    exact ⟨_, charAt_drop here nonzero⟩

/-- A turn is the only one. -/
theorem Turned.unique (turned : Turned js cap s t) (other : Turned js cap s u) : t = u := by
  obtain ⟨c, here⟩ := turned.here
  have first := (step_ok_iff here).mpr turned
  have second := (step_ok_iff here).mpr other
  exact Except.ok.inj (first.symm.trans second)

theorem Parses.reaches (run : Parses js cap s r t) : Reaches js cap s t := by
  have front {a b : Scan} (turn : Turned js cap a b) {d : Scan} (rest : Reaches js cap b d) :
      Reaches js cap a d := by
    induction rest with
    | refl => exact .tail .refl turn
    | tail _ last ih => exact .tail ih last
  induction run with
  | complete => exact .refl
  | part => exact .refl
  | stop => exact .refl
  | next here turn _ ih => exact front (step_turned here turn) ih

/-- A run goes on where another one has come to. -/
theorem Reaches.parses (reached : Reaches js cap s t) (run : Parses js cap t r u) :
    Parses js cap s r u := by
  induction reached with
  | refl => exact run
  | tail _ turn ih =>
    obtain ⟨c, here⟩ := turn.here
    exact ih (.next here ((step_ok_iff here).mpr turn) run)

theorem Parses.unique {r' : Option Error} {t' : Scan} (run : Parses js cap s r t)
    (other : Parses js cap s r' t') : r = r' ∧ t = t' := by
  induction run with
  | complete ended closed =>
    cases other with
    | complete => exact ⟨rfl, rfl⟩
    | part _ opened => exact absurd closed opened
    | stop here => cases ended.symm.trans here
    | next here => cases ended.symm.trans here
  | part ended opened =>
    cases other with
    | complete _ closed => exact absurd closed opened
    | part => exact ⟨rfl, rfl⟩
    | stop here => cases ended.symm.trans here
    | next here => cases ended.symm.trans here
  | stop here fails =>
    cases other with
    | complete ended => cases ended.symm.trans here
    | part ended => cases ended.symm.trans here
    | stop here' fails' =>
      cases here.symm.trans here'
      cases fails.symm.trans fails'
      exact ⟨rfl, rfl⟩
    | next here' turn =>
      cases here.symm.trans here'
      cases fails.symm.trans turn
  | next here turn _ ih =>
    cases other with
    | complete ended => cases ended.symm.trans here
    | part ended => cases ended.symm.trans here
    | stop here' fails =>
      cases here.symm.trans here'
      cases fails.symm.trans turn
    | next here' turn' rest =>
      cases here.symm.trans here'
      cases turn.symm.trans turn'
      exact ih rest

/-- A run without an error leaves no token open. -/
theorem Parses.closed (run : Parses js cap s r t) (accepted : r = none) :
    lastIdx Token.isOpen t.toks = none := by
  induction run with
  | complete _ closed => exact closed
  | part => cases accepted
  | stop => cases accepted
  | next _ _ _ ih => exact ih accepted

theorem Reaches.valid (reached : Reaches js cap s t) (valid : s.Valid) : t.Valid := by
  induction reached with
  | refl => exact valid
  | tail _ turn ih => exact turn.valid ih

theorem Reaches.room (reached : Reaches js cap s t) (room : s.toks.length ≤ cap) :
    t.toks.length ≤ cap := by
  induction reached with
  | refl => exact room
  | tail _ turn ih =>
    rcases turn.length with same | ⟨more, below⟩
    · exact same ▸ ih
    · exact more ▸ below

end

theorem valid_init : Scan.init.Valid := fun _ super => nomatch super

/-! ## More text, more tokens -/

/-- No primitive goes on over the seam between `js` and `more`: none of the tokens of `js`
is one that ends with it, or `more` begins with a character that ends it. -/
def Joined (js more : List UInt8) (toks : List Token) : Prop :=
  Ends more ∨ ∀ t ∈ toks, t.type = .primitive → t.stop ≠ js.length

section
variable {js more : List UInt8} {cap cap' : Nat} {s t : Scan}

theorem drop_more {l : List UInt8} {pos : Nat} {c : UInt8} (here : js.drop pos = c :: l) :
    (js ++ more).drop pos = c :: (l ++ more) := by
  have inside : pos ≤ js.length := by
    by_contra beyond
    rw [List.drop_eq_nil_of_le (by omega)] at here
    cases here
  rw [List.drop_append_of_le_length inside, here, List.cons_append]

theorem grow_keeps (super : Option Nat) {toks : List Token} {u : Token} (mem : u ∈ toks) :
    ∃ v ∈ grow super toks, v.type = u.type ∧ v.stop = u.stop := by
  cases super with
  | none => exact ⟨u, mem, rfl, rfl⟩
  | some i =>
    have same : (toks.modify i Token.sizeUp).map (fun v => (v.type, v.stop)) =
        toks.map fun v => (v.type, v.stop) := map_modify fun _ => rfl
    have there : (u.type, u.stop) ∈ (toks.modify i Token.sizeUp).map fun v => (v.type, v.stop) := by
      rw [same]
      exact List.mem_map_of_mem mem
    obtain ⟨v, kept, both⟩ := List.mem_map.mp there
    exact ⟨v, kept, congrArg Prod.fst both, congrArg Prod.snd both⟩

/-- A primitive stays where it is. -/
theorem Turned.keeps (turned : Turned js cap s t) {u : Token} (mem : u ∈ s.toks)
    (primitive : u.type = .primitive) : ∃ v ∈ t.toks, v.type = .primitive ∧ v.stop = u.stop := by
  have grown (l : List Token) : ∃ v ∈ grow s.super s.toks ++ l,
      v.type = .primitive ∧ v.stop = u.stop := by
    obtain ⟨v, kept, type, stop⟩ := grow_keeps s.super mem
    exact ⟨v, List.mem_append_left l kept, type.trans primitive, stop⟩
  cases turned with
  | enter | string | primitive => exact grown _
  | pad | colon => exact ⟨u, mem, primitive, rfl⟩
  | leave container here toks opened closed =>
    rw [toks] at mem
    refine ⟨u, ?_, primitive, rfl⟩
    rcases List.mem_append.mp mem with front | back
    · exact List.mem_append_left _ front
    rcases List.mem_cons.mp back with rfl | back
    · rw [primitive] at container
      rcases container with type | type <;> cases type
    · exact List.mem_append_right _ (.tail _ back)

theorem Joined.before (joined : Joined js more t.toks) (turned : Turned js cap s t) :
    Joined js more s.toks := by
  refine joined.imp_right fun free u mem primitive stop => ?_
  obtain ⟨v, kept, type, same⟩ := turned.keeps mem primitive
  exact free v kept type (same.trans stop)

theorem Joined.ends {toks : List Token} (joined : Joined js more toks) {pos : Nat} {c : UInt8}
    {text rest : List UInt8} {size : Int} (here : js.drop pos = c :: text ++ rest)
    (ends : Ends rest) (mem : ⟨.primitive, pos, (pos + (c :: text).length : Nat), size⟩ ∈ toks) :
    Ends (rest ++ more) := by
  cases rest with
  | cons d rest => exact ends
  | nil =>
    refine joined.resolve_right fun free => free _ mem rfl ?_
    have length := congrArg List.length here
    simp only [List.length_drop, List.append_nil, List.length_cons] at length ⊢
    omega

/-- A turn stays one when the text and the array grow. -/
theorem Turned.extend (turned : Turned js cap s t) (joined : Joined js more t.toks)
    (larger : cap ≤ cap') : Turned (js ++ more) cap' s t := by
  cases turned with
  | enter container here room => exact .enter container (drop_more here) (room.trans_le larger)
  | leave container here toks opened closed =>
    exact .leave container (drop_more here) toks opened closed
  | string here ok room =>
    have whole := @drop_more js more _ _ _ here
    rw [List.append_assoc, List.cons_append] at whole
    exact .string whole ok (room.trans_le larger)
  | pad here pad => exact .pad (drop_more here) pad
  | colon here => exact .colon (drop_more here)
  | primitive here first all ends room =>
    have whole : (js ++ more).drop s.pos = _ := drop_more here
    rw [List.append_eq, List.append_assoc, ← List.cons_append] at whole
    have goesOn := joined.ends here ends (List.mem_append_right _ (.head _))
    exact .primitive whole first all goesOn (room.trans_le larger)

theorem Reaches.extend (reached : Reaches js cap s t) (joined : Joined js more t.toks)
    (larger : cap ≤ cap') : Reaches (js ++ more) cap' s t := by
  induction reached with
  | refl => exact .refl
  | tail _ turn ih => exact .tail (ih (joined.before turn)) (turn.extend joined larger)

end

/-! ## A call -/

/-- A call comes to an end: the entries behind the tokens are left as they were. -/
theorem jsmnParse_ends {s : Scan} (valid : s.Valid) (js : List UInt8) (free : List Token) :
    ∃ r t free', Parses js (s.toks.length + free.length) s r t ∧ free' <:+ free ∧
    t.toks.length + free'.length = s.toks.length + free.length ∧
    Ended (jsmnParse s.parser js (some (s.toks ++ free))) r t free' :=
  parseLoop_ends valid (by omega)

/-- What a call with `ts` does, whatever stands in the array. -/
theorem jsmnParse_init (js : List UInt8) (ts : List Token) : ∃ r t free count,
    Parses js ts.length Scan.init r t ∧ free <:+ ts ∧ t.toks.length + free.length = ts.length ∧
    jsmnParse jsmnInit js (some ts) =
      some (result r t, ⟨t.parser, some (t.toks ++ free), count⟩) := by
  obtain ⟨r, t, free, run, suffix, length, count, same⟩ := jsmnParse_ends valid_init js ts
  have none : Scan.init.toks.length + ts.length = ts.length := Nat.zero_add _
  rw [none] at run length
  exact ⟨r, t, free, count, run, suffix, length, same⟩

/-! ## Calls with more text or more tokens -/

/-- A text, what the last call of `jsmn_parse` on it returned, and the parser and the
tokens it left. Between two calls the text and the array may have grown. -/
inductive Fed : List UInt8 → Int → Parser → List Token → Prop
  | first {js : List UInt8} {r : Int} {w : Work} {ts left : List Token}
      (call : jsmnParse jsmnInit js (some ts) = some (r, w)) (tokens : w.tokens = some left) :
      Fed js r w.p left
  | again {js more : List UInt8} {r r' : Int} {p : Parser} {w : Work} {ts room left : List Token}
      (fed : Fed js r p ts) (joined : Joined js more (ts.take p.toknext))
      (call : jsmnParse p (js ++ more) (some (ts ++ room)) = some (r', w))
      (tokens : w.tokens = some left) :
      Fed (js ++ more) r' w.p left

theorem Fed.run {js : List UInt8} {r : Int} {p : Parser} {ts : List Token} (fed : Fed js r p ts) :
    ∃ e t free, Parses js ts.length Scan.init e t ∧ r = result e t ∧ p = t.parser ∧
      ts = t.toks ++ free := by
  induction fed with
  | @first js r w ts left call tokens =>
    obtain ⟨e, t, free, count, run, -, length, same⟩ := jsmnParse_init js ts
    cases call.symm.trans same
    cases tokens
    refine ⟨e, t, free, ?_, rfl, rfl, rfl⟩
    rw [List.length_append, length]
    exact run
  | @again js more r r' p w ts room left fed joined call tokens ih =>
    obtain ⟨e, t, free, before, -, rfl, rfl⟩ := ih
    have used : (t.toks ++ free).take t.parser.toknext = t.toks := List.take_left
    rw [used] at joined
    have reached := before.reaches
    have valid : t.Valid := reached.valid valid_init
    obtain ⟨e', u, free', after, -, length, count, same⟩ :=
      jsmnParse_ends valid (js ++ more) (free ++ room)
    rw [List.append_assoc] at call
    cases call.symm.trans same
    cases tokens
    refine ⟨e', u, free', ?_, rfl, rfl, rfl⟩
    rw [List.length_append, length]
    refine Reaches.parses (reached.extend joined ?_) after
    rw [List.length_append, List.length_append]
    omega

/-- However the text came in and the array grew, the last call ends as one call for
the whole text would have ended, if no primitive goes on over a seam. -/
theorem fed_at_once {js : List UInt8} {r : Int} {p : Parser} {ts : List Token} (fed : Fed js r p ts)
    (fresh : List Token) (room : fresh.length = ts.length) : ∃ w used behind behind',
    jsmnParse jsmnInit js (some fresh) = some (r, w) ∧ w.p = p ∧ used.length = p.toknext ∧
    w.tokens = some (used ++ behind) ∧ ts = used ++ behind' := by
  obtain ⟨e, t, free, run, rfl, rfl, whole⟩ := fed.run
  obtain ⟨e', t', free', count, run', -, -, same⟩ := jsmnParse_init js fresh
  rw [room] at run'
  obtain ⟨rfl, rfl⟩ := run.unique run'
  exact ⟨_, t.toks, free', free, same, rfl, rfl, rfl, whole⟩

/-- `["a` with room for one token, and then the whole of `["ab",1]` with room for three. -/
theorem fed_at_once_string : ∃ w used behind behind',
    jsmnParse jsmnInit (ascii "[\"ab\",1]") (some (List.replicate 3 ⟨.string, 5, 6, 7⟩)) =
        some (3, w) ∧
      w.p = ⟨8, 3, -1⟩ ∧ used.length = 3 ∧ w.tokens = some (used ++ behind) ∧
      [⟨.array, 0, 8, 2⟩, ⟨.string, 2, 4, 0⟩, ⟨.primitive, 6, 7, 0⟩] = used ++ behind' := by
  have part : jsmnParse jsmnInit (ascii "[\"a") (some [⟨.undefined, 0, 0, 0⟩]) =
      some (-3, ⟨⟨1, 1, 0⟩, some [⟨.array, 0, -1, 0⟩], 1⟩) := rfl
  have whole : jsmnParse ⟨1, 1, 0⟩ (ascii "[\"a" ++ ascii "b\",1]")
      (some ([⟨.array, 0, -1, 0⟩] ++ List.replicate 2 ⟨.undefined, 0, 0, 0⟩)) =
      some (3, ⟨⟨8, 3, -1⟩,
        some [⟨.array, 0, 8, 2⟩, ⟨.string, 2, 4, 0⟩, ⟨.primitive, 6, 7, 0⟩], 3⟩) := rfl
  have joined : Joined (ascii "[\"a") (ascii "b\",1]") [⟨.array, 0, -1, 0⟩] := by
    refine .inr fun t mem primitive => ?_
    rw [List.mem_singleton.mp mem] at primitive
    cases primitive
  exact fed_at_once (.again (.first part rfl) joined whole rfl)
    (List.replicate 3 ⟨.string, 5, 6, 7⟩) rfl

end MyOS.Jsmn
