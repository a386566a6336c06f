import MyOS.Json.Calls

/-!
# What the tokens say about the text

Every token stands where the text has one, and any two of them lie apart or one inside
the other.
-/

namespace MyOS.Jsmn

open Nested

def isContainer (type : JsmnType) : Prop := type = .object ∨ type = .array

/-- A token and the text it stands for; a container may still be open. -/
inductive Reads (js : List UInt8) : Token → Prop
  | opened {type : JsmnType} {start : Nat} {size : Int} {rest : List UInt8}
      (container : isContainer type) (here : js.drop start = opening type :: rest) :
      Reads js ⟨type, start, -1, size⟩
  | closed {type : JsmnType} {start : Nat} {size : Int} {body rest : List UInt8}
      (container : isContainer type)
      (here : js.drop start = opening type :: (body ++ closing type :: rest)) :
      Reads js ⟨type, start, (start + body.length + 2 : Nat), size⟩
  | string {start : Nat} {size : Int} {body rest : List UInt8}
      (here : js.drop start = 34 :: (body ++ 34 :: rest)) (ok : StringBody body) :
      Reads js ⟨.string, (start + 1 : Nat), (start + 1 + body.length : Nat), size⟩
  | primitive {start : Nat} {size : Int} {c : UInt8} {text rest : List UInt8}
      (here : js.drop start = c :: text ++ rest) (first : isSpecial c = false)
      (all : ∀ d ∈ c :: text, inPrimitive d) (ends : Ends rest) :
      Reads js ⟨.primitive, start, (start + (c :: text).length : Nat), size⟩

/-- A string has a quote on both sides. -/
def quotes : JsmnType → Nat
  | .string => 1
  | _ => 0

/-- What a token takes of the text, quotes included. -/
def Token.extent (t : Token) : Extent :=
  ⟨t.start.toNat - quotes t.type, if t.stop = -1 then none else some (t.stop.toNat + quotes t.type)⟩

/-- The tokens of a text that has been read up to `pos`. -/
structure Sound (js : List UInt8) (pos : Nat) (toks : List Token) : Prop where
  reads : ∀ t ∈ toks, Reads js t
  laminar : Laminar pos (toks.map Token.extent)
  /-- Only a container has tokens inside. -/
  solid : toks.Pairwise fun a b =>
    isContainer a.type ∨ ∀ e, a.extent.stop = some e → e ≤ b.extent.start
  sizes : ∀ t ∈ toks, 0 ≤ t.size
  /-- Every token but the first is counted at most once. -/
  total : (toks.map Token.size).sum ≤ ((toks.length - 1 : Nat) : Int)

section
variable {js : List UInt8} {pos pos' : Nat} {toks : List Token} {t : Token} {i : Nat}

theorem isOpen_begun (type : JsmnType) (start : Nat) (size : Int) :
    Token.isOpen ⟨type, start, -1, size⟩ = true := by
  have begun : ((start : Int) != -1) = true := bne_iff_ne.mpr (by omega)
  simp only [Token.isOpen, begun]
  rfl

theorem isOpen_stop (type : JsmnType) (start : Int) (stop : Nat) (size : Int) :
    Token.isOpen ⟨type, start, stop, size⟩ = false := by
  have ended : ((stop : Int) == -1) = false := beq_eq_false_iff_ne.mpr (by omega)
  simp only [Token.isOpen, ended, Bool.and_false]

theorem span_stop (type : JsmnType) (start : Int) (stop : Nat) (size : Int) :
    Token.extent ⟨type, start, stop, size⟩ =
      ⟨start.toNat - quotes type, some (stop + quotes type)⟩ := by
  have ended : (stop : Int) ≠ -1 := by omega
  simp only [Token.extent, if_neg ended, Int.toNat_natCast]

/-- An open token is a container. -/
theorem Reads.open_cases (reads : Reads js t) (opened : t.isOpen) : isContainer t.type ∧
    ∃ start rest, t = ⟨t.type, (start : Nat), -1, t.size⟩ ∧
      js.drop start = opening t.type :: rest := by
  cases reads with
  | opened container here => exact ⟨container, _, _, rfl, here⟩
  | closed =>
    rw [isOpen_stop] at opened
    cases opened
  | string =>
    rw [isOpen_stop] at opened
    cases opened
  | primitive =>
    rw [isOpen_stop] at opened
    cases opened

theorem Reads.isOpen_span (reads : Reads js t) : t.extent.isOpen = t.isOpen := by
  cases reads with
  | opened => rw [isOpen_begun]; rfl
  | closed => rw [isOpen_stop, span_stop]; rfl
  | string => rw [isOpen_stop, span_stop]; rfl
  | primitive => rw [isOpen_stop, span_stop]; rfl

theorem Reads.sizeUp (reads : Reads js t) : Reads js t.sizeUp := by
  cases reads with
  | opened container here => exact .opened container here
  | closed container here => exact .closed container here
  | string here ok => exact .string here ok
  | primitive here first all ends => exact .primitive here first all ends

/-- A container is read when its closing bracket is. -/
theorem reads_closed {type : JsmnType} {start : Nat} {size : Int} {inner rest : List UInt8}
    (container : isContainer type) (bracket : js.drop start = opening type :: inner)
    (here : js.drop pos = closing type :: rest) (before : start < pos) :
    Reads js ⟨type, start, pos + 1, size⟩ := by
  have tail : inner = js.drop (start + 1) := by
    rw [← List.drop_drop, bracket]
    rfl
  have later : inner.drop (pos - start - 1) = closing type :: rest := by
    rw [tail, List.drop_drop, ← here]
    congr 1
    omega
  have body : js.drop start =
      opening type :: (inner.take (pos - start - 1) ++ closing type :: rest) := by
    rw [bracket, ← later, List.take_append_drop]
  have length : (inner.take (pos - start - 1)).length = pos - start - 1 := by
    have more := congrArg List.length later
    rw [List.length_drop, List.length_cons] at more
    rw [List.length_take]
    omega
  have reads : Reads js ⟨type, start, _, size⟩ := .closed container body
  have stop : ((start + (pos - start - 1) + 2 : Nat) : Int) = pos + 1 := by omega
  rw [length, stop] at reads
  exact reads

theorem forall_replace {P : Token → Prop} {t' : Token} {a b : List Token}
    (all : ∀ u ∈ a ++ t :: b, P u) (new : P t') :
    ∀ u ∈ a ++ t' :: b, P u := by
  rw [List.forall_mem_append, List.forall_mem_cons] at all ⊢
  exact ⟨all.1, new, all.2.2⟩

theorem sum_modify {i : Nat} (inside : i < toks.length) :
    ((toks.modify i Token.sizeUp).map Token.size).sum = (toks.map Token.size).sum + 1 := by
  obtain ⟨a, t, b, rfl, rfl⟩ := exists_append_cons inside
  rw [modify_append_cons]
  simp only [List.map_append, List.map_cons, List.sum_append, List.sum_cons, Token.sizeUp]
  omega

theorem closed_span (reads : ∀ t ∈ toks, Reads js t) :
    lastIdx Extent.isOpen (toks.map Token.extent) = lastIdx Token.isOpen toks := by
  rw [lastIdx_map]
  refine lastIdx_congr (List.map_congr_left fun t mem => ?_)
  exact (reads t mem).isOpen_span

namespace Sound

theorem nil : Sound js 0 [] where
  reads _ mem := nomatch mem
  laminar := .nil 0
  solid := .nil
  sizes _ mem := nomatch mem
  total := le_rfl

theorem mono (sound : Sound js pos toks) (later : pos ≤ pos') : Sound js pos' toks :=
  { sound with laminar := sound.laminar.mono later }

/-- A token is counted to its superior one. -/
theorem reads_counted (sound : Sound js pos toks) :
    ∀ t ∈ toks.modify i Token.sizeUp, Reads js t := by
  intro t mem
  rcases mem_modify mem with old | ⟨u, old, rfl⟩
  · exact sound.reads t old
  · exact (sound.reads u old).sizeUp

theorem sizes_counted (sound : Sound js pos toks) :
    ∀ t ∈ toks.modify i Token.sizeUp, 0 ≤ t.size := by
  intro t mem
  rcases mem_modify mem with old | ⟨u, old, rfl⟩
  · exact sound.sizes t old
  · have nonneg := sound.sizes u old
    simp only [Token.sizeUp]
    omega

theorem reads_grow (sound : Sound js pos toks) (super : Option Nat) :
    ∀ t ∈ grow super toks, Reads js t := by
  cases super with
  | none => exact sound.reads
  | some i => exact sound.reads_counted

theorem sizes_grow (sound : Sound js pos toks) (super : Option Nat) :
    ∀ t ∈ grow super toks, 0 ≤ t.size := by
  cases super with
  | none => exact sound.sizes
  | some i => exact sound.sizes_counted

theorem span_grow (super : Option Nat) (toks : List Token) :
    (grow super toks).map Token.extent = toks.map Token.extent := by
  cases super with
  | none => rfl
  | some i => exact map_modify fun _ => rfl

theorem total_grow (sound : Sound js pos toks) {super : Option Nat}
    (valid : ∀ i, super = some i → i < toks.length) :
    ((grow super toks).map Token.size).sum ≤ toks.length := by
  have total := sound.total
  cases super with
  | none => exact total.trans (by omega)
  | some i =>
    have inside := valid i rfl
    rw [grow, sum_modify inside]
    omega

theorem push (sound : Sound js pos toks) {super : Option Nat}
    (valid : ∀ i, super = some i → i < toks.length) (reads : Reads js t) (fresh : t.size = 0)
    (behind : pos ≤ t.extent.start) (start : t.extent.start < pos')
    (stop : ∀ e, t.extent.stop = some e → t.extent.start ≤ e ∧ e ≤ pos') :
    Sound js pos' (grow super toks ++ [t]) where
  reads u mem := by
    rcases List.mem_append.mp mem with mem | last
    · exact sound.reads_grow super u mem
    · rwa [List.mem_singleton.mp last]
  laminar := by
    rw [List.map_append, span_grow]
    exact sound.laminar.push behind start stop
  solid := by
    refine List.pairwise_append.mpr ⟨?_, List.pairwise_singleton .., ?_⟩
    · cases super with
      | none => exact sound.solid
      | some i =>
        exact pairwise_modify (fun _ _ apart => apart) (fun _ _ apart => apart) sound.solid
    · intro u mem v last
      rw [List.mem_singleton.mp last]
      have spans : u.extent ∈ toks.map Token.extent := by
        rw [← span_grow super toks]
        exact List.mem_map_of_mem mem
      exact .inr fun e ended => ((sound.laminar.inside _ spans).2 e ended).2.trans behind
  sizes u mem := by
    rcases List.mem_append.mp mem with mem | last
    · exact sound.sizes_grow super u mem
    · rw [List.mem_singleton.mp last, fresh]
  total := by
    have before := sound.total_grow valid
    simp only [List.map_append, List.map_cons, List.map_nil, List.sum_append, List.sum_cons,
      List.sum_nil, List.length_append, length_grow, List.length_singleton, Nat.add_sub_cancel,
      fresh]
    omega

/-- The container opened last is closed. -/
theorem close {a b : List Token} {rest : List UInt8} (sound : Sound js pos (a ++ t :: b))
    (opened : t.isOpen) (closed : lastIdx Token.isOpen b = none)
    (here : js.drop pos = closing t.type :: rest) :
    Sound js (pos + 1) (a ++ { t with stop := pos + 1 } :: b) := by
  have mem : t ∈ a ++ t :: b := by simp
  obtain ⟨container, start, inner, whole, bracket⟩ := (sound.reads t mem).open_cases opened
  have unquoted : quotes t.type = 0 := by rcases container with type | type <;> rw [type] <;> rfl
  have began : t.start = start := congrArg Token.start whole
  have ended : t.stop = -1 := congrArg Token.stop whole
  have span : t.extent = ⟨start, none⟩ := by
    simp only [Token.extent, began, ended, unquoted, if_true, Int.toNat_natCast, Nat.sub_zero]
  have span' : Token.extent { t with stop := (pos : Int) + 1 } = ⟨start, some (pos + 1)⟩ := by
    have later : (pos : Int) + 1 ≠ -1 := by omega
    simp only [Token.extent, began, unquoted, if_neg later, Int.toNat_natCast, Nat.sub_zero,
      Nat.add_zero]
    rfl
  have before : start < pos := by
    have inside := (sound.laminar.inside t.extent (List.mem_map_of_mem mem)).1
    rwa [span] at inside
  refine ⟨?_, ?_, ?_, ?_, ?_⟩
  · refine forall_replace sound.reads ?_
    rw [began]
    exact reads_closed container bracket here before
  · have laminar := sound.laminar
    simp only [List.map_append, List.map_cons, span] at laminar
    simp only [List.map_append, List.map_cons, span']
    refine laminar.close ?_ (Nat.lt_succ_self pos) le_rfl
    rw [closed_span fun u later => sound.reads u (by simp [later])]
    exact closed
  · obtain ⟨left, right, cross⟩ := List.pairwise_append.mp sound.solid
    obtain ⟨-, back⟩ := List.pairwise_cons.mp right
    refine List.pairwise_append.mpr
      ⟨left, List.pairwise_cons.mpr ⟨fun _ _ => .inl container, back⟩, ?_⟩
    intro u mem v later
    rcases List.mem_cons.mp later with rfl | later
    · have apart := cross u mem t (.head _)
      rw [span] at apart
      rwa [span']
    · exact cross u mem v (.tail _ later)
  · exact forall_replace sound.sizes (sound.sizes t mem)
  · have total := sound.total
    simp only [List.map_append, List.map_cons, List.length_append, List.length_cons] at total ⊢
    exact total

end Sound

variable {cap : Nat} {s s' : Scan}

theorem Turned.sound (turned : Turned js cap s s') (valid : s.Valid)
    (sound : Sound js s.pos s.toks) :
    Sound js s'.pos s'.toks := by
  have ahead := turned.pos
  cases turned with
  | @enter type rest container here =>
    have unquoted : quotes type = 0 := by rcases container with rfl | rfl <;> rfl
    have span : Token.extent ⟨type, s.pos, -1, 0⟩ = ⟨s.pos, none⟩ := by
      simp only [Token.extent, unquoted, if_true, Int.toNat_natCast, Nat.sub_zero]
    refine sound.push valid (.opened container here) rfl ?_ ?_ ?_
    · rw [span]
    · rw [span]
      exact ahead.1
    · rw [span]
      exact nofun
  | leave container here toks opened closed =>
    rw [toks] at sound
    exact sound.close opened closed here
  | @string body rest here ok =>
    have start : ((s.pos + 1 : Nat) : Int).toNat - quotes .string = s.pos := by
      rw [Int.toNat_natCast]
      rfl
    have stop : s.pos + 1 + body.length + quotes .string = s.pos + body.length + 2 := by
      simp only [quotes]
      omega
    refine sound.push valid (.string here ok) rfl ?_ ?_ ?_
    · rw [span_stop, start]
    · rw [span_stop, start]
      exact ahead.1
    · rw [span_stop, start, stop]
      rintro e same
      cases same
      have longer : s.pos ≤ s.pos + body.length + 2 := by omega
      exact ⟨longer, le_rfl⟩
  | pad => exact sound.mono (Nat.le_succ _)
  | colon => exact sound.mono (Nat.le_succ _)
  | primitive here first all ends =>
    refine sound.push valid (.primitive here first all ends) rfl ?_ ?_ ?_
    · rw [span_stop]
      exact le_rfl
    · rw [span_stop]
      exact ahead.1
    · rw [span_stop]
      rintro e same
      cases same
      exact ⟨Nat.le_add_right _ _, le_rfl⟩

theorem Reaches.sound (reached : Reaches js cap Scan.init s) : Sound js s.pos s.toks := by
  induction reached with
  | refl => exact .nil
  | tail before turn ih => exact turn.sound (before.valid valid_init) ih

theorem Reaches.read (reached : Reaches js cap Scan.init s) : s.pos ≤ js.length := by
  cases reached with
  | refl => exact Nat.zero_le _
  | tail _ turn => exact turn.pos.2

end

/-! ## What is accepted -/

/-- The tokens of a text that `jsmn_parse` accepts. -/
structure WellFormed (js : List UInt8) (toks : List Token) : Prop where
  reads : ∀ t ∈ toks, Reads js t ∧ t.isOpen = false
  inside : ∀ t ∈ toks, 0 ≤ t.start ∧ t.start ≤ t.stop ∧ t.stop ≤ js.length
  /-- In the order of their starts, apart from each other or one inside the other. -/
  nested : toks.Pairwise fun a b => a.start < b.start ∧
    (a.stop ≤ b.start ∨ isContainer a.type ∧ b.stop < a.stop)
  sizes : ∀ t ∈ toks, 0 ≤ t.size
  total : (toks.map Token.size).sum ≤ ((toks.length - 1 : Nat) : Int)

section
variable {js : List UInt8} {pos : Nat} {toks : List Token} {t : Token}

/-- The span of a token that is not open. -/
theorem Reads.ended (reads : Reads js t) (closed : t.isOpen = false) : ∃ start stop : Nat,
    t.start = start ∧ t.stop = stop ∧ quotes t.type ≤ start ∧ start ≤ stop ∧
    t.extent = ⟨start - quotes t.type, some (stop + quotes t.type)⟩ := by
  cases reads with
  | opened =>
    rw [isOpen_begun] at closed
    cases closed
  | @closed type start size body rest container =>
    have unquoted : quotes type = 0 := by rcases container with rfl | rfl <;> rfl
    refine ⟨_, _, rfl, rfl, ?_, by omega, span_stop ..⟩
    rw [unquoted]
    exact Nat.zero_le _
  | string => exact ⟨_, _, rfl, rfl, Nat.le_add_left _ _, Nat.le_add_right _ _, span_stop ..⟩
  | primitive => exact ⟨_, _, rfl, rfl, Nat.zero_le _, Nat.le_add_right _ _, span_stop ..⟩

theorem Sound.wellFormed (sound : Sound js pos toks) (read : pos ≤ js.length)
    (closed : lastIdx Token.isOpen toks = none) : WellFormed js toks where
  reads t mem := ⟨sound.reads t mem, lastIdx_none_iff.mp closed t mem⟩
  inside t mem := by
    obtain ⟨start, stop, began, ended, quoted, ordered, span⟩ :=
      (sound.reads t mem).ended (lastIdx_none_iff.mp closed t mem)
    have last := ((sound.laminar.inside t.extent (List.mem_map_of_mem mem)).2 _ (by rw [span])).2
    omega
  nested := by
    have spans := List.pairwise_map.mp sound.laminar.follows
    refine (spans.and sound.solid).imp_of_mem ?_
    rintro a b mema memb ⟨⟨before, apart⟩, solid⟩
    obtain ⟨start, stop, began, ended, quoted, ordered, span⟩ :=
      (sound.reads a mema).ended (lastIdx_none_iff.mp closed a mema)
    obtain ⟨start', stop', began', ended', quoted', ordered', span'⟩ :=
      (sound.reads b memb).ended (lastIdx_none_iff.mp closed b memb)
    rw [span, span'] at before apart
    rw [span, span'] at solid
    have past (solid : stop + quotes a.type ≤ start' - quotes b.type) : a.start < b.start ∧
        (a.stop ≤ b.start ∨ isContainer a.type ∧ b.stop < a.stop) := by
      simp only at before
      omega
    rcases solid with container | behind
    · have unquoted : quotes a.type = 0 := by
        rcases container with type | type <;> rw [type] <;> rfl
      rcases apart _ rfl with behind | ⟨e, same, within⟩
      · exact past behind
      · cases same
        simp only [unquoted] at before within
        exact ⟨by omega, .inr ⟨container, by omega⟩⟩
    · exact past (behind _ rfl)
  sizes := sound.sizes
  total := sound.total

theorem Parses.wellFormed {cap : Nat} {s : Scan} (run : Parses js cap Scan.init none s) :
    WellFormed js s.toks :=
  run.reaches.sound.wellFormed run.reaches.read (run.closed rfl)

/-- Whatever `jsmn_parse` accepts, its tokens are well formed. -/
theorem accepted_wellFormed {js : List UInt8} {ts : List Token} {r : Int} {w : Work}
    (call : jsmnParse jsmnInit js (some ts) = some (r, w)) (accepted : 0 ≤ r) :
    ∃ toks free, w.tokens = some (toks ++ free) ∧ r = toks.length ∧ WellFormed js toks := by
  obtain ⟨e, s, free, count, run, -, -, same⟩ := jsmnParse_init js ts
  cases call.symm.trans same
  cases e with
  | some e => exact absurd accepted (Int.not_le.mpr e.code_neg)
  | none => exact ⟨s.toks, free, rfl, rfl, run.wellFormed⟩

/-- `{"a":[1,"b"]}` -/
theorem accepted_wellFormed_nested :
    WellFormed (ascii "\x7b\"a\":[1,\"b\"]\x7d") [⟨.object, 0, 13, 1⟩, ⟨.string, 2, 3, 1⟩,
      ⟨.array, 5, 12, 2⟩, ⟨.primitive, 6, 7, 0⟩, ⟨.string, 9, 10, 0⟩] := by
  have counted : (jsmnParse jsmnInit (ascii "\x7b\"a\":[1,\"b\"]\x7d")
      (some (List.replicate 5 ⟨.undefined, 0, 0, 0⟩))).map (fun done => (done.1, done.2.tokens)) =
      some (5, some [⟨.object, 0, 13, 1⟩, ⟨.string, 2, 3, 1⟩, ⟨.array, 5, 12, 2⟩,
        ⟨.primitive, 6, 7, 0⟩, ⟨.string, 9, 10, 0⟩]) := by decide +kernel
  obtain ⟨⟨r, w⟩, call, both⟩ := Option.map_eq_some_iff.mp counted
  obtain ⟨five, left⟩ := Prod.mk.inj both
  obtain ⟨toks, free, tokens, length, wellFormed⟩ := accepted_wellFormed call (by omega)
  have whole := Option.some.inj (left.symm.trans tokens)
  have sizes := congrArg List.length whole
  have none : free = [] := by
    apply List.eq_nil_of_length_eq_zero
    simp only [List.length_append, List.length_cons, List.length_nil] at sizes
    omega
  rw [none, List.append_nil] at whole
  rw [whole]
  exact wellFormed

end

end MyOS.Jsmn
