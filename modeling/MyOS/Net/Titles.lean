import MyOS.Base.Layout
import MyOS.Json.Shown
import MyOS.Net.Receive

/-!
net_demo.c: what `udp_on_datagram` draws of a datagram. It takes the payload for a JSON
text and looks for titles in it with the functions on strings.
-/

namespace MyOS.Titles

open Jsmn

def needle : List UInt8 := ascii "\"title\""

/-- `while (*p == '"' || *p == ' ' || *p == ':') p++;` -/
def isSkipped (c : UInt8) : Bool := c = 34 ∨ c = 32 ∨ c = 58

/-- The loop over the titles with `y` for the next one, for as many turns as there is fuel. -/
def titleLoop : Nat → Int → List UInt8 → List Draw
  | 0, _, _ => []
  | turns + 1, y, p =>
    match strstr p needle with
    | none => []
    | some p =>
      match strchr p 58 with
      | none => []
      | some p =>
        let p := p.tail.dropWhile isSkipped
        let title := (p.takeWhile (· ≠ 34)).take 63
        .string 50 y title 0x000000 ::
          if 350 < y + 20 then [] else titleLoop turns (y + 20) (p.drop title.length)

/-- `none` for a length below zero, which `memcpy` takes for a number of 32 bits. -/
def udpOnDatagram (turns : Nat) (data : Mem) (len : Int) : Option (List Draw) :=
  let len := if len > 1000 then 1000 else len
  if len < 0 then none else some (titleLoop turns 100 (cString (data.load 0 len.toNat)))

/-! ## The titles without their places -/

def titlesIn : Nat → List UInt8 → List (List UInt8)
  | 0, _ => []
  | more + 1, p =>
    match strstr p needle with
    | none => []
    | some p =>
      match strchr p 58 with
      | none => []
      | some p =>
        let p := p.tail.dropWhile isSkipped
        let title := (p.takeWhile (· ≠ 34)).take 63
        title :: titlesIn more (p.drop title.length)

/-- One below the other. -/
def drawn (y : Int) : List (List UInt8) → List Draw
  | [] => []
  | title :: titles => .string 50 y title 0x000000 :: drawn (y + 20) titles

/-- `y` ends the loop after `n` turns. -/
theorem titleLoop_eq {turns n : Nat} {y : Int} (left : y + 20 * n = 360) (below : y < 360)
    (enough : n ≤ turns) (p : List UInt8) : titleLoop turns y p = drawn y (titlesIn n p) := by
  induction n generalizing turns y p with
  | zero => omega
  | succ n ih =>
    obtain ⟨turns, rfl⟩ := Nat.exists_eq_add_of_le' enough
    rw [← Nat.add_assoc, titleLoop, titlesIn]
    split
    · rfl
    · split
      · rfl
      · dsimp only
        rw [drawn]
        congr 1
        split
        · obtain rfl : n = 0 := by omega
          rfl
        · exact ih (by omega) (by omega) (Nat.le_add_left ..) _

theorem titlesIn_bounds (n : Nat) (p : List UInt8) :
    (titlesIn n p).length ≤ n ∧ ∀ t ∈ titlesIn n p, t.length ≤ 63 := by
  induction n generalizing p with
  | zero => exact ⟨Nat.le_refl 0, fun _ mem => nomatch mem⟩
  | succ n ih =>
    rw [titlesIn]
    split
    · exact ⟨Nat.zero_le _, fun _ mem => nomatch mem⟩
    · split
      · exact ⟨Nat.zero_le _, fun _ mem => nomatch mem⟩
      · refine ⟨Nat.succ_le_succ (ih _).1, fun t mem => ?_⟩
        rcases List.mem_cons.mp mem with rfl | mem
        · exact List.length_take_le ..
        · exact (ih _).2 t mem

/-! ## What the search passes over -/

section
variable {a body rest : List UInt8} {n : Nat}

/-- No title begins behind a quote here. -/
def Away (rest : List UInt8) : Prop := rest.head? ≠ some 116

theorem needle_eq : needle = 34 :: (ascii "title" ++ [34]) := by decide

theorem titlesIn_congr {p q : List UInt8} (same : strstr p needle = strstr q needle) (n : Nat) :
    titlesIn n p = titlesIn n q := by
  cases n with
  | zero => rfl
  | succ n => rw [titlesIn, titlesIn, same]

theorem strstr_pass {x : UInt8} (other : ¬ needle <+: x :: rest) :
    strstr (x :: rest) needle = strstr rest needle := by
  have some : needle ≠ [] := by decide
  rw [strstr, if_neg some, strstrFrom, if_neg (mt (matchesAt_iff _ _).mp other), strstr,
    if_neg some]

theorem strstr_plain (plain : 34 ∉ a) : strstr (a ++ rest) needle = strstr rest needle := by
  induction a with
  | nil => rfl
  | cons x a ih =>
    obtain ⟨first, plain⟩ := not_or.mp (mt List.mem_cons.mpr plain)
    rw [List.cons_append, strstr_pass, ih plain]
    rw [needle_eq, List.cons_prefix_cons]
    exact fun both => first both.1

/-- The needle does not stand at a closing quote. -/
theorem strstr_closing (plain : 34 ∉ a) (away : Away rest) :
    strstr (a ++ 34 :: rest) needle = strstr rest needle := by
  rw [strstr_plain plain, strstr_pass]
  rw [needle_eq, List.cons_prefix_cons]
  rintro ⟨-, more, here⟩
  exact away (here ▸ rfl)

/-- Nor at an opening one, if the string is another. -/
theorem strstr_string (plain : 34 ∉ body) (other : body ≠ ascii "title") (away : Away rest) :
    strstr (34 :: (body ++ 34 :: rest)) needle = strstr rest needle := by
  rw [strstr_pass, strstr_closing plain away]
  rw [needle_eq, List.cons_prefix_cons]
  rintro ⟨-, more, here⟩
  have first := congrArg (List.takeWhile (· ≠ 34)) here
  rw [List.append_assoc] at first
  have left := Layout.takeWhile_field (by decide : (34 : UInt8) ∉ ascii "title") more
  exact other ((Layout.takeWhile_field plain rest).symm.trans (first.symm.trans left))

theorem dropWhile_skipped (blank : ∀ c ∈ a, c = 32) (begins : ∀ c ∈ body.head?, isSkipped c = false)
    (some : body ≠ []) : (a ++ 34 :: (body ++ rest)).dropWhile isSkipped = body ++ rest := by
  have skipped : ∀ c ∈ a ++ [34], isSkipped c = true := by
    intro c mem
    rcases List.mem_append.mp mem with mem | mem
    · rw [blank c mem]
      rfl
    · rw [List.mem_singleton.mp mem]
      rfl
  obtain ⟨c, more, rfl⟩ := List.exists_cons_of_ne_nil some
  have stops : ¬ isSkipped c = true := by
    rw [begins c rfl]
    exact Bool.false_ne_true
  rw [List.append_cons a 34, List.dropWhile_append_of_pos skipped]
  exact List.dropWhile_cons_of_neg stops

/-- A title with its value. -/
theorem titlesIn_title {colon value : List UInt8} (colon_plain : 58 ∉ colon)
    (blank : ∀ c ∈ value, c = 32) (plain : 34 ∉ body) (some : body ≠ [])
    (begins : ∀ c ∈ body.head?, isSkipped c = false)
    (away : Away rest) (n : Nat) :
    titlesIn (n + 1) (needle ++ (colon ++ 58 :: (value ++ 34 :: (body ++ 34 :: rest)))) =
      body.take 63 :: titlesIn n rest := by
  have here : strstr (needle ++ (colon ++ 58 :: (value ++ 34 :: (body ++ 34 :: rest)))) needle =
      .some (needle ++ (colon ++ 58 :: (value ++ 34 :: (body ++ 34 :: rest)))) := by
    have first : Occurrence.First needle
        (needle ++ (colon ++ 58 :: (value ++ 34 :: (body ++ 34 :: rest)))) 0 :=
      ⟨Occurrence.at_zero_iff.mpr (List.prefix_append ..), fun q below => nomatch below⟩
    exact (strstr_some_iff (by decide) _ _).mpr ⟨0, first, rfl⟩
  have front : 58 ∉ needle ++ colon := by
    intro mem
    rcases List.mem_append.mp mem with mem | mem
    · exact absurd mem (by decide)
    · exact colon_plain mem
  have left : (body ++ 34 :: rest).drop (body.take 63).length = body.drop 63 ++ 34 :: rest := by
    rw [List.length_take]
    rcases Nat.le_total 63 body.length with long | short
    · rw [Nat.min_eq_left long, List.drop_append_of_le_length long]
    · rw [Nat.min_eq_right short, List.drop_left, List.drop_eq_nil_of_le short, List.nil_append]
  have passed : titlesIn n (body.drop 63 ++ 34 :: rest) = titlesIn n rest :=
    titlesIn_congr (strstr_closing (fun mem => plain (List.mem_of_mem_drop mem)) away) n
  rw [titlesIn, here]
  dsimp only
  rw [← List.append_assoc, strchr_append front]
  dsimp only
  rw [List.tail_cons, dropWhile_skipped blank begins some, Layout.takeWhile_field plain,
    left, passed]

end

/-- The search finds `ts` in `l`, and then those in `rest`. -/
def Yields (ts : List (List UInt8)) (l rest : List UInt8) : Prop :=
  ∀ n, titlesIn n (l ++ rest) = (ts.map (List.take 63)).take n ++ titlesIn (n - ts.length) rest

section
variable {ts us : List (List UInt8)} {l r rest : List UInt8}

theorem Yields.append (first : Yields ts l (r ++ rest)) (second : Yields us r rest) :
    Yields (ts ++ us) (l ++ r) rest := by
  intro n
  rw [List.append_assoc, first, second, List.map_append, List.take_append, List.length_map,
    List.length_append, Nat.sub_add_eq, List.append_assoc]

theorem yields_pass (same : strstr (l ++ rest) needle = strstr rest needle) : Yields [] l rest := by
  intro n
  rw [titlesIn_congr same, List.map_nil, List.take_nil, List.nil_append]
  rfl

theorem yields_plain (plain : 34 ∉ l) : Yields [] l rest := yields_pass (strstr_plain plain)

theorem yields_title {colon value body : List UInt8} (colon_plain : 58 ∉ colon)
    (blank : ∀ c ∈ value, c = 32) (plain : 34 ∉ body) (some : body ≠ [])
    (begins : ∀ c ∈ body.head?, isSkipped c = false) (away : Away rest) :
    Yields [body] (needle ++ (colon ++ 58 :: (value ++ 34 :: (body ++ [34])))) rest := by
  intro n
  have whole : needle ++ (colon ++ 58 :: (value ++ 34 :: (body ++ [34]))) ++ rest =
      needle ++ (colon ++ 58 :: (value ++ 34 :: (body ++ 34 :: rest))) := by
    simp only [List.append_assoc, List.cons_append, List.nil_append]
  cases n with
  | zero => rfl
  | succ n =>
    rw [whole, titlesIn_title colon_plain blank plain some begins away, List.map_singleton,
      List.take_succ_cons, List.take_nil, List.length_singleton, Nat.add_sub_cancel,
      List.singleton_append]

end

end MyOS.Titles

/-! ## The titles of a document -/

namespace MyOS.Jsmn

open Titles

/-- A value that is found behind its key: a string that begins like none of what is skipped. -/
def Json.IsTitle : Json → Prop
  | .string s => 34 ∉ s.body ∧ s.body ≠ [] ∧ ∀ c ∈ s.body.head?, isSkipped c = false
  | _ => False

def Json.own : Json → List (List UInt8)
  | .string s => [s.body]
  | _ => []

mutual

/-- No quote is escaped, and a string "title" is the key of such a value on its line. -/
def Json.Readable : Json → Prop
  | .string s => 34 ∉ s.body ∧ s.body ≠ ascii "title"
  | .literal l => 34 ∉ l.more
  | .array _ items => items.Readable
  | .object _ members => members.Readable

def Items.Readable : Items → Prop
  | .nil => True
  | .cons _ v _ rest => v.Readable ∧ rest.Readable

def Members.Readable : Members → Prop
  | .nil => True
  | .cons _ key _ value v _ rest => 34 ∉ key.body ∧
    (if key.body = ascii "title" then (∀ c ∈ value.text, c = 32) ∧ v.IsTitle else v.Readable) ∧
      rest.Readable

end

mutual

/-- The values of the titles, in the order of the document. -/
def Json.titles : Json → List (List UInt8)
  | .string _ => []
  | .literal _ => []
  | .array _ items => items.titles
  | .object _ members => members.titles

def Items.titles : Items → List (List UInt8)
  | .nil => []
  | .cons _ v _ rest => v.titles ++ rest.titles

def Members.titles : Members → List (List UInt8)
  | .nil => []
  | .cons _ key _ _ v _ rest =>
    (if key.body = ascii "title" then v.own else v.titles) ++ rest.titles

end

section
variable {rest : List UInt8}

theorem Blanks.not_mem (gap : Blanks) {c : UInt8} (other : c ∉ [9, 13, 10, 32]) : c ∉ gap.text :=
  fun mem => other (gap.blank c mem)

theorem away_blank (gap : Blanks) (away : Away rest) : Away (gap.text ++ rest) := by
  have blank := gap.blank
  cases here : gap.text with
  | nil => exact away
  | cons c l =>
    intro head
    have first : c ∈ [9, 13, 10, 32] := blank c (here ▸ List.mem_cons_self)
    obtain rfl : c = 116 := Option.some.inj head
    exact absurd first (by decide)

theorem Items.away (items : Items) (away : Away rest) : Away (items.text false ++ rest) := by
  cases items with
  | nil => exact away
  | cons before v behind more => exact fun head => by cases head

theorem Members.away (members : Members) (away : Away rest) :
    Away (members.text false ++ rest) := by
  cases members with
  | nil => exact away
  | cons before key colon value v behind more => exact fun head => by cases head

theorem yields_quoted (q : Quoted) (plain : 34 ∉ q.body) (other : q.body ≠ ascii "title")
    (away : Away rest) :
    Yields [] q.text rest := by
  apply yields_pass
  rw [Quoted.text, List.cons_append, List.append_assoc]
  exact strstr_string plain other away

theorem yields_comma (first : Bool) : Yields [] (comma first) rest := by
  apply yields_plain
  cases first <;> decide

theorem yields_blanks (gap : Blanks) : Yields [] gap.text rest :=
  yields_plain (gap.not_mem (by decide))

theorem yields_one {c : UInt8} (other : c ≠ 34) : Yields [] [c] rest :=
  yields_plain fun mem => other (List.mem_singleton.mp mem).symm

/-- A key and its value, if it is a title. -/
theorem yields_member {key : Quoted} {colon value : Blanks} {v : Json}
    (title : key.body = ascii "title") (blank : ∀ c ∈ value.text, c = 32) (is : v.IsTitle)
    (away : Away rest) :
    Yields v.own (key.text ++ (colon.text ++ ([58] ++ (value.text ++ v.text)))) rest := by
  cases v with
  | string s =>
    obtain ⟨plain, some, begins⟩ := is
    have quoted : key.text = needle := by
      rw [Quoted.text, title]
      exact needle_eq.symm
    rw [quoted]
    exact yields_title (colon.not_mem (by decide)) blank plain some begins away
  | literal | array | object => exact is.elim

/-- Another key, and its value. -/
theorem yields_other {key : Quoted} {colon value : Blanks} {v : Json} (plain : 34 ∉ key.body)
    (other : key.body ≠ ascii "title") (inner : Yields v.titles v.text rest) :
    Yields v.titles (key.text ++ (colon.text ++ ([58] ++ (value.text ++ v.text)))) rest := by
  have away : Away (colon.text ++ ([58] ++ (value.text ++ v.text)) ++ rest) := by
    rw [List.append_assoc]
    exact away_blank colon fun head => by cases head
  have colon_value : Yields v.titles ([58] ++ (value.text ++ v.text)) rest :=
    (yields_one (by decide)).append ((yields_blanks value).append inner)
  exact (yields_quoted key plain other away).append ((yields_blanks colon).append colon_value)

end

mutual

/-- The search finds the titles of a value in its text. -/
theorem Json.yields (v : Json) (readable : v.Readable) {rest : List UInt8} (away : Away rest) :
    Yields v.titles v.text rest := by
  cases v with
  | string s => exact yields_quoted s readable.1 readable.2 away
  | literal l =>
    refine yields_plain fun mem => ?_
    rcases List.mem_cons.mp mem with first | more
    · have special := l.plain
      rw [← first] at special
      cases special
    · exact readable more
  | array gap items =>
    have close : Yields [] [93] rest := yields_one (by decide)
    have inner := (items.yields true readable fun head => by cases head).append close
    rw [List.append_nil] at inner
    exact (yields_one (by decide)).append ((yields_blanks gap).append inner)
  | object gap members =>
    have close : Yields [] [125] rest := yields_one (by decide)
    have inner := (members.yields true readable fun head => by cases head).append close
    rw [List.append_nil] at inner
    exact (yields_one (by decide)).append ((yields_blanks gap).append inner)

theorem Items.yields (items : Items) (first : Bool) (readable : items.Readable) {rest : List UInt8}
    (away : Away rest) : Yields items.titles (items.text first) rest := by
  cases items with
  | nil => exact yields_plain List.not_mem_nil
  | cons before v behind more =>
    have value : Yields v.titles v.text (behind.text ++ more.text false ++ rest) := by
      rw [List.append_assoc]
      exact v.yields readable.1 (away_blank behind (more.away away))
    have others := (yields_blanks behind).append (more.yields false readable.2 away)
    exact (yields_comma first).append ((yields_blanks before).append (value.append others))

theorem Members.yields (members : Members) (first : Bool) (readable : members.Readable)
    {rest : List UInt8} (away : Away rest) :
    Yields members.titles (members.text first) rest := by
  cases members with
  | nil => exact yields_plain List.not_mem_nil
  | cons before key colon value v behind more =>
    obtain ⟨plain, pair, after⟩ := readable
    have behind_away : Away (behind.text ++ more.text false ++ rest) := by
      rw [List.append_assoc]
      exact away_blank behind (more.away away)
    have member : Yields (if key.body = ascii "title" then v.own else v.titles)
        (key.text ++ (colon.text ++ ([58] ++ (value.text ++ v.text))))
          (behind.text ++ more.text false ++ rest) := by
      split
      · rename_i title
        rw [if_pos title] at pair
        exact yields_member title pair.1 pair.2 behind_away
      · rename_i other
        rw [if_neg other] at pair
        exact yields_other plain other (v.yields pair behind_away)
    have others := (yields_blanks behind).append (more.yields false after away)
    have whole := (yields_comma first).append ((yields_blanks before).append (member.append others))
    simp only [List.append_assoc, List.cons_append, List.nil_append] at whole
    exact whole

end

/-- A JSON text is shown by its titles. -/
theorem Source.found (d : Source) (readable : d.value.Readable) (n : Nat) :
    titlesIn n d.text = (d.value.titles.map (List.take 63)).take n := by
  have nothing : ∀ n, titlesIn n [] = [] := fun n => by cases n <;> rfl
  have value : Yields d.value.titles d.value.text (d.behind.text ++ []) :=
    d.value.yields readable (away_blank d.behind fun head => by cases head)
  have found := (yields_blanks d.before).append (value.append (yields_blanks d.behind)) n
  rw [List.append_nil, List.append_nil, List.nil_append, nothing, List.append_nil] at found
  exact found

theorem Source.string (d : Source) : cString d.text = d.text := by
  have front := cString_append d.plain []
  rw [List.append_nil] at front
  exact front.trans (List.append_nil _)

end MyOS.Jsmn

/-! ## A datagram -/

namespace MyOS.Titles

open Jsmn Traced

section
variable {frame : Mem} {len length : Int} {srcIp : UInt32} {srcPort : UInt16} {start : Nat}

theorem udpDemux_length {pl : Nat} {plLen : Int}
    (handed : .udpOnDatagram srcIp srcPort start length ∈ (udpDemux frame pl plLen).val) :
    0 ≤ length := by
  simp only [udpDemux, val_ite, val_bind, val_pure] at handed
  split at handed
  · cases handed
  · split at handed
    · rcases List.mem_cons.mp handed with dns | handed
      · cases dns
      · cases List.mem_singleton.mp handed
        omega
    · cases List.mem_singleton.mp handed
      omega

/-- `net_rx` hands on no length below zero. -/
theorem handed_length
    (handed : .udpOnDatagram srcIp srcPort start length ∈ (netRxDemux frame len).val) :
    0 ≤ length := by
  obtain ⟨-, handed⟩ := netRxDemux_range handed rfl
  simp only [ipDemux, val_ite, val_bind, val_pure] at handed
  split at handed
  · cases handed
  split at handed
  · cases handed
  split at handed
  · cases handed
  split at handed
  · cases handed
  split at handed
  · exact udpDemux_length handed
  split at handed
  · simp only [tcpDemux, val_ite, val_bind, val_pure] at handed
    split at handed
    · cases handed
    · cases List.mem_singleton.mp handed
  · cases handed

/-- Of any datagram that `net_rx` hands on, `udp_on_datagram` draws at most thirteen titles
of at most 63 bytes, one below the other. Of a JSON text of at most 1000 bytes it draws the
first thirteen titles of the document, cut to 63 bytes each. -/
theorem datagram_shown
    (handed : .udpOnDatagram srcIp srcPort start length ∈ (netRxDemux frame len).val) :
    ∃ titles, (∀ turns, 13 ≤ turns →
        udpOnDatagram turns (frame.advance start) length = some (drawn 100 titles)) ∧
      titles.length ≤ 13 ∧ (∀ t ∈ titles, t.length ≤ 63) ∧
      ∀ d : Source, d.value.Readable → d.text.length ≤ 1000 → length = d.text.length →
        (frame.advance start).Holds 0 d.text →
          titles = (d.value.titles.map (List.take 63)).take 13 := by
  have nonneg := handed_length handed
  have clipped : ¬ (if length > 1000 then 1000 else length) < 0 := by
    split <;> omega
  let text := cString ((frame.advance start).load 0 (if length > 1000 then 1000 else length).toNat)
  refine ⟨titlesIn 13 text, ?_, (titlesIn_bounds 13 _).1, (titlesIn_bounds 13 _).2, ?_⟩
  · exact fun turns enough =>
      (if_neg clipped).trans (congrArg some (titleLoop_eq rfl (by decide) enough _))
  · intro d readable short same holds
    have whole : text = d.text := by
      have payload : (frame.advance start).load 0 d.text.length = d.text := holds
      have all : (if length > 1000 then 1000 else length).toNat = d.text.length := by
        rw [if_neg (by omega), same, Int.toNat_natCast]
      dsimp only [text]
      rw [all, payload, d.string]
    rw [whole, d.found readable]

end

/-- It comes from port 4660. -/
def titledFrame : List UInt8 :=
  List.replicate 12 0 ++ [0x08, 0x00, 0x45, 0, 0, 51, 0, 1, 0, 0, 64, 17, 0, 0, 10, 0, 2, 3,
    10, 0, 2, 15, 0x12, 0x34, 0x17, 0x70, 0, 31, 0, 0] ++ titled.text

theorem datagram_shown_titled :
    udpOnDatagram 13 ((Mem.ofList titledFrame).advance 42) 23 =
      some [.string 50 100 [97] 0x000000] := by
  have handed : .udpOnDatagram 0x0A000203 4660 42 23 ∈
      (netRxDemux (.ofList titledFrame) 65).val := by decide +kernel
  have holds : ((Mem.ofList titledFrame).advance 42).Holds 0 titled.text := by
    unfold Mem.Holds
    decide +kernel
  obtain ⟨titles, shown, -, -, all⟩ := datagram_shown handed
  have is : (Json.string ⟨[97], stringBody_a⟩).IsTitle :=
    ⟨by decide, by decide, by decide +kernel⟩
  have other : Quoted.body ⟨[98], stringBody_b⟩ ≠ ascii "title" := by decide +kernel
  have readable : titled.value.Readable := by
    refine ⟨by decide +kernel, ?_, by decide +kernel, ?_, trivial⟩
    · rw [if_pos rfl]
      exact ⟨List.forall_mem_nil _, is⟩
    · rw [if_neg other]
      exact ⟨⟨by decide, by decide +kernel⟩, trivial⟩
  have found := all titled readable (by decide +kernel) (by decide +kernel) holds
  have one : titles = [[97]] := found.trans (by decide +kernel)
  rw [shown 13 (Nat.le_refl 13), one]
  rfl

end MyOS.Titles
