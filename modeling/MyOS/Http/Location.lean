import MyOS.Http.Page

/-!
# The Location of a redirect

The header of a response is made of lines, and a field is looked up by its name.
The redirect code searches the whole response for a text instead.
-/

namespace MyOS.Location

open Page Polls Requests Schedule

/-! ## Header fields -/

/-- The lines of a text, each ended by CRLF but for the last. -/
def crlfLines : List UInt8 → List (List UInt8)
  | [] => [[]]
  | 13 :: 10 :: s => [] :: crlfLines s
  | c :: s => (crlfLines s).modifyHead (c :: ·)

/-- A line with the place in the response where it begins. -/
structure Line where
  pos : Nat
  text : List UInt8
  deriving DecidableEq

/-- The lines before the first empty one. -/
def linesFrom : Nat → List (List UInt8) → List Line
  | _, [] => []
  | pos, text :: lines =>
    if text = [] then [] else ⟨pos, text⟩ :: linesFrom (pos + text.length + 2) lines

/-- The header fields, behind the status line. -/
def headerFields (stream : List UInt8) : List Line := (linesFrom 0 (crlfLines stream)).tail

def lower (c : UInt8) : UInt8 := if 65 ≤ c ∧ c ≤ 90 then c + 32 else c

/-- The field is named Location, in any letter case. -/
def Line.IsLocation (l : Line) : Prop :=
  58 ∈ l.text ∧ (l.text.takeWhile (· ≠ 58)).map lower = ascii "location"

instance : DecidablePred Line.IsLocation := fun _ => inferInstanceAs (Decidable (_ ∧ _))

def isBlank (c : UInt8) : Bool := c = 32 ∨ c = 9

/-- The value of a field, without the blanks before it. -/
def Line.value (l : Line) : List UInt8 := (l.text.dropWhile (· ≠ 58)).tail.dropWhile isBlank

def Line.valuePos (l : Line) : Nat := l.pos + (l.text.length - l.value.length)

def locationFields (stream : List UInt8) : List Line :=
  (headerFields stream).filter (·.IsLocation)

/-! ## Where the search stops -/

def upperName : List UInt8 := ascii "Location:"

def lowerName : List UInt8 := ascii "location:"

/-- The place the search comes to: the first one of `Location:`, or the first one
of `location:` where there is none. -/
def Found (raw : List UInt8) (p : Nat) : Prop :=
  Occurrence.First upperName raw p ∨
    (∀ q, ¬ Occurrence.At upperName raw q) ∧ Occurrence.First lowerName raw p

/-- What stands behind the colon there, up to the end of the line. -/
def textAt (raw : List UInt8) (p : Nat) : List UInt8 :=
  ((raw.drop (p + 9)).dropWhile isBlank).takeWhile fun c => c ≠ 13 ∧ c ≠ 10

theorem strchr_behind (name : List UInt8) {raw : List UInt8} {p : Nat} (plain : 58 ∉ name)
    (size : name.length = 8) (here : Occurrence.At (name ++ [58]) raw p) :
    strchr (raw.drop p) 58 = some (58 :: raw.drop (p + 9)) := by
  obtain ⟨rest, same⟩ := here
  have whole : (name ++ [58]).length = 9 := by rw [List.length_append, size, List.length_singleton]
  rw [← List.drop_drop, ← same, ← whole, List.drop_left, List.append_assoc]
  exact strchr_append plain rest

theorem found_behind {raw : List UInt8} {p : Nat} (found : Found raw p) :
    strchr (raw.drop p) 58 = some (58 :: raw.drop (p + 9)) := by
  rcases found with first | ⟨-, first⟩
  · exact strchr_behind (ascii "Location") (by decide) rfl first.here
  · exact strchr_behind (ascii "location") (by decide) rfl first.here

theorem upperName_some : upperName ≠ [] := by decide

theorem lowerName_some : lowerName ≠ [] := by decide

theorem search_found {raw : List UInt8} {p : Nat} (found : Found raw p) :
    ((strstr raw upperName).orElse fun _ => strstr raw lowerName) = some (raw.drop p) := by
  rcases found with first | ⟨nowhere, first⟩
  · simp only [(strstr_some_iff upperName_some raw _).mpr ⟨p, first, rfl⟩]
    rfl
  · rw [(strstr_none_iff upperName_some raw).mpr nowhere,
      (strstr_some_iff lowerName_some raw _).mpr ⟨p, first, rfl⟩]
    rfl

theorem httpLocation_found {raw : List UInt8} {p : Nat} (found : Found raw p) :
    httpLocation raw = some ((textAt raw p).take 1023) := by
  have here : locationValue raw = some (textAt raw p) := by
    unfold locationValue
    change (((strstr raw upperName).orElse fun _ => strstr raw lowerName).bind fun loc =>
      (strchr loc 58).bind fun colon => some ((colon.tail.dropWhile isBlank).takeWhile _)) = _
    simp only [search_found found, Option.bind_some, found_behind found, Option.bind_some]
    rfl
  simp only [httpLocation_eq, here, Option.map_some]

theorem httpLocation_none {raw : List UInt8} (nowhere : ∀ p, ¬ Found raw p) :
    httpLocation raw = none := by
  have upper : ∀ p, ¬ Occurrence.At upperName raw p := by
    intro p here
    obtain ⟨q, first⟩ := Occurrence.exists_first ⟨p, here⟩
    exact nowhere q (.inl first)
  have lower : ∀ p, ¬ Occurrence.At lowerName raw p := by
    intro p here
    obtain ⟨q, first⟩ := Occurrence.exists_first ⟨p, here⟩
    exact nowhere q (.inr ⟨upper, first⟩)
  have search : ((strstr raw upperName).orElse fun _ => strstr raw lowerName) = none := by
    rw [(strstr_none_iff upperName_some raw).mpr upper,
      (strstr_none_iff lowerName_some raw).mpr lower]
    rfl
  unfold httpLocation
  change (((strstr raw upperName).orElse fun _ => strstr raw lowerName).bind _) = none
  simp only [search, Option.bind_none]

/-! ## Where a line stands -/

/-- A line is followed by its CRLF or by nothing. -/
def Ends (rest : List UInt8) : Prop := rest = [] ∨ ∃ t, rest = 13 :: 10 :: t

theorem crlfLines_cons {s text : List UInt8} {lines : List (List UInt8)}
    (split : crlfLines s = text :: lines) :
    lines = [] ∧ s = text ∨ ∃ t, s = text ++ 13 :: 10 :: t ∧ lines = crlfLines t := by
  induction s using crlfLines.induct generalizing text lines with
  | case1 =>
    cases split
    exact .inl ⟨rfl, rfl⟩
  | case2 s ih =>
    rw [crlfLines] at split
    cases split
    exact .inr ⟨s, rfl, rfl⟩
  | case3 c s other ih =>
    rw [crlfLines] at split
    · cases first : crlfLines s with
      | nil =>
        rw [first] at split
        cases split
      | cons t ls =>
        rw [first, List.modifyHead_cons] at split
        cases split
        rcases ih first with ⟨none, rfl⟩ | ⟨t', rfl, rest⟩
        · exact .inl ⟨none, rfl⟩
        · exact .inr ⟨t', rfl, rest⟩
    · exact other

theorem mem_linesFrom {l : Line} {lines : List (List UInt8)} {s : List UInt8} {pos : Nat}
    (split : crlfLines s = lines) (mem : l ∈ linesFrom pos lines) :
    ∃ off rest, l.pos = pos + off ∧ s.drop off = l.text ++ rest ∧ Ends rest := by
  induction lines generalizing s pos with
  | nil => cases mem
  | cons text lines ih =>
    rw [linesFrom] at mem
    split at mem
    · cases mem
    rcases List.mem_cons.mp mem with rfl | later
    · rcases crlfLines_cons split with ⟨-, rfl⟩ | ⟨t, rfl, -⟩
      · exact ⟨0, [], rfl, (List.append_nil s).symm, .inl rfl⟩
      · exact ⟨0, 13 :: 10 :: t, rfl, rfl, .inr ⟨t, rfl⟩⟩
    · rcases crlfLines_cons split with ⟨rfl, -⟩ | ⟨t, rfl, rfl⟩
      · cases later
      · obtain ⟨off, rest, place, here, ends⟩ := ih rfl later
        refine ⟨text.length + 2 + off, rest, by omega, ?_, ends⟩
        rw [← List.drop_drop, ← List.drop_drop, List.drop_left]
        exact here

/-- A header field stands in the response where it is said to. -/
theorem mem_locationFields {l : Line} {stream : List UInt8} (mem : l ∈ locationFields stream) :
    ∃ rest, stream.drop l.pos = l.text ++ rest ∧ Ends rest := by
  have field := List.mem_of_mem_tail (List.mem_of_mem_filter mem)
  obtain ⟨off, rest, place, here, ends⟩ := mem_linesFrom rfl field
  simp only [place, Nat.zero_add]
  exact ⟨rest, here, ends⟩

/-- A name found where a line begins is the name of the line. -/
theorem prefix_text {name text rest : List UInt8} (plain : 13 ∉ name) (ends : Ends rest)
    (here : name <+: text ++ rest) : name <+: text := by
  rcases Nat.le_total name.length text.length with short | long
  · exact List.prefix_of_prefix_length_le here (List.prefix_append text rest) short
  · obtain ⟨more, rfl⟩ := List.prefix_of_prefix_length_le (List.prefix_append text rest) here long
    have behind : more <+: rest := (List.prefix_append_right_inj text).mp here
    cases more with
    | nil => exact ⟨[], by simp only [List.append_nil]⟩
    | cons c more =>
      rcases ends with rfl | ⟨t, rfl⟩
      · cases List.prefix_nil.mp behind
      · have first := (List.cons_prefix_cons.mp behind).1
        exact absurd (List.mem_append_right text (first ▸ List.mem_cons_self)) plain

/-! ## The value of the field, as it is read -/

def inLine (c : UInt8) : Bool := c ≠ 13 ∧ c ≠ 10

theorem takeWhile_ends (v : List UInt8) {rest : List UInt8} (ends : Ends rest) :
    (v ++ rest).takeWhile inLine = v.takeWhile inLine := by
  have none : rest.takeWhile inLine = [] := by
    rcases ends with rfl | ⟨t, rfl⟩ <;> rfl
  simp only [List.takeWhile_append, none, List.append_nil]
  split
  · rename_i all
    exact ((List.takeWhile_prefix _).eq_of_length all).symm
  · rfl

theorem dropWhile_blank {v rest : List UInt8} (some : ∀ c, v.head? = some c → isBlank c = false)
    (ends : Ends rest) (k : Nat) : ((v ++ rest).take k).dropWhile isBlank = (v ++ rest).take k := by
  cases front : (v ++ rest).take k with
  | nil => rfl
  | cons c s =>
    have first : (v ++ rest).head? = .some c := by
      cases whole : v ++ rest with
      | nil =>
        rw [whole, List.take_nil] at front
        cases front
      | cons x w =>
        rw [whole] at front
        cases k with
        | zero => cases front
        | succ k =>
          cases front
          rfl
    have solid : isBlank c = false := by
      cases v with
      | nil =>
        rcases ends with rfl | ⟨t, rfl⟩
        · cases first
        · cases first
          decide
      | cons x v =>
        cases first
        exact some c rfl
    rw [List.dropWhile_cons, if_neg (by rw [solid]; exact Bool.false_ne_true)]

/-- What is read behind the colon of a line, when only `m` characters follow. -/
theorem read_value (t : List UInt8) {rest : List UInt8} (ends : Ends rest) (m : Nat) :
    (((t ++ rest).take m).dropWhile isBlank).takeWhile inLine =
      ((t.dropWhile isBlank).takeWhile inLine).take
        (m - (t.length - (t.dropWhile isBlank).length)) := by
  have parts := List.takeWhile_append_dropWhile (p := isBlank) (l := t)
  have blanks : ∀ c ∈ t.takeWhile isBlank, isBlank c = true := fun c mem =>
    List.mem_takeWhile_imp mem
  have solid := List.head?_dropWhile_not isBlank t
  generalize t.takeWhile isBlank = b at parts blanks
  generalize t.dropWhile isBlank = v at parts solid
  subst parts
  have size : (b ++ v).length - v.length = b.length := by
    simp only [List.length_append, Nat.add_sub_cancel]
  have first : ∀ c, v.head? = some c → isBlank c = false := by
    intro c here
    rw [here] at solid
    simpa using solid
  rw [List.append_assoc, List.take_append, List.dropWhile_append_of_pos, dropWhile_blank first ends,
    ← List.take_takeWhile, takeWhile_ends v ends, size]
  intro c mem
  exact blanks c (List.mem_of_mem_take mem)

theorem take_takeWhile_iff (p : UInt8 → Bool) (v : List UInt8) (k n : Nat) :
    ((v.takeWhile p).take k).take n = v.take n ↔
      (∀ c ∈ v.take n, p c = true) ∧ (v.take n).length ≤ k := by
  constructor
  · intro same
    rw [← same]
    constructor
    · intro c mem
      exact List.mem_takeWhile_imp (List.mem_of_mem_take (List.mem_of_mem_take mem))
    · exact (List.length_take_le' n _).trans (List.length_take_le k _)
  · rintro ⟨all, short⟩
    rw [List.take_take, Nat.min_comm, ← List.take_take, List.take_takeWhile,
      List.takeWhile_eq_self_iff.mpr all, List.take_of_length_le short]

/-- What the function reads of a response, as a string. -/
def rawString (stream : List UInt8) : List UInt8 := cString (stream.take (rawCap - 1))

theorem rawString_prefix (stream : List UInt8) : rawString stream <+: stream :=
  (List.takeWhile_prefix _).trans (List.take_prefix _ stream)

/-- Found at its field, the name is followed by the value. -/
theorem own_text {l : Line} {stream : List UInt8} {p : Nat} (mem : l ∈ locationFields stream)
    (found : Found (rawString stream) p) (own : p = l.pos) :
    ∃ t rest, Ends rest ∧ l.value = t.dropWhile isBlank ∧ l.text.length = 9 + t.length ∧
      l.pos + 9 ≤ (rawString stream).length ∧
      (rawString stream).drop (l.pos + 9) =
        (t ++ rest).take ((rawString stream).length - (l.pos + 9)) := by
  subst own
  obtain ⟨rest, here, ends⟩ := mem_locationFields mem
  obtain ⟨name, size, plain, ascii, at_pos⟩ : ∃ name : List UInt8, name.length = 8 ∧ 58 ∉ name ∧
      13 ∉ name ++ [58] ∧ Occurrence.At (name ++ [58]) (rawString stream) l.pos := by
    rcases found with first | ⟨-, first⟩
    · exact ⟨ascii "Location", rfl, by decide, by decide, first.here⟩
    · exact ⟨ascii "location", rfl, by decide, by decide, first.here⟩
  have inside := at_pos.inside (List.append_ne_nil_of_right_ne_nil name (by simp))
  rw [List.length_append, size, List.length_singleton] at inside
  obtain ⟨more, string⟩ := rawString_prefix stream
  have front : name ++ [58] <+: l.text ++ rest := by
    rw [← here, ← string]
    exact at_pos.append (List.append_ne_nil_of_right_ne_nil name (by simp)) more
  obtain ⟨t, text⟩ := prefix_text ascii ends front
  have nine : (name ++ [58]).length = 9 := by rw [List.length_append, size, List.length_singleton]
  have behind : stream.drop (l.pos + 9) = t ++ rest := by
    rw [← List.drop_drop, here, ← text, List.append_assoc, ← nine, List.drop_left]
  refine ⟨t, rest, ends, ?_, ?_, inside, ?_⟩
  · have colon : ∀ c ∈ name, decide (c ≠ 58) = true := fun c here =>
      decide_eq_true fun same => plain (same ▸ here)
    rw [Line.value, ← text, List.append_assoc, List.dropWhile_append_of_pos colon]
    rfl
  · rw [← text, List.length_append, nine]
  · have whole : (rawString stream ++ more).drop (l.pos + 9) =
        (rawString stream).drop (l.pos + 9) ++ more := List.drop_append_of_le_length inside
    rw [string, behind] at whole
    rw [whole]
    exact (List.take_left' List.length_drop).symm

/-! ## The target of a redirect -/

/-- The round goes by the one Location field of its response, and the function
returns -12 where there is none. -/
structure ByField (c : Call) (r : Round) (stream : List UInt8) : Prop where
  present : ∀ l, locationFields stream = [l] →
    httpLocation (rawString stream) = some (l.value.take 1023)
  absent : locationFields stream = [] →
    httpAnswer r.ip r.hostbuf (stream.take (rawCap - 1)) c.outCap = .done (-12) [] ∧
      Returns c (-12) []

/-- The name is found first at the field itself, whose value is read without a
line end inside it and as far as it counts; or what is found elsewhere reads the
same. Where there is no field the name is nowhere. -/
structure FieldFound (stream : List UInt8) : Prop where
  present : ∀ l, locationFields stream = [l] → ∃ p, Found (rawString stream) p ∧
    if p = l.pos then
      (∀ c ∈ l.value.take 1023, inLine c = true) ∧ (l.value.take 1023 ≠ [] →
        l.valuePos + (l.value.take 1023).length ≤ (rawString stream).length)
    else (textAt (rawString stream) p).take 1023 = l.value.take 1023
  absent : locationFields stream = [] → ∀ p, ¬ Found (rawString stream) p

theorem own_value_iff {l : Line} {stream : List UInt8} {p : Nat} (mem : l ∈ locationFields stream)
    (found : Found (rawString stream) p) (own : p = l.pos) :
    (textAt (rawString stream) p).take 1023 = l.value.take 1023 ↔
      (∀ c ∈ l.value.take 1023, inLine c = true) ∧ (l.value.take 1023 ≠ [] →
        l.valuePos + (l.value.take 1023).length ≤ (rawString stream).length) := by
  obtain ⟨t, rest, ends, value, size, inside, behind⟩ := own_text mem found own
  have read : textAt (rawString stream) p = (l.value.takeWhile inLine).take
      ((rawString stream).length - (l.pos + 9) - (t.length - l.value.length)) := by
    simp only [textAt, own, behind, value]
    exact read_value t ends _
  have shorter : l.value.length ≤ t.length := by
    rw [value]
    exact (List.dropWhile_sublist _).length_le
  have place : l.valuePos = l.pos + 9 + (t.length - l.value.length) := by
    simp only [Line.valuePos, size]
    omega
  simp only [read, take_takeWhile_iff, place]
  generalize l.value.take 1023 = v
  apply and_congr_right
  intro _
  constructor
  · intro fits some
    have := List.length_pos_of_ne_nil some
    omega
  · intro fits
    cases v with
    | nil => exact Nat.zero_le _
    | cons c v =>
      have := fits (List.cons_ne_nil c v)
      omega

theorem httpAnswer_redirects {stream : List UInt8} (redirects : Redirects stream) (ip : UInt32)
    (hostbuf : List UInt8) (outCap : Int) :
    httpAnswer ip hostbuf (stream.take (rawCap - 1)) outCap =
      httpRedirect ip hostbuf (rawString stream) := by
  have some : stream.take (rawCap - 1) ≠ [] := by
    intro none
    simp only [Redirects, none] at redirects
    revert redirects
    decide
  have status := redirects
  simp only [Redirects] at status
  simp only [httpAnswer, if_neg some, if_pos status]
  rfl

/-- Where the name is found the call does not end with -12. -/
theorem httpRedirect_found {raw : List UInt8} {p : Nat} (found : Found raw p) (ip : UInt32)
    (hostbuf : List UInt8) : httpRedirect ip hostbuf raw ≠ .done (-12) [] := by
  intro refused
  rw [httpRedirect, httpLocation_found found] at refused
  dsimp only at refused
  split at refused
  · cases refused
  split at refused
  · split at refused
    · cases refused
    · split at refused <;> cases refused
  · split at refused <;> cases refused

/-- A redirect goes by its Location field if and only if the search finds it. -/
theorem by_field_iff {c : Call} {r : Round} {stream : List UInt8} (arrives : Arrives c r)
    (answered : AnsweredWith c r stream) (redirects : Redirects stream) :
    ByField c r stream ↔ FieldFound stream := by
  have answer := httpAnswer_redirects redirects r.ip r.hostbuf c.outCap
  constructor
  · rintro ⟨present, absent⟩
    refine ⟨fun l one => ?_, fun none p found => ?_⟩
    · have target := present l one
      obtain ⟨p, found⟩ : ∃ p, Found (rawString stream) p := by
        by_contra nowhere
        rw [httpLocation_none (not_exists.mp nowhere)] at target
        cases target
      rw [httpLocation_found found] at target
      have same := Option.some.inj target
      refine ⟨p, found, ?_⟩
      split
      · rename_i own
        exact (own_value_iff (one ▸ List.mem_singleton_self l) found own).mp same
      · exact same
    · have refused := (absent none).1
      rw [answer] at refused
      exact httpRedirect_found found r.ip r.hostbuf refused
  · rintro ⟨present, absent⟩
    refine ⟨fun l one => ?_, fun none => ?_⟩
    · obtain ⟨p, found, reads⟩ := present l one
      rw [httpLocation_found found]
      split at reads
      · rename_i own
        rw [(own_value_iff (one ▸ List.mem_singleton_self l) found own).mpr reads]
      · rw [reads]
    · have refused : httpAnswer r.ip r.hostbuf (stream.take (rawCap - 1)) c.outCap =
          .done (-12) [] := by
        simp only [answer, httpRedirect, httpLocation_none (absent none)]
      exact ⟨refused, arrives.returns answered refused⟩

/-! ## Two redirects -/

def redirectWith (field : String) : List UInt8 :=
  ascii ("HTTP/1.1 302 Found\r\n" ++ field ++ "\r\n\r\n")

theorem by_field_iff_plain : ByField (callOf (redirectWith "Location: /a"))
    (firstRound (redirectWith "Location: /a")) (redirectWith "Location: /a") := by
  refine (by_field_iff (arrives_callOf _) (answered_callOf (by decide +kernel)) ?_).mpr ⟨?_, ?_⟩
  · simp only [Redirects]
    decide +kernel
  · have one : locationFields (redirectWith "Location: /a") =
        [⟨20, ascii "Location: /a"⟩] := by decide +kernel
    intro l here
    rw [one] at here
    cases here
    have first : Occurrence.First upperName (rawString (redirectWith "Location: /a")) 20 :=
      ⟨by decide +kernel, by decide +kernel⟩
    refine ⟨20, .inl first, ?_⟩
    rw [if_pos rfl]
    exact ⟨by decide +kernel, fun _ => by decide +kernel⟩
  · intro none
    have some : locationFields (redirectWith "Location: /a") ≠ [] := by decide +kernel
    exact absurd none some

/-- A name in other letters than the two searched for is not found. -/
theorem capitals_unseen : ¬ ByField (callOf (redirectWith "LOCATION: /a"))
    (firstRound (redirectWith "LOCATION: /a")) (redirectWith "LOCATION: /a") := by
  rintro ⟨present, -⟩
  have one : locationFields (redirectWith "LOCATION: /a") =
      [⟨20, ascii "LOCATION: /a"⟩] := by decide +kernel
  have target := present _ one
  revert target
  decide +kernel

end MyOS.Location
