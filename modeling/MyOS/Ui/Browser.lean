import MyOS.Base.Layout
import MyOS.Ui.Fetch

/-!
# What the browser shows

`browser_ui` from its address to the lines it draws: the fetch over HTTP, the second one
over TLS, and the page laid out in lines of 127 bytes.
-/

namespace MyOS.Fetching

open Layout Page Requests Schedule Url Visits

/-! ## The fetch -/

/-- `tls_http_get_by_ip`: what it returns and what is in its buffer then. -/
abbrev Tls := Kernel → UInt32 → List UInt8 → List UInt8 → Int → Kernel × Int × List UInt8

/-- `if (got <= 0 && resolved_ip != 0)`. The address of an unparsed URL is zero. -/
def secondFetch (tls : Tls) (url : List UInt8) (f : Fetched) : Fetched :=
  match parseUrl url 128 with
  | none => f
  | some u =>
    if f.got ≤ 0 ∧ f.ip ≠ 0 then
      let (k, tgot, body) := tls f.kernel f.ip u.host u.path 8192
      ⟨k, f.ip, if 0 < tgot then tgot else f.got, body⟩
    else f

def browserFetch (tls : Tls) (net : Network) (fuel : Nat) (k : Kernel) (url : List UInt8) :
    Option Fetched :=
  (fetch net fuel k url).map (secondFetch tls url)

/-- The lines that `browser_ui` draws, and whether it draws "...(truncated)". -/
def browserContent (f : Fetched) : List (List UInt8) × Bool :=
  if 0 < f.got then
    let (lines, rest) := pageLines 30 (cString f.body)
    (lines, rest ≠ [])
  else ([fetchFailed], false)

theorem secondFetch_got {tls : Tls} {url : List UInt8} {f : Fetched} (some : 0 < f.got) :
    secondFetch tls url f = f := by
  unfold secondFetch
  split
  · rfl
  · exact if_neg fun none => by omega

/-! ## The lines of a page -/

/-- Without the blanks in front. -/
def trimmed (line : List UInt8) : List UInt8 := line.dropWhile (· = 32)

theorem pageLine_eq (body : List UInt8) :
    pageLine body = (trimmed (nextLine 10 127 body).1, (nextLine 10 127 body).2) := rfl

theorem pageLines_cons (n : Nat) {body : List UInt8} (some : body ≠ []) :
    pageLines (n + 1) body =
      (trimmed (nextLine 10 127 body).1 :: (pageLines n (nextLine 10 127 body).2).1,
      (pageLines n (nextLine 10 127 body).2).2) := by
  rw [pageLines, if_neg some, pageLine_eq]

theorem pageLines_lines (n : Nat) (body : List UInt8) :
    (pageLines n body).1 = ((layout 10 127 body).take n).map trimmed := by
  induction n generalizing body with
  | zero => rfl
  | succ n ih =>
    by_cases empty : body = []
    · subst empty
      rw [layout_nil]
      rfl
    · rw [pageLines_cons n empty, layout_next (by decide) empty, List.take_succ_cons,
        List.map_cons, ih]

/-- What is left of the page has the lines that were not drawn. -/
theorem pageLines_rest (n : Nat) (body : List UInt8) :
    layout 10 127 (pageLines n body).2 = (layout 10 127 body).drop n := by
  induction n generalizing body with
  | zero => rfl
  | succ n ih =>
    by_cases empty : body = []
    · subst empty
      rw [layout_nil]
      rfl
    · rw [pageLines_cons n empty, layout_next (by decide) empty, List.drop_succ_cons, ih]

theorem truncated_iff (n : Nat) (body : List UInt8) :
    (pageLines n body).2 ≠ [] ↔ n < (layout 10 127 body).length := by
  rw [← not_iff_not, not_not, ← layout_eq_nil_iff 10 (by decide : 0 < 127), pageLines_rest,
    List.drop_eq_nil_iff, Nat.not_lt]

/-- A line is trimmed of nothing but blanks. -/
theorem filter_trimmed (line : List UInt8) :
    (trimmed line).filter (· ≠ 32) = line.filter (· ≠ 32) := by
  induction line with
  | nil => rfl
  | cons c line ih =>
    by_cases blank : c = 32
    · rw [trimmed, List.dropWhile_cons_of_pos (by simpa using blank),
        List.filter_cons_of_neg (by simpa using blank)]
      exact ih
    · rw [trimmed, List.dropWhile_cons_of_neg (by simpa using blank)]

theorem filter_lines (lines : List (List UInt8)) :
    (lines.map trimmed).flatten.filter (· ≠ 32) = lines.flatten.filter (· ≠ 32) := by
  induction lines with
  | nil => rfl
  | cons line lines ih =>
    rw [List.map_cons, List.flatten_cons, List.flatten_cons, List.filter_append, List.filter_append,
      filter_trimmed, ih]

/-! ## A page on the screen -/

/-- A page of text of at most 8191 bytes that a server sends, perhaps after redirects to
it, is shown by the browser, with no use of TLS: its first thirty lines without the
blanks in front of them, and a mark below exactly if there are more. Without the mark
nothing but blanks and line ends of the page is missing. -/
theorem browser_shows {net : Network} {k : Kernel} {url header body : List UInt8} {web : Web}
    {dest : Destination} (tls : Tls) (online : Online net k url web dest)
    (page : ¬ Redirects (web dest)) (short : (web dest).length ≤ rawCap - 1)
    (split : Split (web dest) header body)
    (header_text : 0 ∉ header) (body_text : 0 ∉ body) (some : body ≠ [])
    (fits : body.length ≤ 8191) :
    ∃ enough, ∀ fuel, enough ≤ fuel → ∃ f,
      browserFetch tls net fuel k url = .some f ∧ fetch net fuel k url = .some f ∧
      (browserContent f).1 = ((layout 10 127 body).take 30).map trimmed ∧
      ((browserContent f).2 = true ↔ 30 < (layout 10 127 body).length) ∧
      ((browserContent f).2 = false → (browserContent f).1.flatten.filter (· ≠ 32) =
        body.filter fun c => c ≠ 10 ∧ c ≠ 32) := by
  obtain ⟨enough, fetched⟩ := fetch_page online page short split header_text body_text fits
  refine ⟨enough, fun fuel upto => ?_⟩
  obtain ⟨f, here, got, text⟩ := fetched fuel upto
  have filled : 0 < f.got := by
    have := List.length_pos_of_ne_nil some
    omega
  have whole : cString f.body = body := by
    rw [text, cString_append body_text]
    exact List.append_nil _
  have content : browserContent f =
      ((pageLines 30 body).1, decide ((pageLines 30 body).2 ≠ [])) := by
    rw [browserContent, if_pos filled, whole]
  have drawn : (browserContent f).1 = ((layout 10 127 body).take 30).map trimmed := by
    rw [content, pageLines_lines]
  have marked : (browserContent f).2 = true ↔ 30 < (layout 10 127 body).length := by
    rw [content, decide_eq_true_eq, truncated_iff]
  refine ⟨f, ?_, here, drawn, marked, fun unmarked => ?_⟩
  · rw [browserFetch, here, Option.map_some, secondFetch_got filled]
  · have all : (layout 10 127 body).length ≤ 30 := by
      rw [← Nat.not_lt, ← marked, unmarked]
      exact Bool.false_ne_true
    rw [drawn, List.take_of_length_le all, filter_lines, flatten_layout, List.filter_filter]
    apply List.filter_congr
    intro c _
    rw [← Bool.decide_and]
    exact decide_eq_decide.mpr And.comm

/-- `tls_http_get_by_ip` of tls_stub.c. Behind its -1 nothing reads the buffer. -/
def tlsStub : Tls := fun k _ _ _ _ => (k, -1, [])

/-- "a" and "b" in two lines, with a blank before the second. -/
def twoLines : List UInt8 := [97, 10, 32, 98]

theorem browser_shows_twoLines : ∃ enough, ∀ fuel, enough ≤ fuel → ∃ f,
    browserFetch tlsStub (network (pageWith twoLines)) fuel knowing (ascii "http://a/") = some f ∧
      browserContent f = ([[97], [98]], false) := by
  have split : Split (pageWith twoLines) pageHeader twoLines := ⟨rfl, by decide +kernel⟩
  have page : ¬ Redirects (pageWith twoLines) := by
    simp only [Redirects]
    decide +kernel
  have lines : layout 10 127 twoLines = [[97], [32, 98]] := by
    have last : layout 10 127 ([32, 98] : List UInt8) = pieces 127 [32, 98] :=
      layout_last (by decide) (by decide)
    have first : layout 10 127 ([97] ++ 10 :: [32, 98] : List UInt8) =
        pieces 127 [97] ++ layout 10 127 [32, 98] := layout_cons (by decide) [32, 98]
    rw [last, pieces_narrow (by decide), pieces_narrow (by decide)] at first
    exact first
  obtain ⟨d, online⟩ := online_inOne (by decide +kernel) page
  obtain ⟨enough, shows⟩ :=
    browser_shows tlsStub online page (by decide +kernel) split (by decide +kernel)
    (by decide) (by decide) (by decide)
  refine ⟨enough, fun fuel upto => ?_⟩
  obtain ⟨f, fetched, -, drawn, marked, -⟩ := shows fuel upto
  rw [lines] at drawn marked
  refine ⟨f, fetched, Prod.ext drawn ?_⟩
  exact Bool.eq_false_iff.mpr (mt marked.mp (by decide))

end MyOS.Fetching
