import MyOS.Base.Runs
import MyOS.Ui.Pixels
import MyOS.Ui.Screens

/-!
# The mouse and the cursor

`mouse_read_packet` and `cursor_move_to` as the loops of the screens call them,
against a pointer that follows the nine-bit movements of the mouse.
-/

namespace MyOS.Mouse

open Runs

/-- A movement packet. Bits 4 and 5 of the first byte are the signs of the other two. -/
structure Movement where
  flags : UInt8
  x : UInt8
  y : UInt8
  deriving DecidableEq

def nineBit (negative : Bool) (low : UInt8) : Int := if negative then low.toNat - 256 else low.toNat

namespace Movement

def bytes (m : Movement) : List UInt8 := [m.flags, m.x, m.y]

def dx (m : Movement) : Int := nineBit (m.flags &&& 0x10 != 0) m.x

def dy (m : Movement) : Int := nineBit (m.flags &&& 0x20 != 0) m.y

end Movement

/-- The place on the screen behind a movement; up is towards 0. -/
def follow (g : Display) (p : Int × Int) (m : Movement) : Int × Int :=
  (clampi (p.1 + m.dx) 0 (g.w - 1), clampi (p.2 - m.dy) 0 (g.h - 1))

def path (g : Display) : Int × Int → List Movement → List (Int × Int)
  | _, [] => []
  | p, m :: ms => follow g p m :: path g (follow g p m) ms

/-! ## The driver -/

/-- The static variables of both functions, and every report so far with the
place of the cursor behind it. -/
structure Pointer where
  pkt : List UInt8
  ui : Ui
  log : List (Packet × Int × Int)

/-- `if (mouse_read_packet(&dx,&dy,&btn)) cursor_move_to(cur_x+dx, cur_y+dy);` -/
def poll (g : Display) (s : Pointer) (byte : Option UInt8) : Pointer :=
  match mouseReadPacket s.pkt byte with
  | (pkt, none) => { s with pkt }
  | (pkt, some p) =>
    let ui := cursorMoveTo g s.ui (s.ui.curX + p.dx) (s.ui.curY + p.dy)
    ⟨pkt, ui, s.log ++ [(p, ui.curX, ui.curY)]⟩

/-- One report for each packet, in their order and each of its own packet (the
movements modulo 256), and the cursor at the places the nine bits lead to. -/
structure Followed (g : Display) (start : Int × Int) (ms : List Movement)
    (log : List (Packet × Int × Int)) : Prop where
  reports : List.Forall₂ (fun m r => r.1.buttons = m.flags ∧ r.1.dx % 256 = m.dx % 256 ∧
    r.1.dy % 256 = -m.dy % 256) ms log
  places : log.map Prod.snd = path g start ms

/-! ## When eight bits are enough -/

/-- What is left of a movement without its ninth bit. -/
def wrapped (d : Int) : Int := if d < -128 then d + 256 else if 127 < d then d - 256 else d

def Small (d : Int) : Prop := -128 ≤ d ∧ d ≤ 127

/-- The cursor ends at the same column: nothing is lost, or there is only one
column, or a movement of 256 to the left starts at the left edge. (On a display
without columns `clampi` only tells apart what is below 0 and what is not.) -/
def HeldX (hi x d : Int) : Prop :=
  Small d ∨ hi = 0 ∨ (0 < hi ∧ x = 0 ∧ d = -256) ∨ (hi < 0 ∧ (x + d < 0 ↔ x + wrapped d < 0))

/-- The same for the rows, which count the other way. -/
def HeldY (hi y d : Int) : Prop :=
  Small d ∨ hi = 0 ∨ (0 < hi ∧ y = hi ∧ d = -256) ∨ (hi < 0 ∧ (y - d < 0 ↔ y - wrapped d < 0))

def Held (g : Display) (p : Int × Int) (m : Movement) : Prop :=
  HeldX (g.w - 1) p.1 m.dx ∧ HeldY (g.h - 1) p.2 m.dy

/-- Where `cursor_move_to` leaves a coordinate. -/
def InRange (hi x : Int) : Prop := 0 ≤ hi → 0 ≤ x ∧ x ≤ hi

theorem inRange_clampi (v hi : Int) : InRange hi (clampi v 0 hi) := by
  intro some
  unfold clampi
  split
  · omega
  · split <;> omega

theorem clampi_heldX {hi x d : Int} (range : InRange hi x) (low : -256 ≤ d) (high : d ≤ 255) :
    clampi (x + wrapped d) 0 hi = clampi (x + d) 0 hi ↔ HeldX hi x d := by
  unfold InRange at range
  unfold HeldX Small clampi wrapped
  split_ifs <;> omega

theorem clampi_heldY {hi y d : Int} (range : InRange hi y) (low : -256 ≤ d) (high : d ≤ 255) :
    clampi (y - wrapped d) 0 hi = clampi (y - d) 0 hi ↔ HeldY hi y d := by
  unfold InRange at range
  unfold HeldY Small clampi wrapped
  split_ifs <;> omega

/-! ## The bytes of a packet -/

theorem nineBit_range (negative : Bool) (low : UInt8) :
    -256 ≤ nineBit negative low ∧ nineBit negative low ≤ 255 := by
  have size := low.toNat_lt
  unfold nineBit
  split <;> omega

/-- `(signed char)` keeps the low eight bits of a movement. -/
theorem toInt8_nineBit (negative : Bool) (low : UInt8) :
    low.toInt8.toInt = wrapped (nineBit negative low) := by
  have size := low.toNat_lt
  rw [toInt_toInt8]
  unfold wrapped nineBit
  split_ifs <;> omega

theorem wrapped_mod (d : Int) : wrapped d % 256 = d % 256 := by
  unfold wrapped
  split_ifs <;> omega

/-- The report of a packet. -/
def report (m : Movement) : Packet := ⟨wrapped m.dx, -wrapped m.dy, m.flags⟩

/-- The place of the cursor behind a packet. -/
def moved (g : Display) (p : Int × Int) (m : Movement) : Int × Int :=
  (clampi (p.1 + wrapped m.dx) 0 (g.w - 1), clampi (p.2 - wrapped m.dy) 0 (g.h - 1))

def Pointer.place (s : Pointer) : Int × Int := (s.ui.curX, s.ui.curY)

/-- Three bytes of the stream: one report, one move of the cursor. -/
theorem poll_packet (g : Display) {s : Pointer} (framed : s.pkt = []) (m : Movement) :
    let s' := (m.bytes.map some).foldl (poll g) s
    s'.pkt = [] ∧ s'.place = moved g s.place m ∧
      s'.log = s.log ++ [(report m, moved g s.place m)] := by
  obtain ⟨pkt, ui, log⟩ := s
  subst framed
  have left : m.x.toInt8.toInt = wrapped m.dx := toInt8_nineBit ..
  have up : m.y.toInt8.toInt = wrapped m.dy := toInt8_nineBit ..
  simp only [moved, report, ← left, ← up]
  exact ⟨rfl, rfl, rfl⟩

/-- The reports of a stream of packets, with the places of the cursor. -/
def logOf (g : Display) : Int × Int → List Movement → List (Packet × Int × Int)
  | _, [] => []
  | p, m :: ms => (report m, moved g p m) :: logOf g (moved g p m) ms

theorem poll_packets (g : Display) (ms : List Movement) {s : Pointer} (framed : s.pkt = []) :
    (((ms.flatMap Movement.bytes).map some).foldl (poll g) s).log =
      s.log ++ logOf g s.place ms := by
  induction ms generalizing s with
  | nil => exact (List.append_nil _).symm
  | cons m ms ih =>
    obtain ⟨framed', place, log⟩ := poll_packet g framed m
    rw [List.flatMap_cons, List.map_append, List.foldl_append, ih framed', place, log, logOf,
      List.append_assoc, List.singleton_append]

/-- Polls that find nothing change nothing. -/
theorem foldl_poll (g : Display) (polls : List (Option UInt8)) (s : Pointer) :
    polls.foldl (poll g) s = (polls.reduceOption.map some).foldl (poll g) s := by
  induction polls generalizing s with
  | nil => rfl
  | cons byte polls ih =>
    cases byte with
    | none => exact ih s
    | some b => exact ih (poll g s (some b))

theorem logOf_reports (g : Display) (p : Int × Int) (ms : List Movement) :
    List.Forall₂ (fun m r => r.1.buttons = m.flags ∧ r.1.dx % 256 = m.dx % 256 ∧
      r.1.dy % 256 = -m.dy % 256) ms (logOf g p ms) := by
  induction ms generalizing p with
  | nil => exact .nil
  | cons m ms ih =>
    have across := wrapped_mod m.dx
    have down := wrapped_mod m.dy
    refine .cons ⟨rfl, across, ?_⟩ (ih _)
    change -wrapped m.dy % 256 = -m.dy % 256
    omega

/-! ## The cursor over a stream -/

/-- Both coordinates are where `cursor_move_to` leaves them. -/
def Placed (g : Display) (p : Int × Int) : Prop := InRange (g.w - 1) p.1 ∧ InRange (g.h - 1) p.2

theorem moved_eq_follow_iff {g : Display} {p : Int × Int} (placed : Placed g p) (m : Movement) :
    moved g p m = follow g p m ↔ Held g p m := by
  have across := nineBit_range (m.flags &&& 0x10 != 0) m.x
  have down := nineBit_range (m.flags &&& 0x20 != 0) m.y
  rw [moved, follow, Prod.mk.injEq, Held]
  exact and_congr (clampi_heldX placed.1 across.1 across.2) (clampi_heldY placed.2 down.1 down.2)

theorem placed_follow (g : Display) (p : Int × Int) (m : Movement) : Placed g (follow g p m) :=
  ⟨inRange_clampi _ _, inRange_clampi _ _⟩

theorem places_iff {g : Display} {p : Int × Int} (placed : Placed g p) (ms : List Movement) :
    (logOf g p ms).map Prod.snd = path g p ms ↔ Steps (follow g) (Held g) p ms := by
  induction ms generalizing p with
  | nil => exact iff_of_true rfl trivial
  | cons m ms ih =>
    have head := moved_eq_follow_iff placed m
    rw [logOf, path, List.map_cons, List.cons.injEq]
    constructor
    · rintro ⟨here, rest⟩
      have same : moved g p m = follow g p m := here
      rw [same] at rest
      exact ⟨head.mp same, (ih (placed_follow g p m)).mp rest⟩
    · rintro ⟨here, rest⟩
      have same := head.mpr here
      rw [same]
      exact ⟨rfl, (ih (placed_follow g p m)).mpr rest⟩

/-- For every stream of packets, however the polls fall: each one is reported once
and in order, and the cursor follows if and only if no packet needs a ninth bit,
up to movements that end at the edge all the same. -/
theorem cursor_followed_iff (g : Display) (ui : Ui) (x y : Int) (polls : List (Option UInt8))
    (ms : List Movement) (stream : polls.reduceOption = ms.flatMap Movement.bytes) :
    let s : Pointer := ⟨[], cursorMoveTo g ui x y, []⟩
    Followed g s.place ms (polls.foldl (poll g) s).log ↔ Steps (follow g) (Held g) s.place ms := by
  intro s
  have placed : Placed g s.place := ⟨inRange_clampi _ _, inRange_clampi _ _⟩
  have log : (polls.foldl (poll g) s).log = logOf g s.place ms := by
    rw [foldl_poll, stream]
    exact poll_packets g ms rfl
  rw [log, ← places_iff placed]
  constructor
  · exact Followed.places
  · intro places
    exact ⟨logOf_reports g s.place ms, places⟩

theorem cursor_followed_iff_right :
    let polls := [none, some 0x08, some 5, none, some 0]
    let s : Pointer :=
      ⟨[], cursorMoveTo Picture.xga ⟨fun _ => 0, fun _ _ => 0, false, 0, 0⟩ 512 384, []⟩
    Followed Picture.xga s.place [⟨0x08, 5, 0⟩] (polls.foldl (poll Picture.xga) s).log ↔
      Steps (follow Picture.xga) (Held Picture.xga) s.place [⟨0x08, 5, 0⟩] :=
  cursor_followed_iff Picture.xga _ 512 384 _ _ rfl

/-- A fast movement of 200 to the right takes the cursor 56 to the left. -/
theorem fast_not_followed :
    let s : Pointer :=
      ⟨[], cursorMoveTo Picture.xga ⟨fun _ => 0, fun _ _ => 0, false, 0, 0⟩ 512 384, []⟩
    ¬ Followed Picture.xga s.place [⟨0x08, 200, 0⟩]
      ([some 0x08, some 200, some 0].foldl (poll Picture.xga) s).log := by
  intro s followed
  exact absurd followed.places (by decide)

/-! ## The screens -/

/-- A session with its cursor on the display. -/
structure OnDisplay (g : Display) (s : Session) : Prop where
  x : 0 ≤ s.curX ∧ s.curX ≤ g.w - 1
  y : 0 ≤ s.curY ∧ s.curY ≤ g.h - 1

/-- Neither the cursor nor the bytes of a packet begun have changed. -/
structure Still (s s' : Session) : Prop where
  pkt : s'.pkt = s.pkt
  x : s'.curX = s.curX
  y : s'.curY = s.curY

section
variable {g : Display} {s : Session}

theorem clampi_inside {v hi : Int} (inside : 0 ≤ v ∧ v ≤ hi) : clampi v 0 hi = v := by
  unfold clampi
  split
  · omega
  · split <;> omega

theorem Still.trans {s' s'' : Session} (first : Still s s') (second : Still s' s'') : Still s s'' :=
  ⟨second.pkt.trans first.pkt, second.x.trans first.x, second.y.trans first.y⟩

theorem Still.onDisplay {s' : Session} (still : Still s s') (on : OnDisplay g s) :
    OnDisplay g s' := by
  constructor
  · rw [still.x]
    exact on.x
  · rw [still.y]
    exact on.y

theorem still_moveTo (on : OnDisplay g s) : Still s (moveTo g s s.curX s.curY).2 :=
  ⟨rfl, clampi_inside on.x, clampi_inside on.y⟩

theorem still_close (on : OnDisplay g s) (t : Turn) : Still s (close g t s).2 :=
  (still_moveTo on).trans ⟨rfl, rfl, rfl⟩

theorem still_openCalculator (on : OnDisplay g s) : Still s (openCalculator g s).2 :=
  (still_moveTo on).trans ⟨rfl, rfl, rfl⟩

/-- Browser and viewer show the cursor twice. -/
theorem still_moveTo_twice (on : OnDisplay g s) :
    Still s (moveTo g (moveTo g s s.curX s.curY).2 (moveTo g s s.curX s.curY).2.curX
      (moveTo g s s.curX s.curY).2.curY).2 := by
  have first := still_moveTo on
  exact first.trans (still_moveTo (first.onDisplay on))

theorem still_openBrowser (on : OnDisplay g s) (f : Fetch) : Still s (openBrowser g f s).2 :=
  (still_moveTo_twice on).trans ⟨rfl, rfl, rfl⟩

theorem still_openJsonViewer (on : OnDisplay g s) (f : Fetch) : Still s (openJsonViewer g f s).2 :=
  (still_moveTo_twice on).trans ⟨rfl, rfl, rfl⟩

theorem still_runHello (hello : Option Program) : Still s (runHello g hello s).2 := by
  cases hello <;> exact ⟨rfl, rfl, rfl⟩

theorem still_pressKeys : Still s (pressKeys g s) := by
  unfold pressKeys
  generalize calcKeys (calcX g) (calcY g) = keys
  induction keys generalizing s with
  | nil => exact ⟨rfl, rfl, rfl⟩
  | cons key keys ih =>
    rw [List.foldl_cons]
    refine Still.trans ?_ ih
    dsimp only
    split
    · exact ⟨rfl, rfl, rfl⟩
    · exact ⟨rfl, rfl, rfl⟩

theorem still_clickDesktop (on : OnDisplay g s) (t : Turn) (startOpen : Bool) :
    Still s (clickDesktop g t startOpen s).2 := by
  unfold clickDesktop
  dsimp only
  split
  · exact ⟨rfl, rfl, rfl⟩
  split
  · exact ⟨rfl, rfl, rfl⟩
  split
  · exact still_openCalculator on
  split
  · exact still_openBrowser on t.fetch
  split
  · exact still_openJsonViewer on t.fetch
  -- The embedded program may have run; the click is then judged behind it.
  have ran : Still s (if s.inside 16 (menuY g + 136) 164 20 then
      (runHello g t.hello s).after (clearStartMenu g) else ([], s)).2 := by
    split
    · exact still_runHello t.hello
    · exact ⟨rfl, rfl, rfl⟩
  generalize (if s.inside 16 (menuY g + 136) 164 20 then
      (runHello g t.hello s).after (clearStartMenu g) else ([], s)) = acts at ran ⊢
  split
  · exact ⟨ran.pkt, ran.x, ran.y⟩
  · exact ran

/-- A click leaves the cursor where it is, whatever it opens or closes. -/
theorem still_click (on : OnDisplay g s) (t : Turn) : Still s (click g t s).2 := by
  unfold click
  split
  · unfold clickWelcome
    split
    · exact still_close on t
    · exact ⟨rfl, rfl, rfl⟩
  · exact still_clickDesktop on t _
  · unfold clickCalculator
    split
    · exact still_close on t
    · dsimp only
      exact still_pressKeys
  · unfold clickWindow
    split
    · exact still_close on t
    · exact ⟨rfl, rfl, rfl⟩
  · unfold clickWindow
    split
    · exact still_close on t
    · exact ⟨rfl, rfl, rfl⟩

/-- The pointer is in the state of the session. -/
structure Agrees (u : Pointer) (s : Session) : Prop where
  pkt : u.pkt = s.pkt
  place : u.place = (s.curX, s.curY)

/-- A turn of any screen is one poll for the pointer. -/
theorem agrees_turn (on : OnDisplay g s) {u : Pointer} (agrees : Agrees u s) (t : Turn) :
    Agrees (poll g u t.mouse) (turn g t s).2 ∧ OnDisplay g (turn g t s).2 := by
  obtain ⟨pkt, place⟩ := agrees
  obtain ⟨x, y⟩ := Prod.mk.inj place
  unfold poll turn
  rw [pkt]
  generalize mouseReadPacket s.pkt t.mouse = read
  obtain ⟨pkt', none | p⟩ := read
  · exact ⟨⟨rfl, place⟩, on.x, on.y⟩
  · let moved : Session := (moveTo g { s with pkt := pkt' } (s.curX + p.dx) (s.curY + p.dy)).2
    have on' : OnDisplay g moved :=
      ⟨inRange_clampi _ _ (Int.le_trans on.x.1 on.x.2),
        inRange_clampi _ _ (Int.le_trans on.y.1 on.y.2)⟩
    have still : Still moved (if p.left then click g t moved else ([], moved)).2 := by
      split
      · exact still_click on' t
      · exact ⟨rfl, rfl, rfl⟩
    refine ⟨⟨still.pkt.symm, ?_⟩, still.onDisplay on'⟩
    change (clampi (u.ui.curX + p.dx) 0 (g.w - 1), clampi (u.ui.curY + p.dy) 0 (g.h - 1)) = _
    rw [x, y]
    exact Prod.ext still.x.symm still.y.symm

/-- From screen to screen the bytes read go to one pointer. -/
theorem agrees_turns (on : OnDisplay g s) {u : Pointer} (agrees : Agrees u s) (ts : List Turn) :
    Agrees ((ts.map Turn.mouse).foldl (poll g) u) (ts.foldl (fun s t => (turn g t s).2) s) := by
  induction ts generalizing s u with
  | nil => exact agrees
  | cons t ts ih =>
    obtain ⟨next, on'⟩ := agrees_turn on agrees t
    exact ih on' next

end

end MyOS.Mouse
