import MyOS.Elf.Exit
import MyOS.Ui.Content
import MyOS.Ui.Cursor

/-!
kernel.c: the screens, from the end of `kmain` on. Every screen draws itself,
shows the cursor and then goes round its loop; each turn reads at most one mouse
packet. Sums of coordinates are taken as integers, those with the unsigned size
of the framebuffer in 32 bits.
-/

namespace MyOS

/-- What the screens call: a drawing function, `cursor_restore_under` or
`cursor_move_to`. -/
inductive UiCall
  | draw (d : Draw)
  | restoreUnder
  | moveTo (x y : Int)

def UiCall.ops : UiCall → List UiOp
  | .draw d => [.draw d]
  | .restoreUnder => [.restore]
  | .moveTo x y => [.restore, .place x y]

/-- The two parts of `moveTo` are `cursor_move_to`. -/
theorem moveTo_ops (g : Display) (u : Ui) (x y : Int) :
    (UiCall.moveTo x y).ops.foldl (UiOp.apply g) u = cursorMoveTo g u x y := rfl

structure Packet where
  dx : Int
  dy : Int
  buttons : UInt8

/-- `mouse_read_packet`, with the bytes of `pkt` read so far and the byte the
controller has, if any. -/
def mouseReadPacket (pkt : List UInt8) : Option UInt8 → List UInt8 × Option Packet
  | none => (pkt, none)
  | some d =>
    match pkt ++ [d] with
    | b :: sdx :: sdy :: _ => ([], some ⟨sdx.toInt8.toInt, -sdy.toInt8.toInt, b⟩)
    | started => (started, none)

def Packet.left (p : Packet) : Bool := p.buttons &&& 1 != 0

/-- What comes of the fetch an application makes when it opens: the page, if
there is one, and for the viewer the tokens of it, if it is JSON. -/
structure Fetch where
  polled : List Draw
  page : Option (List UInt8)
  tokens : Option (List JsmnTok)

/-- One turn of a loop, with what comes from outside. `polled` is drawn for the
datagrams that `rtl8139_poll` takes in, `between` for those taken in by `kmain`
before the desktop is drawn. -/
structure Turn where
  polled : List Draw
  mouse : Option UInt8
  between : List Draw
  ready : Bool
  fetch : Fetch
  hello : Option Program

inductive Screen
  | welcome
  | desktop (startOpen : Bool)
  | calculator
  | browser
  | jsonViewer
  deriving DecidableEq

/-- The screen that is up, with the static variables it works on. -/
structure Session where
  screen : Screen
  curX : Int
  curY : Int
  pkt : List UInt8
  expr : List UInt8
  sys : Syscalls

/-- The calls made, and the session behind them. -/
abbrev Acts := List UiCall × Session

def draws (ds : List Draw) : List UiCall := ds.map .draw

def moveTo (g : Display) (s : Session) (x y : Int) : Acts :=
  ([.moveTo x y], { s with curX := clampi x 0 (g.w - 1), curY := clampi y 0 (g.h - 1) })

/-- The cursor is inside a rectangle, its edges excluded. -/
def Session.inside (s : Session) (x y w h : Int) : Bool :=
  s.curX > x && s.curX < x + w && s.curY > y && s.curY < y + h

section
variable (g : Display)

/-- `(framebuffer_width - size) / 2`, and so for the height -/
def centred (total size : UInt32) : Int := ((total - size) / 2).toInt32.toInt

def background : Draw := .rect 0 0 g.w g.h 0x87CEEB

/-! ## The desktop -/

/-- `framebuffer_height - bar_h` -/
def barY : Int := (g.height - 40).toInt32.toInt

def startY : Int := g.h - 40 + 6

def menuY : Int := g.h - 40 - 180

def taskbar : List Draw :=
  [.rect 0 (barY g) g.w 40 0x333333, .rect 8 (startY g) 28 28 0x8888FF,
    .string (8 + 6) (startY g + 8) (ascii "S") 0xFFFFFF]

def drawStartMenu : List Draw :=
  let smY := menuY g
  [.rect 0 smY 220 180 0xDDDDDD,
    .string 16 (smY + 20) (ascii "Calculator") 0x000000,
    .string 16 (smY + 50) (ascii "Browser") 0x000000,
    .string 16 (smY + 80) (ascii "Notes (dummy)") 0x666666,
    .string 16 (smY + 50) (ascii "Browser (Posts)") 0x000000,
    .string 16 (smY + 80) (ascii "JSON Viewer (Users)") 0x000000,
    .string 16 (smY + 110) (ascii "Paint (dummy)") 0x666666,
    .string 16 (smY + 140) (ascii "Run embedded hello") 0x000000]

def clearStartMenu : List Draw := .rect 0 (menuY g) 220 180 0x87CEEB :: taskbar g

/-- `show_desktop` up to its loop. -/
def openDesktop (ready : Bool) (s : Session) : Acts :=
  let nic : Draw := if ready then .string 20 20 (ascii "NIC: 10.0.2.15 OK") 0x00AA00
    else .string 20 20 (ascii "NIC: NOT READY") 0xFF0000
  let (moved, s) := moveTo g s s.curX s.curY
  (draws (background g :: nic :: taskbar g) ++ moved, { s with screen := .desktop false })

/-- Back in the loop of `kmain`. -/
def leaveTo (t : Turn) (s : Session) : Acts :=
  let (acts, s) := openDesktop g t.ready s
  (draws t.between ++ acts, s)

/-! ## The calculator -/

def drawKey (x y : Int) (c : UInt8) : List Draw :=
  [.rect x y 60 40 0xAAAAAA, .string (x + 25) (y + 13) [c] 0x000000]

/-- The keys with their places in the window at `(wx, wy)`. -/
def calcKeys (wx wy : Int) : List (Int × Int × UInt8) :=
  (ascii "789/456*123-0.=+").zipIdx.map fun (k, i) =>
    (wx + 10 + (i % 4 : Nat) * (60 + 5), wy + 80 + (i / 4 : Nat) * (40 + 5), k)

def calcX : Int := centred g.width 300
def calcY : Int := centred g.height 350

def openCalculator (s : Session) : Acts :=
  let wx := calcX g
  let wy := calcY g
  let cx := wx + 300 - 30
  let cy := wy + 10
  let window : List Draw :=
    [background g, .rounded wx wy 300 350 15 0xBBBBBB,
      .rect (wx + 10) (wy + 10) (300 - 20) 60 0xFFFFFF, .rect cx cy 20 20 0xFF0000,
      .string (cx + 5) (cy + 2) (ascii "X") 0xFFFFFF]
  let keys := (calcKeys wx wy).flatMap fun (x, y, k) => drawKey x y k
  let (moved, s) := moveTo g s s.curX s.curY
  (draws (window ++ keys) ++ moved, { s with screen := .calculator })

def refreshExpr (s : Session) : List Draw :=
  [.rect (calcX g + 12) (calcY g + 12) (300 - 24) 56 0xFFFFFF,
    .string (calcX g + 20) (calcY g + 32) s.expr 0x000000]

def pressKey (expr : List UInt8) (k : UInt8) : List UInt8 :=
  if k = 67 then [] else if k = 61 then calcEval expr else calcAdd expr k

def pressKeys (s : Session) : Session :=
  (calcKeys (calcX g) (calcY g)).foldl (fun s (x, y, k) =>
    if s.inside x y 60 40 then { s with expr := pressKey s.expr k } else s) s

/-! ## Browser and JSON viewer -/

def appX : Int := centred g.width 600
def appY : Int := centred g.height 400

/-- The frame of a window with its title and close button. -/
def window (title : String) : List Draw :=
  let wx := appX g
  let wy := appY g
  [background g, .rounded wx wy 600 400 12 0xCCCCCC, .rect wx wy 600 30 0x1E90FF,
    .string (wx + 10) (wy + 8) (ascii title) 0xFFFFFF,
    .rect (wx + 600 - 26) (wy + 5) 20 20 0xFF0000,
    .string (wx + 600 - 26 + 5) (wy + 5 + 2) (ascii "X") 0xFFFFFF]

def textLines (x y : Int) (lines : List (List UInt8)) : List Draw :=
  lines.zipIdx.map fun (l, i) => .string (x + 6) (y + 8 + i * 10) l 0x000000

def openBrowser (f : Fetch) (s : Session) : Acts :=
  let abX := appX g + 10
  let abY := appY g + 30 + 8
  let ctX := appX g + 10
  let ctY := abY + 24 + 8
  let ctH := 400 - (30 + 8 + 24 + 8 + 12)
  let bar : List Draw :=
    [.rect abX abY (600 - 20) 24 0xDDDDDD,
      .string (abX + 6) (abY + 5) (ascii "http://jsonplaceholder.typicode.com/posts/2") 0x000000,
      .rect ctX ctY (600 - 20) ctH 0xFFFFFF,
      .string (ctX + 6) (ctY + 8) (ascii "Fetching...") 0x000000]
  let content : List Draw := match f.page with
    | none => [.string (ctX + 6) (ctY + 8) fetchFailed 0xFF0000]
    | some page =>
      let (lines, rest) := pageLines 30 page
      textLines ctX ctY lines ++ if rest = [] then []
        else [.string (ctX + 6) (ctY + ctH - 18) (ascii "...(truncated)") 0x555555]
  let (first, s) := moveTo g s s.curX s.curY
  let (second, s) := moveTo g s s.curX s.curY
  (draws (window g "TBHCR Browser" ++ bar) ++ first ++ draws f.polled ++
    draws (.rect ctX ctY (600 - 20) ctH 0xFFFFFF :: content) ++ second,
    { s with screen := .browser })

def openJsonViewer (f : Fetch) (s : Session) : Acts :=
  let ctX := appX g + 10
  let ctY := appY g + 30 + 8
  let ctH := 400 - (30 + 8 + 12)
  let empty : List Draw :=
    [.rect ctX ctY (600 - 20) ctH 0xFFFFFF,
      .string (ctX + 6) (ctY + 8) (ascii "Fetching...") 0x000000]
  let content : List Draw := match f.page, f.tokens with
    | none, _ => [.string (ctX + 6) (ctY + 8) fetchFailed 0xFF0000]
    | some _, none => [.string (ctX + 6) (ctY + 8) (ascii "Failed to parse JSON") 0xFF0000]
    | some page, some ts => textLines ctX ctY (jsonLines page 33 ts)
  let (first, s) := moveTo g s s.curX s.curY
  let (second, s) := moveTo g s s.curX s.curY
  (draws (window g "JSON Viewer" ++ empty) ++ first ++ draws f.polled ++
    draws (.rect ctX ctY (600 - 20) ctH 0xFFFFFF :: content) ++ second,
    { s with screen := .jsonViewer })

/-! ## The welcome screen -/

def nextX : Int := centred g.width 400 + 400 - 120
def nextY : Int := centred g.height 200 + 200 - 70

def welcomePage : List Draw :=
  let bx := centred g.width 400
  let top := centred g.height 200
  [.rect 0 0 g.w g.h 0xFFFFFF, .rounded bx top 400 200 20 0xCCCCCC,
    .string (bx + 80) (top + 90) (ascii "Welcome To MyOS!") 0xFF0000,
    .rounded (nextX g) (nextY g) 100 50 15 0x8888FF,
    .string (nextX g + 25) (nextY g + 15) (ascii "Next") 0xFFFFFF]

def openWelcome (s : Session) : Acts :=
  let (moved, s) := moveTo g s (g.width / 2).toInt32.toInt (g.height / 2).toInt32.toInt
  (draws (welcomePage g) ++ moved, { s with screen := .welcome })

/-! ## An embedded program -/

/-- The code a program ended with as `show_desktop` writes it. -/
def returnText (rc : Int32) : List UInt8 :=
  if rc = 0 then [48]
  else if rc < 0 then 45 :: (decimalDigits 10 (-rc)).reverse
  else (decimalDigits 10 rc).reverse

/-- What the system calls of a program draw. -/
def programDraws (sys : Syscalls) : List HandlerCall → List Draw
  | [] => []
  | call :: calls =>
    let (sys, ds) := syscallHandlerC g call.ram call.regs sys
    ds ++ programDraws sys calls

def runHello (hello : Option Program) (s : Session) : Acts :=
  match hello with
  | none =>
    let (sys, line) := consolePuts g s.sys
      (ascii "No embedded program present. Run make userprog and embed-userprog first.\n")
    (draws [line], { s with sys })
  | some p =>
    let (sys, first) := consolePuts g s.sys (ascii "Running embedded program...\n")
    let made := match Exit.Execution.of p with
      | none => []
      | some e => programDraws g sys e.calls
    let (sys, rc) := Exit.loadAndRun g sys p
    let (sys, second) := consolePuts g sys (ascii "User program exited with code: ")
    let (sys, third) := consolePuts g sys (returnText (Int32.ofInt rc))
    let (sys, fourth) := consolePuts g sys (ascii "\n")
    (draws ([first] ++ made ++ [second, third, fourth]), { s with sys })

/-! ## A left click -/

/-- The calls of `ds`, then those of the rest. -/
def Acts.after (ds : List Draw) (a : Acts) : Acts := (draws ds ++ a.1, a.2)

/-- Back out of an application, or out of the welcome screen. -/
def close (t : Turn) (s : Session) : Acts :=
  let (acts, s) := leaveTo g t s
  (.restoreUnder :: acts, s)

def clickWelcome (t : Turn) (s : Session) : Acts :=
  if s.inside (nextX g) (nextY g) 100 50 then close g t s else ([], s)

def clickDesktop (t : Turn) (startOpen : Bool) (s : Session) : Acts :=
  let smY := menuY g
  if s.inside 8 (startY g) 28 28 then
    (draws (if startOpen then clearStartMenu g else drawStartMenu g),
      { s with screen := .desktop !startOpen })
  else if !startOpen then ([], s)
  else if s.inside 16 (smY + 16) 164 20 then (openCalculator g s).after (clearStartMenu g)
  else if s.inside 16 (smY + 46) 164 20 then (openBrowser g t.fetch s).after (clearStartMenu g)
  else if s.inside 16 (smY + 76) 164 20 then (openJsonViewer g t.fetch s).after (clearStartMenu g)
  else
    let (hello, s) := if s.inside 16 (smY + 136) 164 20 then
      (runHello g t.hello s).after (clearStartMenu g) else ([], s)
    if !s.inside 0 smY 220 180 then
      (hello ++ draws (clearStartMenu g), { s with screen := .desktop false })
    else (hello, s)

def clickCalculator (t : Turn) (s : Session) : Acts :=
  if s.inside (calcX g + 300 - 30) (calcY g + 10) 20 20 then close g t s
  else ([], pressKeys g s)

/-- In the window of the browser or of the viewer. -/
def clickWindow (t : Turn) (s : Session) : Acts :=
  if s.inside (appX g + 600 - 26) (appY g + 5) 20 20 then close g t s else ([], s)

def click (t : Turn) (s : Session) : Acts :=
  match s.screen with
  | .welcome => clickWelcome g t s
  | .desktop startOpen => clickDesktop g t startOpen s
  | .calculator => clickCalculator g t s
  | .browser | .jsonViewer => clickWindow g t s

/-! ## Turns -/

/-- One turn of the loop of the screen that is up. -/
def turn (t : Turn) (s : Session) : Acts :=
  let refreshed := if s.screen = .calculator then refreshExpr g s else []
  let (pkt, packet) := mouseReadPacket s.pkt t.mouse
  let s := { s with pkt }
  let (acts, s) := match packet with
    | none => ([], s)
    | some p =>
      let (moved, s) := moveTo g s (s.curX + p.dx) (s.curY + p.dy)
      let (acts, s) := if p.left then click g t s else ([], s)
      (moved ++ acts, s)
  Acts.after (t.polled ++ refreshed) (acts, s)

def turns (s : Session) : List Turn → List UiCall
  | [] => []
  | t :: ts => (turn g t s).1 ++ turns (turn g t s).2 ts

/-- The card is up, or a test frame has been injected and drawn. -/
def nicDraws : Option (List Draw) → List Draw
  | none => [.string 20 20 (ascii "NIC init OK, IP=10.0.2.15") 0x00AA00]
  | some injected =>
    injected ++ [.string 20 20 (ascii "NIC: usb_stub enabled (test frame injected)") 0xFFD700]

/-- `kmain` from the network on. -/
def kmain (injected : Option (List Draw)) (ts : List Turn) : List UiCall :=
  let (shown, s) := moveTo g ⟨.welcome, 0, 0, [], [], Syscalls.boot⟩ (g.w.tdiv 2) (g.h.tdiv 2)
  let (welcome, s) := openWelcome g s
  draws (nicDraws injected) ++ shown ++ welcome ++ turns g s ts

end

end MyOS
