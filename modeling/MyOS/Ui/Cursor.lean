import MyOS.Base.Overlay
import MyOS.Ui.Graphics

/-!
kernel.c: the software cursor, an arrow of 8 by 8 pixels with the picture under
it saved.
-/

namespace MyOS

/-- The static variables of the cursor, and the framebuffer. -/
structure Ui where
  pixels : Pixels
  cursorUnder : Nat → Nat → UInt32
  curSaved : Bool
  curX : Int
  curY : Int

def clampi (v lo hi : Int) : Int := if v < lo then lo else if v > hi then hi else v

/-- The on-screen places of the block at `(x, y)`, as row and column. -/
def blockPlaces (g : Display) (x y : Int) : List (Nat × Nat) :=
  ((List.range 8).flatMap fun j => (List.range 8).map fun i => (j, i)).filter fun p =>
    g.OnScreen (x + p.2) (y + p.1)

def cursorSaveUnder (g : Display) (u : Ui) (x y : Int) : Ui :=
  { u with
    cursorUnder := fun j i =>
      if g.OnScreen (x + i) (y + j) then g.getPixel u.pixels (x + i) (y + j) else 0
    curSaved := true }

def cursorRestoreUnder (g : Display) (u : Ui) : Ui :=
  if !u.curSaved then u
  else
    { u with
      pixels := (blockPlaces g u.curX u.curY).foldl
        (fun px p => g.putPixel px (u.curX + p.2) (u.curY + p.1) (u.cursorUnder p.1 p.2)) u.pixels
      curSaved := false }

def cursorDrawShape (g : Display) (u : Ui) (x y : Int) (col : UInt32) : Ui :=
  { u with
    pixels := ((blockPlaces g x y).filter fun p => p.2 ≤ p.1).foldl
      (fun px p => g.putPixel px (x + p.2) (y + p.1) col) u.pixels }

/-- `cursor_move_to` behind its call of `cursor_restore_under`. -/
def cursorPlace (g : Display) (u : Ui) (x y : Int) : Ui :=
  let u := { u with curX := clampi x 0 (g.w - 1), curY := clampi y 0 (g.h - 1) }
  let u := cursorSaveUnder g u u.curX u.curY
  cursorDrawShape g u u.curX u.curY 0x000000

def cursorMoveTo (g : Display) (u : Ui) (x y : Int) : Ui :=
  cursorPlace g (cursorRestoreUnder g u) x y

/-- What the screens do to the framebuffer. -/
inductive UiOp
  | draw (d : Draw)
  | restore
  | place (x y : Int)

def UiOp.apply (g : Display) (u : Ui) : UiOp → Ui
  | .draw d => { u with pixels := d.apply g u.pixels }
  | .restore => cursorRestoreUnder g u
  | .place x y => cursorPlace g u x y

end MyOS
