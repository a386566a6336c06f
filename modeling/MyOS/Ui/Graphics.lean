import Mathlib.Algebra.Order.Ring.Int
import Mathlib.Logic.Function.Basic
import MyOS.StringC

/-!
graphics.c, with `draw_rounded` of kernel.c. Everything is drawn by `put_pixel`,
and one call draws in one colour.
-/

namespace MyOS

/-- The variables of graphics.c that `put_pixel` and the screens read, and the
glyph rows behind `font`: `font c i` is row `i` of entry `c`, which outside the
table is whatever stands there. -/
structure Display where
  addr : UInt32
  width : UInt32
  height : UInt32
  pitch : UInt32
  font : Int → Nat → UInt8

/-- The dwords from `framebuffer_addr` on. -/
abbrev Pixels := UInt32 → UInt32

namespace Display

variable (g : Display)

/-- `(int)framebuffer_width` -/
def w : Int := g.width.toInt32.toInt

/-- `(int)framebuffer_height` -/
def h : Int := g.height.toInt32.toInt

/-- `y * (framebuffer_pitch / 4) + x` -/
def cell (x y : Int) : UInt32 := UInt32.ofInt y * (g.pitch / 4) + UInt32.ofInt x

def OnScreen (x y : Int) : Prop := 0 ≤ x ∧ 0 ≤ y ∧ x < g.w ∧ y < g.h

instance (x y : Int) : Decidable (g.OnScreen x y) :=
  inferInstanceAs (Decidable (_ ∧ _ ∧ _ ∧ _))

def putPixel (px : Pixels) (x y : Int) (c : UInt32) : Pixels :=
  if g.addr = 0 then px
  else if ¬ g.OnScreen x y then px
  else Function.update px (g.cell x y) c

def getPixel (px : Pixels) (x y : Int) : UInt32 :=
  if g.addr = 0 then 0
  else if ¬ g.OnScreen x y then 0
  else px (g.cell x y)

end Display

/-- A byte as the `signed char`, or plain `char`, of this target. -/
theorem toInt_toInt8 (c : UInt8) :
    c.toInt8.toInt = if c.toNat < 128 then (c.toNat : Int) else c.toNat - 256 := by
  have value := BitVec.toInt_eq_toNat_cond c.toBitVec
  change c.toInt8.toInt = _ at value
  rw [value]
  have small : c.toBitVec.toNat = c.toNat := rfl
  rw [small]
  split <;> split <;> omega

/-! ## Drawing calls -/

/-- `for (i = y; i < y+h; i++) for (j = x; j < x+w; j++)` -/
def rectPoints (x y w h : Int) : List (Int × Int) :=
  (List.range h.toNat).flatMap fun i : Nat => (List.range w.toNat).map fun j : Nat => (x + j, y + i)

def charPoints (g : Display) (x y : Int) (c : UInt8) : List (Int × Int) :=
  (List.range 8).flatMap fun i : Nat =>
    ((List.range 8).filter fun j => (g.font c.toInt8.toInt i >>> (7 - j).toUInt8) &&& 1 != 0).map
      fun j : Nat => (x + j, y + i)

def stringPoints (g : Display) (x y : Int) (s : List UInt8) : List (Int × Int) :=
  s.zipIdx.flatMap fun (c, i) => charPoints g (x + i * 8) y c

def roundedPoints (x y w h r : Int) : List (Int × Int) :=
  rectPoints (x + r) y (w - 2 * r) h ++ rectPoints x (y + r) r (h - 2 * r) ++
    rectPoints (x + w - r) (y + r) r (h - 2 * r) ++
    (List.range r.toNat).flatMap fun dy : Nat => (List.range r.toNat).flatMap fun dx : Nat =>
      if (dx * dx + dy * dy : Int) ≤ r * r then
        [(x + r - dx, y + r - dy), (x + w - r + dx, y + r - dy),
          (x + r - dx, y + h - r + dy), (x + w - r + dx, y + h - r + dy)]
      else []

/-- A call of `draw_rect`, `draw_rounded` or `draw_string`. -/
inductive Draw
  | rect (x y w h : Int) (c : UInt32)
  | rounded (x y w h r : Int) (c : UInt32)
  | string (x y : Int) (s : List UInt8) (c : UInt32)
  deriving DecidableEq

def Draw.colour : Draw → UInt32
  | .rect _ _ _ _ c | .rounded _ _ _ _ _ c | .string _ _ _ c => c

def Draw.points (g : Display) : Draw → List (Int × Int)
  | .rect x y w h _ => rectPoints x y w h
  | .rounded x y w h r _ => roundedPoints x y w h r
  | .string x y s _ => stringPoints g x y s

def putPoints (g : Display) (c : UInt32) (px : Pixels) (ps : List (Int × Int)) : Pixels :=
  ps.foldl (fun px p => g.putPixel px p.1 p.2 c) px

def Draw.apply (g : Display) (px : Pixels) (d : Draw) : Pixels :=
  putPoints g d.colour px (d.points g)

end MyOS
