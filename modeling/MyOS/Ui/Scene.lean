import MyOS.Base.Runs
import MyOS.Ui.Cursor

/-!
# The screen with and without its cursor

Beside the framebuffer runs the picture that the drawing calls alone make, and a
copy of it from when the cursor was last shown.
-/

namespace MyOS.Picture

open Overlay Runs

structure Scene where
  ui : Ui
  clean : Pixels
  shot : Pixels

/-- Before anything is drawn, with no cursor shown. -/
def start (pixels : Pixels) : Scene := ⟨⟨pixels, fun _ _ => 0, false, 0, 0⟩, pixels, pixels⟩

def step (g : Display) (s : Scene) (op : UiOp) : Scene where
  ui := op.apply g s.ui
  clean := match op with
    | .draw d => d.apply g s.clean
    | _ => s.clean
  shot := match op with
    | .place .. => s.clean
    | _ => s.shot

/-- After `cursor_restore_under` the screen shows what the drawing calls made. -/
def Restored (g : Display) (s : Scene) : UiOp → Prop
  | .restore => (step g s .restore).ui.pixels = (step g s .restore).clean
  | _ => True

/-- The dwords of the on-screen places of a block. -/
def cover (g : Display) (x y : Int) : Set UInt32 :=
  {c | g.addr ≠ 0 ∧ ∃ p ∈ blockPlaces g x y, g.cell (x + p.2) (y + p.1) = c}

/-- When the picture under the cursor is put back, no place of it has changed
colour in the clean picture since the cursor was shown. -/
def Unchanged (g : Display) (s : Scene) : UiOp → Prop
  | .restore => s.ui.curSaved = true → ∀ c ∈ cover g s.ui.curX s.ui.curY, s.clean c = s.shot c
  | _ => True

/-- The cursor is shown only when it is not. -/
def Alone (s : Scene) : UiOp → Prop
  | .place .. => s.ui.curSaved = false
  | _ => True

structure Inv (g : Display) (s : Scene) : Prop where
  bare : s.ui.curSaved = false → s.ui.pixels = s.clean
  off : s.ui.curSaved = true → AgreeOff (cover g s.ui.curX s.ui.curY) s.ui.pixels s.clean
  under : s.ui.curSaved = true → g.addr ≠ 0 → ∀ p ∈ blockPlaces g s.ui.curX s.ui.curY,
    s.ui.cursorUnder p.1 p.2 = s.shot (g.cell (s.ui.curX + p.2) (s.ui.curY + p.1))

/-! ## The drawing calls -/

theorem paints_putPixel (g : Display) (x y : Int) (col : UInt32) :
    Paints (fun px => g.putPixel px x y col) := by
  unfold Display.putPixel
  split
  · exact paints_id
  · split
    · exact paints_id
    · exact paints_update (g.cell x y) col

theorem paints_draw (g : Display) (d : Draw) : Paints (d.apply g) :=
  paints_foldl (fun p : Int × Int => paints_putPixel g p.1 p.2 d.colour) (d.points g)

/-! ## The block under the cursor -/

theorem mem_blockPlaces {g : Display} {x y : Int} {p : Nat × Nat} (mem : p ∈ blockPlaces g x y) :
    g.OnScreen (x + p.2) (y + p.1) := of_decide_eq_true (List.mem_filter.mp mem).2

theorem putPixel_place {g : Display} (visible : g.addr ≠ 0) {x y : Int} {p : Nat × Nat}
    (mem : p ∈ blockPlaces g x y) (px : Pixels) (col : UInt32) :
    g.putPixel px (x + p.2) (y + p.1) col =
      Function.update px (g.cell (x + p.2) (y + p.1)) col := by
  rw [Display.putPixel, if_neg visible, if_neg (not_not.mpr (mem_blockPlaces mem))]

/-- Pixels put on places of the block change nothing outside it. -/
theorem foldl_putPixel_other (g : Display) {x y : Int} {ps : List (Nat × Nat)}
    (inside : ∀ p ∈ ps, p ∈ blockPlaces g x y) (col : Nat × Nat → UInt32) (px : Pixels)
    {c : UInt32} (outside : c ∉ cover g x y) :
    ps.foldl (fun px p => g.putPixel px (x + p.2) (y + p.1) (col p)) px c = px c := by
  induction ps generalizing px with
  | nil => rfl
  | cons p ps ih =>
    rw [List.foldl_cons, ih fun q mem => inside q (List.mem_cons_of_mem p mem)]
    have mem := inside p List.mem_cons_self
    by_cases visible : g.addr = 0
    · rw [Display.putPixel, if_pos visible]
    · rw [putPixel_place visible mem]
      apply Function.update_of_ne
      rintro rfl
      exact outside ⟨visible, p, mem, rfl⟩

theorem restore_outside {g : Display} {u : Ui} {c : UInt32}
    (outside : c ∉ cover g u.curX u.curY) : (cursorRestoreUnder g u).pixels c = u.pixels c := by
  unfold cursorRestoreUnder
  split
  · rfl
  · exact foldl_putPixel_other g (fun _ mem => mem) _ u.pixels outside

theorem restore_inside {g : Display} {u : Ui} {shot : Pixels} (saved : u.curSaved = true)
    (under : g.addr ≠ 0 → ∀ p ∈ blockPlaces g u.curX u.curY,
      u.cursorUnder p.1 p.2 = shot (g.cell (u.curX + p.2) (u.curY + p.1)))
    {c : UInt32} (inside : c ∈ cover g u.curX u.curY) :
    (cursorRestoreUnder g u).pixels c = shot c := by
  obtain ⟨visible, here⟩ := inside
  have puts : ∀ (ps : List (Nat × Nat)) (px : Pixels), (∀ p ∈ ps, p ∈ blockPlaces g u.curX u.curY) →
      ps.foldl (fun px p => g.putPixel px (u.curX + p.2) (u.curY + p.1)
        (u.cursorUnder p.1 p.2)) px =
      ps.foldl (fun px p => Function.update px (g.cell (u.curX + p.2) (u.curY + p.1))
        (u.cursorUnder p.1 p.2)) px := by
    intro ps
    induction ps with
    | nil => exact fun _ _ => rfl
    | cons p ps ih =>
      intro px mem
      rw [List.foldl_cons, List.foldl_cons, putPixel_place visible (mem p List.mem_cons_self)]
      exact ih _ fun q later => mem q (List.mem_cons_of_mem p later)
  simp only [cursorRestoreUnder, saved, Bool.not_true, Bool.false_eq_true, ↓reduceIte]
  rw [puts _ _ fun _ mem => mem]
  exact foldl_update_mem (under visible) here u.pixels

theorem restore_bare {g : Display} {u : Ui} (bare : u.curSaved = false) :
    cursorRestoreUnder g u = u := by
  rw [cursorRestoreUnder, bare]
  rfl

theorem restore_unsaved (g : Display) (u : Ui) : (cursorRestoreUnder g u).curSaved = false := by
  cases shown : u.curSaved with
  | false => rw [restore_bare shown, shown]
  | true =>
    unfold cursorRestoreUnder
    rw [shown]
    rfl

/-! ## One call -/

theorem inv_start (g : Display) (pixels : Pixels) : Inv g (start pixels) where
  bare _ := rfl
  off shown := by cases shown
  under shown := by cases shown

theorem inv_draw {g : Display} {s : Scene} (inv : Inv g s) (d : Draw) :
    Inv g (step g s (.draw d)) where
  bare bare := congrArg (d.apply g) (inv.bare bare)
  off shown := (inv.off shown).paint (paints_draw g d)
  under := inv.under

/-- Putting the picture back leaves the clean one exactly if that has not
changed under the cursor. -/
theorem restored_step_iff {g : Display} {s : Scene} (inv : Inv g s) :
    Restored g s .restore ↔ Unchanged g s .restore := by
  change (cursorRestoreUnder g s.ui).pixels = s.clean ↔ _
  cases shown : s.ui.curSaved with
  | false =>
    rw [restore_bare shown]
    refine iff_of_true (inv.bare shown) ?_
    intro saved
    cases shown.symm.trans saved
  | true =>
    have inside : ∀ c ∈ cover g s.ui.curX s.ui.curY,
        (cursorRestoreUnder g s.ui).pixels c = s.shot c :=
      fun _ inside => restore_inside shown (inv.under shown) inside
    have back := (inv.off shown).uncover_iff inside fun _ outside => restore_outside outside
    constructor
    · intro restored _
      exact back.mp restored
    · intro unchanged
      exact back.mpr (unchanged shown)

theorem inv_restore {g : Display} {s : Scene} (inv : Inv g s) (unchanged : Unchanged g s .restore) :
    Inv g (step g s .restore) where
  bare _ := (restored_step_iff inv).mpr unchanged
  off shown := by
    rw [show (step g s .restore).ui.curSaved = false from restore_unsaved g s.ui] at shown
    cases shown
  under shown := by
    rw [show (step g s .restore).ui.curSaved = false from restore_unsaved g s.ui] at shown
    cases shown

theorem inv_place {g : Display} {s : Scene} (inv : Inv g s) (bare : s.ui.curSaved = false)
    (x y : Int) : Inv g (step g s (.place x y)) where
  bare shown := by cases shown
  off _ := by
    intro c outside
    have inside : ∀ p ∈ (blockPlaces g (clampi x 0 (g.w - 1)) (clampi y 0 (g.h - 1))).filter
        fun p => p.2 ≤ p.1, p ∈ blockPlaces g (clampi x 0 (g.w - 1)) (clampi y 0 (g.h - 1)) :=
      fun p mem => (List.mem_filter.mp mem).1
    have shape := foldl_putPixel_other g inside (fun _ => 0x000000) s.ui.pixels outside
    exact shape.trans (congrFun (inv.bare bare) c)
  under _ visible p mem := by
    have place : g.OnScreen (clampi x 0 (g.w - 1) + p.2) (clampi y 0 (g.h - 1) + p.1) :=
      mem_blockPlaces mem
    have saved : s.ui.pixels = s.clean := inv.bare bare
    change (if g.OnScreen (clampi x 0 (g.w - 1) + p.2) (clampi y 0 (g.h - 1) + p.1) then
      g.getPixel s.ui.pixels (clampi x 0 (g.w - 1) + p.2) (clampi y 0 (g.h - 1) + p.1) else 0) =
      s.clean (g.cell (clampi x 0 (g.w - 1) + p.2) (clampi y 0 (g.h - 1) + p.1))
    rw [if_pos place, Display.getPixel, if_neg visible, if_neg (not_not.mpr place), saved]

theorem inv_step (g : Display) (s : Scene) (op : UiOp) (inv : Inv g s) (alone : Alone s op)
    (unchanged : Unchanged g s op) : Inv g (step g s op) := by
  cases op with
  | draw d => exact inv_draw inv d
  | restore => exact inv_restore inv unchanged
  | place x y => exact inv_place inv alone x y

/-- Over a run: every time the cursor is taken away the screen is clean if and
only if the picture under it has not changed while it was shown. -/
theorem steps_restored_iff (g : Display) (pixels : Pixels) {ops : List UiOp}
    (alone : Steps (step g) Alone (start pixels) ops) :
    Steps (step g) (Restored g) (start pixels) ops ↔
      Steps (step g) (Unchanged g) (start pixels) ops := by
  apply steps_congr_under (I := Inv g) (M := Alone)
  · exact inv_step g
  · intro s op inv _
    cases op with
    | restore => exact restored_step_iff inv
    | draw d => exact Iff.rfl
    | place x y => exact Iff.rfl
  · exact inv_start g pixels
  · exact alone

end MyOS.Picture
