import MyOS.Ui.Pixels
import MyOS.Ui.Scene
import MyOS.Ui.Screens

/-!
# What the cursor leaves behind

The screens draw while the cursor is shown. The picture it puts back later is
the one from before.
-/

namespace MyOS.Picture

open Overlay Runs

/-- Every call that shows the cursor has taken it away first. -/
theorem steps_alone (g : Display) (calls : List UiCall) (s : Scene) :
    Steps (step g) Alone s (calls.flatMap UiCall.ops) := by
  induction calls generalizing s with
  | nil => trivial
  | cons call calls ih =>
    rw [List.flatMap_cons, steps_append]
    refine ⟨?_, ih _⟩
    cases call with
    | draw d => exact ⟨trivial, trivial⟩
    | restoreUnder => exact ⟨trivial, trivial⟩
    | moveTo x y => exact ⟨trivial, restore_unsaved g s.ui, trivial⟩

/-- In every run of the screens the picture is restored each time if and only if
no drawing call has changed it under the cursor. -/
theorem kmain_restored_iff (g : Display) (pixels : Pixels) (injected : Option (List Draw))
    (ts : List Turn) :
    Steps (step g) (Restored g) (start pixels) ((kmain g injected ts).flatMap UiCall.ops) ↔
      Steps (step g) (Unchanged g) (start pixels) ((kmain g injected ts).flatMap UiCall.ops) :=
  steps_restored_iff g pixels (steps_alone g _ _)

/-! ## The first cursor -/

theorem flatMap_draws (ds : List Draw) : (draws ds).flatMap UiCall.ops = ds.map .draw := by
  induction ds with
  | nil => rfl
  | cons d ds ih => exact congrArg (UiOp.draw d :: ·) ih

/-- Drawing leaves the cursor and the saved picture alone. -/
theorem foldl_draw (g : Display) (ds : List Draw) (s : Scene) :
    (ds.map .draw).foldl (step g) s =
      { s with
        ui := { s.ui with pixels := ds.foldl (fun px d => d.apply g px) s.ui.pixels }
        clean := ds.foldl (fun px d => d.apply g px) s.clean } := by
  induction ds generalizing s with
  | nil => rfl
  | cons d ds ih => exact ih (step g s (.draw d))

/-- The cursor of `kmain` is shown before the welcome screen is drawn, and what
was under it is put back into that screen. -/
theorem kmain_first {g : Display} {pixels : Pixels} {injected : Option (List Draw)}
    {ts : List Turn} (unchanged : Steps (step g) (Unchanged g) (start pixels)
      ((kmain g injected ts).flatMap UiCall.ops)) :
    ∀ c ∈ cover g (clampi (g.w.tdiv 2) 0 (g.w - 1)) (clampi (g.h.tdiv 2) 0 (g.h - 1)),
      (welcomePage g).foldl (fun px d => d.apply g px)
        ((nicDraws injected).foldl (fun px d => d.apply g px) pixels) c =
      (nicDraws injected).foldl (fun px d => d.apply g px) pixels c := by
  unfold kmain openWelcome moveTo at unchanged
  dsimp only at unchanged
  simp only [List.flatMap_append, flatMap_draws, List.flatMap_cons, UiCall.ops,
    List.append_assoc, List.cons_append, List.nil_append] at unchanged
  have shown := (steps_append.mp unchanged).2
  rw [foldl_draw] at shown
  have drawn := (steps_append.mp shown.2.2).2
  rw [foldl_draw] at drawn
  exact drawn.1 rfl

theorem foldl_welcomePage (g : Display) (px : Pixels) :
    (welcomePage g).foldl (fun px d => d.apply g px) px =
      (Draw.string (nextX g + 25) (nextY g + 15) (ascii "Next") 0xFFFFFF).apply g
        ((Draw.rounded (nextX g) (nextY g) 100 50 15 0x8888FF).apply g
        ((Draw.string (centred g.width 400 + 80) (centred g.height 200 + 90)
          (ascii "Welcome To MyOS!") 0xFF0000).apply g
        ((Draw.rounded (centred g.width 400) (centred g.height 200) 400 200 20 0xCCCCCC).apply g
        ((Draw.rect 0 0 g.w g.h 0xFFFFFF).apply g px)))) := rfl

theorem kmain_not_restored : ¬ Steps (step xga) (Restored xga) (start fun _ => 0)
    ((kmain xga none []).flatMap UiCall.ops) := by
  intro restored
  have first := kmain_first ((steps_restored_iff xga _ (steps_alone xga _ _)).mp restored)
  have across : clampi (xga.w.tdiv 2) 0 (xga.w - 1) = 512 := by decide
  have down : clampi (xga.h.tdiv 2) 0 (xga.h - 1) = 384 := by decide
  have on : xga.OnScreen 512 384 := by decide
  have corner : ((0, 0) : Nat × Nat) ∈ blockPlaces xga 512 384 := by decide
  rw [across, down] at first
  have same := first (xga.cell 512 384) ⟨roomy_xga.visible, (0, 0), corner, rfl⟩
  have line (x y : Int) (str : List UInt8) (c : UInt32) (away : 384 < y ∨ y + 8 ≤ 384)
      (px : Pixels) : (Draw.string x y str c).apply xga px (xga.cell 512 384) =
        px (xga.cell 512 384) := by
    apply draw_apply_off roomy_xga on
    intro mem
    have rows := mem_stringPoints mem
    dsimp only at rows
    omega
  have page (px : Pixels) :
      (Draw.rounded (centred xga.width 400) (centred xga.height 200) 400 200 20 0xCCCCCC).apply xga
        px (xga.cell 512 384) = 0xCCCCCC := by
    apply draw_apply_on roomy_xga on
    exact mem_roundedPoints_body (mem_rectPoints.mpr (by decide))
  have button (px : Pixels) : (Draw.rounded (nextX xga) (nextY xga) 100 50 15 0x8888FF).apply xga
      px (xga.cell 512 384) = px (xga.cell 512 384) := by
    apply draw_apply_off roomy_xga on
    intro mem
    exact absurd (mem_roundedPoints (by decide) mem) (by decide)
  have blank : (nicDraws none).foldl (fun px d => d.apply xga px) (fun _ => 0) (xga.cell 512 384) =
      0 := line 20 20 (ascii "NIC init OK, IP=10.0.2.15") 0x00AA00 (by decide) fun _ => 0
  rw [blank, foldl_welcomePage, line _ _ _ _ (by decide), button, line _ _ _ _ (by decide),
    page] at same
  exact absurd same (by decide)

end MyOS.Picture
