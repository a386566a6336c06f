import MyOS.Ui.Graphics

/-!
# The pixels of a drawing call

On a screen whose lines have room every pixel is a dword of its own.
-/

namespace MyOS.Picture

/-- Every line of the screen has room for its pixels, and all lines fit. -/
structure Roomy (g : Display) : Prop where
  visible : g.addr ≠ 0
  wide : g.w ≤ (g.pitch / 4).toNat
  fits : g.h * (g.pitch / 4).toNat ≤ 4294967296

theorem toNat_ofInt {x : Int} (low : 0 ≤ x) (high : x < 4294967296) :
    (UInt32.ofInt x).toNat = x.toNat := by
  rw [UInt32.ofInt, show x % 2 ^ 32 = x from Int.emod_eq_of_lt low high, UInt32.toNat_ofNat']
  exact Nat.mod_eq_of_lt (by omega)

theorem toNat_cell {g : Display} (roomy : Roomy g) {x y : Int} (on : g.OnScreen x y) :
    (g.cell x y).toNat = y.toNat * (g.pitch / 4).toNat + x.toNat := by
  obtain ⟨left, top, right, bottom⟩ := on
  have wide := roomy.wide
  have fits := roomy.fits
  have line := (g.pitch / 4).toNat_lt
  generalize hp : (g.pitch / 4).toNat = p at wide fits line
  have rows : (y + 1) * p ≤ g.h * p := by
    apply Int.mul_le_mul_of_nonneg_right
    · omega
    · exact Int.natCast_nonneg p
  have rows' : y * p + p ≤ 4294967296 := by
    have := Int.add_mul y 1 p
    omega
  have tall : y < 4294967296 := by
    have := Int.mul_le_mul_of_nonneg_left (show (1 : Int) ≤ p by omega) top
    omega
  have total : y.toNat * p + x.toNat < 4294967296 := by
    have cast : ((y.toNat * p : Nat) : Int) = y * p := by
      rw [Int.natCast_mul, Int.toNat_of_nonneg top]
    omega
  rw [Display.cell, UInt32.toNat_add, UInt32.toNat_mul, hp, toNat_ofInt top tall,
    toNat_ofInt left (by omega)]
  rw [Nat.mod_eq_of_lt (show y.toNat * p < 2 ^ 32 by omega)]
  exact Nat.mod_eq_of_lt (by omega)

theorem cell_inj {g : Display} (roomy : Roomy g) {x y x' y' : Int} (on : g.OnScreen x y)
    (on' : g.OnScreen x' y') (same : g.cell x y = g.cell x' y') : x = x' ∧ y = y' := by
  have sums := congrArg UInt32.toNat same
  rw [toNat_cell roomy on, toNat_cell roomy on'] at sums
  have wide := roomy.wide
  obtain ⟨left, top, right, -⟩ := on
  obtain ⟨left', top', right', -⟩ := on'
  generalize (g.pitch / 4).toNat = p at sums wide
  have cols : x.toNat = x'.toNat := by
    have parts := congrArg (· % p) sums
    simp only [Nat.mul_add_mod_self_right] at parts
    rwa [Nat.mod_eq_of_lt (by omega), Nat.mod_eq_of_lt (by omega)] at parts
  have rows : y.toNat = y'.toNat := by
    have products : y.toNat * p = y'.toNat * p := by omega
    exact Nat.eq_of_mul_eq_mul_right (by omega) products
  omega

/-- A call leaves its colour on its points and nothing elsewhere. -/
theorem putPoints_cell {g : Display} (roomy : Roomy g) {x y : Int} (on : g.OnScreen x y)
    (c : UInt32) (ps : List (Int × Int)) (px : Pixels) :
    putPoints g c px ps (g.cell x y) = if (x, y) ∈ ps then c else px (g.cell x y) := by
  induction ps generalizing px with
  | nil => rfl
  | cons p ps ih =>
    have first : g.putPixel px p.1 p.2 c (g.cell x y) =
        if (x, y) = p then c else px (g.cell x y) := by
      rw [Display.putPixel, if_neg roomy.visible]
      by_cases here : (x, y) = p
      · subst here
        rw [if_neg (not_not.mpr on), if_pos rfl, Function.update_self]
      · rw [if_neg here]
        split
        · rfl
        · rename_i shown
          apply Function.update_of_ne
          intro same
          have both := cell_inj roomy on (not_not.mp shown) same
          exact here (Prod.ext both.1 both.2)
    rw [putPoints, List.foldl_cons]
    refine (ih _).trans ?_
    rw [first]
    by_cases later : (x, y) ∈ ps
    · rw [if_pos later, if_pos (List.mem_cons_of_mem p later)]
    · simp only [List.mem_cons, later, or_false, if_false]

/-- Dwords behind the lines and below them keep what they hold. -/
theorem putPoints_other {g : Display} {i : UInt32} (other : ∀ x y, g.OnScreen x y → g.cell x y ≠ i)
    (c : UInt32) (ps : List (Int × Int)) (px : Pixels) : putPoints g c px ps i = px i := by
  induction ps generalizing px with
  | nil => rfl
  | cons p ps ih =>
    have kept : g.putPixel px p.1 p.2 c i = px i := by
      rw [Display.putPixel]
      split
      · rfl
      · split
        · rfl
        · rename_i shown
          exact Function.update_of_ne (other _ _ (not_not.mp shown)).symm ..
    exact (ih _).trans kept

theorem draw_apply_on {g : Display} (roomy : Roomy g) {x y : Int} (on : g.OnScreen x y) {d : Draw}
    (mem : (x, y) ∈ d.points g) (px : Pixels) : d.apply g px (g.cell x y) = d.colour :=
  (putPoints_cell roomy on d.colour (d.points g) px).trans (if_pos mem)

theorem draw_apply_off {g : Display} (roomy : Roomy g) {x y : Int} (on : g.OnScreen x y) {d : Draw}
    (away : (x, y) ∉ d.points g) (px : Pixels) : d.apply g px (g.cell x y) = px (g.cell x y) :=
  (putPoints_cell roomy on d.colour (d.points g) px).trans (if_neg away)

theorem mem_rectPoints {x y w h : Int} {p : Int × Int} :
    p ∈ rectPoints x y w h ↔ (x ≤ p.1 ∧ p.1 < x + w) ∧ y ≤ p.2 ∧ p.2 < y + h := by
  simp only [rectPoints, List.mem_flatMap, List.mem_map, List.mem_range]
  constructor
  · rintro ⟨i, below, j, right, rfl⟩
    exact ⟨⟨by dsimp only; omega, by dsimp only; omega⟩, by dsimp only; omega, by dsimp only; omega⟩
  · rintro ⟨⟨left, right⟩, top, bottom⟩
    refine ⟨(p.2 - y).toNat, by omega, (p.1 - x).toNat, by omega, ?_⟩
    exact Prod.ext (by dsimp only; omega) (by dsimp only; omega)

/-- A string is drawn on eight rows of pixels. -/
theorem mem_stringPoints {g : Display} {x y : Int} {str : List UInt8} {p : Int × Int}
    (mem : p ∈ stringPoints g x y str) : y ≤ p.2 ∧ p.2 < y + 8 := by
  simp only [stringPoints, charPoints, List.mem_flatMap, List.mem_map, List.mem_range] at mem
  obtain ⟨-, -, i, row, j, -, rfl⟩ := mem
  exact ⟨by dsimp only; omega, by dsimp only; omega⟩

theorem mem_roundedPoints_body {x y w h r : Int} {p : Int × Int}
    (mem : p ∈ rectPoints (x + r) y (w - 2 * r) h) : p ∈ roundedPoints x y w h r := by
  simp only [roundedPoints, List.mem_append]
  exact .inl (.inl (.inl mem))

theorem mem_roundedPoints {x y w h r : Int} (high : 2 * r ≤ h) {p : Int × Int}
    (mem : p ∈ roundedPoints x y w h r) : y ≤ p.2 := by
  simp only [roundedPoints, List.mem_append, List.mem_flatMap, List.mem_range,
    mem_rectPoints] at mem
  rcases mem with ((body | left) | right) | ⟨dy, row, dx, -, corner⟩
  · exact body.2.1
  · omega
  · omega
  · split at corner
    · simp only [List.mem_cons, List.not_mem_nil, or_false] at corner
      rcases corner with rfl | rfl | rfl | rfl <;> dsimp only <;> omega
    · cases corner

/-- A screen of 1024 by 768 pixels, 32 bits each. -/
def xga : Display := ⟨0xFD000000, 1024, 768, 4096, fun _ _ => 0⟩

theorem roomy_xga : Roomy xga where
  visible := by decide
  wide := by decide
  fits := by decide

end MyOS.Picture
