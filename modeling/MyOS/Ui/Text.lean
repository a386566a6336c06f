import MyOS.Ui.Pixels

/-!
graphics.c: `draw_char` and `draw_string`, with the rows of `font` they look up.
`char` is signed on this target.
-/

namespace MyOS.Text

/-- The framebuffer, and the entries and rows of `font` read so far. -/
structure Drawn where
  pixels : Pixels
  rows : List (Int × Nat)

/-- `if ((glyph[i] >> (7-j)) & 1) put_pixel(x+j, y+i, color);` -/
def drawBit (g : Display) (color : UInt32) (x y entry : Int) (i : Nat) (d : Drawn)
    (j : Nat) : Drawn :=
  let row := g.font entry i
  { pixels := if row >>> (7 - j).toUInt8 &&& 1 != 0 then g.putPixel d.pixels (x + j) (y + i) color
      else d.pixels
    rows := d.rows ++ [(entry, i)] }

def drawRow (g : Display) (color : UInt32) (x y entry : Int) (d : Drawn) (i : Nat) : Drawn :=
  (List.range 8).foldl (drawBit g color x y entry i) d

def drawChar (g : Display) (color : UInt32) (x y : Int) (c : UInt8) (d : Drawn) : Drawn :=
  (List.range 8).foldl (drawRow g color x y c.toInt8.toInt) d

def drawString (g : Display) (x y : Int) (s : List UInt8) (color : UInt32) (d : Drawn) : Drawn :=
  s.zipIdx.foldl (fun d (c, i) => drawChar g color (x + i * 8) y c d) d

/-! ## The points put and the rows read -/

/-- What a piece of drawing does: some points in one colour, some rows. -/
def Drawn.add (g : Display) (color : UInt32) (d : Drawn) (ps : List (Int × Int))
    (rs : List (Int × Nat)) : Drawn :=
  ⟨putPoints g color d.pixels ps, d.rows ++ rs⟩

section
variable (g : Display) (color : UInt32) (x y : Int) (entry : Int) (d : Drawn)

theorem add_add (ps ps' : List (Int × Int)) (rs rs' : List (Int × Nat)) :
    (d.add g color ps rs).add g color ps' rs' = d.add g color (ps ++ ps') (rs ++ rs') := by
  simp only [Drawn.add, putPoints, List.foldl_append, List.append_assoc]

/-- A loop whose turns put points and read rows does both one after the other. -/
theorem foldl_add {α : Type} {f : Drawn → α → Drawn} {ps : α → List (Int × Int)}
    {rs : α → List (Int × Nat)} (turn : ∀ d a, f d a = d.add g color (ps a) (rs a)) (as : List α) :
    as.foldl f d = d.add g color (as.flatMap ps) (as.flatMap rs) := by
  induction as generalizing d with
  | nil => simp [Drawn.add, putPoints]
  | cons a as ih => rw [List.foldl_cons, ih, turn, add_add, List.flatMap_cons, List.flatMap_cons]

end

/-- Bit `7 - j` of row `i`. -/
def bitSet (g : Display) (entry : Int) (i j : Nat) : Bool :=
  g.font entry i >>> (7 - j).toUInt8 &&& 1 != 0

def bitPoints (g : Display) (x y entry : Int) (i j : Nat) : List (Int × Int) :=
  if bitSet g entry i j then [(x + j, y + i)] else []

def rowPoints (g : Display) (x y entry : Int) (i : Nat) : List (Int × Int) :=
  (List.range 8).flatMap (bitPoints g x y entry i)

def rowReads (entry : Int) (i : Nat) : List (Int × Nat) :=
  (List.range 8).flatMap fun _ => [(entry, i)]

def charReads (c : UInt8) : List (Int × Nat) := (List.range 8).flatMap (rowReads c.toInt8.toInt)

section
variable (g : Display) (color : UInt32) (x y entry : Int) (d : Drawn)

theorem drawBit_eq (i j : Nat) :
    drawBit g color x y entry i d j = d.add g color (bitPoints g x y entry i j) [(entry, i)] := by
  rw [drawBit, bitPoints]
  change Drawn.mk (if bitSet g entry i j then _ else _) _ = _
  split <;> rfl

theorem drawRow_eq (i : Nat) :
    drawRow g color x y entry d i = d.add g color (rowPoints g x y entry i) (rowReads entry i) :=
  foldl_add g color d (fun d j => drawBit_eq g color x y entry d i j) _

theorem rowPoints_eq (i : Nat) : rowPoints g x y entry i =
    ((List.range 8).filter (bitSet g entry i)).map fun j : Nat => (x + j, y + i) := by
  rw [rowPoints]
  generalize List.range 8 = js
  induction js with
  | nil => rfl
  | cons j js ih =>
    rw [List.flatMap_cons, ih, List.filter_cons, bitPoints]
    split <;> rfl

theorem drawChar_eq (c : UInt8) :
    drawChar g color x y c d = d.add g color (charPoints g x y c) (charReads c) := by
  have rows : charPoints g x y c = (List.range 8).flatMap (rowPoints g x y c.toInt8.toInt) := by
    rw [funext (rowPoints_eq g x y c.toInt8.toInt)]
    rfl
  rw [rows]
  exact foldl_add g color d (fun d i => drawRow_eq g color x y _ d i) _

theorem drawString_eq (s : List UInt8) : drawString g x y s color d =
    d.add g color (stringPoints g x y s) (s.zipIdx.flatMap fun (c, _) => charReads c) :=
  foldl_add g color d (fun d (c, i) => drawChar_eq g color (x + i * 8) y d c) _

/-- The framebuffer behind `draw_string` is the one behind the drawing call. -/
theorem drawString_pixels (s : List UInt8) :
    (drawString g x y s color d).pixels = (Draw.string x y s color).apply g d.pixels := by
  rw [drawString_eq]
  rfl

end

/-! ## Which pixels, which rows -/

/-- The pixel belongs to a set bit of the glyph of one of the characters, each
one an unsigned byte. -/
def Lit (g : Display) (x y : Int) (s : List UInt8) (p : Int × Int) : Prop :=
  ∃ i j k : Nat, ∃ c, s[i]? = some c ∧ j < 8 ∧ k < 8 ∧ (g.font c.toNat k).toNat.testBit (7 - j) ∧
    p = (x + 8 * i + j, y + k)

/-- Rows of the table only; the lit pixels that are on the screen get the colour,
and every other dword of the framebuffer keeps what it held. -/
structure Shown (g : Display) (x y : Int) (s : List UInt8) (c : UInt32) (d : Drawn) (px : Pixels) :
    Prop where
  rows : ∀ r ∈ d.rows, 0 ≤ r.1 ∧ r.1 ≤ 255 ∧ r.2 < 8
  lit : ∀ px' py, g.OnScreen px' py → Lit g x y s (px', py) → d.pixels (g.cell px' py) = c
  dark : ∀ px' py, g.OnScreen px' py → ¬ Lit g x y s (px', py) →
    d.pixels (g.cell px' py) = px (g.cell px' py)
  outside : ∀ i, (∀ px' py, g.OnScreen px' py → g.cell px' py ≠ i) → d.pixels i = px i

theorem mem_charReads {c : UInt8} {r : Int × Nat} :
    r ∈ charReads c ↔ r.1 = c.toInt8.toInt ∧ r.2 < 8 := by
  simp only [charReads, rowReads, List.mem_flatMap, List.mem_range, List.mem_singleton]
  constructor
  · rintro ⟨i, below, j, -, rfl⟩
    exact ⟨rfl, below⟩
  · rintro ⟨entry, below⟩
    exact ⟨r.2, below, 0, by decide, Prod.ext entry rfl⟩

theorem shifted_bit (v : UInt8) {n : Nat} (small : n < 8) :
    (v >>> n.toUInt8 &&& 1 != 0) = v.toNat.testBit n := by
  have value : (v >>> n.toUInt8 &&& 1).toNat = v.toNat >>> n &&& 1 := by
    rw [UInt8.toNat_and, UInt8.toNat_shiftRight]
    have shift : n.toUInt8.toNat % 8 = n := by
      simp only [Nat.toUInt8, UInt8.toNat_ofNat']
      omega
    rw [shift]
    rfl
  rw [Bool.eq_iff_iff, bne_iff_ne, Nat.testBit, bne_iff_ne, Nat.and_comm, ← value]
  exact not_congr UInt8.toNat_inj.symm

theorem mem_charPoints_iff {g : Display} {x y : Int} {c : UInt8} {p : Int × Int} :
    p ∈ charPoints g x y c ↔ ∃ j k : Nat, j < 8 ∧ k < 8 ∧
      (g.font c.toInt8.toInt k).toNat.testBit (7 - j) ∧ p = (x + j, y + k) := by
  simp only [charPoints, List.mem_flatMap, List.mem_map, List.mem_filter, List.mem_range]
  constructor
  · rintro ⟨k, row, j, ⟨column, set⟩, rfl⟩
    rw [shifted_bit _ (by omega)] at set
    exact ⟨j, k, column, row, set, rfl⟩
  · rintro ⟨j, k, column, row, set, rfl⟩
    rw [← shifted_bit _ (by omega)] at set
    exact ⟨k, row, j, ⟨column, set⟩, rfl⟩

/-- A character below 128 is its own entry of the table. -/
theorem mem_stringPoints_iff {g : Display} {x y : Int} {s : List UInt8}
    (plain : ∀ c ∈ s, c.toNat < 128) (p : Int × Int) :
    p ∈ stringPoints g x y s ↔ Lit g x y s p := by
  have entry : ∀ c ∈ s, c.toInt8.toInt = c.toNat := by
    intro c mem
    rw [toInt_toInt8, if_pos (plain c mem)]
  simp only [stringPoints, List.mem_flatMap, Prod.exists, List.mem_zipIdx_iff_getElem?,
    mem_charPoints_iff]
  constructor
  · rintro ⟨c, i, here, j, k, column, row, set, rfl⟩
    rw [entry c (List.mem_of_getElem? here)] at set
    refine ⟨i, j, k, c, here, column, row, set, ?_⟩
    rw [Int.mul_comm 8]
  · rintro ⟨i, j, k, c, here, column, row, set, rfl⟩
    rw [← entry c (List.mem_of_getElem? here)] at set
    refine ⟨c, i, here, j, k, column, row, set, ?_⟩
    rw [Int.mul_comm 8]

theorem mem_stringReads {s : List UInt8} {r : Int × Nat} :
    (r ∈ s.zipIdx.flatMap fun (c, _) => charReads c) ↔ ∃ c ∈ s, r.1 = c.toInt8.toInt ∧ r.2 < 8 := by
  simp only [List.mem_flatMap, Prod.exists, List.mem_zipIdx_iff_getElem?, mem_charReads]
  constructor
  · rintro ⟨c, i, here, both⟩
    exact ⟨c, List.mem_of_getElem? here, both⟩
  · rintro ⟨c, mem, both⟩
    obtain ⟨i, here⟩ := List.getElem?_of_mem mem
    exact ⟨c, i, here, both⟩

/-- A character above 127 is taken for a negative index. -/
theorem plain_of_shown {g : Display} {x y : Int} {s : List UInt8} {c : UInt32} {px : Pixels}
    (shown : Shown g x y s c (drawString g x y s c ⟨px, []⟩) px) : ∀ b ∈ s, b.toNat < 128 := by
  intro b mem
  have looked : (b.toInt8.toInt, 0) ∈ (drawString g x y s c ⟨px, []⟩).rows := by
    rw [drawString_eq]
    exact mem_stringReads.mpr ⟨b, mem, rfl, Nat.zero_lt_succ 7⟩
  have nonneg : 0 ≤ b.toInt8.toInt := (shown.rows _ looked).1
  have size := b.toNat_lt
  rw [toInt_toInt8] at nonneg
  split at nonneg
  · assumption
  · omega

/-- What `draw_string` does is right if and only if no character is above 127. -/
theorem shown_iff {g : Display} (roomy : Picture.Roomy g) (x y : Int) (s : List UInt8) (c : UInt32)
    (px : Pixels) :
    Shown g x y s c (drawString g x y s c ⟨px, []⟩) px ↔ ∀ b ∈ s, b.toNat < 128 := by
  constructor
  · exact plain_of_shown
  · intro plain
    rw [drawString_eq]
    refine ⟨?_, ?_, ?_, ?_⟩
    · intro r mem
      obtain ⟨b, inside, entry, row⟩ := mem_stringReads.mp mem
      have small := plain b inside
      rw [toInt_toInt8, if_pos small] at entry
      exact ⟨by omega, by omega, row⟩
    · intro px' py on lit
      exact (Picture.putPoints_cell roomy on c _ px).trans
        (if_pos ((mem_stringPoints_iff plain _).mpr lit))
    · intro px' py on dark
      exact (Picture.putPoints_cell roomy on c _ px).trans
        (if_neg (mt (mem_stringPoints_iff plain _).mp dark))
    · intro i other
      exact Picture.putPoints_other other c _ px

theorem shown_iff_ok :
    Shown Picture.xga 6 8 [111, 107] 0x000000
        (drawString Picture.xga 6 8 [111, 107] 0x000000 ⟨fun _ => 0xFFFFFF, []⟩)
          (fun _ => 0xFFFFFF) ↔
      ∀ b ∈ ([111, 107] : List UInt8), b.toNat < 128 :=
  shown_iff Picture.roomy_xga 6 8 _ _ _

/-- An "é" in UTF-8. -/
theorem accent_not_shown : ¬ Shown Picture.xga 6 8 [0xC3, 0xA9] 0x000000
    (drawString Picture.xga 6 8 [0xC3, 0xA9] 0x000000 ⟨fun _ => 0xFFFFFF, []⟩)
    fun _ => 0xFFFFFF := by
  intro shown
  have small : (0xC3 : UInt8).toNat < 128 := plain_of_shown shown 0xC3 List.mem_cons_self
  exact absurd small (by decide)

end MyOS.Text
