import MyOS.Base.Aligned
import MyOS.Endian

/-!
graphics.c: `init_graphics` looks for the framebuffer in the tags the boot loader
leaves behind the header of its information block. The loop runs for as many
turns as there is fuel.
-/

namespace MyOS

/-- `framebuffer_addr` and the other four variables. -/
structure FramebufferVars where
  addr : UInt32
  width : UInt32
  height : UInt32
  bpp : UInt32
  pitch : UInt32
  deriving DecidableEq

namespace Multiboot

def load64 (m : Mem) (off : Nat) : UInt64 :=
  (m.load32 off).toUInt64 ||| (m.load32 (off + 4)).toUInt64 <<< 32

/-- `tag->type` -/
def tagType (ram : Mem) (tag : Nat) : UInt32 := ram.load32 tag

/-- `tag->size` -/
def tagSize (ram : Mem) (tag : Nat) : UInt32 := ram.load32 (tag + 4)

/-- The variables set from a `multiboot_tag_framebuffer_t`, which is packed. -/
def readFramebuffer (ram : Mem) (fb : Nat) : FramebufferVars :=
  { addr := (load64 ram (fb + 8)).toUInt32
    width := ram.load32 (fb + 20)
    height := ram.load32 (fb + 24)
    bpp := (ram (fb + 28)).toUInt32
    pitch := ram.load32 (fb + 16) }

/-- The variables behind the loop, and the tags looked at. -/
def tagLoop (ram : Mem) (vars : FramebufferVars) :
    Nat → UInt32 → Option (FramebufferVars × List UInt32)
  | 0, _ => none
  | fuel + 1, tag =>
    if tagType ram tag.toNat = 0 then some (vars, [tag])
    else if tagType ram tag.toNat = 8 then some (readFramebuffer ram tag.toNat, [tag])
    else
      (tagLoop ram vars fuel (tag + ((tagSize ram tag.toNat + 7) &&& ~~~7))).map
        fun (vars, visited) => (vars, tag :: visited)

def initGraphics (ram : Mem) (m : UInt32) (vars : FramebufferVars) (fuel : Nat) :
    Option (FramebufferVars × List UInt32) :=
  tagLoop ram vars fuel (m + 8)

/-! ## Well-formed lists -/

/-- A tag list that starts at `at`, with the starts of its tags. It lies within
the 32 bits of an address. -/
inductive Tags (ram : Mem) : Nat → List Nat → Prop
  | last {p : Nat} (boundary : 8 ∣ p) (inside : p + 8 ≤ 4294967296) (type : tagType ram p = 0)
      (size : 8 ≤ (tagSize ram p).toNat) : Tags ram p [p]
  | tag {p : Nat} {starts : List Nat} (boundary : 8 ∣ p) (type : tagType ram p ≠ 0)
      (size : 8 ≤ (tagSize ram p).toNat)
      (next : Tags ram (Aligned.roundUp 8 (p + (tagSize ram p).toNat)) starts) :
      Tags ram p (p :: starts)

/-- The tags up to the first one for a framebuffer. -/
def upToFramebuffer (ram : Mem) (starts : List Nat) : List Nat :=
  starts.takeWhile (tagType ram · ≠ 8) ++ (starts.find? (tagType ram · = 8)).toList

section
variable {ram : Mem} {p : Nat} {starts : List Nat}

theorem Tags.inside (tags : Tags ram p starts) : p + 8 ≤ 4294967296 := by
  induction tags with
  | last _ inside => exact inside
  | tag _ _ size _ ih =>
    rw [Aligned.roundUp] at ih
    omega

theorem Tags.boundary (tags : Tags ram p starts) : 8 ∣ p := by
  cases tags with
  | last boundary => exact boundary
  | tag boundary => exact boundary

/-- The step of the loop leads to the start of the next tag. -/
theorem next_start {tag : UInt32} (boundary : 8 ∣ tag.toNat)
    (inside : Aligned.roundUp 8 (tag.toNat + (tagSize ram tag.toNat).toNat) + 8 ≤ 4294967296) :
    (tag + ((tagSize ram tag.toNat + 7) &&& ~~~7)).toNat =
      Aligned.roundUp 8 (tag.toNat + (tagSize ram tag.toNat).toNat) := by
  generalize tagSize ram tag.toNat = size at *
  have mask : (~~~7 : UInt32).toNat = (2 ^ (32 - 3) - 1) * 2 ^ 3 := rfl
  have rounded := Aligned.toNat_and_high (size + 7) (by decide) mask
  have sum : (size + 7).toNat = (size.toNat + 7) % 4294967296 := UInt32.toNat_add ..
  rw [sum] at rounded
  rw [Aligned.roundUp] at *
  rw [UInt32.toNat_add, rounded]
  omega

/-- The loop looks at the tags up to the first one for a framebuffer, from which
it takes the variables. -/
theorem tagLoop_visits (vars : FramebufferVars) {tag : UInt32} (tags : Tags ram tag.toNat starts)
    {fuel : Nat} (enough : starts.length ≤ fuel) :
    ∃ visited, tagLoop ram vars fuel tag =
        some (((starts.find? (tagType ram · = 8)).map (readFramebuffer ram)).getD vars, visited) ∧
      visited.map UInt32.toNat = upToFramebuffer ram starts := by
  generalize start : tag.toNat = p at tags
  induction tags generalizing tag fuel with
  | last _ _ type _ =>
    subst start
    obtain ⟨fuel, rfl⟩ := Nat.exists_eq_add_one_of_ne_zero (Nat.ne_of_gt enough)
    have other : tagType ram tag.toNat ≠ 8 := by
      rw [type]
      decide
    refine ⟨[tag], ?_, ?_⟩
    · simp [tagLoop, type]
    · simp [upToFramebuffer, other]
  | @tag _ starts boundary type size next ih =>
    subst start
    obtain ⟨fuel, rfl⟩ := Nat.exists_eq_add_one_of_ne_zero (Nat.ne_of_gt (Nat.zero_lt_of_lt enough))
    by_cases framebuffer : tagType ram tag.toNat = 8
    · refine ⟨[tag], ?_, ?_⟩
      · simp [tagLoop, framebuffer]
      · simp [upToFramebuffer, framebuffer]
    · have shorter : starts.length ≤ fuel := Nat.le_of_succ_le_succ enough
      obtain ⟨visited, result, places⟩ := ih shorter (next_start boundary next.inside)
      refine ⟨tag :: visited, ?_, ?_⟩
      · simp [tagLoop, type, framebuffer, result]
      · simpa [upToFramebuffer, framebuffer] using places

end

/-- The five variables are those of the framebuffer tag at `p`. -/
structure Describes (ram : Mem) (p : Nat) (vars : FramebufferVars) : Prop where
  addr : vars.addr.toNat = (load64 ram (p + 8)).toNat
  pitch : vars.pitch = ram.load32 (p + 16)
  width : vars.width = ram.load32 (p + 20)
  height : vars.height = ram.load32 (p + 24)
  bpp : vars.bpp.toNat = (ram (p + 28)).toNat

/-- `init_graphics` returns, has looked at the starts of the tags and at nothing
else, and has taken the variables from the first framebuffer tag, or left them. -/
theorem initGraphics_first {ram : Mem} {m : UInt32} {starts : List Nat}
    (block : Tags ram (m.toNat + 8) starts)
    (low : ∀ p, starts.find? (tagType ram · = 8) = some p → (load64 ram (p + 8)).toNat < 4294967296)
    (vars : FramebufferVars) {fuel : Nat} (enough : starts.length ≤ fuel) :
    ∃ vars' visited, initGraphics ram m vars fuel = some (vars', visited) ∧
      visited.map UInt32.toNat = upToFramebuffer ram starts ∧
      (∀ p, starts.find? (tagType ram · = 8) = some p → Describes ram p vars') ∧
      (starts.find? (tagType ram · = 8) = none → vars' = vars) := by
  have inside := block.inside
  have first : (m + 8).toNat = m.toNat + 8 := by
    rw [UInt32.toNat_add]
    exact Nat.mod_eq_of_lt (Nat.lt_of_lt_of_le (Nat.lt_add_of_pos_right (by decide)) inside)
  rw [← first] at block
  obtain ⟨visited, result, places⟩ := tagLoop_visits vars block enough
  refine ⟨_, visited, result, places, ?_, ?_⟩
  · intro p found
    rw [found]
    refine ⟨?_, rfl, rfl, rfl, ?_⟩
    · exact (UInt64.toNat_toUInt32 _).trans (Nat.mod_eq_of_lt (low p found))
    · exact UInt8.toNat_toUInt32 _
  · intro none
    rw [none]
    rfl

/-- A command line, a framebuffer of 640 by 480 and the end. -/
theorem initGraphics_first_block :
    let ram : Mem := .ofList
      [64, 0, 0, 0, 0, 0, 0, 0, 1, 0, 0, 0, 12, 0, 0, 0, 104, 105, 0, 0, 0, 0, 0, 0,
        8, 0, 0, 0, 32, 0, 0, 0, 0, 0, 0, 224, 0, 0, 0, 0, 0, 10, 0, 0, 128, 2, 0, 0,
        224, 1, 0, 0, 32, 1, 0, 0, 0, 0, 0, 0, 8, 0, 0, 0]
    let starts := [8, 24, 56]
    ∃ vars' visited, initGraphics ram 0 ⟨0, 0, 0, 0, 0⟩ 3 = some (vars', visited) ∧
      visited.map UInt32.toNat = upToFramebuffer ram starts ∧
      (∀ p, starts.find? (tagType ram · = 8) = some p → Describes ram p vars') ∧
      (starts.find? (tagType ram · = 8) = none → vars' = ⟨0, 0, 0, 0, 0⟩) := by
  intro ram starts
  have found : starts.find? (tagType ram · = 8) = some 24 := by decide
  have ending : Tags ram 56 [56] := .last (by decide) (by decide) (by decide) (by decide)
  have third : Aligned.roundUp 8 (24 + (tagSize ram 24).toNat) = 56 := by decide
  have second : Aligned.roundUp 8 (8 + (tagSize ram 8).toNat) = 24 := by decide
  have framebuffer : Tags ram 24 [24, 56] :=
    .tag (by decide) (by decide) (by decide) (third.symm ▸ ending)
  have block : Tags ram 8 starts :=
    .tag (by decide) (by decide) (by decide) (second.symm ▸ framebuffer)
  refine initGraphics_first block (fun p first => ?_) _ (by decide)
  rw [found] at first
  cases first
  decide

end Multiboot

end MyOS
