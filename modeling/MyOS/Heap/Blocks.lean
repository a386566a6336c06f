import Mathlib.Order.CompletePartialOrder
import Mathlib.Order.Interval.Set.Disjoint
import MyOS.Base.Runs
import MyOS.Heap

/-!
# What the allocator hands out

Rounding, the product of `calloc` and the heap pointer itself are all 32 bits
wide, and nothing looks at their overflow. The pointer passes NULL once, and
only when it hits 0 exactly.
-/

namespace MyOS.Blocks

open Runs

inductive AllocCall
  | kmalloc (sz : UInt32)
  | malloc (size : UInt32)
  | calloc (n size : UInt32)

/-- The number of bytes the caller asks for. -/
def AllocCall.requested : AllocCall → Nat
  | .kmalloc sz | .malloc sz => sz.toNat
  | .calloc n size => n.toNat * size.toNat

/-- A block that was returned: the bytes asked for, and by how much the heap
pointer moved for them. -/
structure Block where
  addr : UInt32
  size : Nat
  moved : Nat
  deriving DecidableEq

def Block.range (b : Block) : Set Nat := Set.Ico b.addr.toNat (b.addr.toNat + b.size)

/-- The heap with the blocks returned so far, oldest first, NULL left out.
`pos` is the heap pointer as it would be without wrapping around. -/
structure Arena where
  heap : UInt32
  ram : Mem
  pos : Nat
  blocks : List Block

def Arena.boot (ram : Mem) : Arena := ⟨heapStart, ram, heapStart.toNat, []⟩

/-- The pointer returned, the heap pointer and the memory after the call. -/
def AllocCall.run (a : Arena) : AllocCall → UInt32 × UInt32 × Mem
  | .kmalloc sz => ((MyOS.kmalloc a.heap sz).1, (MyOS.kmalloc a.heap sz).2, a.ram)
  | .malloc size => ((MyOS.malloc a.heap size).1, (MyOS.malloc a.heap size).2, a.ram)
  | .calloc n size => MyOS.calloc a.heap a.ram n size

def allocStep (a : Arena) (c : AllocCall) : Arena :=
  let (p, heap, ram) := c.run a
  let moved := (heap - a.heap).toNat
  { heap, ram
    pos := a.pos + moved
    blocks := if p = 0 then a.blocks else a.blocks ++ [⟨p, c.requested, moved⟩] }

/-- A block of its own: aligned, covered by what the pointer moved, and inside
the address space. -/
structure Block.Sound (b : Block) : Prop where
  aligned : 16 ∣ b.addr.toNat
  large : b.size ≤ b.moved
  inside : b.addr.toNat + b.size ≤ 2 ^ 32

/-- What the callers rely on, of all the blocks returned so far. -/
structure Sound (a : Arena) : Prop where
  each : ∀ b ∈ a.blocks, b.Sound
  apart : a.blocks.Pairwise fun b c => Disjoint b.range c.range

/-- Nothing is asked for, or the pointer stands at 0, or the request ends below
the top of memory, once around below the start of the heap. -/
def Fits (a : Arena) (c : AllocCall) : Prop :=
  c.requested = 0 ∨ a.heap = 0 ∨
    a.heap.toNat + c.requested ≤ if a.pos < 2 ^ 32 then 2 ^ 32 else heapStart.toNat

/-! ## One call -/

/-- The argument `kmalloc` is called with in the end. -/
def AllocCall.tot : AllocCall → UInt32
  | .kmalloc sz | .malloc sz => sz
  | .calloc n size => n * size

def roundUp (n : Nat) : Nat := (n + 15) / 16 * 16

def AllocCall.moved (c : AllocCall) : Nat := (c.tot.toNat + 15) % 2 ^ 32 / 16 * 16

theorem allocStep_eq (a : Arena) (c : AllocCall) :
    (allocStep a c).heap.toNat = (a.heap.toNat + AllocCall.moved c) % 2 ^ 32 ∧
    (allocStep a c).pos = a.pos + AllocCall.moved c ∧
    (allocStep a c).blocks =
      if a.heap = 0 then a.blocks else a.blocks ++ [⟨a.heap, c.requested, AllocCall.moved c⟩] := by
  have heap : (allocStep a c).heap = (kmalloc a.heap c.tot).2 := by cases c <;> rfl
  have ptr : (c.run a).1 = a.heap := by cases c <;> rfl
  have moved : ((allocStep a c).heap - a.heap).toNat = AllocCall.moved c := by
    have cancel (x y : UInt32) : x + y - x = y := by grind
    rw [heap, kmalloc, cancel, toNat_roundUp, AllocCall.moved]
  have blocks : (allocStep a c).blocks = if (c.run a).1 = 0 then a.blocks else
      a.blocks ++ [⟨(c.run a).1, c.requested, ((allocStep a c).heap - a.heap).toNat⟩] := rfl
  refine ⟨by rw [heap, toNat_kmalloc, AllocCall.moved], by rw [← moved]; rfl, ?_⟩
  rw [blocks, ptr, moved]

/-- A request that does not run over 2^32 moves the pointer by its size rounded
up. -/
theorem moved_eq {c : AllocCall} (short : c.requested + 15 < 2 ^ 32) :
    AllocCall.moved c = roundUp c.requested := by
  have tot : c.tot.toNat = c.requested := by
    cases c with
    | kmalloc | malloc => rfl
    | calloc n size =>
      simp only [AllocCall.requested] at short
      simp only [AllocCall.tot, AllocCall.requested, UInt32.toNat_mul]
      exact Nat.mod_eq_of_lt (by omega)
  rw [AllocCall.moved, tot, Nat.mod_eq_of_lt short, roundUp]

/-! ## The invariant -/

/-- Where the blocks lie. Before the pointer has gone round they end below it;
afterwards they are the old ones, and new ones below the pointer again. They
leave no aligned address of the heap free. -/
structure Laid (a : Arena) : Prop where
  heap : a.heap.toNat = a.pos % 2 ^ 32
  aligned : 16 ∣ a.pos
  lower : heapStart.toNat ≤ a.pos
  upper : a.pos < 2 ^ 33
  sound : Sound a
  placed : ∀ b ∈ a.blocks, b.size = 0 ∨
    heapStart.toNat ≤ b.addr.toNat ∧ b.addr.toNat + b.size ≤ a.pos ∨
    b.addr.toNat + b.size + 2 ^ 32 ≤ a.pos
  covered : ∀ p, 16 ∣ p → heapStart.toNat ≤ p → p < a.pos → p < 2 ^ 32 →
    ∃ b ∈ a.blocks, p ∈ b.range

theorem boot_laid (ram : Mem) : Laid (.boot ram) where
  heap := rfl
  aligned := (by decide : 16 ∣ heapStart.toNat)
  lower := Nat.le_refl _
  upper := (by decide : heapStart.toNat < 2 ^ 33)
  sound := ⟨by simp [Arena.boot], by simp [Arena.boot]⟩
  placed := by simp [Arena.boot]
  covered := fun p _ lo hi => absurd hi (Nat.not_lt.mpr lo)

theorem heapStart_toNat : heapStart.toNat = 2 ^ 24 := rfl

theorem roundUp_spec (n : Nat) : n ≤ roundUp n ∧ roundUp n < n + 16 ∧ 16 ∣ roundUp n :=
  ⟨by unfold roundUp; omega, by unfold roundUp; omega, Nat.dvd_mul_left ..⟩

theorem moved_spec (c : AllocCall) : 16 ∣ AllocCall.moved c ∧ AllocCall.moved c < 2 ^ 32 :=
  ⟨Nat.dvd_mul_left .., by unfold AllocCall.moved; omega⟩

/-- The pointer is 0: NULL is returned, and the pointer moves on. -/
theorem step_null {a : Arena} (laid : Laid a) (null : a.heap = 0) (c : AllocCall) :
    Laid (allocStep a c) := by
  obtain ⟨heap, pos, blocks⟩ := allocStep_eq a c
  rw [if_pos null] at blocks
  obtain ⟨divides, small⟩ := moved_spec c
  have around : a.pos % 2 ^ 32 = 0 := by rw [← laid.heap, null]; rfl
  have lower := laid.lower
  have upper := laid.upper
  rw [heapStart_toNat] at lower
  refine ⟨?_, ?_, ?_, ?_, ⟨?_, ?_⟩, ?_, ?_⟩
  · rw [heap, pos, laid.heap, Nat.mod_add_mod]
  · exact pos ▸ Nat.dvd_add laid.aligned divides
  · rw [pos, heapStart_toNat]; omega
  · omega
  · exact blocks ▸ laid.sound.each
  · exact blocks ▸ laid.sound.apart
  · rw [blocks, pos]
    intro b hb
    have := laid.placed b hb
    omega
  · rw [blocks]
    intro p divisible start _ top
    exact laid.covered p divisible start (by omega) top

/-- The pointer is not 0 and the request fits behind it. -/
theorem step_block {a : Arena} (laid : Laid a) (there : a.heap ≠ 0) {c : AllocCall}
    (fits : c.requested = 0 ∨
      a.heap.toNat + c.requested ≤ if a.pos < 2 ^ 32 then 2 ^ 32 else heapStart.toNat) :
    Laid (allocStep a c) := by
  obtain ⟨heap, pos, blocks⟩ := allocStep_eq a c
  rw [if_neg there] at blocks
  have lower := laid.lower
  have upper := laid.upper
  have aligned := laid.aligned
  have around := laid.heap
  have positive : a.heap.toNat ≠ 0 := fun h => there (UInt32.toNat_inj.mp h)
  rw [heapStart_toNat] at lower fits
  have short : c.requested + 15 < 2 ^ 32 := by
    split at fits <;> omega
  rw [moved_eq short] at heap pos blocks
  obtain ⟨enough, tight, divides⟩ := roundUp_spec c.requested
  generalize roundUp c.requested = r at *
  have fits : c.requested = 0 ∨ a.pos < 2 ^ 32 ∧ a.heap.toNat + c.requested ≤ 2 ^ 32 ∨
      2 ^ 32 ≤ a.pos ∧ a.heap.toNat + c.requested ≤ 2 ^ 24 := by
    split at fits <;> omega
  refine ⟨?_, ?_, ?_, ?_, ⟨?_, ?_⟩, ?_, ?_⟩
  · rw [heap, pos, laid.heap, Nat.mod_add_mod]
  · exact pos ▸ Nat.dvd_add laid.aligned divides
  · rw [pos, heapStart_toNat]; omega
  · omega
  · rw [blocks]
    intro b hb
    rcases List.mem_append.mp hb with old | new
    · exact laid.sound.each b old
    · rw [List.mem_singleton.mp new]
      exact ⟨by dsimp only; omega, enough, by dsimp only; omega⟩
  · rw [blocks, List.pairwise_append]
    refine ⟨laid.sound.apart, List.pairwise_singleton .., fun b hb d hd => ?_⟩
    have placed := laid.placed b hb
    rw [heapStart_toNat] at placed
    rw [List.mem_singleton.mp hd, Block.range, Block.range, Set.Ico_disjoint_Ico]
    dsimp only
    omega
  · rw [blocks, pos, heapStart_toNat]
    intro b hb
    rcases List.mem_append.mp hb with old | new
    · have := laid.placed b old
      rw [heapStart_toNat] at this
      omega
    · rw [List.mem_singleton.mp new]
      dsimp only
      omega
  · rw [blocks, pos]
    intro p divisible start below top
    by_cases before : p < a.pos
    · obtain ⟨b, hb, inside⟩ := laid.covered p divisible start before top
      exact ⟨b, List.mem_append_left _ hb, inside⟩
    · refine ⟨_, List.mem_append_right _ (List.mem_singleton_self _), ?_⟩
      exact ⟨by dsimp only; omega, by dsimp only; omega⟩

theorem step_laid (a : Arena) (c : AllocCall) (laid : Laid a) (fits : Fits a c) :
    Laid (allocStep a c) := by
  by_cases null : a.heap = 0
  · exact step_null laid null c
  · refine step_block laid null ?_
    rcases fits with nothing | zero | room
    · exact Or.inl nothing
    · exact absurd zero null
    · exact Or.inr room

/-- A request that does not fit is answered with a block that runs over the top
of memory, or into one returned before. -/
theorem unfit_unsound (a : Arena) (c : AllocCall) (laid : Laid a) (unfit : ¬ Fits a c) :
    ¬ Sound (allocStep a c) := by
  obtain ⟨-, -, blocks⟩ := allocStep_eq a c
  simp only [Fits, not_or] at unfit
  obtain ⟨some, there, past⟩ := unfit
  rw [if_neg there] at blocks
  intro sound
  have inside :=
    (sound.each _ (blocks ▸ List.mem_append_right _ (List.mem_singleton_self _))).inside
  have apart := sound.apart
  rw [blocks, List.pairwise_append] at apart
  have around := laid.heap
  have aligned := laid.aligned
  dsimp only at inside
  by_cases first : a.pos < 2 ^ 32
  · rw [if_pos first] at past
    omega
  · rw [if_neg first, heapStart_toNat] at past
    -- the first aligned address of the new block that belongs to the heap
    obtain ⟨b, hb, taken⟩ := laid.covered (max a.heap.toNat (2 ^ 24)) (by omega)
      (by rw [heapStart_toNat]; omega) (by omega) (by omega)
    refine Set.disjoint_left.mp (apart.2.2 b hb _ (List.mem_singleton_self _)) taken ?_
    exact ⟨by dsimp only; omega, by dsimp only; omega⟩

/-- In any sequence of calls, what is returned can be relied on throughout if
and only if every request fits. -/
theorem sound_along_iff (ram : Mem) (calls : List AllocCall) :
    Along allocStep Sound (.boot ram) calls ↔ Steps allocStep Fits (.boot ram) calls :=
  along_iff_steps (E := fun _ => True) (fun a c _ => step_laid a c) (fun _ laid => laid.sound)
    (fun a c _ => unfit_unsound a c) (fun _ _ => trivial) (boot_laid ram)

/-- A request for almost 4 GiB is rounded up to nothing: the block is returned
and the pointer stays where it is. -/
theorem kmalloc_rounds_to_nothing :
    ¬ Along allocStep Sound (.boot fun _ => 0) [.kmalloc 0xFFFFFFF8, .malloc 16] := by
  intro along
  have large := (along.2.1.each ⟨heapStart, 0xFFFFFFF8, 0⟩ (by decide)).large
  exact absurd large (by decide)

end MyOS.Blocks
