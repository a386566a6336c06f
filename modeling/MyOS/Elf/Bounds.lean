import MyOS.Elf.Load

/-!
# Where the loader writes

The block spans from the lowest `p_vaddr` to the highest `p_vaddr + p_memsz`,
while the copies are `p_filesz` long and the entry is wherever the file says.
-/

namespace MyOS

/-! ## The address range of a file -/

/-- Where a segment ends in memory, in the 32-bit address space. -/
def memEnd (ph : Elf32Phdr) : Nat := (ph.pVaddr.toNat + ph.pMemsz.toNat) % 2 ^ 32

def lowest (loads : List Elf32Phdr) : Nat :=
  loads.foldl (fun low ph => min low ph.pVaddr.toNat) (2 ^ 32 - 1)

def highest (loads : List Elf32Phdr) : Nat := loads.foldl (fun high ph => max high (memEnd ph)) 0

/-- The end of the block, past the top of the address space when every segment
wraps around it. -/
def blockEnd (loads : List Elf32Phdr) : Nat :=
  if lowest loads ≤ highest loads then highest loads else highest loads + 2 ^ 32

/-- The file part of every segment ends inside the range, and the entry lies in it. -/
structure FitsBlock (loads : List Elf32Phdr) (entry : UInt32) : Prop where
  copies : ∀ ph ∈ loads, ph.pVaddr.toNat + ph.pFilesz.toNat ≤ blockEnd loads
  entry : lowest loads ≤ entry.toNat ∧ entry.toNat < blockEnd loads ∨
    entry.toNat + 2 ^ 32 < blockEnd loads

def loadsOf (buf : Mem) : List Elf32Phdr := (phdrs buf (elf32Hdr buf)).filter Elf32Phdr.isLoad

/-- Every byte written lies in the block, and so does the entry. -/
structure InBlock (img : Image) (entryRel : UInt32) : Prop where
  writes : ∀ w ∈ img.writes, w.1 + w.2 ≤ img.total.toNat
  entry : entryRel.toNat < img.total.toNat

/-! ## The first pass computes the range -/

/-- What the first pass makes of the file. -/
abbrev fileSpan (buf : Mem) : Span := span (phdrs buf (elf32Hdr buf))

theorem lowest_le_start (loads : List Elf32Phdr) (start : Nat) :
    loads.foldl (fun low ph => min low ph.pVaddr.toNat) start ≤ start := by
  induction loads generalizing start with
  | nil => exact Nat.le_refl _
  | cons ph loads ih => exact Nat.le_trans (ih _) (Nat.min_le_left ..)

theorem lowest_le {loads : List Elf32Phdr} {ph : Elf32Phdr} (h : ph ∈ loads) :
    lowest loads ≤ ph.pVaddr.toNat := by
  unfold lowest
  generalize 2 ^ 32 - 1 = start
  induction loads generalizing start with
  | nil => cases h
  | cons q loads ih =>
    rcases List.mem_cons.mp h with rfl | later
    · exact Nat.le_trans (lowest_le_start loads _) (Nat.min_le_right ..)
    · exact ih later _

theorem le_lowest {loads : List Elf32Phdr} {bound : Nat} (limit : bound ≤ 2 ^ 32 - 1)
    (above : ∀ ph ∈ loads, bound ≤ ph.pVaddr.toNat) : bound ≤ lowest loads := by
  unfold lowest
  generalize 2 ^ 32 - 1 = start at limit
  induction loads generalizing start with
  | nil => exact limit
  | cons ph loads ih =>
    obtain ⟨here, later⟩ := List.forall_mem_cons.mp above
    exact ih later _ (Nat.le_min.mpr ⟨limit, here⟩)

/-- The numbers of the first pass are those of the PT_LOAD headers. -/
theorem foldl_cover (phs : List Elf32Phdr) (s : Span) :
    (phs.foldl Span.cover s).minVaddr.toNat =
      (phs.filter Elf32Phdr.isLoad).foldl (fun low ph => min low ph.pVaddr.toNat)
        s.minVaddr.toNat ∧
    (phs.foldl Span.cover s).maxVaddr.toNat =
      (phs.filter Elf32Phdr.isLoad).foldl (fun high ph => max high (memEnd ph))
        s.maxVaddr.toNat := by
  induction phs generalizing s with
  | nil => exact ⟨rfl, rfl⟩
  | cons ph phs ih =>
    rw [List.foldl_cons]
    by_cases isLoad : ph.isLoad = true
    · have low : (s.cover ph).minVaddr.toNat = min s.minVaddr.toNat ph.pVaddr.toNat := by
        simp only [Span.cover, isLoad, if_true]
        split
        · rename_i below
          have := UInt32.lt_iff_toNat_lt.mp below
          omega
        · rename_i above
          have := mt UInt32.lt_iff_toNat_lt.mpr above
          omega
      have high : (s.cover ph).maxVaddr.toNat = max s.maxVaddr.toNat (memEnd ph) := by
        have stop : (ph.pVaddr + ph.pMemsz).toNat = memEnd ph := UInt32.toNat_add ..
        simp only [Span.cover, isLoad, if_true]
        split
        · rename_i above
          have := UInt32.lt_iff_toNat_lt.mp above
          omega
        · rename_i below
          have := mt UInt32.lt_iff_toNat_lt.mpr below
          omega
      rw [List.filter_cons_of_pos isLoad, List.foldl_cons, List.foldl_cons, ← low, ← high]
      exact ih _
    · have same : s.cover ph = s := by simp [Span.cover, isLoad]
      rw [List.filter_cons_of_neg isLoad, same]
      exact ih s

theorem span_eq (buf : Mem) :
    (fileSpan buf).minVaddr.toNat = lowest (loadsOf buf) ∧
    (fileSpan buf).maxVaddr.toNat = highest (loadsOf buf) :=
  foldl_cover _ _

/-- The first pass finds a segment, unless all there are start at the last address. -/
theorem minVaddr_iff (buf : Mem) :
    (fileSpan buf).minVaddr ≠ 0xFFFFFFFF ↔ ∃ ph ∈ loadsOf buf, ph.pVaddr ≠ 0xFFFFFFFF := by
  have low := (span_eq buf).1
  constructor
  · intro found
    by_contra! none
    have above : 2 ^ 32 - 1 ≤ lowest (loadsOf buf) :=
      le_lowest (Nat.le_refl _) fun ph mem => by
        rw [none ph mem]
        decide
    have top : (fileSpan buf).minVaddr.toNat = (0xFFFFFFFF : UInt32).toNat := by
      have := (fileSpan buf).minVaddr.toNat_lt
      have : (0xFFFFFFFF : UInt32).toNat = 2 ^ 32 - 1 := rfl
      omega
    exact found (UInt32.toNat_inj.mp top)
  · rintro ⟨ph, mem, below⟩ none
    have above := lowest_le mem
    rw [← low, none] at above
    have top : ph.pVaddr.toNat = (0xFFFFFFFF : UInt32).toNat := by
      have := ph.pVaddr.toNat_lt
      have : (0xFFFFFFFF : UInt32).toNat = 2 ^ 32 - 1 := rfl
      omega
    exact below (UInt32.toNat_inj.mp top)

/-- A difference in the 32-bit address space. -/
theorem toNat_sub_span (a b : UInt32) :
    (a - b).toNat = if b.toNat ≤ a.toNat then a.toNat - b.toNat
      else a.toNat + 2 ^ 32 - b.toNat := by
  have := a.toNat_lt
  have := b.toNat_lt
  rw [UInt32.toNat_sub]
  split <;> omega

/-- The block is as long as the range. -/
theorem total_eq (buf : Mem) :
    ((fileSpan buf).maxVaddr - (fileSpan buf).minVaddr).toNat + lowest (loadsOf buf) =
      blockEnd (loadsOf buf) := by
  obtain ⟨low, high⟩ := span_eq buf
  have := (fileSpan buf).minVaddr.toNat_lt
  rw [toNat_sub_span, low, high, blockEnd]
  split <;> omega

/-- A segment's copy stays in the block exactly when its file part ends in the range. -/
theorem copy_inside_iff {buf : Mem} {ph : Elf32Phdr} (h : ph ∈ loadsOf buf) :
    (ph.pVaddr - (fileSpan buf).minVaddr).toNat + ph.pFilesz.toNat ≤
      ((fileSpan buf).maxVaddr - (fileSpan buf).minVaddr).toNat ↔
    ph.pVaddr.toNat + ph.pFilesz.toNat ≤ blockEnd (loadsOf buf) := by
  have total := total_eq buf
  have above := lowest_le h
  rw [toNat_sub_span ph.pVaddr, (span_eq buf).1, if_pos above]
  omega

theorem entry_inside_iff (buf : Mem) (entry : UInt32) :
    (entry - (fileSpan buf).minVaddr).toNat <
      ((fileSpan buf).maxVaddr - (fileSpan buf).minVaddr).toNat ↔
    lowest (loadsOf buf) ≤ entry.toNat ∧ entry.toNat < blockEnd (loadsOf buf) ∨
      entry.toNat + 2 ^ 32 < blockEnd (loadsOf buf) := by
  have total := total_eq buf
  have := (fileSpan buf).minVaddr.toNat_lt
  have low := (span_eq buf).1
  rw [toNat_sub_span entry, low]
  split <;> omega

/-- Whenever the entry is reached, the writes stay in the block and the entry
lies in it if and only if the file's segments and entry fit the range. -/
theorem inBlock_iff (ram : Mem) (heap : UInt32) (buf : Mem) (elfSize : UInt32) (img : Image)
    (entryRel : UInt32) (entered : elf32LoadAndRun ram heap buf elfSize = .entered img entryRel) :
    InBlock img entryRel ↔ FitsBlock (loadsOf buf) (elf32Hdr buf).eEntry := by
  obtain ⟨_, _, _, total, rel, writes⟩ := entered_eq entered
  constructor
  · intro ⟨inside, reached⟩
    rw [rel, total] at reached
    refine ⟨fun ph h => ?_, (entry_inside_iff buf _).mp reached⟩
    have copy := inside ((ph.pVaddr - (fileSpan buf).minVaddr).toNat,
      ph.pFilesz.toNat) (by
        rw [writes]
        exact List.mem_cons_of_mem _ (List.mem_map.mpr ⟨ph, h, rfl⟩))
    rw [total] at copy
    exact (copy_inside_iff h).mp copy
  · intro ⟨copies, entry⟩
    rw [← entry_inside_iff, ← rel, ← total] at entry
    refine ⟨fun w hw => ?_, entry⟩
    rw [writes] at hw
    rcases List.mem_cons.mp hw with rfl | hw
    · exact Nat.le_of_eq (Nat.zero_add _)
    · obtain ⟨ph, h, rfl⟩ := List.mem_map.mp hw
      rw [total]
      exact (copy_inside_iff h).mpr (copies ph h)

/-! ## Two files -/

/-- An ELF file with one PT_LOAD header at offset 52, for the address `0x1000`,
and 16 bytes of contents behind it. -/
def oneSegment (entry filesz memsz : UInt32) : List UInt8 :=
  [0x7F, 0x45, 0x4C, 0x46, 1, 1, 1, 0, 0, 0, 0, 0, 0, 0, 0, 0] ++ bytes16 2 ++ bytes16 3 ++
    bytes32 1 ++ bytes32 entry ++ bytes32 52 ++ bytes32 0 ++ bytes32 0 ++ bytes16 52 ++
    bytes16 32 ++ bytes16 1 ++ bytes16 0 ++ bytes16 0 ++ bytes16 0 ++
    bytes32 1 ++ bytes32 84 ++ bytes32 0x1000 ++ bytes32 0x1000 ++ bytes32 filesz ++
    bytes32 memsz ++ bytes32 5 ++ bytes32 4 ++ List.replicate 16 0xC3

/-- The loader, run on such a file at the start of the heap. -/
def loadOne (entry filesz memsz : UInt32) : Loaded :=
  elf32LoadAndRun (fun _ => 0) heapStart (.ofList (oneSegment entry filesz memsz)) 100

/-- 16 bytes of file and of memory. -/
theorem inBlock_oneSegment : ∃ img entryRel, loadOne 0x1004 16 16 = .entered img entryRel ∧
    InBlock img entryRel := by
  have reaches : (loadOne 0x1004 16 16).reaches = true := by decide +kernel
  obtain ⟨img, entryRel, entered⟩ := Loaded.entered_of_reaches reaches
  refine ⟨img, entryRel, entered, (inBlock_iff _ _ _ _ img entryRel entered).mpr ⟨?_, ?_⟩⟩
  · decide +kernel
  · decide +kernel

/-- 16 bytes of file in a segment of one byte of memory: 16 bytes go into a
block of one. -/
theorem overlong_copy : TableInside (.ofList (oneSegment 0x1000 16 1)) 100 ∧
    ∃ img entryRel, loadOne 0x1000 16 1 = .entered img entryRel ∧ ¬ InBlock img entryRel := by
  refine ⟨by decide +kernel, ?_⟩
  have reaches : (loadOne 0x1000 16 1).reaches = true := by decide +kernel
  obtain ⟨img, entryRel, entered⟩ := Loaded.entered_of_reaches reaches
  obtain ⟨_, _, _, total, _, writes⟩ := entered_eq entered
  refine ⟨img, entryRel, entered, fun inBlock => ?_⟩
  have written : (0, 16) ∈ img.writes := by
    rw [writes]
    exact List.mem_cons_of_mem _ (by decide +kernel)
  have inside := inBlock.writes _ written
  rw [total] at inside
  revert inside
  decide +kernel

end MyOS
