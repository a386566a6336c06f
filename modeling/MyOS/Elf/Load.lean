import MyOS.Heap
import MyOS.StringC

/-!
exec_elf.c: `elf32_load_and_run` up to the call of the program's entry. All
sums and differences of header fields are 32 bits wide.
-/

namespace MyOS

/-- The fields the loader reads of `struct elf32_hdr`. -/
structure Elf32Hdr where
  eEntry : UInt32
  ePhoff : UInt32
  ePhentsize : UInt16
  ePhnum : UInt16
  deriving DecidableEq

/-- The fields the loader reads of `struct elf32_phdr`. -/
structure Elf32Phdr where
  pType : UInt32
  pOffset : UInt32
  pVaddr : UInt32
  pFilesz : UInt32
  pMemsz : UInt32
  deriving DecidableEq

def Elf32Phdr.isLoad (ph : Elf32Phdr) : Bool := ph.pType == 1

def elf32Hdr (buf : Mem) : Elf32Hdr :=
  { eEntry := buf.load32 24
    ePhoff := buf.load32 28
    ePhentsize := buf.load16 42
    ePhnum := buf.load16 44 }

def elf32Phdr (buf : Mem) (off : Nat) : Elf32Phdr :=
  { pType := buf.load32 off
    pOffset := buf.load32 (off + 4)
    pVaddr := buf.load32 (off + 8)
    pFilesz := buf.load32 (off + 16)
    pMemsz := buf.load32 (off + 20) }

/-- `e_phoff + i * e_phentsize` -/
def phdrOffset (eh : Elf32Hdr) (i : Nat) : UInt32 :=
  eh.ePhoff + i.toUInt32 * eh.ePhentsize.toUInt32

/-- The headers both passes go through. -/
def phdrs (buf : Mem) (eh : Elf32Hdr) : List Elf32Phdr :=
  (List.range eh.ePhnum.toNat).map fun i => elf32Phdr buf (phdrOffset eh i).toNat

/-- The program header table lies inside the file. -/
def TableInside (buf : Mem) (elfSize : UInt32) : Prop :=
  ∀ i < (elf32Hdr buf).ePhnum.toNat, (elf32Hdr buf).ePhoff.toNat +
    i * (elf32Hdr buf).ePhentsize.toNat + 32 ≤ elfSize.toNat

instance (buf : Mem) (elfSize : UInt32) : Decidable (TableInside buf elfSize) :=
  inferInstanceAs (Decidable (∀ i < _, _))

def magicOk (buf : Mem) : Bool :=
  buf 0 == 0x7F && buf 1 == 0x45 && buf 2 == 0x4C && buf 3 == 0x46

/-! ## First pass -/

/-- `min_vaddr` and `max_vaddr`. -/
structure Span where
  minVaddr : UInt32
  maxVaddr : UInt32
  deriving DecidableEq

def Span.cover (s : Span) (ph : Elf32Phdr) : Span :=
  if ph.isLoad then
    { minVaddr := if ph.pVaddr < s.minVaddr then ph.pVaddr else s.minVaddr
      maxVaddr := if ph.pVaddr + ph.pMemsz > s.maxVaddr then ph.pVaddr + ph.pMemsz else s.maxVaddr }
  else s

def span (phs : List Elf32Phdr) : Span := phs.foldl Span.cover ⟨0xFFFFFFFF, 0⟩

/-! ## Second pass -/

/-- The block behind the pointer `mem`. `writes` are the ranges written, oldest
first, as offset and length. -/
structure Image where
  mem : UInt32
  total : UInt32
  contents : Mem
  writes : List (Nat × Nat)

/-- `for (i = 0; i < total; i++) mem[i] = 0;` -/
def zeroFill (m : Mem) : Nat → Mem
  | 0 => m
  | n + 1 => (zeroFill m n).set n 0

def freshImage (ram : Mem) (mem total : UInt32) : Image :=
  { mem, total, contents := zeroFill ram total.toNat, writes := [(0, total.toNat)] }

/-- `memcpy(mem + dest, buf + ph->p_offset, ph->p_filesz)` -/
def Image.copyIn (img : Image) (buf : Mem) (dest : UInt32) (ph : Elf32Phdr) : Image :=
  { img with
    contents := memcpy img.contents dest.toNat buf ph.pOffset.toNat ph.pFilesz.toNat
    writes := img.writes ++ [(dest.toNat, ph.pFilesz.toNat)] }

/-- `none` is the return of -6. -/
def loadSegments (buf : Mem) (elfSize minVaddr : UInt32) :
    List Elf32Phdr → Image → Option Image
  | [], img => some img
  | ph :: phs, img =>
    if ph.isLoad then
      if ph.pOffset + ph.pFilesz > elfSize then none
      else loadSegments buf elfSize minVaddr phs (img.copyIn buf (ph.pVaddr - minVaddr) ph)
    else loadSegments buf elfSize minVaddr phs img

/-! ## The loader -/

inductive Loaded
  /-- A negative return value before the entry is called. -/
  | error (code : Int)
  /-- `entry()` is called, at the offset `entryRel` of the image. -/
  | entered (img : Image) (entryRel : UInt32)

def Loaded.reaches : Loaded → Bool
  | .error _ => false
  | .entered .. => true

theorem Loaded.entered_of_reaches {l : Loaded} (h : l.reaches = true) :
    ∃ img entryRel, l = .entered img entryRel := by
  cases l with
  | error code => cases h
  | entered img entryRel => exact ⟨img, entryRel, rfl⟩

/-- `ram` is what the bytes behind the new block held before. -/
def elf32LoadAndRun (ram : Mem) (heap : UInt32) (buf : Mem) (elfSize : UInt32) : Loaded :=
  if elfSize < 52 then .error (-1)
  else if !magicOk buf then .error (-2)
  else
    let eh := elf32Hdr buf
    if eh.ePhoff = 0 ∨ eh.ePhnum = 0 then .error (-3)
    else
      let s := span (phdrs buf eh)
      if s.minVaddr = 0xFFFFFFFF then .error (-4)
      else
        let total := s.maxVaddr - s.minVaddr
        let mem := (kmalloc heap total).1
        if mem = 0 then .error (-5)
        else
          match loadSegments buf elfSize s.minVaddr (phdrs buf eh) (freshImage ram mem total) with
          | none => .error (-6)
          | some img => .entered img (eh.eEntry - s.minVaddr)

/-! ## What reaching the entry tells -/

theorem loadSegments_eq {buf : Mem} {elfSize minVaddr : UInt32} {phs : List Elf32Phdr}
    {img img' : Image} (loaded : loadSegments buf elfSize minVaddr phs img = some img') :
    img'.mem = img.mem ∧ img'.total = img.total ∧
      img'.writes = img.writes ++ (phs.filter Elf32Phdr.isLoad).map fun ph =>
        ((ph.pVaddr - minVaddr).toNat, ph.pFilesz.toNat) := by
  induction phs generalizing img with
  | nil =>
    cases loaded
    exact ⟨rfl, rfl, by simp⟩
  | cons ph phs ih =>
    rw [loadSegments] at loaded
    split at loaded
    · rename_i isLoad
      split at loaded
      · cases loaded
      · obtain ⟨mem, total, writes⟩ := ih loaded
        refine ⟨mem, total, ?_⟩
        rw [writes, List.filter_cons_of_pos isLoad]
        simp [Image.copyIn]
    · rename_i other
      rw [List.filter_cons_of_neg other]
      exact ih loaded

/-- The entry is reached behind both passes. -/
theorem entered_loaded {ram : Mem} {heap : UInt32} {buf : Mem} {elfSize : UInt32} {img : Image}
    {entryRel : UInt32} (entered : elf32LoadAndRun ram heap buf elfSize = .entered img entryRel) :
    let phs := phdrs buf (elf32Hdr buf)
    (span phs).minVaddr ≠ 0xFFFFFFFF ∧ heap ≠ 0 ∧
    entryRel = (elf32Hdr buf).eEntry - (span phs).minVaddr ∧
    loadSegments buf elfSize (span phs).minVaddr phs
      (freshImage ram heap ((span phs).maxVaddr - (span phs).minVaddr)) = some img := by
  dsimp only
  simp only [elf32LoadAndRun] at entered
  split at entered
  · cases entered
  split at entered
  · cases entered
  split at entered
  · cases entered
  split at entered
  · cases entered
  rename_i some_load
  split at entered
  · cases entered
  rename_i block
  split at entered
  · cases entered
  rename_i loaded
  cases entered
  exact ⟨some_load, block, rfl, loaded⟩

/-- The image of a program whose entry is reached. -/
theorem entered_eq {ram : Mem} {heap : UInt32} {buf : Mem} {elfSize : UInt32} {img : Image}
    {entryRel : UInt32} (entered : elf32LoadAndRun ram heap buf elfSize = .entered img entryRel) :
    let phs := phdrs buf (elf32Hdr buf)
    (span phs).minVaddr ≠ 0xFFFFFFFF ∧ img.mem = heap ∧ heap ≠ 0 ∧
    img.total = (span phs).maxVaddr - (span phs).minVaddr ∧
    entryRel = (elf32Hdr buf).eEntry - (span phs).minVaddr ∧
    img.writes = (0, img.total.toNat) :: (phs.filter Elf32Phdr.isLoad).map fun ph =>
      ((ph.pVaddr - (span phs).minVaddr).toNat, ph.pFilesz.toNat) := by
  obtain ⟨some_load, block, rel, loaded⟩ := entered_loaded entered
  obtain ⟨mem, total, writes⟩ := loadSegments_eq loaded
  refine ⟨some_load, mem, block, total, rel, ?_⟩
  rw [writes, total]
  rfl

end MyOS
