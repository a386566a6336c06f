import MyOS.Base.Traced
import MyOS.Elf.Bounds

/-!
# What the loader reads of the file

`elf32_load_and_run` once more, with the offsets it reads. Both passes go through
the table entry by entry, and a header is read as the struct its pointer has.
-/

namespace MyOS.FileReads

open Traced

variable (buf : Mem) (elfSize : UInt32)

/-- `ph = buf + eh->e_phoff + i*eh->e_phentsize` -/
def phdr (eh : Elf32Hdr) (i : Nat) : Traced Elf32Phdr :=
  read (phdrOffset eh i).toNat 32 (elf32Phdr buf (phdrOffset eh i).toNat)

/-- The first pass, over the entries still to come. -/
def firstPass (eh : Elf32Hdr) : List Nat → Span → Traced Span
  | [], s => pure s
  | i :: entries, s => do
    let ph ← phdr buf eh i
    firstPass eh entries (s.cover ph)

/-- `memcpy(mem + dest, buf + ph->p_offset, ph->p_filesz)` -/
def copyIn (img : Image) (dest : UInt32) (ph : Elf32Phdr) : Traced Image :=
  read ph.pOffset.toNat ph.pFilesz.toNat (img.copyIn buf dest ph)

def secondPass (minVaddr : UInt32) (eh : Elf32Hdr) : List Nat → Image → Traced (Option Image)
  | [], img => pure (some img)
  | i :: entries, img => do
    let ph ← phdr buf eh i
    if ph.isLoad then
      if ph.pOffset + ph.pFilesz > elfSize then pure none
      else do
        let img ← copyIn buf img (ph.pVaddr - minVaddr) ph
        secondPass minVaddr eh entries img
    else secondPass minVaddr eh entries img

/-- What follows the checks of the ELF header. -/
def loadTable (ram : Mem) (heap : UInt32) (eh : Elf32Hdr) : Traced Loaded := do
  let s ← firstPass buf eh (List.range eh.ePhnum.toNat) ⟨0xFFFFFFFF, 0⟩
  if s.minVaddr = 0xFFFFFFFF then pure (.error (-4))
  else
    let total := s.maxVaddr - s.minVaddr
    let mem := (kmalloc heap total).1
    if mem = 0 then pure (.error (-5))
    else do
      let loaded ← secondPass buf elfSize s.minVaddr eh (List.range eh.ePhnum.toNat)
        (freshImage ram mem total)
      match loaded with
      | none => pure (.error (-6))
      | some img => pure (.entered img (eh.eEntry - s.minVaddr))

def elf32LoadAndRun (ram : Mem) (heap : UInt32) : Traced Loaded :=
  if elfSize < 52 then pure (.error (-1))
  else do
    let magic ← read 0 4 (magicOk buf)
    if !magic then pure (.error (-2))
    else do
      let eh ← read 0 52 (elf32Hdr buf)
      if eh.ePhoff = 0 ∨ eh.ePhnum = 0 then pure (.error (-3))
      else loadTable buf elfSize ram heap eh

/-! ## The values are those of the loader -/

section
variable {buf : Mem} {elfSize : UInt32} {eh : Elf32Hdr}

@[simp] theorem val_phdr (i : Nat) :
    (phdr buf eh i).val = elf32Phdr buf (phdrOffset eh i).toNat := rfl

@[simp] theorem val_copyIn (img : Image) (dest : UInt32) (ph : Elf32Phdr) :
    (copyIn buf img dest ph).val = img.copyIn buf dest ph := rfl

theorem firstPass_val (entries : List Nat) (s : Span) : (firstPass buf eh entries s).val =
    (entries.map fun i => elf32Phdr buf (phdrOffset eh i).toNat).foldl Span.cover s := by
  induction entries generalizing s with
  | nil => rfl
  | cons i entries ih => exact ih _

theorem secondPass_val (minVaddr : UInt32) (entries : List Nat) (img : Image) :
    (secondPass buf elfSize minVaddr eh entries img).val = loadSegments buf elfSize minVaddr
      (entries.map fun i => elf32Phdr buf (phdrOffset eh i).toNat) img := by
  induction entries generalizing img with
  | nil => rfl
  | cons i entries ih =>
    rw [List.map_cons, secondPass, loadSegments, val_bind, val_phdr, val_ite, val_ite, ih,
      val_bind, val_copyIn, ih]
    rfl

theorem firstPass_span : (firstPass buf eh (List.range eh.ePhnum.toNat) ⟨0xFFFFFFFF, 0⟩).val =
    span (phdrs buf eh) :=
  firstPass_val _ _

end

theorem elf32LoadAndRun_val (ram : Mem) (heap : UInt32) :
    (elf32LoadAndRun buf elfSize ram heap).val = MyOS.elf32LoadAndRun ram heap buf elfSize := by
  simp only [elf32LoadAndRun, loadTable, MyOS.elf32LoadAndRun]
  split
  · rfl
  rw [val_bind, val_read]
  split
  · rfl
  rw [val_bind, val_read]
  split
  · rfl
  simp only [val_bind, firstPass_span]
  split
  · rfl
  split
  · rfl
  rw [val_bind, secondPass_val, ← phdrs]
  split <;> simp only [*, val_pure]

/-! ## What is read in each pass -/

section
variable {buf : Mem} {elfSize : UInt32} {eh : Elf32Hdr} {P : Nat → Prop}

theorem firstPass_within (entries : List Nat) (s : Span) :
    Within P (firstPass buf eh entries s) ↔ ∀ i ∈ entries, Within P (phdr buf eh i) := by
  induction entries generalizing s with
  | nil => simp [firstPass]
  | cons i entries ih => rw [firstPass, within_bind, ih, List.forall_mem_cons]

/-- `ph->p_offset + ph->p_filesz <= elf_size`, in 32 bits. -/
def passes (elfSize : UInt32) (ph : Elf32Phdr) : Bool := ph.pOffset + ph.pFilesz ≤ elfSize

/-- The headers among `phs` that are copied from: the PT_LOAD headers in front of
the first that does not pass. -/
def copied (elfSize : UInt32) (phs : List Elf32Phdr) : List Elf32Phdr :=
  (phs.filter Elf32Phdr.isLoad).takeWhile (passes elfSize)

theorem secondPass_within (minVaddr : UInt32) {entries : List Nat} (img : Image)
    (headers : ∀ i ∈ entries, Within P (phdr buf eh i)) :
    Within P (secondPass buf elfSize minVaddr eh entries img) ↔
      ∀ ph ∈ copied elfSize (entries.map fun i => elf32Phdr buf (phdrOffset eh i).toNat),
        ∀ k < ph.pFilesz.toNat, P (ph.pOffset.toNat + k) := by
  induction entries generalizing img with
  | nil => simp [secondPass, copied]
  | cons i entries ih =>
    obtain ⟨here, later⟩ := List.forall_mem_cons.mp headers
    rw [secondPass, within_bind, val_phdr, List.map_cons, copied]
    generalize elf32Phdr buf (phdrOffset eh i).toNat = ph
    by_cases isLoad : ph.isLoad = true
    · simp only [if_pos isLoad, List.filter_cons_of_pos isLoad, List.takeWhile_cons]
      by_cases fits : ph.pOffset + ph.pFilesz ≤ elfSize
      · have pass : passes elfSize ph = true := decide_eq_true fits
        have kept : ¬ ph.pOffset + ph.pFilesz > elfSize := UInt32.not_lt.mpr fits
        rw [if_neg kept, if_pos pass, within_bind, copyIn, within_read, val_read,
          ih _ later, List.forall_mem_cons]
        exact and_iff_right here
      · have fails : ¬ passes elfSize ph = true := by simp [passes, fits]
        have refused : ph.pOffset + ph.pFilesz > elfSize := UInt32.not_le.mp fits
        simp only [if_pos refused, if_neg fails]
        exact iff_of_true ⟨here, within_pure P none⟩ (List.forall_mem_nil _)
    · simp only [if_neg isLoad, List.filter_cons_of_neg isLoad, ih _ later]
      exact and_iff_right here

/-! ## The file's range -/

theorem phdr_inside (i : Nat) : Within (· < elfSize.toNat) (phdr buf eh i) ↔
    (phdrOffset eh i).toNat + 32 ≤ elfSize.toNat := by
  simp only [phdr, within_read]
  constructor
  · intro all
    exact all 31 (by omega)
  · intro fits k below
    omega

/-- What a copy reads, once the check has let it pass. -/
theorem source_inside {ph : Elf32Phdr} (pass : passes elfSize ph = true) :
    (∀ k < ph.pFilesz.toNat, ph.pOffset.toNat + k < elfSize.toNat) ↔
      ph.pOffset.toNat + ph.pFilesz.toNat < 2 ^ 32 := by
  have sum := UInt32.le_iff_toNat_le.mp (of_decide_eq_true pass)
  rw [UInt32.toNat_add] at sum
  have size := elfSize.toNat_lt
  constructor
  · intro all
    by_contra wraps
    have start := ph.pOffset.toNat_lt
    have last := all (ph.pFilesz.toNat - 1) (by omega)
    omega
  · intro small k below
    rw [Nat.mod_eq_of_lt small] at sum
    omega

end

/-- The loader gets as far as the program header table. -/
def ReachesTable (buf : Mem) (elfSize : UInt32) : Prop :=
  52 ≤ elfSize.toNat ∧ magicOk buf = true ∧
    (elf32Hdr buf).ePhoff ≠ 0 ∧ (elf32Hdr buf).ePhnum ≠ 0

/-- It gets through the table to the copying of segments. -/
def ReachesCopies (buf : Mem) (heap : UInt32) : Prop :=
  (∃ ph ∈ loadsOf buf, ph.pVaddr ≠ 0xFFFFFFFF) ∧ heap ≠ 0

/-- Every header of the table lies in the file, and no sum that the check lets
pass has wrapped around. -/
structure WellPlaced (buf : Mem) (elfSize heap : UInt32) : Prop where
  table : ReachesTable buf elfSize → ∀ i < (elf32Hdr buf).ePhnum.toNat,
    (phdrOffset (elf32Hdr buf) i).toNat + 32 ≤ elfSize.toNat
  segments : ReachesTable buf elfSize → ReachesCopies buf heap →
    ∀ ph ∈ (loadsOf buf).takeWhile (passes elfSize),
      ph.pOffset.toNat + ph.pFilesz.toNat < 2 ^ 32

theorem loadTable_within (ram : Mem) (heap : UInt32) (buf : Mem) (elfSize : UInt32) :
    Within (· < elfSize.toNat) (loadTable buf elfSize ram heap (elf32Hdr buf)) ↔
      (∀ i < (elf32Hdr buf).ePhnum.toNat,
        (phdrOffset (elf32Hdr buf) i).toNat + 32 ≤ elfSize.toNat) ∧
      (ReachesCopies buf heap → ∀ ph ∈ (loadsOf buf).takeWhile (passes elfSize),
        ph.pOffset.toNat + ph.pFilesz.toNat < 2 ^ 32) := by
  have table : (∀ i ∈ List.range (elf32Hdr buf).ePhnum.toNat,
      Within (· < elfSize.toNat) (phdr buf (elf32Hdr buf) i)) ↔
      ∀ i < (elf32Hdr buf).ePhnum.toNat,
        (phdrOffset (elf32Hdr buf) i).toNat + 32 ≤ elfSize.toNat := by
    simp only [List.mem_range, phdr_inside]
  have given (total : UInt32) : (kmalloc heap total).1 = heap := rfl
  simp only [loadTable, given]
  simp only [within_bind, firstPass_within, firstPass_span, table]
  refine and_congr_right fun inside => ?_
  by_cases noLoad : (fileSpan buf).minVaddr = 0xFFFFFFFF
  · rw [if_pos noLoad]
    refine iff_of_true (within_pure _ _) fun copies => ?_
    exact absurd noLoad ((minVaddr_iff buf).mpr copies.1)
  rw [if_neg noLoad]
  by_cases block : heap = 0
  · rw [if_pos block]
    exact iff_of_true (within_pure _ _) fun copies => absurd block copies.2
  have copies : ReachesCopies buf heap := ⟨(minVaddr_iff buf).mp noLoad, block⟩
  rw [if_neg block, within_bind, secondPass_within _ _ (table.mpr inside), and_iff_left]
  · constructor
    · intro all _ ph mem
      exact (source_inside (List.mem_takeWhile_imp mem)).mp (all ph mem)
    · intro all ph mem
      exact (source_inside (List.mem_takeWhile_imp mem)).mpr (all copies ph mem)
  · split <;> exact within_pure _ _

/-- Every read of the loader lies in the file if and only if the table does, as
far as it is read, and no source range that is copied wraps around. -/
theorem reads_inside_iff (ram : Mem) (heap : UInt32) (buf : Mem) (elfSize : UInt32) :
    Within (· < elfSize.toNat) (elf32LoadAndRun buf elfSize ram heap) ↔
      WellPlaced buf elfSize heap := by
  have unread (early : ¬ ReachesTable buf elfSize) : WellPlaced buf elfSize heap :=
    ⟨fun reaches => absurd reaches early, fun reaches => absurd reaches early⟩
  rw [elf32LoadAndRun]
  by_cases short : elfSize < 52
  · rw [if_pos short]
    refine iff_of_true (within_pure _ _) (unread fun reaches => ?_)
    exact absurd reaches.1 (Nat.not_le.mpr (UInt32.lt_iff_toNat_lt.mp short))
  have size : 52 ≤ elfSize.toNat := UInt32.le_iff_toNat_le.mp (UInt32.not_lt.mp short)
  have ident : ∀ k < 4, 0 + k < elfSize.toNat := fun k below => by omega
  have header : ∀ k < 52, 0 + k < elfSize.toNat := fun k below => by omega
  rw [if_neg short, within_bind, within_read, and_iff_right ident, val_read]
  cases magic : magicOk buf
  · refine iff_of_true (within_pure _ _) (unread fun reaches => ?_)
    simp [ReachesTable, magic] at reaches
  rw [if_neg (by decide), within_bind, within_read, and_iff_right header, val_read]
  by_cases empty : (elf32Hdr buf).ePhoff = 0 ∨ (elf32Hdr buf).ePhnum = 0
  · rw [if_pos empty]
    refine iff_of_true (within_pure _ _) (unread fun reaches => ?_)
    exact empty.elim reaches.2.2.1 reaches.2.2.2
  have reaches : ReachesTable buf elfSize := ⟨size, magic, not_or.mp empty⟩
  simp only [if_neg empty, loadTable_within]
  constructor
  · rintro ⟨table, segments⟩
    exact ⟨fun _ => table, fun _ => segments⟩
  · rintro ⟨table, segments⟩
    exact ⟨table reaches, segments reaches⟩

/-- An ELF header with a table of one entry right behind it, where the file ends. -/
def headerOnly : List UInt8 :=
  [0x7F, 0x45, 0x4C, 0x46, 1, 1, 1, 0, 0, 0, 0, 0, 0, 0, 0, 0] ++ bytes16 2 ++ bytes16 3 ++
    bytes32 1 ++ bytes32 0x1000 ++ bytes32 52 ++ bytes32 0 ++ bytes32 0 ++ bytes16 52 ++
    bytes16 32 ++ bytes16 1 ++ bytes16 0 ++ bytes16 0 ++ bytes16 0

/-- The header of the table's entry is read behind the end. -/
theorem table_outside :
    ¬ Within (· < (52 : UInt32).toNat)
      (elf32LoadAndRun (.ofList headerOnly) 52 (fun _ => 0) heapStart) := by
  intro inside
  have read : 52 ∈ (elf32LoadAndRun (.ofList headerOnly) 52 (fun _ => 0) heapStart).reads := by
    decide +kernel
  exact absurd (inside 52 read) (by decide)

end MyOS.FileReads
