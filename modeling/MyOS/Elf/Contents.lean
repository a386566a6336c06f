import MyOS.Elf.Bounds
import Mathlib.Data.List.Find

/-!
# The image of a file

What the two passes leave in memory: at each address the byte of the last segment
whose file part covers it, and zero where there is none. The table and the ranges
of a file are described here without any wrap-around.
-/

namespace MyOS.Contents

/-- The PT_LOAD headers, in the order of the table. -/
def fileLoads (buf : Mem) : List Elf32Phdr :=
  ((List.range (elf32Hdr buf).ePhnum.toNat).map fun i =>
    elf32Phdr buf ((elf32Hdr buf).ePhoff.toNat + i * (elf32Hdr buf).ePhentsize.toNat)).filter
      Elf32Phdr.isLoad

/-- A file whose table and contents lie in it, and whose addresses do not wrap. -/
structure WellFormed (buf : Mem) (elfSize : UInt32) : Prop where
  table : TableInside buf elfSize
  sizes : ∀ ph ∈ fileLoads buf, ph.pFilesz ≤ ph.pMemsz
  source : ∀ ph ∈ fileLoads buf, ph.pOffset.toNat + ph.pFilesz.toNat ≤ elfSize.toNat
  addresses : ∀ ph ∈ fileLoads buf, ph.pVaddr.toNat + ph.pMemsz.toNat < 2 ^ 32

/-- The highest `p_vaddr + p_memsz`. -/
def top (loads : List Elf32Phdr) : Nat :=
  loads.foldl (fun high ph => max high (ph.pVaddr.toNat + ph.pMemsz.toNat)) 0

/-- The file part of `ph` covers the address `v`. -/
def covers (v : Nat) (ph : Elf32Phdr) : Bool :=
  ph.pVaddr.toNat ≤ v ∧ v < ph.pVaddr.toNat + ph.pFilesz.toNat

/-- The byte that belongs at the address `v`. -/
def imageByte (buf : Mem) (loads : List Elf32Phdr) (v : Nat) : UInt8 :=
  match loads.reverse.find? (covers v) with
  | some ph => buf (ph.pOffset.toNat + (v - ph.pVaddr.toNat))
  | none => 0

/-- Where the address `v` of the program is in the image. -/
def imageAddress (img : Image) (loads : List Elf32Phdr) (v : UInt32) : UInt32 :=
  img.mem + (v - UInt32.ofNat (lowest loads))

structure Exact (buf : Mem) (img : Image) (entryRel : UInt32) : Prop where
  /-- The block reaches to the highest address. -/
  extent : lowest (fileLoads buf) + img.total.toNat = top (fileLoads buf)
  bytes : ∀ v, lowest (fileLoads buf) ≤ v → v < top (fileLoads buf) →
    img.contents (v - lowest (fileLoads buf)) = imageByte buf (fileLoads buf) v
  entry : img.mem + entryRel = imageAddress img (fileLoads buf) (elf32Hdr buf).eEntry

/-! ## The table -/

theorem phdrOffset_inside {buf : Mem} {elfSize : UInt32} (table : TableInside buf elfSize) {i : Nat}
    (entry : i < (elf32Hdr buf).ePhnum.toNat) : (phdrOffset (elf32Hdr buf) i).toNat =
      (elf32Hdr buf).ePhoff.toNat + i * (elf32Hdr buf).ePhentsize.toNat := by
  have inside := table i entry
  have size := elfSize.toNat_lt
  have count := (elf32Hdr buf).ePhnum.toNat_lt
  have index : i.toUInt32.toNat = i := UInt32.toNat_ofNat_of_lt' (by rw [UInt32.size]; omega)
  rw [phdrOffset, UInt32.toNat_add, UInt32.toNat_mul, index, UInt16.toNat_toUInt32,
    Nat.mod_eq_of_lt (by omega), Nat.mod_eq_of_lt (by omega)]

theorem loadsOf_inside {buf : Mem} {elfSize : UInt32} (table : TableInside buf elfSize) :
    loadsOf buf = fileLoads buf := by
  simp only [loadsOf, phdrs, fileLoads]
  congr 1
  refine List.map_congr_left fun i mem => ?_
  rw [phdrOffset_inside table (List.mem_range.mp mem)]

/-! ## The range -/

theorem highest_eq {loads : List Elf32Phdr}
    (addresses : ∀ ph ∈ loads, ph.pVaddr.toNat + ph.pMemsz.toNat < 2 ^ 32) :
    highest loads = top loads := by
  refine List.foldl_ext _ _ _ fun high ph mem => ?_
  simp only [memEnd, Nat.mod_eq_of_lt (addresses ph mem)]

theorem le_top_start (loads : List Elf32Phdr) (start : Nat) : start ≤
    loads.foldl (fun high ph => max high (ph.pVaddr.toNat + ph.pMemsz.toNat)) start := by
  induction loads generalizing start with
  | nil => exact Nat.le_refl _
  | cons ph loads ih => exact Nat.le_trans (Nat.le_max_left ..) (ih _)

theorem le_top {loads : List Elf32Phdr} {ph : Elf32Phdr} (h : ph ∈ loads) :
    ph.pVaddr.toNat + ph.pMemsz.toNat ≤ top loads := by
  unfold top
  generalize 0 = start
  induction loads generalizing start with
  | nil => cases h
  | cons q loads ih =>
    rcases List.mem_cons.mp h with rfl | later
    · exact Nat.le_trans (Nat.le_max_right ..) (le_top_start loads _)
    · exact ih later _

/-! ## The two passes -/

theorem zeroFill_inside (m : Mem) {n i : Nat} (inside : i < n) : zeroFill m n i = 0 := by
  induction n with
  | zero => omega
  | succ n ih =>
    rw [zeroFill]
    by_cases last : i = n
    · simp only [last, Mem.set_same]
    · rw [Mem.set_of_ne _ _ _ last]
      exact ih (by omega)

/-- The copies, one after the other. -/
theorem loadSegments_contents {buf : Mem} {elfSize minVaddr : UInt32} {phs : List Elf32Phdr}
    {img img' : Image} (loaded : loadSegments buf elfSize minVaddr phs img = some img') :
    img'.contents = (phs.filter Elf32Phdr.isLoad).foldl (fun m ph =>
      m.store (ph.pVaddr - minVaddr).toNat (buf.load ph.pOffset.toNat ph.pFilesz.toNat))
      img.contents := by
  induction phs generalizing img with
  | nil =>
    cases loaded
    rfl
  | cons ph phs ih =>
    rw [loadSegments] at loaded
    split at loaded
    · rename_i isLoad
      split at loaded
      · cases loaded
      · rw [ih loaded, List.filter_cons_of_pos isLoad, List.foldl_cons, Image.copyIn, memcpy_eq]
    · rename_i other
      rw [List.filter_cons_of_neg other]
      exact ih loaded

/-! ## The image -/

/-- The offset of an address from the lowest one, computed by the loader. -/
theorem dest_eq {buf : Mem} {ph : Elf32Phdr} (mem : ph ∈ loadsOf buf) :
    (ph.pVaddr - (fileSpan buf).minVaddr).toNat + lowest (loadsOf buf) = ph.pVaddr.toNat := by
  have above := lowest_le mem
  have low := (span_eq buf).1
  simp only [toNat_sub_span, low, if_pos above]
  omega

/-- The copies of the second pass, as far as they reach the address `lowest + i`. -/
theorem copies_eq (buf m : Mem) (i : Nat) :
    (loadsOf buf).foldl (fun m ph => m.store (ph.pVaddr - (fileSpan buf).minVaddr).toNat
      (buf.load ph.pOffset.toNat ph.pFilesz.toNat)) m i =
    match (loadsOf buf).reverse.find? (covers (lowest (loadsOf buf) + i)) with
    | some ph => buf (ph.pOffset.toNat + (lowest (loadsOf buf) + i - ph.pVaddr.toNat))
    | none => m i := by
  have last : ((loadsOf buf).reverse.find? fun ph =>
      (ph.pVaddr - (fileSpan buf).minVaddr).toNat ≤ i ∧
        i < (ph.pVaddr - (fileSpan buf).minVaddr).toNat +
          (buf.load ph.pOffset.toNat ph.pFilesz.toNat).length) =
      (loadsOf buf).reverse.find? (covers (lowest (loadsOf buf) + i)) := by
    refine List.find?_congr fun ph mem => ?_
    have dest := dest_eq (List.mem_reverse.mp mem)
    simp only [covers, Mem.length_load, decide_eq_decide]
    omega
  simp only [Mem.foldl_store, last]
  cases here : (loadsOf buf).reverse.find? (covers (lowest (loadsOf buf) + i)) with
  | none => rfl
  | some ph =>
    have dest := dest_eq (List.mem_reverse.mp (List.mem_of_find?_eq_some here))
    have covered := List.find?_some here
    simp only [covers, decide_eq_true_eq] at covered
    have place : i - (ph.pVaddr - (fileSpan buf).minVaddr).toNat =
        lowest (loadsOf buf) + i - ph.pVaddr.toNat := by omega
    have inside : lowest (loadsOf buf) + i - ph.pVaddr.toNat <
        (buf.load ph.pOffset.toNat ph.pFilesz.toNat).length := by
      rw [Mem.length_load]
      omega
    simp only [place]
    rw [List.getD_eq_getElem?_getD, List.getElem?_eq_getElem inside, Option.getD_some,
      Mem.getElem_load]

/-- When the entry of a well-formed file is reached, its image is exactly right. -/
theorem image_exact (ram : Mem) (heap : UInt32) (buf : Mem) (elfSize : UInt32) (img : Image)
    (entryRel : UInt32) (wellFormed : WellFormed buf elfSize)
    (entered : elf32LoadAndRun ram heap buf elfSize = .entered img entryRel) :
    Exact buf img entryRel := by
  obtain ⟨found, -, rel, loaded⟩ := entered_loaded entered
  obtain ⟨mem, total, -⟩ := loadSegments_eq loaded
  have contents : img.contents = (loadsOf buf).foldl (fun m ph =>
      m.store (ph.pVaddr - (fileSpan buf).minVaddr).toNat
        (buf.load ph.pOffset.toNat ph.pFilesz.toNat)) (zeroFill ram img.total.toNat) := by
    rw [total]
    exact loadSegments_contents loaded
  have table := loadsOf_inside wellFormed.table
  have low := (span_eq buf).1
  have extent : lowest (fileLoads buf) + img.total.toNat = top (fileLoads buf) := by
    obtain ⟨ph, here, -⟩ := (minVaddr_iff buf).mp found
    have length := total_eq buf
    have high := highest_eq wellFormed.addresses
    rw [table] at length here
    have above := lowest_le here
    have below := le_top here
    rw [blockEnd, high, if_pos (by omega)] at length
    rw [total, ← length]
    exact Nat.add_comm ..
  refine ⟨extent, fun v above below => ?_, ?_⟩
  · obtain ⟨i, rfl⟩ := Nat.exists_eq_add_of_le above
    have inside : i < img.total.toNat := by omega
    rw [contents, Nat.add_sub_cancel_left, copies_eq, zeroFill_inside ram inside, table]
    rfl
  · rw [imageAddress, rel, ← table, ← low, UInt32.ofNat_toNat]

/-- An ELF file with a note and two segments, from `0x1000` to `0x1018` and from `0x1008`
to `0x1028`, and 16 bytes of contents at offset 148. The first ends in 8 bytes that are
not in the file, the second in 24. -/
def overlapping : List UInt8 :=
  [0x7F, 0x45, 0x4C, 0x46, 1, 1, 1, 0, 0, 0, 0, 0, 0, 0, 0, 0] ++ bytes16 2 ++ bytes16 3 ++
    bytes32 1 ++ bytes32 0x1004 ++ bytes32 52 ++ bytes32 0 ++ bytes32 0 ++ bytes16 52 ++
    bytes16 32 ++ bytes16 3 ++ bytes16 0 ++ bytes16 0 ++ bytes16 0 ++
    bytes32 4 ++ bytes32 148 ++ bytes32 0x5000 ++ bytes32 0x5000 ++ bytes32 4 ++
    bytes32 4 ++ bytes32 4 ++ bytes32 4 ++
    bytes32 1 ++ bytes32 148 ++ bytes32 0x1000 ++ bytes32 0x1000 ++ bytes32 16 ++
    bytes32 24 ++ bytes32 5 ++ bytes32 4 ++
    bytes32 1 ++ bytes32 156 ++ bytes32 0x1008 ++ bytes32 0x1008 ++ bytes32 8 ++
    bytes32 32 ++ bytes32 6 ++ bytes32 4 ++ (List.range 16).map Nat.toUInt8

theorem image_exact_overlapping : ∃ img entryRel,
    WellFormed (.ofList overlapping) 164 ∧
    elf32LoadAndRun (fun _ => 0xFF) heapStart (.ofList overlapping) 164 = .entered img entryRel ∧
    Exact (.ofList overlapping) img entryRel := by
  have reaches : (elf32LoadAndRun (fun _ => 0xFF) heapStart (.ofList overlapping) 164).reaches =
      true := by decide +kernel
  have wellFormed : WellFormed (.ofList overlapping) 164 :=
    ⟨by decide +kernel, by decide +kernel, by decide +kernel, by decide +kernel⟩
  obtain ⟨img, entryRel, entered⟩ := Loaded.entered_of_reaches reaches
  exact ⟨img, entryRel, wellFormed, entered, image_exact _ _ _ _ img entryRel wellFormed entered⟩

end MyOS.Contents
