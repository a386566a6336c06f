import MyOS.Base.Aligned
import MyOS.Endian

/-!
syscalls.c: the interrupt descriptor table, as GCC lays its structures out on
i686 and as the CPU reads them.
-/

namespace MyOS.Idt

/-- Offsets of `offset_low`, `sel`, `zero`, `flags` and `offset_high` in `struct idt_entry`. -/
def entryMembers : List Nat := Aligned.offsets 0 [2, 2, 1, 1, 2]

def entrySize : Nat := Aligned.sizeOf [2, 2, 1, 1, 2]

/-- Offsets of `limit` and `base` in `struct idt_ptr`. -/
def ptrMembers : List Nat := Aligned.offsets 0 [2, 4]

/-- The static variables `idt` and `idtp`. -/
structure Tables where
  idt : Mem
  idtp : Mem

/-- Static storage is zero, the padding included. -/
def Tables.static : Tables := ⟨fun _ => 0, fun _ => 0⟩

def setIdtEntry (idt : Mem) (idx : Nat) (base : UInt32) (sel : UInt16) (flags : UInt8) : Mem :=
  let entry := fun member => idx * entrySize + entryMembers.getD member 0
  let idt := idt.store (entry 0) (bytes16 (base &&& 0xFFFF).toUInt16)
  let idt := idt.store (entry 1) (bytes16 sel)
  let idt := idt.set (entry 2) 0
  let idt := idt.set (entry 3) flags
  idt.store (entry 4) (bytes16 (base >>> 16 &&& 0xFFFF).toUInt16)

/-- `idt` and `irq80Stub` are addresses. -/
def initSyscalls (idt irq80Stub : UInt32) (t : Tables) : Tables :=
  let table := (List.range 256).foldl (fun m i => setIdtEntry m i 0 0 0) t.idt
  let table := setIdtEntry table 0x80 irq80Stub 0x08 0x8E
  let idtp := t.idtp.store (ptrMembers.getD 0 0) (bytes16 (256 * entrySize - 1).toUInt16)
  let idtp := idtp.store (ptrMembers.getD 1 0) (bytes32 idt)
  ⟨table, idtp⟩

/-! ## The CPU's formats -/

/-- The operand of `lidt`: six bytes, the limit and directly behind it the base. -/
def lidt (operand : Mem) : UInt16 × UInt32 := (operand.load16 0, operand.load32 2)

structure Gate where
  offset : UInt32
  selector : UInt16
  present : Bool
  deriving DecidableEq

/-- A gate takes eight bytes; its offset is in two halves. -/
def gate (table : Mem) (v : Nat) : Gate :=
  { offset := (table.load16 (v * 8)).toUInt32 ||| (table.load16 (v * 8 + 6)).toUInt32 <<< 16
    selector := table.load16 (v * 8 + 2)
    present := table (v * 8 + 5) &&& 0x80 != 0 }

/-- What was meant. -/
structure Loaded (idt irq80Stub : UInt32) (t : Tables) : Prop where
  limit : (lidt t.idtp).1 = 2047
  base : (lidt t.idtp).2 = idt
  syscall : gate t.idt 0x80 = ⟨irq80Stub, 0x08, true⟩
  others : ∀ v < 256, v ≠ 0x80 → (gate t.idt v).present = false

/-! ## Entries as gates -/

/-- The two halves of an address, put together again. -/
theorem halves (base : UInt32) :
    ((base &&& 0xFFFF).toUInt16).toUInt32 ||| ((base >>> 16 &&& 0xFFFF).toUInt16).toUInt32 <<< 16 =
      base := by
  have size := base.toNat_lt
  have mask (x : Nat) : x &&& 65535 = x % 65536 := Nat.and_two_pow_sub_one_eq_mod x 16
  have low : (base &&& 0xFFFF).toUInt16.toNat = base.toNat % 65536 := by
    rw [UInt32.toNat_toUInt16, UInt32.toNat_and]
    exact (congrArg (· % 65536) (mask _)).trans (Nat.mod_mod ..)
  have high : (base >>> 16 &&& 0xFFFF).toUInt16.toNat = base.toNat / 65536 := by
    rw [UInt32.toNat_toUInt16, UInt32.toNat_and, UInt32.toNat_shiftRight]
    have shifted : base.toNat >>> 16 = base.toNat / 65536 := Nat.shiftRight_eq_div_pow ..
    change (base.toNat >>> 16 &&& 65535) % 65536 = _
    rw [mask, shifted]
    omega
  have fits : (base.toNat / 65536) <<< 16 % 4294967296 = (base.toNat / 65536) <<< 16 := by
    rw [Nat.shiftLeft_eq]
    omega
  apply UInt32.toNat_inj.mp
  rw [UInt32.toNat_or, UInt32.toNat_shiftLeft, UInt16.toNat_toUInt32, UInt16.toNat_toUInt32,
    low, high]
  change base.toNat % 65536 ||| (base.toNat / 65536) <<< 16 % 4294967296 = _
  rw [fits, or_shift (base.toNat % 65536) _ 16 (Nat.mod_lt _ (by decide))]
  omega

def entryBytes (base : UInt32) (sel : UInt16) (flags : UInt8) : List UInt8 :=
  bytes16 (base &&& 0xFFFF).toUInt16 ++ (bytes16 sel ++ ([0, flags] ++
    bytes16 (base >>> 16 &&& 0xFFFF).toUInt16))

section
variable (m : Mem) (idx : Nat) (base : UInt32) (sel : UInt16) (flags : UInt8)

/-- The members of an entry leave no gap. -/
theorem setIdtEntry_eq :
    setIdtEntry m idx base sel flags = m.store (idx * 8) (entryBytes base sel flags) := by
  rw [entryBytes, (Mem.store_append ..).1, (Mem.store_append ..).1, (Mem.store_append ..).1,
    Mem.store_cons, Mem.store_singleton]
  rfl

theorem gate_congr {m m' : Mem} {v : Nat} (same : ∀ i < 8, m (v * 8 + i) = m' (v * 8 + i)) :
    gate m v = gate m' v := by
  have b0 := same 0 (by decide)
  have b1 := same 1 (by decide)
  have b2 := same 2 (by decide)
  have b3 := same 3 (by decide)
  have b5 := same 5 (by decide)
  have b6 := same 6 (by decide)
  have b7 := same 7 (by decide)
  rw [Nat.add_zero] at b0
  simp only [gate, Mem.load16, Nat.add_assoc, b0, b1, b2, b3, b5, b6, b7]

/-- An entry is read back as the gate it was written as. -/
theorem gate_setIdtEntry :
    gate (setIdtEntry m idx base sel flags) idx = ⟨base, sel, flags &&& 0x80 != 0⟩ := by
  have whole : (setIdtEntry m idx base sel flags).Holds (idx * 8) (entryBytes base sel flags) := by
    rw [setIdtEntry_eq]
    exact Mem.load_store ..
  obtain ⟨low, rest⟩ := (Mem.holds_append ..).mp whole
  obtain ⟨selector, rest⟩ := (Mem.holds_append ..).mp rest
  obtain ⟨single, high⟩ := (Mem.holds_append ..).mp rest
  obtain ⟨-, last⟩ := (Mem.holds_cons ..).mp single
  obtain ⟨flag, -⟩ := (Mem.holds_cons ..).mp last
  have upper : (setIdtEntry m idx base sel flags).load16 (idx * 8 + 6) = _ := load16_bytes16 high
  have access : setIdtEntry m idx base sel flags (idx * 8 + 5) = flags := flag
  have second : (setIdtEntry m idx base sel flags).load16 (idx * 8 + 2) = sel :=
    load16_bytes16 selector
  rw [gate, load16_bytes16 low, second, upper, access, halves]

theorem gate_setIdtEntry_other {v : Nat} (other : v ≠ idx) :
    gate (setIdtEntry m idx base sel flags) v = gate m v := by
  apply gate_congr
  intro i inside
  rw [setIdtEntry_eq]
  have size : (entryBytes base sel flags).length = 8 := rfl
  exact Mem.store_outside _ _ _ (by omega)

end

/-- Behind the loop no gate below `n` is present. -/
theorem cleared (m : Mem) (n : Nat) : ∀ v < n,
    (gate ((List.range n).foldl (fun m i => setIdtEntry m i 0 0 0) m) v).present = false := by
  induction n with
  | zero => exact fun v below => absurd below (Nat.not_lt_zero v)
  | succ n ih =>
    intro v below
    rw [List.range_succ, List.foldl_append, List.foldl_cons, List.foldl_nil]
    by_cases here : v = n
    · rw [here, gate_setIdtEntry]
      rfl
    · rw [gate_setIdtEntry_other _ _ _ _ _ here]
      exact ih v (by omega)

/-! ## The table as a whole -/

/-- Between `limit` and `base` GCC leaves two bytes, so `lidt` gets the lower half
of the address as the upper one. -/
theorem lidt_base (idt irq80Stub : UInt32) :
    (lidt (initSyscalls idt irq80Stub .static).idtp).2.toNat = idt.toNat % 65536 * 65536 := by
  have b0 : (initSyscalls idt irq80Stub .static).idtp 2 = 0 := rfl
  have b1 : (initSyscalls idt irq80Stub .static).idtp 3 = 0 := rfl
  have b2 : (initSyscalls idt irq80Stub .static).idtp 4 = idt.toUInt8 := rfl
  have b3 : (initSyscalls idt irq80Stub .static).idtp 5 = (idt >>> 8).toUInt8 := rfl
  rw [lidt, toNat_load32, b0, b1, b2, b3, UInt32.toNat_toUInt8, UInt32.toNat_toUInt8,
    UInt32.toNat_shiftRight]
  have shifted : idt.toNat >>> 8 = idt.toNat / 256 := Nat.shiftRight_eq_div_pow ..
  change 0 + 0 * 256 + idt.toNat % 256 * 65536 + idt.toNat >>> 8 % 256 * 16777216 = _
  omega

theorem lidt_limit (idt irq80Stub : UInt32) :
    (lidt (initSyscalls idt irq80Stub .static).idtp).1 = 2047 := by
  have b0 : (initSyscalls idt irq80Stub .static).idtp 0 = 255 := rfl
  have b1 : (initSyscalls idt irq80Stub .static).idtp 1 = 7 := rfl
  rw [lidt, Mem.load16, b0, b1]
  rfl

/-- The CPU gets the table that was meant if and only if it stands at address 0. -/
theorem loaded_iff (idt irq80Stub : UInt32) :
    Loaded idt irq80Stub (initSyscalls idt irq80Stub .static) ↔ idt = 0 := by
  have base := lidt_base idt irq80Stub
  have size := idt.toNat_lt
  constructor
  · intro loaded
    rw [loaded.base] at base
    apply UInt32.toNat_inj.mp
    change idt.toNat = 0
    omega
  · rintro rfl
    refine ⟨?_, UInt32.toNat_inj.mp base, ?_, ?_⟩
    · exact lidt_limit ..
    · exact gate_setIdtEntry ..
    · intro v below other
      exact (congrArg Gate.present (gate_setIdtEntry_other _ _ _ _ _ other)).trans
        (cleared _ 256 v below)

/-- With the table at 0x108000 the CPU looks for it at 0x80000000. -/
theorem loaded_elsewhere : ¬ Loaded 0x108000 0x100400 (initSyscalls 0x108000 0x100400 .static) := by
  intro loaded
  have base := loaded.base
  have read : (lidt (initSyscalls 0x108000 0x100400 .static).idtp).2 = 0x80000000 := rfl
  rw [read] at base
  exact absurd base (by decide)

end MyOS.Idt
