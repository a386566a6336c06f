import MyOS.Endian

/-!
pci.c: configuration registers, read through the ports `0xCF8` and `0xCFC`.
-/

namespace MyOS

/-- The registers by bus, slot, function and offset, a multiple of four. The
slots are 0 to 31, the functions 0 to 7. -/
abbrev PciSpace := UInt8 → UInt8 → UInt8 → UInt8 → UInt32

def pciConfigAddr (bus slot func offset : UInt8) : UInt32 :=
  (0x80000000 : UInt32) ||| bus.toUInt32 <<< 16 ||| slot.toUInt32 <<< 11 ||| func.toUInt32 <<< 8 |||
    (offset &&& 0xFC).toUInt32

/-- What the host bridge answers at `PCI_CONFIG_DATA` while `addr` stands in
`PCI_CONFIG_ADDRESS`. -/
def configData (s : PciSpace) (addr : UInt32) : UInt32 :=
  s (addr >>> 16).toUInt8 (addr >>> 11 &&& 0x1F).toUInt8 (addr >>> 8 &&& 0x07).toUInt8
    (addr.toUInt8 &&& 0xFC)

def pciConfigRead32 (s : PciSpace) (bus slot func offset : UInt8) : UInt32 :=
  configData s (pciConfigAddr bus slot func offset)

def pciConfigRead16 (s : PciSpace) (bus slot func offset : UInt8) : UInt16 :=
  let v := pciConfigRead32 s bus slot func (offset &&& 0xFC)
  let shift := (offset &&& 2).toUInt32 * 8
  (v >>> shift &&& 0xFFFF).toUInt16

def pciConfigRead8 (s : PciSpace) (bus slot func offset : UInt8) : UInt8 :=
  let v := pciConfigRead32 s bus slot func (offset &&& 0xFC)
  let shift := (offset &&& 3).toUInt32 * 8
  (v >>> shift &&& 0xFF).toUInt8

/-! ## The address and its parts -/

theorem toNat_field (a : UInt32) {k w : UInt32} {n : Nat} (hk : k.toNat < 32)
    (mask : w.toNat = 2 ^ n - 1) (small : n ≤ 8) :
    (a >>> k &&& w).toUInt8.toNat = a.toNat / 2 ^ k.toNat % 2 ^ n := by
  have top : 2 ^ n ≤ 2 ^ 8 := Nat.pow_le_pow_right (by omega) small
  have low := Nat.mod_lt (a.toNat / 2 ^ k.toNat) (Nat.two_pow_pos n)
  rw [UInt32.toNat_toUInt8, UInt32.toNat_and, UInt32.toNat_shiftRight, mask,
    Nat.and_two_pow_sub_one_eq_mod, Nat.mod_eq_of_lt hk, Nat.shiftRight_eq_div_pow]
  exact Nat.mod_eq_of_lt (by omega)

variable (s : PciSpace) (bus : UInt8) {slot func : UInt8} (offset : UInt8)

/-- The fields of the address do not overlap. -/
theorem toNat_pciConfigAddr (hs : slot < 32) (hf : func < 8) :
    (pciConfigAddr bus slot func offset).toNat = (offset &&& 0xFC).toNat + func.toNat * 256 +
      slot.toNat * 2048 + bus.toNat * 65536 + 2147483648 := by
  have slots : slot.toNat < 32 := hs
  have funcs : func.toNat < 8 := hf
  have buses := bus.toNat_lt
  have offsets := (offset &&& 0xFC).toNat_lt
  have s1 : func.toNat <<< 8 % 4294967296 = func.toNat <<< 8 := by rw [Nat.shiftLeft_eq]; omega
  have s2 : slot.toNat <<< 11 % 4294967296 = slot.toNat <<< 11 := by rw [Nat.shiftLeft_eq]; omega
  have s3 : bus.toNat <<< 16 % 4294967296 = bus.toNat <<< 16 := by rw [Nat.shiftLeft_eq]; omega
  have value : (pciConfigAddr bus slot func offset).toNat =
      ((((offset &&& 0xFC).toNat ||| func.toNat <<< 8) ||| slot.toNat <<< 11) |||
        bus.toNat <<< 16) ||| 1 <<< 31 := by
    rw [pciConfigAddr]
    generalize offset &&& 0xFC = o
    simp only [UInt32.toNat_or, UInt32.toNat_shiftLeft, UInt8.toNat_toUInt32, UInt32.toNat_ofNat,
      Nat.reducePow, Nat.reduceMod, Nat.reduceShiftLeft, s1, s2, s3]
    ac_rfl
  rw [value, or_shift _ _ 8 (by omega), or_shift _ _ 11 (by omega), or_shift _ _ 16 (by omega),
    or_shift _ _ 31 (by omega)]
  omega

/-- The register read is the one asked for. -/
theorem pciConfigRead32_eq (hs : slot < 32) (hf : func < 8) :
    pciConfigRead32 s bus slot func offset = s bus slot func (offset &&& 0xFC) := by
  have slots : slot.toNat < 32 := hs
  have funcs : func.toNat < 8 := hf
  have buses := bus.toNat_lt
  have offsets := (offset &&& 0xFC).toNat_lt
  have addr := toNat_pciConfigAddr bus offset hs hf
  unfold pciConfigRead32 configData
  generalize pciConfigAddr bus slot func offset = a at *
  have twice : offset &&& 0xFC &&& 0xFC = offset &&& 0xFC := by
    rw [UInt8.and_assoc, UInt8.and_self]
  generalize offset &&& 0xFC = o at *
  have busField : (a >>> 16).toUInt8 = bus := by
    apply UInt8.toNat_inj.mp
    rw [UInt32.toNat_toUInt8, UInt32.toNat_shiftRight, Nat.shiftRight_eq_div_pow]
    simp only [addr, UInt32.toNat_ofNat, Nat.reducePow, Nat.reduceMod]
    omega
  have slotField : (a >>> 11 &&& 0x1F).toUInt8 = slot := by
    apply UInt8.toNat_inj.mp
    rw [toNat_field (n := 5) a (by decide) (by decide) (by decide)]
    simp only [addr, UInt32.toNat_ofNat, Nat.reducePow, Nat.reduceMod]
    omega
  have funcField : (a >>> 8 &&& 0x07).toUInt8 = func := by
    apply UInt8.toNat_inj.mp
    rw [toNat_field (n := 3) a (by decide) (by decide) (by decide)]
    simp only [addr, UInt32.toNat_ofNat, Nat.reducePow, Nat.reduceMod]
    omega
  have offsetField : a.toUInt8 = o := by
    apply UInt8.toNat_inj.mp
    rw [UInt32.toNat_toUInt8, addr]
    omega
  rw [busField, slotField, funcField, offsetField, twice]

/-! ## The registers the scans look at -/

namespace PciSpace

variable (slot func : UInt8)

def vendorId : UInt16 := (s bus slot func 0x00).toUInt16
def deviceId : UInt16 := (s bus slot func 0x00 >>> 16).toUInt16
def subclass : UInt8 := (s bus slot func 0x08 >>> 16).toUInt8
def classCode : UInt8 := (s bus slot func 0x08 >>> 24).toUInt8
def headerType : UInt8 := (s bus slot func 0x0C >>> 16).toUInt8

end PciSpace

theorem low16 (v : UInt32) : (v &&& 0xFFFF).toUInt16 = v.toUInt16 := by
  apply UInt16.toNat_inj.mp
  have mask := Nat.and_two_pow_sub_one_eq_mod v.toNat 16
  rw [UInt32.toNat_toUInt16, UInt32.toNat_and, UInt32.toNat_toUInt16]
  simp only [UInt32.toNat_ofNat, Nat.reducePow, Nat.reduceMod, Nat.reduceSub] at mask ⊢
  omega

theorem low8 (v : UInt32) : (v &&& 0xFF).toUInt8 = v.toUInt8 := by
  apply UInt8.toNat_inj.mp
  have mask := Nat.and_two_pow_sub_one_eq_mod v.toNat 8
  rw [UInt32.toNat_toUInt8, UInt32.toNat_and, UInt32.toNat_toUInt8]
  simp only [UInt32.toNat_ofNat, Nat.reducePow, Nat.reduceMod, Nat.reduceSub] at mask ⊢
  omega

section
variable (hs : slot < 32) (hf : func < 8)
include hs hf

theorem read_vendorId : pciConfigRead16 s bus slot func 0x00 = s.vendorId bus slot func := by
  simp only [pciConfigRead16, pciConfigRead32_eq s bus _ hs hf, low16]
  simp [PciSpace.vendorId]

theorem read_deviceId : pciConfigRead16 s bus slot func 0x02 = s.deviceId bus slot func := by
  simp only [pciConfigRead16, pciConfigRead32_eq s bus _ hs hf, low16]
  rfl

theorem read_subclass : pciConfigRead8 s bus slot func 0x0A = s.subclass bus slot func := by
  simp only [pciConfigRead8, pciConfigRead32_eq s bus _ hs hf, low8]
  rfl

theorem read_classCode : pciConfigRead8 s bus slot func 0x0B = s.classCode bus slot func := by
  simp only [pciConfigRead8, pciConfigRead32_eq s bus _ hs hf, low8]
  rfl

theorem read_headerType : pciConfigRead8 s bus slot func 0x0E = s.headerType bus slot func := by
  simp only [pciConfigRead8, pciConfigRead32_eq s bus _ hs hf, low8]
  rfl

end

end MyOS
