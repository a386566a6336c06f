import MyOS.Base.ByteLoop
import MyOS.Pci.Config

/-!
# The bus scans

pci.c, e1000e.c and xhci.c each write out the same three loops around their own
test. The outer one counts a byte up to a bound of 256, so it ends only by
finding something.
-/

namespace MyOS

open ByteLoop

/-- Bus, slot and function. -/
abbrev PciLoc := UInt8 × UInt8 × UInt8

section
variable (s : PciSpace) (hit : UInt8 → UInt8 → UInt8 → Bool)

/-- One turn of the innermost loop. -/
def scanFunc (bus slot func : UInt8) : Turn PciLoc :=
  if pciConfigRead16 s bus slot func 0x00 = 0xFFFF then .next
  else if hit bus slot func then .ret (bus, slot, func)
  else if pciConfigRead8 s bus slot 0 0x0E &&& 0x80 = 0 ∧ func = 0 then .leave
  else .next

def scanSlot (bus slot : UInt8) : Turn PciLoc :=
  match bounded 8 (scanFunc s hit bus slot) with
  | some loc => .ret loc
  | none => .next

def scanBus (bus : UInt8) : Turn PciLoc :=
  match bounded 32 (scanSlot s hit bus) with
  | some loc => .ret loc
  | none => .next

/-- The three loops, for at most `fuel` buses: still running, not found, or
found at a place. -/
def pciScan (fuel : Nat) : Option (Option PciLoc) := run 256 (scanBus s hit) fuel 0

end

def pciFindDevice (s : PciSpace) (vendor device : UInt16) : Nat → Option (Option PciLoc) :=
  pciScan s fun bus slot func =>
    pciConfigRead16 s bus slot func 0x00 == vendor && pciConfigRead16 s bus slot func 0x02 == device

def pciFindIntelNet (s : PciSpace) : Nat → Option (Option PciLoc) :=
  pciScan s fun bus slot func =>
    pciConfigRead16 s bus slot func 0x00 == 0x8086 && pciConfigRead8 s bus slot func 0x0B == 0x02

/-- The search of `xhci_probe`; setting the controller up comes after it. -/
def xhciProbe (s : PciSpace) : Nat → Option (Option PciLoc) :=
  pciScan s fun bus slot func =>
    pciConfigRead8 s bus slot func 0x0B == 0x0C && pciConfigRead8 s bus slot func 0x0A == 0x03

/-! ## What there is to find -/

namespace PciSpace

/-- Functions 1 to 7 are hidden behind a present single-function device. -/
structure Visible (s : PciSpace) (bus slot func : UInt8) : Prop where
  slots : slot < 32
  funcs : func < 8
  shown : func = 0 ∨ s.vendorId bus slot 0 = 0xFFFF ∨ s.headerType bus slot 0 &&& 0x80 ≠ 0

/-- Some visible function is present and meets the criterion. -/
def Has (s : PciSpace) (criterion : UInt8 → UInt8 → UInt8 → Prop) : Prop :=
  ∃ bus slot func, s.Visible bus slot func ∧ s.vendorId bus slot func ≠ 0xFFFF ∧
    criterion bus slot func

def HasDevice (s : PciSpace) (vendor device : UInt16) : Prop :=
  s.Has fun bus slot func =>
    s.vendorId bus slot func = vendor ∧ s.deviceId bus slot func = device

def HasIntelNet (s : PciSpace) : Prop :=
  s.Has fun bus slot func =>
    s.vendorId bus slot func = 0x8086 ∧ s.classCode bus slot func = 0x02

def HasXhci (s : PciSpace) : Prop :=
  s.Has fun bus slot func =>
    s.classCode bus slot func = 0x0C ∧ s.subclass bus slot func = 0x03

end PciSpace

/-- The scan terminates, and reports success exactly when there is a match. -/
def Settles (scan : Nat → Option (Option PciLoc)) (found : Prop) : Prop :=
  ∃ r, (∃ fuel, scan fuel = some r) ∧ (r.isSome = true ↔ found)

section
variable {s : PciSpace} {hit : UInt8 → UInt8 → UInt8 → Bool} {bus slot func : UInt8}

theorem scanFunc_ret_iff (hs : slot < 32) (hf : func < 8) :
    (∃ loc, scanFunc s hit bus slot func = .ret loc) ↔
      s.vendorId bus slot func ≠ 0xFFFF ∧ hit bus slot func = true := by
  rw [scanFunc, read_vendorId s bus hs hf]
  split
  · rename_i absent
    simp [absent]
  · rename_i present
    split
    · rename_i hits
      simp [present, hits]
    · rename_i misses
      split <;> exact ⟨nofun, fun matched => absurd matched.2 misses⟩

/-- The early break stands behind the test: only a present, single-function
device that does not match takes it. -/
theorem scanFunc_leave_iff (hs : slot < 32) (hf : func < 8) :
    scanFunc s hit bus slot func = .leave ↔
      s.vendorId bus slot func ≠ 0xFFFF ∧ hit bus slot func = false ∧
        s.headerType bus slot 0 &&& 0x80 = 0 ∧ func = 0 := by
  rw [scanFunc, read_vendorId s bus hs hf, read_headerType s bus hs (by decide)]
  split
  · simp [*]
  · split
    · simp [*]
    · split <;> simp_all

theorem scanSlot_ne_leave : scanSlot s hit bus slot ≠ .leave := by
  unfold scanSlot
  split <;> nofun

theorem scanBus_ne_leave : scanBus s hit bus ≠ .leave := by
  unfold scanBus
  split <;> nofun

theorem scanSlot_ret_iff (hs : slot < 32) :
    (∃ loc, scanSlot s hit bus slot = .ret loc) ↔
      ∃ func, s.Visible bus slot func ∧ s.vendorId bus slot func ≠ 0xFFFF ∧
        hit bus slot func = true := by
  have inner : (∃ loc, scanSlot s hit bus slot = .ret loc) ↔
      ∃ loc, bounded 8 (scanFunc s hit bus slot) = some loc := by
    unfold scanSlot
    split <;> simp [*]
  rw [inner, bounded_returns_iff (by decide)]
  constructor
  · rintro ⟨func, hf, returns, stays⟩
    have matched := (scanFunc_ret_iff hs hf).mp returns
    by_cases first : func = 0
    · exact ⟨func, ⟨hs, hf, Or.inl first⟩, matched⟩
    · have zero : (0 : UInt8) < func := UInt8.pos_iff_ne_zero.mpr first
      have noBreak := mt (scanFunc_leave_iff hs (by decide)).mpr (stays 0 zero)
      by_cases hidden : s.vendorId bus slot 0 ≠ 0xFFFF ∧ s.headerType bus slot 0 &&& 0x80 = 0
      · cases hit0 : hit bus slot 0 with
        | true => exact ⟨0, ⟨hs, by decide, Or.inl rfl⟩, hidden.1, hit0⟩
        | false => exact absurd ⟨hidden.1, hit0, hidden.2, rfl⟩ noBreak
      · refine ⟨func, ⟨hs, hf, Or.inr ?_⟩, matched⟩
        rwa [not_and_or, not_not] at hidden
  · rintro ⟨func, visible, matched⟩
    refine ⟨func, visible.funcs, (scanFunc_ret_iff hs visible.funcs).mpr matched, ?_⟩
    intro j before leaves
    obtain ⟨present, _, single, rfl⟩ :=
      (scanFunc_leave_iff hs (UInt8.lt_trans before visible.funcs)).mp leaves
    rcases visible.shown with first | absent | multi
    · exact absurd (first ▸ before) (by decide)
    · exact present absent
    · exact multi single

theorem scanBus_ret_iff : (∃ loc, scanBus s hit bus = .ret loc) ↔
    ∃ slot func, s.Visible bus slot func ∧ s.vendorId bus slot func ≠ 0xFFFF ∧
      hit bus slot func = true := by
  have inner : (∃ loc, scanBus s hit bus = .ret loc) ↔
      ∃ loc, bounded 32 (scanSlot s hit bus) = some loc := by
    unfold scanBus
    split <;> simp [*]
  rw [inner, bounded_returns_iff (by decide)]
  constructor
  · rintro ⟨slot, hs, returns, _⟩
    exact ⟨slot, (scanSlot_ret_iff hs).mp returns⟩
  · rintro ⟨slot, func, visible, matched⟩
    have hs := visible.slots
    exact ⟨slot, hs, (scanSlot_ret_iff hs).mpr ⟨func, visible, matched⟩,
      fun j _ => scanSlot_ne_leave⟩

/-- The scan terminates if and only if there is something to find. -/
theorem pciScan_ends_iff : (∃ r fuel, pciScan s hit fuel = some r) ↔
    ∃ bus slot func, s.Visible bus slot func ∧ s.vendorId bus slot func ≠ 0xFFFF ∧
      hit bus slot func = true := by
  have ends : (∃ r, Ends 256 (scanBus s hit) r) ↔ _ := ends_iff
  constructor
  · intro h
    obtain ⟨bus, stop⟩ := ends.mp h
    have bound : bus.toNat < 256 := bus.toNat_lt
    cases turn : scanBus s hit bus with
    | next => exact absurd (exit_eq_none.mpr ⟨bound, turn⟩) stop
    | leave => exact absurd turn scanBus_ne_leave
    | ret loc =>
      obtain ⟨slot, func, found⟩ := scanBus_ret_iff.mp ⟨loc, turn⟩
      exact ⟨bus, slot, func, found⟩
  · rintro ⟨bus, slot, func, found⟩
    obtain ⟨loc, turn⟩ := scanBus_ret_iff.mpr ⟨slot, func, found⟩
    refine ends.mpr ⟨bus, ?_⟩
    rw [exit_eq_ret.mpr ⟨bus.toNat_lt, turn⟩]
    nofun

/-- A scan that terminates has found something. -/
theorem pciScan_found {fuel : Nat} {r : Option PciLoc} (ends : pciScan s hit fuel = some r) :
    r.isSome = true := by
  obtain ⟨bus, slot, func, found⟩ := pciScan_ends_iff.mp ⟨r, fuel, ends⟩
  obtain ⟨loc, turn⟩ := scanBus_ret_iff.mpr ⟨slot, func, found⟩
  have returns : ∃ a, Ends 256 (scanBus s hit) (some a) :=
    returns_iff.mpr ⟨bus, bus.toNat_lt, ⟨loc, turn⟩, fun j _ => scanBus_ne_leave⟩
  obtain ⟨a, ends'⟩ := returns
  rw [Ends.unique ⟨fuel, ends⟩ ends', Option.isSome_some]

variable {criterion : UInt8 → UInt8 → UInt8 → Prop}

/-- A scan whose test is the criterion settles whether there is a match exactly
when there is one. -/
theorem pciScan_settles_iff (test : ∀ bus slot func, slot < 32 → func < 8 →
    (hit bus slot func = true ↔ criterion bus slot func)) :
    Settles (pciScan s hit) (s.Has criterion) ↔ s.Has criterion := by
  have ends : (∃ r fuel, pciScan s hit fuel = some r) ↔ s.Has criterion := by
    rw [pciScan_ends_iff]
    refine exists_congr fun bus => exists_congr fun slot => exists_congr fun func => ?_
    refine and_congr_right fun visible => and_congr_right fun _ => ?_
    exact test bus slot func visible.slots visible.funcs
  constructor
  · rintro ⟨r, terminates, _⟩
    exact ends.mp ⟨r, terminates⟩
  · intro found
    obtain ⟨r, fuel, terminates⟩ := ends.mpr found
    exact ⟨r, ⟨fuel, terminates⟩, fun _ => found, fun _ => pciScan_found terminates⟩

end

theorem pciFindDevice_settles_iff (s : PciSpace) (vendor device : UInt16) :
    Settles (pciFindDevice s vendor device) (s.HasDevice vendor device) ↔
      s.HasDevice vendor device :=
  pciScan_settles_iff fun bus slot func hs hf => by
    rw [read_vendorId s bus hs hf, read_deviceId s bus hs hf]
    simp

theorem pciFindIntelNet_settles_iff (s : PciSpace) :
    Settles (pciFindIntelNet s) s.HasIntelNet ↔ s.HasIntelNet :=
  pciScan_settles_iff fun bus slot func hs hf => by
    rw [read_vendorId s bus hs hf, read_classCode s bus hs hf]
    simp

theorem xhciProbe_settles_iff (s : PciSpace) :
    Settles (xhciProbe s) s.HasXhci ↔ s.HasXhci :=
  pciScan_settles_iff fun bus slot func hs hf => by
    rw [read_classCode s bus hs hf, read_subclass s bus hs hf]
    simp

/-- Each scan terminates with the right answer if and only if there is a match;
without one none of them terminates. -/
theorem scans_settle_iff (s : PciSpace) :
    (∀ vendor device, Settles (pciFindDevice s vendor device) (s.HasDevice vendor device) ↔
      s.HasDevice vendor device) ∧
    (Settles (pciFindIntelNet s) s.HasIntelNet ↔ s.HasIntelNet) ∧
    (Settles (xhciProbe s) s.HasXhci ↔ s.HasXhci) :=
  ⟨pciFindDevice_settles_iff s, pciFindIntelNet_settles_iff s, xhciProbe_settles_iff s⟩

/-- A machine without any PCI device: every register reads as ones. -/
def emptySpace : PciSpace := fun _ _ _ _ => 0xFFFFFFFF

theorem emptySpace_unsettled :
    ¬ Settles (pciFindDevice emptySpace 0x10EC 0x8139) (emptySpace.HasDevice 0x10EC 0x8139) ∧
    ¬ Settles (pciFindIntelNet emptySpace) emptySpace.HasIntelNet ∧
    ¬ Settles (xhciProbe emptySpace) emptySpace.HasXhci := by
  have nothing (criterion : UInt8 → UInt8 → UInt8 → Prop) : ¬ emptySpace.Has criterion := by
    rintro ⟨bus, slot, func, _, present, _⟩
    have absent : emptySpace.vendorId bus slot func = 0xFFFF := by
      unfold PciSpace.vendorId emptySpace
      decide
    exact present absent
  rw [pciFindDevice_settles_iff, pciFindIntelNet_settles_iff, xhciProbe_settles_iff]
  exact ⟨nothing _, nothing _, nothing _⟩

end MyOS
