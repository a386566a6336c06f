import MyOS.Base.Circular
import MyOS.Base.Memory

/-!
# The rings of xhci.c

The command ring, where control transfers are staged and published, and the
event ring, which the controller writes and two functions read. A pointer is 0
when it is NULL; physical addresses are the virtual ones, as `VIRT_TO_PHYS` is
not defined anywhere.
-/

namespace MyOS

open Circular

/-- `struct xhci_trb` -/
structure Trb where
  a : UInt32
  b : UInt32
  c : UInt32
  d : UInt32
  deriving DecidableEq

namespace Trb

def zero : Trb := ⟨0, 0, 0, 0⟩

/-- `(dw3 >> 10) & 0x3f` -/
def type (t : Trb) : UInt32 := (t.d >>> 10) &&& 0x3F

/-- `dw3 & 0x1u` -/
def cycle (t : Trb) : Bool := t.d &&& 0x1 != 0

/-- `if (on) d |= XHCI_TRB_CYCLE_BIT; else d &= ~XHCI_TRB_CYCLE_BIT;` -/
def withCycle (t : Trb) (on : Bool) : Trb :=
  { t with d := if on then t.d ||| 0x1 else t.d &&& ~~~0x1 }

end Trb

/-! The cycle bit is bit 0, the type lies in bits 10 to 15. -/

section
variable (d : UInt32)

/-- The bits of `~XHCI_TRB_CYCLE_BIT`. -/
theorem mask_bit {i : Nat} (hi : i < 32) : (4294967294#32).getLsbD i = !decide (i = 0) := by
  have mask : (4294967294#32) = ~~~1#32 := rfl
  rw [mask, BitVec.getLsbD_not]
  simp [hi]

theorem low_or : (d ||| 0x1) &&& 0x1 = 1 := by
  apply UInt32.toBitVec_inj.mp
  apply BitVec.eq_of_getLsbD_eq
  intro i hi
  by_cases h : i = 0 <;> simp [h]

theorem low_clear : (d &&& ~~~0x1) &&& 0x1 = 0 := by
  apply UInt32.toBitVec_inj.mp
  apply BitVec.eq_of_getLsbD_eq
  intro i hi
  by_cases h : i = 0 <;> simp [h]

theorem clear_or : (d ||| 0x1) &&& ~~~0x1 = d &&& ~~~0x1 := by
  apply UInt32.toBitVec_inj.mp
  apply BitVec.eq_of_getLsbD_eq
  intro i hi
  by_cases h : i = 0 <;> simp [h]

theorem or_clear : (d &&& ~~~0x1) ||| 0x1 = d ||| 0x1 := by
  apply UInt32.toBitVec_inj.mp
  apply BitVec.eq_of_getLsbD_eq
  intro i hi
  by_cases h : i = 0 <;> simp [h, mask_bit hi]

theorem high_or : (d ||| 0x1) >>> 10 = d >>> 10 := by
  apply UInt32.toBitVec_inj.mp
  apply BitVec.eq_of_getLsbD_eq
  intro i hi
  simp

theorem high_clear : (d &&& ~~~0x1) >>> 10 = d >>> 10 := by
  apply UInt32.toBitVec_inj.mp
  apply BitVec.eq_of_getLsbD_eq
  intro i hi
  simp
  intro here
  rw [mask_bit (BitVec.lt_of_getLsbD here)]
  simp

end

namespace Trb

@[simp] theorem withCycle_cycle (t : Trb) (on : Bool) : (t.withCycle on).cycle = on := by
  cases on with
  | true => simp only [withCycle, cycle, if_true, low_or]; rfl
  | false => simp only [withCycle, cycle, Bool.false_eq_true, if_false, low_clear]; rfl

/-- Only the last cycle bit put counts. -/
@[simp] theorem withCycle_withCycle (t : Trb) (first last : Bool) :
    (t.withCycle first).withCycle last = t.withCycle last := by
  cases first <;> cases last <;>
    simp [withCycle, clear_or, or_clear, UInt32.or_assoc, UInt32.and_assoc]

@[simp] theorem withCycle_a (t : Trb) (on : Bool) : (t.withCycle on).a = t.a := rfl

@[simp] theorem withCycle_type (t : Trb) (on : Bool) : (t.withCycle on).type = t.type := by
  cases on with
  | true => simp only [withCycle, type, if_true, high_or]
  | false => simp only [withCycle, type, Bool.false_eq_true, if_false, high_clear]

/-- A TRB with a type has a nonzero last dword. -/
theorem nonzero_of_type {t : Trb} (typed : t.type ≠ 0) : t.d ≠ 0 := by
  intro zero
  apply typed
  rw [type, zero]
  rfl

end Trb

/-! ## The command ring -/

/-- `XHCI_CMD_RING_TRBS` -/
def cmdRingTrbs : Nat := 256

/-- The file-scope variables of the command ring. `lastStart` is `none` for
`last_cmd_start == -1`. -/
structure CmdRing where
  ring : UInt32
  ringPhys : UInt32
  trbs : Nat → Trb
  pending : Nat → Bool
  head : Nat
  cycle : Bool
  token : Nat → UInt32
  tokenCounter : UInt32
  lastStart : Option Nat
  lastTrbCount : Nat
  lastToken : UInt32

/-- Values before any code has run. -/
def CmdRing.boot : CmdRing :=
  { ring := 0, ringPhys := 0
    trbs := fun _ => .zero, pending := fun _ => false
    head := 0, cycle := true
    token := fun _ => 0, tokenCounter := 0
    lastStart := none, lastTrbCount := 0, lastToken := 0 }

namespace CmdRing

/-- What `xhci_init_command_ring` does with the block `p`. -/
def init (cmd : CmdRing) (p : UInt32) : CmdRing :=
  { cmd with
    ring := p
    ringPhys := p
    trbs := fun i => if i < cmdRingTrbs then .zero else cmd.trbs i
    pending := fun i => if i < cmdRingTrbs then false else cmd.pending i
    token := fun i => if i < cmdRingTrbs then 0 else cmd.token i
    head := 0
    cycle := true }

/-! ### Staging -/

def setupTrb (setupPhys : UInt32) : Trb := ⟨setupPhys, 0, 8, (2 : UInt32) <<< 10⟩

def dataTrb (dataPhys dataLen : UInt32) (directionIn : Bool) : Trb :=
  ⟨dataPhys, 0, dataLen, (1 : UInt32) <<< 10 ||| if directionIn then (1 : UInt32) <<< 1 else 0⟩

def statusTrb : Trb := ⟨0, 0, 0, (3 : UInt32) <<< 10⟩

/-- A control transfer as `xhci_prepare_control_transfer` is given it. -/
structure Request where
  setupPhys : UInt32
  data : UInt32
  dataPhys : UInt32
  dataLen : Int
  directionIn : Bool
  deriving DecidableEq

/-- `data && data_len > 0` -/
def Request.hasData (q : Request) : Bool := q.data != 0 && decide (0 < q.dataLen)

/-- The TRBs of the transfer, in their order. -/
def Request.trbs (q : Request) : List Trb :=
  if q.hasData then
    [setupTrb q.setupPhys, dataTrb q.dataPhys q.dataLen.toNat.toUInt32 q.directionIn, statusTrb]
  else [setupTrb q.setupPhys, statusTrb]

/-- `xhci_prepare_control_transfer` once the ring is there. -/
def stage (cmd : CmdRing) (q : Request) : CmdRing :=
  let start := cmd.head
  let trbs := Function.update cmd.trbs start (setupTrb q.setupPhys)
  let idx := next cmdRingTrbs start
  if q.hasData then
    let trbs := Function.update trbs idx
      (dataTrb q.dataPhys q.dataLen.toNat.toUInt32 q.directionIn)
    let idx := next cmdRingTrbs idx
    { cmd with
      trbs := Function.update trbs idx statusTrb
      lastStart := some start
      lastTrbCount := 3 }
  else
    { cmd with
      trbs := Function.update trbs idx statusTrb
      lastStart := some start
      lastTrbCount := 2 }

/-- `xhci_build_command_trb` for Enable Slot, always at index 0. -/
def buildEnableSlot (cmd : CmdRing) : CmdRing :=
  { cmd with
    trbs := Function.update cmd.trbs 0 (Trb.withCycle ⟨0, 0, 0, (9 : UInt32) <<< 10⟩ true) }

/-! ### Publishing -/

/-- `dst = last_cmd_start + i; if (dst >= 256) dst -= 256;` -/
def slotAt (start i : Nat) : Nat :=
  if cmdRingTrbs ≤ start + i then start + i - cmdRingTrbs else start + i

/-- The slots of the transfer staged last. -/
def lastSlots (cmd : CmdRing) : List Nat :=
  match cmd.lastStart with
  | some start => (List.range cmd.lastTrbCount).map (slotAt start)
  | none => []

/-- `xhci_cmd_mark_pending` -/
def markPending (cmd : CmdRing) (i : Nat) : CmdRing :=
  if cmdRingTrbs ≤ i then cmd else { cmd with pending := Function.update cmd.pending i true }

/-- What publishing makes of a staged TRB. -/
def stamp (cycle : Bool) (token : UInt32) (t : Trb) : Trb :=
  { t.withCycle cycle with a := token }

def publishSlot (token : UInt32) (cmd : CmdRing) (dst : Nat) : CmdRing :=
  markPending
    { cmd with
      trbs := Function.update cmd.trbs dst (stamp cmd.cycle token (cmd.trbs dst))
      token := Function.update cmd.token dst token }
    dst

/-- The part of `xhci_submit_command_ring` that finalizes the staged TRBs and
moves the head on; `none` is the return of -1. -/
def publish (cmd : CmdRing) : Option CmdRing :=
  if cmd.lastStart = none ∨ cmd.lastTrbCount = 0 then none
  else
    let token := cmd.tokenCounter + 1
    let cmd := cmd.lastSlots.foldl (publishSlot token) { cmd with tokenCounter := token }
    let head := cmd.head + cmd.lastTrbCount
    some { cmd with
      head := if cmdRingTrbs ≤ head then head - cmdRingTrbs else head
      cycle := if cmdRingTrbs ≤ head then !cmd.cycle else cmd.cycle
      lastToken := token }

/-! ### Completions -/

/-- The slot a completion names by its 64-bit TRB pointer. -/
def pointedSlot (cmd : CmdRing) (ev : Trb) : Option Nat :=
  let ptr := ev.b.toUInt64 <<< 32 ||| ev.a.toUInt64
  let start := cmd.ringPhys.toUInt64
  if ptr ≠ 0 ∧ start ≠ 0 ∧ start ≤ ptr ∧ ptr < start + 256 * 16 then
    some ((ptr - start) / 16).toNat
  else none

/-- The first slot that carries the token in DW0. -/
def tokenSlot (cmd : CmdRing) (ev : Trb) : Option Nat :=
  if ev.a = 0 then none else (List.range cmdRingTrbs).find? fun i => cmd.token i == ev.a

/-- What a completion clears: the mark of the slot it points to, or else the
mark and the token of the first slot with its token. -/
def clear (cmd : CmdRing) : Option Nat → Option Nat → CmdRing
  | some i, _ => { cmd with pending := Function.update cmd.pending i false }
  | none, some i =>
    { cmd with
      pending := Function.update cmd.pending i false
      token := Function.update cmd.token i 0 }
  | none, none => cmd

theorem clear_pending (cmd : CmdRing) (pointed token : Option Nat) (j : Nat) :
    (cmd.clear pointed token).pending j =
      if pointed.or token = some j then false else cmd.pending j := by
  have one (i : Nat) : Function.update cmd.pending i false j =
      if some i = some j then false else cmd.pending j := by
    by_cases here : i = j
    · rw [here, Function.update_self, if_pos rfl]
    · rw [Function.update_of_ne (Ne.symm here), if_neg (fun same => here (Option.some.inj same))]
  cases pointed with
  | some i => exact one i
  | none =>
    cases token with
    | some i => exact one i
    | none => rfl

/-- The bookkeeping of `xhci_wait_for_command_completion`. -/
def release (cmd : CmdRing) (ev : Trb) : CmdRing :=
  cmd.clear (cmd.pointedSlot ev) (cmd.tokenSlot ev)

/-- The slot whose mark a completion clears. -/
def matched (cmd : CmdRing) (ev : Trb) : Option Nat := (cmd.pointedSlot ev).or (cmd.tokenSlot ev)

theorem release_pending (cmd : CmdRing) (ev : Trb) (j : Nat) :
    (cmd.release ev).pending j = if cmd.matched ev = some j then false else cmd.pending j :=
  clear_pending cmd _ _ j

end CmdRing

/-! ## The event ring -/

/-- `max_trbs` -/
def eventRingTrbs : Nat := 256

/-- The file-scope variables of the event ring, and the buffer the controller
writes. -/
structure EventRing where
  buffer : UInt32
  trbs : Nat → Trb
  erst : UInt32
  erstSize : UInt32
  dequeueIdx : Nat
  expectedCycle : Bool

/-- Values before any code has run. -/
def EventRing.boot : EventRing :=
  { buffer := 0, trbs := fun _ => .zero, erst := 0, erstSize := 0
    dequeueIdx := 0, expectedCycle := true }

namespace EventRing

/-- The TRB at the dequeue position. -/
def entry (er : EventRing) : Trb := er.trbs er.dequeueIdx

/-- `dw3 != 0 && trb_cycle == (er_expected_cycle & 0x1u)` -/
def valid (er : EventRing) : Bool :=
  er.entry.d != 0 && er.entry.cycle == er.expectedCycle

/-- Zero the TRB and advance the dequeue position. -/
def consume (er : EventRing) : EventRing :=
  { er with
    trbs := Function.update er.trbs er.dequeueIdx .zero
    dequeueIdx := next eventRingTrbs er.dequeueIdx
    expectedCycle :=
      if eventRingTrbs ≤ er.dequeueIdx + 1 then !er.expectedCycle else er.expectedCycle }

end EventRing

/-- The common Command Completion type, and the one that passes for it. -/
def Trb.isCompletion (ev : Trb) : Bool := ev.type == 0x21 || ev.type == 0x20

/-- `(dw2 >> 24) & 0xFF` -/
def Trb.compCode (ev : Trb) : UInt32 := (ev.c >>> 24) &&& 0xFF

end MyOS
