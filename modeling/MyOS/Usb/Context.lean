import MyOS.Base.Runs
import MyOS.Usb.Callers
import MyOS.Usb.EnableSlot

/-!
# The device context behind the DCBAA

A submission puts a new zeroed page into entry 1 of the DCBAA every time, and
initialises it only if it finds no slot enabled.
-/

namespace MyOS.Context

open Runs CmdRing Xhci

inductive Call
  | enumerate (ctl : Controller)
  | xhciTransfer (ctl : Controller) (q : ControlRequest)
  | usbTransfer (ctl : Controller) (q : UsbRequest)

def call (x : Xhci) : Call → Xhci
  | .enumerate ctl => (xhciEnumerateOnce ctl x).1
  | .xhciTransfer ctl q => (xhciControlTransfer ctl x q).x
  | .usbTransfer ctl q => (usbControlTransfer ctl x q).x

/-- The page DCBAA entry 1 points to. -/
def page (x : Xhci) : Nat → UInt32 := x.dev.pages (x.dev.dcbaaEntry 1)

/-- Entry 1 points to a context whose dequeue pointers are those of the EP0 ring. -/
def Initialised (x : Xhci) : Prop :=
  x.dev.dcbaaEntry 1 ≠ 0 ∧ ∀ i ∈ dequeueFields, page x i = x.dev.ep0RingPhys ∧ page x (i + 1) = 0

def ContextKept (x : Xhci) : Prop := x.dev.slotEnabled = true → Initialised x

instance (x : Xhci) : Decidable (ContextKept x) :=
  inferInstanceAs (Decidable (_ → _ ∧ _))

/-- The slot is not enabled yet, and an enumeration stops before its first
transfer: there is no context to initialise, or Enable Slot is not granted. -/
def BeforeEnabling (x : Xhci) : Call → Prop
  | .enumerate ctl => x.dev.slotEnabled = false ∧ (x.dev.devCtx = 0 ∨ ¬ Granted ctl x)
  | .xhciTransfer _ _ | .usbTransfer _ _ => x.dev.slotEnabled = false

/-- The EP0 ring has an address once it is there, and it is there once a slot is
enabled, unless memory ran out. -/
structure Inv (x : Xhci) : Prop where
  enable : x.hwEnable = true
  ring : x.dev.ep0Ring ≠ 0 → x.dev.ep0RingPhys ≠ 0
  enabled : x.dev.slotEnabled = true → x.dev.ep0RingPhys ≠ 0 ∨ x.outOfMemory = true

theorem kept_beside {x y : Xhci} (h : Beside x y) (kept : ContextKept x) : ContextKept y := by
  unfold ContextKept Initialised page
  rw [h.dev]
  exact kept

theorem kept_off {x : Xhci} (off : x.dev.slotEnabled = false) : ContextKept x := by
  intro enabled
  rw [off] at enabled
  cases enabled

/-! ## A slot that is enabled -/

/-- From `x` to `y` the slot and the EP0 ring stay as they are. -/
structure SameRing (x y : Xhci) : Prop where
  enable : y.hwEnable = x.hwEnable
  slot : y.dev.slotEnabled = x.dev.slotEnabled
  ring : y.dev.ep0Ring = x.dev.ep0Ring
  ringPhys : y.dev.ep0RingPhys = x.dev.ep0RingPhys
  memory : x.outOfMemory = true → y.outOfMemory = true

namespace SameRing

variable {x y z : Xhci}

theorem of_beside (h : Beside x y) : SameRing x y where
  enable := h.enable
  slot := congrArg XhciDevice.slotEnabled h.dev
  ring := congrArg XhciDevice.ep0Ring h.dev
  ringPhys := congrArg XhciDevice.ep0RingPhys h.dev
  memory := h.memory

theorem trans (h : SameRing x y) (h' : SameRing y z) : SameRing x z where
  enable := h'.enable.trans h.enable
  slot := h'.slot.trans h.slot
  ring := h'.ring.trans h.ring
  ringPhys := h'.ringPhys.trans h.ringPhys
  memory := fun out => h'.memory (h.memory out)

theorem inv (h : SameRing x y) (inv : Inv x) : Inv y where
  enable := h.enable.trans inv.enable
  ring := by
    rw [h.ring, h.ringPhys]
    exact inv.ring
  enabled := by
    rw [h.slot, h.ringPhys]
    intro enabled
    rcases inv.enabled enabled with there | out
    · exact .inl there
    · exact .inr (h.memory out)

end SameRing

/-- From `x` to `y`, moreover, the page in entry 1 has been replaced by an empty
one, unless memory ran out. -/
structure Replaced (x y : Xhci) : Prop extends SameRing x y where
  empty : y.outOfMemory = false → ∀ i ∈ dequeueFields, page y i = 0

namespace Replaced

variable {x y z : Xhci}

theorem of_full (h : SameRing x y) (full : y.outOfMemory = true) : Replaced x y where
  toSameRing := h
  empty := by
    intro memory
    rw [full] at memory
    cases memory

theorem beside (h : Replaced x y) (h' : Beside y z) : Replaced x z where
  toSameRing := h.toSameRing.trans (.of_beside h')
  empty := by
    intro memory
    unfold page
    rw [h'.dev]
    apply h.empty
    cases out : y.outOfMemory with
    | false => rfl
    | true => exact (h'.memory out).symm.trans memory

theorem after (h : SameRing x y) (h' : Replaced y z) : Replaced x z where
  toSameRing := h.trans h'.toSameRing
  empty := h'.empty

/-- A slot enabled over an empty page breaks the promise. -/
theorem not_kept (h : Replaced x y) (inv : Inv x) (enabled : x.dev.slotEnabled = true)
    (memory : y.outOfMemory = false) : ¬ ContextKept y := by
  intro kept
  have still : y.dev.slotEnabled = true := h.slot.trans enabled
  have here := ((kept still).2 10 (by decide)).1
  rw [h.empty memory 10 (by decide)] at here
  rcases (h.inv inv).enabled still with there | out
  · exact there here.symm
  · rw [memory] at out
    cases out

end Replaced

theorem ensureDcbaa_sameRing (x : Xhci) : SameRing x (ensureDcbaa x) := by
  have block := SameRing.of_beside ((Beside.refl x).alloc 4096)
  simp only [ensureDcbaa]
  generalize x.alloc 4096 = r at block
  split
  · exact .of_beside (.refl x)
  · exact ⟨block.enable, block.slot, block.ring, block.ringPhys, block.memory⟩

theorem ensureDcbaa_full {x : Xhci} (missing : (ensureDcbaa x).dev.dcbaa = 0) :
    (ensureDcbaa x).outOfMemory = true := by
  have null := @alloc_null x 4096
  simp only [ensureDcbaa] at missing ⊢
  generalize x.alloc 4096 = r at missing null
  split at missing
  · rename_i there
    exact absurd missing there
  · rename_i none
    rw [if_neg none]
    exact null missing

theorem placeContext_replaces (x : Xhci) : Replaced x (placeContext x).1 := by
  have first := ensureDcbaa_sameRing x
  have full := @ensureDcbaa_full x
  simp only [placeContext]
  generalize ensureDcbaa x = y at first full
  have block := SameRing.of_beside ((Beside.refl y).alloc 4096)
  have null := @alloc_null y 4096
  generalize y.alloc 4096 = r at block null
  split
  · rename_i missing
    exact .of_full first (full missing)
  · split
    · rename_i failed
      refine .of_full (first.trans ?_) (null failed)
      exact ⟨block.enable, block.slot, block.ring, block.ringPhys, block.memory⟩
    · refine ⟨first.trans ?_, ?_⟩
      · exact ⟨block.enable, block.slot, block.ring, block.ringPhys, block.memory⟩
      · intro _ i _
        simp [page]

variable (ctl : Controller)

theorem publishTransfer_replaces {x : Xhci} (enabled : x.dev.slotEnabled = true) :
    Replaced x (publishTransfer ctl x).1 := by
  have placed := placeContext_replaces x
  simp only [publishTransfer]
  generalize placeContext x = r at placed
  have same : tryEnableSlot ctl r.1 = r.1 := if_pos (placed.slot.trans enabled)
  rw [same]
  split
  · exact placed
  · split
    · exact placed
    · split
      · exact placed
      · exact placed.beside (xhciInitEventRing_beside ((Beside.refl r.1).other rfl rfl rfl))

/-- The same behind what leaves the device alone. -/
theorem Beside.publish_replaces {x y : Xhci} (h : Beside x y) (enabled : x.dev.slotEnabled = true) :
    Replaced x (publishTransfer ctl y).1 := by
  have still := (congrArg XhciDevice.slotEnabled h.dev).trans enabled
  exact .after (.of_beside h) (publishTransfer_replaces ctl still)

theorem xhciControlTransfer_replaces {x : Xhci} (enable : x.hwEnable = true)
    (enabled : x.dev.slotEnabled = true) (q : ControlRequest) :
    Replaced x (xhciControlTransfer ctl x q).x := by
  apply xhciControlTransfer_rule enable
  · intro y h full
    exact .of_full (.of_beside h) full
  · intro y h
    exact Beside.publish_replaces ctl h enabled
  · intro y z replaced h
    exact replaced.beside h

theorem usbControlTransfer_replaces {x : Xhci} (enable : x.hwEnable = true)
    (enabled : x.dev.slotEnabled = true) (q : UsbRequest) :
    Replaced x (usbControlTransfer ctl x q).x := by
  apply usbControlTransfer_rule enable
  · intro y h full
    exact .of_full (.of_beside h) full
  · intro y h
    exact Beside.publish_replaces ctl h enabled
  · intro y z replaced h
    exact replaced.beside h

theorem getConfig_replaces {x y : Xhci} (h : Replaced x y) (enable : x.hwEnable = true)
    (enabled : x.dev.slotEnabled = true) (buf : Option Mem) (len : Int) :
    Replaced x (xhciGetConfigDescriptor ctl y buf len).x := by
  unfold xhciGetConfigDescriptor
  split
  · exact h
  · apply Replaced.after h.toSameRing
    apply xhciControlTransfer_replaces
    · exact h.enable.trans enable
    · exact h.slot.trans enabled

/-- An enumeration that has got a slot replaces its context like any transfer. -/
theorem enumerate_replaces {x : Xhci} (enable : x.hwEnable = true)
    (enabled : x.dev.slotEnabled = true) : Replaced x (xhciEnumerateOnce ctl x).1 := by
  have first : enableFirst ctl x = (x, true) := if_pos enabled
  have device : Replaced x (xhciGetDeviceDescriptor ctl x (some fun _ => 0) 18).x :=
    xhciControlTransfer_replaces ctl enable enabled _
  simp only [xhciEnumerateOnce, first, Bool.not_true, Bool.false_eq_true, if_false]
  generalize xhciGetDeviceDescriptor ctl x (some fun _ => 0) 18 = r at device
  have header := getConfig_replaces ctl device enable enabled (some fun _ => 0) 9
  split
  · simp only [fetchConfig]
    generalize xhciGetConfigDescriptor ctl r.x (some fun _ => 0) 9 = s at header
    split
    · split
      · have block := header.beside ((Beside.refl s.x).alloc (totalLength s.user).toUInt32)
        split
        · exact block
        · exact getConfig_replaces ctl block enable enabled _ _
      · exact header
    · exact header
  · exact device

/-! ## The first slot -/

/-- What the initialisation of a context leaves as it was. -/
structure SameContext (x y : Xhci) : Prop where
  enable : y.hwEnable = x.hwEnable
  slot : y.dev.slotEnabled = x.dev.slotEnabled
  devCtx : y.dev.devCtx = x.dev.devCtx
  entry : y.dev.dcbaaEntry = x.dev.dcbaaEntry

namespace SameContext

variable {x y z : Xhci}

theorem of_beside (h : Beside x y) : SameContext x y where
  enable := h.enable
  slot := congrArg XhciDevice.slotEnabled h.dev
  devCtx := congrArg XhciDevice.devCtx h.dev
  entry := congrArg XhciDevice.dcbaaEntry h.dev

theorem trans (h : SameContext x y) (h' : SameContext y z) : SameContext x z where
  enable := h'.enable.trans h.enable
  slot := h'.slot.trans h.slot
  devCtx := h'.devCtx.trans h.devCtx
  entry := h'.entry.trans h.entry

end SameContext

/-- The EP0 ring has an address, unless memory ran out. -/
def RingThere (x : Xhci) : Prop := x.dev.ep0RingPhys ≠ 0 ∨ x.outOfMemory = true

theorem ensureEp0Ring_spec {x : Xhci} (ring : x.dev.ep0Ring ≠ 0 → x.dev.ep0RingPhys ≠ 0) :
    SameContext x (ensureEp0Ring x) ∧
      ((ensureEp0Ring x).dev.ep0Ring ≠ 0 → (ensureEp0Ring x).dev.ep0RingPhys ≠ 0) ∧
      RingThere (ensureEp0Ring x) := by
  have block := SameContext.of_beside ((Beside.refl x).alloc 4096)
  have null := @alloc_null x 4096
  have same := alloc_dev x 4096
  simp only [ensureEp0Ring]
  generalize x.alloc 4096 = r at block null same
  split
  · rename_i there
    exact ⟨.of_beside (.refl x), ring, .inl (ring there)⟩
  · split
    · rename_i failed
      rw [← same] at ring
      exact ⟨block, ring, .inr (null failed)⟩
    · rename_i made
      exact ⟨⟨block.enable, block.slot, block.devCtx, block.entry⟩, fun _ => made, .inl made⟩

theorem ensureEp0Rst_spec (x : Xhci) :
    SameContext x (ensureEp0Rst x) ∧ SameRing x (ensureEp0Rst x) := by
  have block := (Beside.refl x).alloc 4096
  have context := SameContext.of_beside block
  have ring := SameRing.of_beside block
  simp only [ensureEp0Rst]
  generalize x.alloc 4096 = r at context ring
  split
  · exact ⟨.of_beside (.refl x), .of_beside (.refl x)⟩
  · split
    · exact ⟨context, ring⟩
    · exact ⟨⟨context.enable, context.slot, context.devCtx, context.entry⟩,
        ⟨ring.enable, ring.slot, ring.ring, ring.ringPhys, ring.memory⟩⟩

theorem contextPage_fields (ring rst : UInt32) :
    ∀ i ∈ dequeueFields, contextPage ring rst i = ring ∧ contextPage ring rst (i + 1) = 0 := by
  by_cases none : ring = 0
  · simp [contextPage, dequeueFields, ecBase, none]
  · simp [contextPage, dequeueFields, ecBase, setQword, none]

/-- `y` is `x` with its context initialised. -/
structure Inited (x y : Xhci) : Prop where
  same : SameContext x y
  ring : y.dev.ep0Ring ≠ 0 → y.dev.ep0RingPhys ≠ 0
  there : RingThere y
  fields : ∀ i ∈ dequeueFields,
    y.dev.pages y.dev.devCtx i = y.dev.ep0RingPhys ∧ y.dev.pages y.dev.devCtx (i + 1) = 0

theorem xhciInitDeviceContext_spec {x : Xhci} (ring : x.dev.ep0Ring ≠ 0 → x.dev.ep0RingPhys ≠ 0)
    (ctx : x.dev.devCtx ≠ 0) :
    (xhciInitDeviceContext x).2 = 0 ∧ Inited x (xhciInitDeviceContext x).1 := by
  obtain ⟨first, ring, -⟩ := ensureEp0Ring_spec ring
  obtain ⟨second, ring, there⟩ := ensureEp0Ring_spec ring
  have context := first.trans second
  simp only [xhciInitDeviceContext, if_neg ctx]
  generalize ensureEp0Ring (ensureEp0Ring x) = y at context ring there
  have table : SameContext y (if y.dev.ep0RingPhys = 0 then y else ensureEp0Rst y) ∧
      SameRing y (if y.dev.ep0RingPhys = 0 then y else ensureEp0Rst y) := by
    split
    · exact ⟨.of_beside (.refl y), .of_beside (.refl y)⟩
    · exact ensureEp0Rst_spec y
  generalize (if y.dev.ep0RingPhys = 0 then y else ensureEp0Rst y) = z at table
  obtain ⟨rest, same⟩ := table
  have context := context.trans rest
  refine ⟨trivial, ⟨context.enable, context.slot, context.devCtx, context.entry⟩, ?_, ?_, ?_⟩
  · simp only [same.ring, same.ringPhys]
    exact ring
  · rcases there with there | out
    · exact .inl (same.ringPhys.trans_ne there)
    · exact .inr (same.memory out)
  · simp only [context.devCtx, Function.update_self]
    exact contextPage_fields _ _

/-- What is promised between two calls. -/
def Settled (x : Xhci) : Prop := Inv x ∧ ContextKept x

theorem settled_beside {x y : Xhci} (settled : Settled x) (h : Beside x y) : Settled y :=
  ⟨(SameRing.of_beside h).inv settled.1, kept_beside h settled.2⟩

theorem settled_off {x y : Xhci} (inv : Inv x) (off : x.dev.slotEnabled = false)
    (h : SameRing x y) : Settled y :=
  ⟨h.inv inv, kept_off (h.slot.trans off)⟩

/-- The flag is set. -/
def enableSlot (x : Xhci) : Xhci := { x with dev := { x.dev with slotEnabled := true } }

theorem enableSlot_inv {x y : Xhci} (inv : Inv x) (h : Inited x y) : Inv (enableSlot y) where
  enable := h.same.enable.trans inv.enable
  ring := h.ring
  enabled := fun _ => h.there

theorem enableSlot_kept {x y : Xhci} (h : Inited x y) (ctx : x.dev.devCtx ≠ 0)
    (entry : x.dev.dcbaaEntry 1 = x.dev.devCtx) : ContextKept (enableSlot y) := by
  have here : y.dev.dcbaaEntry 1 = y.dev.devCtx := by rw [h.same.entry, h.same.devCtx, entry]
  intro _
  unfold Initialised page
  simp only [enableSlot, here]
  exact ⟨h.same.devCtx.trans_ne ctx, h.fields⟩

theorem placeContext_entry {x : Xhci} (placed : (placeContext x).2 = true) :
    (placeContext x).1.dev.dcbaaEntry 1 = (placeContext x).1.dev.devCtx := by
  simp only [placeContext] at placed ⊢
  generalize ensureDcbaa x = y at placed
  generalize y.alloc 4096 = r at placed
  split at placed
  · cases placed
  · rename_i there
    rw [if_neg there]
    split at placed
    · cases placed
    · rename_i block
      rw [if_neg block]
      exact Function.update_self 1 r.1 r.2.dev.dcbaaEntry

theorem tryEnableSlot_settles {x : Xhci} (inv : Inv x) (off : x.dev.slotEnabled = false)
    (entry : x.dev.dcbaaEntry 1 = x.dev.devCtx) : Settled (tryEnableSlot ctl x) := by
  have sent := xhciSendEnableSlot_beside ctl (.refl x)
  have same := SameRing.of_beside sent
  simp only [tryEnableSlot, off, Bool.false_eq_true, if_false]
  generalize xhciSendEnableSlot ctl x = r at sent same
  split
  · by_cases ctx : r.1.dev.devCtx = 0
    · have none : xhciInitDeviceContext r.1 = (r.1, -1) := if_pos ctx
      rw [none]
      exact settled_off inv off same
    · have inv := same.inv inv
      obtain ⟨done, inited⟩ := xhciInitDeviceContext_spec inv.ring ctx
      rw [if_pos done]
      rw [← sent.dev] at entry
      exact ⟨enableSlot_inv inv inited, enableSlot_kept inited ctx entry⟩
  · exact settled_off inv off same

theorem publishTransfer_settles {x : Xhci} (inv : Inv x) (off : x.dev.slotEnabled = false) :
    Settled (publishTransfer ctl x).1 := by
  have same := (placeContext_replaces x).toSameRing
  have entry := @placeContext_entry x
  simp only [publishTransfer]
  generalize placeContext x = r at same entry
  split
  · exact settled_off inv off same
  · rename_i placed
    have placed : r.2 = true := by simpa using placed
    have tried := tryEnableSlot_settles ctl (same.inv inv) (same.slot.trans off) (entry placed)
    split
    · exact tried
    · split
      · exact tried
      · apply settled_beside tried
        exact xhciInitEventRing_beside ((Beside.refl _).other rfl rfl rfl)

theorem Beside.publish_settles {x y : Xhci} (h : Beside x y) (inv : Inv x)
    (off : x.dev.slotEnabled = false) : Settled (publishTransfer ctl y).1 := by
  have same := SameRing.of_beside h
  exact publishTransfer_settles ctl (same.inv inv) (same.slot.trans off)

theorem xhciControlTransfer_settles {x : Xhci} (inv : Inv x) (off : x.dev.slotEnabled = false)
    (q : ControlRequest) : Settled (xhciControlTransfer ctl x q).x := by
  apply xhciControlTransfer_rule inv.enable
  · intro y h full
    exact settled_off inv off (.of_beside h)
  · intro y h
    exact Beside.publish_settles ctl h inv off
  · intro y z settled h
    exact settled_beside settled h

theorem usbControlTransfer_settles {x : Xhci} (inv : Inv x) (off : x.dev.slotEnabled = false)
    (q : UsbRequest) : Settled (usbControlTransfer ctl x q).x := by
  apply usbControlTransfer_rule inv.enable
  · intro y h full
    exact settled_off inv off (.of_beside h)
  · intro y h
    exact Beside.publish_settles ctl h inv off
  · intro y z settled h
    exact settled_beside settled h

/-- An enumeration gets its slot unless there is no context to initialise or
Enable Slot fails. -/
theorem enableFirst_spec {x : Xhci} (inv : Inv x) (off : x.dev.slotEnabled = false) :
    ((enableFirst ctl x).2 = false ↔ x.dev.devCtx = 0 ∨ ¬ Granted ctl x) ∧
      Inv (enableFirst ctl x).1 ∧
      (enableFirst ctl x).1.dev.slotEnabled = (enableFirst ctl x).2 := by
  have sent := xhciSendEnableSlot_beside ctl (.refl x)
  have same := SameRing.of_beside sent
  rw [← xhciSendEnableSlot_granted ctl inv.enable]
  simp only [enableFirst, off, Bool.false_eq_true, if_false]
  generalize xhciSendEnableSlot ctl x = r at sent same
  by_cases answered : r.2 = 0
  · rw [if_neg (not_not.mpr answered)]
    by_cases ctx : r.1.dev.devCtx = 0
    · have none : xhciInitDeviceContext r.1 = (r.1, -1) := if_pos ctx
      rw [none]
      rw [sent.dev] at ctx
      exact ⟨iff_of_true rfl (.inl ctx), same.inv inv, same.slot.trans off⟩
    · have inv := same.inv inv
      obtain ⟨done, inited⟩ := xhciInitDeviceContext_spec inv.ring ctx
      rw [if_neg (not_not.mpr done)]
      rw [sent.dev] at ctx
      exact ⟨iff_of_false nofun (not_or.mpr ⟨ctx, not_not.mpr answered⟩),
        enableSlot_inv inv inited, rfl⟩
  · rw [if_pos answered]
    exact ⟨iff_of_true rfl (.inr answered), same.inv inv, same.slot.trans off⟩

/-! ## One call -/

theorem call_enabled {x : Xhci} (inv : Inv x) (enabled : x.dev.slotEnabled = true) (c : Call) :
    Replaced x (call x c) := by
  cases c with
  | enumerate ctl => exact enumerate_replaces ctl inv.enable enabled
  | xhciTransfer ctl q => exact xhciControlTransfer_replaces ctl inv.enable enabled q
  | usbTransfer ctl q => exact usbControlTransfer_replaces ctl inv.enable enabled q

/-- An enumeration goes on where `enableFirst` has left the driver. -/
theorem enumerate_enabled {x : Xhci} (got : (enableFirst ctl x).2 = true)
    (enabled : (enableFirst ctl x).1.dev.slotEnabled = true) :
    (xhciEnumerateOnce ctl x).1 = (xhciEnumerateOnce ctl (enableFirst ctl x).1).1 := by
  have again : enableFirst ctl (enableFirst ctl x).1 = ((enableFirst ctl x).1, true) :=
    if_pos enabled
  simp only [xhciEnumerateOnce, again, got]

theorem call_exact {x : Xhci} (inv : Inv x) (c : Call) (memory : (call x c).outOfMemory = false) :
    Inv (call x c) ∧ (ContextKept (call x c) ↔ BeforeEnabling x c) := by
  cases enabled : x.dev.slotEnabled with
  | true =>
    have replaced := call_enabled inv enabled c
    refine ⟨replaced.inv inv, iff_of_false (replaced.not_kept inv enabled memory) ?_⟩
    intro before
    have off : x.dev.slotEnabled = false := by
      cases c with
      | enumerate ctl => exact before.1
      | xhciTransfer ctl q => exact before
      | usbTransfer ctl q => exact before
    rw [enabled] at off
    cases off
  | false =>
    cases c with
    | enumerate ctl =>
      obtain ⟨stops, inv', slot⟩ := enableFirst_spec ctl inv enabled
      cases got : (enableFirst ctl x).2 with
      | false =>
        have last : call x (.enumerate ctl) = (enableFirst ctl x).1 := by
          simp only [call, xhciEnumerateOnce, got, Bool.not_false, if_true]
        rw [last]
        exact ⟨inv', iff_of_true (kept_off (slot.trans got)) ⟨enabled, stops.mp got⟩⟩
      | true =>
        have on := slot.trans got
        have same : call x (.enumerate ctl) = call (enableFirst ctl x).1 (.enumerate ctl) :=
          enumerate_enabled ctl got on
        rw [same] at memory ⊢
        have replaced := call_enabled inv' on (.enumerate ctl)
        refine ⟨replaced.inv inv', iff_of_false (replaced.not_kept inv' on memory) ?_⟩
        intro before
        rw [stops.mpr before.2] at got
        cases got
    | xhciTransfer ctl q =>
      obtain ⟨inv', kept⟩ := xhciControlTransfer_settles ctl inv enabled q
      exact ⟨inv', iff_of_true kept enabled⟩
    | usbTransfer ctl q =>
      obtain ⟨inv', kept⟩ := usbControlTransfer_settles ctl inv enabled q
      exact ⟨inv', iff_of_true kept enabled⟩

/-! ## Whole runs -/

/-- The exact condition for every enabled slot to have its initialised context:
no call is made once a slot is enabled. -/
theorem context_kept_along_iff {x : Xhci} (enable : x.hwEnable = true)
    (fresh : x.dev = Xhci.boot.dev) (cs : List Call)
    (memory : Steps call (fun x c => (call x c).outOfMemory = false) x cs) :
    Along call ContextKept x cs ↔ Steps call BeforeEnabling x cs := by
  have off : x.dev.slotEnabled = false := by rw [fresh]; rfl
  have start : Inv x := by
    refine ⟨enable, ?_, ?_⟩
    · rw [fresh]
      exact fun none => absurd rfl none
    · intro enabled
      rw [off] at enabled
      cases enabled
  apply along_iff_steps_within (I := Inv) (M := fun x c => (call x c).outOfMemory = false)
  · intro x c inv memory
    exact (call_exact inv c memory).1
  · intro x c inv memory
    exact (call_exact inv c memory).2
  · exact start
  · exact kept_off off
  · exact memory

/-- `SET_CONFIGURATION`, made twice. -/
def configureTwice : List Call :=
  let setConfiguration : ControlRequest := ⟨0, 9, 1, 0, none, 0, false, none⟩
  [.xhciTransfer prompt setConfiguration, .xhciTransfer prompt setConfiguration]

theorem context_kept_along_twice :
    Along call ContextKept .boot configureTwice ↔
      Steps call BeforeEnabling .boot configureTwice :=
  context_kept_along_iff rfl rfl configureTwice (by decide +kernel)

/-- The second transfer leaves an empty context behind. -/
theorem second_transfer_empties_context :
    Steps call (fun x c => (call x c).outOfMemory = false) .boot configureTwice ∧
      ¬ Along call ContextKept .boot configureTwice := by
  decide +kernel

end MyOS.Context
