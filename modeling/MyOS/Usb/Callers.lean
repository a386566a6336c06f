import MyOS.Usb.Submission

/-!
# The callers of the ring

`xhci_control_transfer` and `usb_control_transfer` allocate their buffers and
then stage and submit. All that happens beside the device context is summed up
in one relation.
-/

namespace MyOS.Xhci

open CmdRing

/-- From `x` to `y` the device structures stay as they are, and a lack of memory
is not forgotten. -/
structure Beside (x y : Xhci) : Prop where
  enable : y.hwEnable = x.hwEnable
  dev : y.dev = x.dev
  memory : x.outOfMemory = true → y.outOfMemory = true

namespace Beside

variable {x y z : Xhci}

theorem refl (x : Xhci) : Beside x x := ⟨rfl, rfl, id⟩

theorem trans (h : Beside x y) (h' : Beside y z) : Beside x z :=
  ⟨h'.enable.trans h.enable, h'.dev.trans h.dev, fun out => h'.memory (h.memory out)⟩

theorem alloc (h : Beside x y) (sz : UInt32) : Beside x (y.alloc sz).2 := by
  refine h.trans ⟨rfl, rfl, ?_⟩
  intro out
  simp [Xhci.alloc, out]

/-- What is read and written elsewhere does not count. -/
theorem other (h : Beside x y) (enable : z.hwEnable = y.hwEnable) (dev : z.dev = y.dev)
    (memory : z.outOfMemory = y.outOfMemory) : Beside x z :=
  h.trans ⟨enable, dev, fun out => memory.trans out⟩

end Beside

theorem alloc_null {x : Xhci} {sz : UInt32} (null : (x.alloc sz).1 = 0) :
    (x.alloc sz).2.outOfMemory = true := by
  have same : (x.alloc sz).2.outOfMemory = (x.outOfMemory || (x.alloc sz).1 == 0) := rfl
  rw [same, null]
  simp

section
variable (ctl : Controller) {x y : Xhci}

theorem pollStep_beside (h : Beside x y) : Beside x y.pollStep.1 := by
  unfold pollStep
  split <;> exact h.other rfl rfl rfl

theorem waitStep_beside (h : Beside x y) : Beside x y.waitStep.1 := by
  simp only [waitStep]
  split
  · split <;> exact h.other rfl rfl rfl
  · exact h

theorem poll_beside (h : Beside x y) (timeoutMs : Nat) (p : Payload) :
    Beside x (xhciPollEventRing ctl y timeoutMs p).x :=
  poll_rule (fun _ h => h.other rfl rfl rfl) (fun _ => pollStep_beside) p timeoutMs h

theorem xhciInitEventRing_beside (h : Beside x y) : Beside x (xhciInitEventRing y).1 := by
  simp only [xhciInitEventRing]
  have first := h.alloc 4096
  generalize y.alloc 4096 = r at first
  split
  · exact h
  · split
    · exact first
    · have opened : Beside x { r.2 with er := { r.2.er with
          buffer := r.1
          trbs := fun i => if i < eventRingTrbs then .zero else r.2.er.trbs i } } :=
        first.other rfl rfl rfl
      have second := opened.alloc 4096
      split
      · exact second
      · exact second.other rfl rfl rfl

theorem xhciInitCommandRing_beside (h : Beside x y) : Beside x (xhciInitCommandRing y).1 := by
  simp only [xhciInitCommandRing]
  have block := h.alloc (256 * 16)
  generalize y.alloc (256 * 16) = r at block
  split
  · exact h
  · split
    · exact block
    · exact block.other rfl rfl rfl

theorem xhciSendEnableSlot_beside (h : Beside x y) : Beside x (xhciSendEnableSlot ctl y).1 := by
  have made := xhciInitCommandRing_beside h
  have issue {z : Xhci} (h : Beside x z) : Beside x (issueEnableSlot ctl z).1 :=
    issueEnableSlot_rule (fun _ h => h.other rfl rfl rfl) (fun _ => waitStep_beside)
      (xhciInitEventRing_beside (h.other rfl rfl rfl))
  simp only [xhciSendEnableSlot]
  split
  · exact h
  · by_cases ring : y.cmd.ring = 0
    · simp only [if_pos ring]
      split
      · exact made
      · exact issue made
    · simp only [if_neg ring]
      split
      · exact h
      · exact issue h

theorem prepare_beside (h : Beside x y) (q : Request) :
    Beside x (xhciPrepareControlTransfer y q).1 := by
  have made := xhciInitCommandRing_beside h
  simp only [xhciPrepareControlTransfer]
  by_cases ring : y.cmd.ring = 0
  · simp only [if_pos ring]
    split
    · exact made
    · exact made.other rfl rfl rfl
  · simp only [if_neg ring]
    split
    · exact h
    · exact h.other rfl rfl rfl

theorem xhciInitCommandRing_full (failed : (xhciInitCommandRing y).2 < 0) :
    (xhciInitCommandRing y).1.outOfMemory = true := by
  have null := @alloc_null y (256 * 16)
  simp only [xhciInitCommandRing] at failed ⊢
  generalize y.alloc (256 * 16) = r at failed null
  split at failed
  · exact absurd failed (Int.lt_irrefl 0)
  · split at failed
    · rename_i ring none
      rw [if_neg ring, if_pos none]
      exact null none
    · exact absurd failed (Int.lt_irrefl 0)

/-- Staging fails only for want of memory. -/
theorem prepare_full {q : Request} (failed : (xhciPrepareControlTransfer y q).2 < 0) :
    (xhciPrepareControlTransfer y q).1.outOfMemory = true := by
  have full := @xhciInitCommandRing_full y
  simp only [xhciPrepareControlTransfer] at failed ⊢
  by_cases ring : y.cmd.ring = 0
  · simp only [if_pos ring] at failed ⊢
    split at failed
    · rename_i bad
      rw [if_pos bad]
      exact full bad
    · exact absurd failed (Int.not_lt.mpr (Int.natCast_nonneg _))
  · simp only [if_neg ring, Int.lt_irrefl, if_false] at failed
    exact absurd failed (Int.not_lt.mpr (Int.natCast_nonneg _))

end

/-! ## The two functions -/

/-- `xhci_control_transfer` up to its call of `xhci_prepare_control_transfer`;
`none` when it returns before. -/
def xhciStaged (x : Xhci) (q : ControlRequest) : Option (Xhci × Request) :=
  let (s, x) := x.alloc 8
  if s = 0 then none
  else
    let wLength := (q.dataLen % 2 ^ 16).toNat.toUInt16
    let packet := setupPacket q.bmRequestType q.bRequest q.wValue q.wIndex wLength
    let x := { x with ram := x.ram.store s.toNat packet }
    if 0 < q.dataLen then
      let (dataV, x) := x.alloc q.dataLen.toNat.toUInt32
      if dataV = 0 then none
      else
        let x := if q.directionIn then x else x.copyOut dataV q.data q.dataLen.toNat
        some (x, ⟨s, dataV, dataV, q.dataLen, q.directionIn⟩)
    else some (x, ⟨s, 0, 0, q.dataLen, q.directionIn⟩)

theorem copyOut_beside {x y : Xhci} (h : Beside x y) (dataV : UInt32) (data : Option Mem)
    (len : Nat) : Beside x (y.copyOut dataV data len) := by
  unfold copyOut
  split
  · exact h.other rfl rfl rfl
  · exact h

/-- What both functions do with `fail` and `go` behind it: a block for the setup
packet and, where there are data, one for these. -/
def staging {β : Type} (x : Xhci) (packet : List UInt8) (needs : Prop) [Decidable needs]
    (size : UInt32) (fill : UInt32 → Xhci → Xhci) (request : UInt32 → UInt32 → Request)
    (fail : Xhci → β) (go : Xhci → Request → β) : β :=
  let (setupV, x) := x.alloc 8
  if setupV = 0 then fail x
  else
    let x := { x with ram := x.ram.store setupV.toNat packet }
    if needs then
      let (dataV, x) := x.alloc size
      if dataV = 0 then fail x else go (fill dataV x) (request setupV dataV)
    else go x (request setupV 0)

/-- A failure before the call leaves memory exhausted. -/
theorem staging_cases (x : Xhci) (packet : List UInt8) (needs : Prop) [Decidable needs]
    (size : UInt32) (request : UInt32 → UInt32 → Request) {fill : UInt32 → Xhci → Xhci}
    (keep : ∀ v y, Beside x y → Beside x (fill v y)) :
    (∃ y, Beside x y ∧ y.outOfMemory = true ∧
      ∀ {β : Type} (fail : Xhci → β) (go : Xhci → Request → β),
        staging x packet needs size fill request fail go = fail y) ∨
      ∃ y s, Beside x y ∧ ∀ {β : Type} (fail : Xhci → β) (go : Xhci → Request → β),
        staging x packet needs size fill request fail go = go y s := by
  have first := (Beside.refl x).alloc 8
  have null := @alloc_null x 8
  simp only [staging]
  generalize x.alloc 8 = r at first null
  by_cases setup : r.1 = 0
  · simp only [if_pos setup]
    exact .inl ⟨_, first, null setup, fun _ _ => rfl⟩
  · simp only [if_neg setup]
    have stored : Beside x { r.2 with ram := r.2.ram.store r.1.toNat packet } :=
      first.other rfl rfl rfl
    split
    · split
      · rename_i none
        exact .inl ⟨_, stored.alloc _, alloc_null none, fun _ _ => rfl⟩
      · exact .inr ⟨_, _, keep _ _ (stored.alloc _), fun _ _ => rfl⟩
    · exact .inr ⟨_, _, stored, fun _ _ => rfl⟩

theorem copyOut_keeps {x : Xhci} (directionIn : Bool) (data : Option Mem) (len : Nat) (v : UInt32)
    (y : Xhci) (h : Beside x y) : Beside x (if directionIn then y else y.copyOut v data len) := by
  split
  · exact h
  · exact copyOut_beside h v data len

variable (ctl : Controller)

theorem xhciControlTransfer_cases (x : Xhci) (q : ControlRequest) :
    (xhciStaged x q = none ∧ (xhciControlTransfer ctl x q).ret = -1 ∧
        (xhciControlTransfer ctl x q).event = none ∧
        Beside x (xhciControlTransfer ctl x q).x ∧
        (xhciControlTransfer ctl x q).x.outOfMemory = true) ∨
      ∃ y s, xhciStaged x q = some (y, s) ∧ Beside x y ∧
        xhciControlTransfer ctl x q = stageAndSubmit ctl y s q.respBuf := by
  let wLength := (q.dataLen % 2 ^ 16).toNat.toUInt16
  let packet := setupPacket q.bmRequestType q.bRequest q.wValue q.wIndex wLength
  let request := fun setupV dataV => (⟨setupV, dataV, dataV, q.dataLen, q.directionIn⟩ : Request)
  let fail := fun y => Submitted.fail y q.respBuf
  let go := fun y s => stageAndSubmit ctl y s q.respBuf
  rcases staging_cases x packet (0 < q.dataLen) q.dataLen.toNat.toUInt32 request
    (copyOut_keeps q.directionIn q.data q.dataLen.toNat) with
    ⟨y, beside, full, same⟩ | ⟨y, s, beside, same⟩
  · have staged : xhciStaged x q = none := same (fun _ => none) fun y s => some (y, s)
    have failed : xhciControlTransfer ctl x q = Submitted.fail y q.respBuf := same fail go
    rw [failed]
    exact .inl ⟨staged, rfl, rfl, beside, full⟩
  · exact .inr ⟨y, s, same (fun _ => none) fun y s => some (y, s), beside, same fail go⟩

/-- `usb_control_transfer` up to the same call. -/
def usbStaged (x : Xhci) (q : UsbRequest) : Option (Xhci × Request) :=
  let (setupV, x) := x.alloc 8
  if setupV = 0 then none
  else
    let packet := setupPacket q.bmRequestType q.bRequest q.wValue q.wIndex q.wLength
    let x := { x with ram := x.ram.store setupV.toNat packet }
    if 0 < q.wLength ∧ q.data.isSome then
      let (dataV, x) := x.alloc q.wLength.toUInt32
      if dataV = 0 then none
      else
        let x := if q.directionIn then x else x.copyOut dataV q.data q.wLength.toNat
        some (x, ⟨setupV, dataV, dataV, q.wLength.toNat, q.directionIn⟩)
    else some (x, ⟨setupV, 0, 0, q.wLength.toNat, q.directionIn⟩)

theorem usbControlTransfer_cases (x : Xhci) (q : UsbRequest) :
    (usbStaged x q = none ∧ (usbControlTransfer ctl x q).ret = -1 ∧
        (usbControlTransfer ctl x q).event = none ∧
        Beside x (usbControlTransfer ctl x q).x ∧
        (usbControlTransfer ctl x q).x.outOfMemory = true) ∨
      ∃ y s, usbStaged x q = some (y, s) ∧ Beside x y ∧
        usbControlTransfer ctl x q = (stageAndSubmit ctl y s q.data).returning q.wLength := by
  let packet := setupPacket q.bmRequestType q.bRequest q.wValue q.wIndex q.wLength
  let request :=
    fun setupV dataV => (⟨setupV, dataV, dataV, q.wLength.toNat, q.directionIn⟩ : Request)
  let fail := fun y => Submitted.fail y q.data
  let go := fun y s => (stageAndSubmit ctl y s q.data).returning q.wLength
  rcases staging_cases x packet (0 < q.wLength ∧ q.data.isSome) q.wLength.toUInt32 request
    (copyOut_keeps q.directionIn q.data q.wLength.toNat) with
    ⟨y, beside, full, same⟩ | ⟨y, s, beside, same⟩
  · have staged : usbStaged x q = none := same (fun _ => none) fun y s => some (y, s)
    have failed : usbControlTransfer ctl x q = Submitted.fail y q.data := same fail go
    rw [failed]
    exact .inl ⟨staged, rfl, rfl, beside, full⟩
  · exact .inr ⟨y, s, same (fun _ => none) fun y s => some (y, s), beside, same fail go⟩

/-! ## What holds after a call -/

section
variable {ctl} {x y : Xhci} {Q : Xhci → Prop} (enable : x.hwEnable = true)
  (full : ∀ y, Beside x y → y.outOfMemory = true → Q y)
  (publish : ∀ y, Beside x y → Q (publishTransfer ctl y).1)
  (beside : ∀ y z, Q y → Beside y z → Q z)
include enable full publish beside

/-- What holds when memory runs out before anything is published, and of every
state in which something has been, holds after the submission. -/
theorem stageAndSubmit_rule (h : Beside x y) (q : Request) (user : Option Mem) :
    Q (stageAndSubmit ctl y q user).x := by
  have prepared := prepare_beside h q
  have out := @prepare_full y q
  simp only [stageAndSubmit]
  generalize xhciPrepareControlTransfer y q = r at prepared out
  split
  · rename_i failed
    exact full _ prepared (out failed)
  · have published := publish r.1 prepared
    simp only [xhciSubmitCommandRing, prepared.enable.trans enable, Bool.not_true,
      Bool.false_eq_true, if_false]
    split
    · exact published
    · split
      · exact published
      · exact beside _ _ published (poll_beside ctl (.refl _) 500 _)

theorem xhciControlTransfer_rule (q : ControlRequest) : Q (xhciControlTransfer ctl x q).x := by
  rcases xhciControlTransfer_cases ctl x q with ⟨-, -, -, failed, out⟩ | ⟨y, s, -, staged, same⟩
  · exact full _ failed out
  · rw [same]
    exact stageAndSubmit_rule enable full publish beside staged s q.respBuf

theorem usbControlTransfer_rule (q : UsbRequest) : Q (usbControlTransfer ctl x q).x := by
  rcases usbControlTransfer_cases ctl x q with ⟨-, -, -, failed, out⟩ | ⟨y, s, -, staged, same⟩
  · exact full _ failed out
  · rw [same]
    exact stageAndSubmit_rule enable full publish beside staged s q.data

end

end MyOS.Xhci
