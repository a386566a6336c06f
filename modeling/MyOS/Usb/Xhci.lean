import MyOS.Heap
import MyOS.Usb.Rings

/-!
# xhci.c

Submission of a control transfer and the two consumers of the event ring.
Register accesses are left out: what is read from them is only written back or
logged. The controller acts on the driver through memory alone, between any two
looks the driver takes at the event ring.
-/

namespace MyOS

/-- What the controller has made of the memory it may write by the time the
driver looks at the event ring for the `n`-th time: the event ring, and the
data buffers. -/
structure Controller where
  events : Nat → (Nat → Trb) → Nat → Trb
  memory : Nat → Mem → Mem

/-- The DCBAA and the device contexts, by dwords. `pages` are the pages that
hold device contexts, by address. -/
structure XhciDevice where
  dcbaa : UInt32
  dcbaaEntry : Nat → UInt32
  devCtx : UInt32
  devCtxPhys : UInt32
  pages : UInt32 → Nat → UInt32
  slotEnabled : Bool
  ep0Ring : UInt32
  ep0RingPhys : UInt32
  ep0Rst : UInt32
  ep0RstPhys : UInt32

/-- The driver. `ram` holds the setup packets and data buffers by address;
`tick` counts the looks at the event ring, and `outOfMemory` says that `kmalloc`
has returned NULL. -/
structure Xhci where
  hwEnable : Bool
  heap : UInt32
  outOfMemory : Bool
  ram : Mem
  tick : Nat
  cmd : CmdRing
  er : EventRing
  dev : XhciDevice

/-- Values before any code has run. -/
def Xhci.boot : Xhci :=
  { hwEnable := true
    heap := heapStart
    outOfMemory := false
    ram := fun _ => 0
    tick := 0
    cmd := .boot
    er := .boot
    dev :=
      { dcbaa := 0, dcbaaEntry := fun _ => 0, devCtx := 0, devCtxPhys := 0
        pages := fun _ _ => 0, slotEnabled := false
        ep0Ring := 0, ep0RingPhys := 0, ep0Rst := 0, ep0RstPhys := 0 } }

namespace Xhci

/-- A call of `kmalloc` by the driver. -/
def alloc (x : Xhci) (sz : UInt32) : UInt32 × Xhci :=
  let (p, heap) := kmalloc x.heap sz
  (p, { x with heap, outOfMemory := x.outOfMemory || p == 0 })

theorem alloc_block (x : Xhci) (sz : UInt32) : (x.alloc sz).1 = (kmalloc x.heap sz).1 := rfl
theorem alloc_heap (x : Xhci) (sz : UInt32) : (x.alloc sz).2.heap = (kmalloc x.heap sz).2 := rfl

@[simp] theorem alloc_cmd (x : Xhci) (sz : UInt32) : (x.alloc sz).2.cmd = x.cmd := rfl
@[simp] theorem alloc_dev (x : Xhci) (sz : UInt32) : (x.alloc sz).2.dev = x.dev := rfl
@[simp] theorem alloc_hwEnable (x : Xhci) (sz : UInt32) :
    (x.alloc sz).2.hwEnable = x.hwEnable := rfl

/-! ## Initialisation -/

def xhciInitCommandRing (x : Xhci) : Xhci × Int :=
  if x.cmd.ring ≠ 0 then (x, 0)
  else
    let (p, x) := x.alloc (256 * 16)
    if p = 0 then (x, -1) else ({ x with cmd := x.cmd.init p }, 0)

def xhciInitEventRing (x : Xhci) : Xhci × Int :=
  if x.er.buffer ≠ 0 then (x, 0)
  else
    let (p, x) := x.alloc 4096
    if p = 0 then (x, -1)
    else
      let x := { x with er := { x.er with
        buffer := p
        trbs := fun i => if i < eventRingTrbs then .zero else x.er.trbs i } }
      let (s, x) := x.alloc 4096
      if s = 0 then (x, -1)
      else
        ({ x with er := { x.er with
            erst := s, erstSize := 1, dequeueIdx := 0, expectedCycle := true } }, 0)

/-- Sweeps the registers for the place of ERST and ERDP, and always settles on
one. -/
def xhciProgramEventRing (x : Xhci) : Int := if x.er.buffer = 0 ∨ x.er.erst = 0 then -1 else 0

/-! ## Looking at the event ring -/

/-- The driver looks at memory, and finds what the controller has written. -/
def observe (ctl : Controller) (x : Xhci) : Xhci :=
  { x with
    er := { x.er with trbs := ctl.events x.tick x.er.trbs }
    ram := ctl.memory x.tick x.ram
    tick := x.tick + 1 }

/-- One iteration of `xhci_poll_event_ring`: the event consumed, if any. -/
def pollStep (x : Xhci) : Xhci × Option Trb :=
  if x.er.valid then ({ x with er := x.er.consume }, some x.er.entry) else (x, none)

/-- One iteration of `xhci_wait_for_command_completion`. -/
def waitStep (x : Xhci) : Xhci × Option Trb :=
  if x.er.valid then
    let ev := x.er.entry
    if ev.isCompletion then ({ x with cmd := x.cmd.release ev, er := x.er.consume }, some ev)
    else ({ x with er := x.er.consume }, some ev)
  else (x, none)

/-- The two consumers do the same to the event ring. -/
theorem waitStep_event (x : Xhci) : x.waitStep.2 = x.pollStep.2 := by
  simp only [waitStep, pollStep]
  split
  · split <;> rfl
  · rfl

theorem waitStep_er (x : Xhci) : x.waitStep.1.er = x.pollStep.1.er := by
  simp only [waitStep, pollStep]
  split
  · split <;> rfl
  · rfl

/-- The number of bytes `xhci_poll_event_ring` takes as received. -/
def actual (ev : Trb) (dataLen : Int) : Nat :=
  let actual := (ev.c &&& 0xFFFF).toNat
  let actual := if actual = 0 then dataLen.toNat else actual
  if dataLen.toNat < actual then dataLen.toNat else actual

/-- Where the received bytes come from and go to: the buffer of the driver, 0
when there is none, and the memory behind the caller's pointer, `none` when it
is NULL. -/
structure Payload where
  dataV : UInt32
  user : Option Mem
  dataLen : Int
  directionIn : Bool

/-- `data_v && user_buf && data_len > 0 && direction_in` -/
def Payload.wanted (p : Payload) : Bool :=
  p.dataV != 0 && p.user.isSome && decide (0 < p.dataLen) && p.directionIn

/-- The caller's memory after an event has been consumed. -/
def Payload.copied (p : Payload) (ram : Mem) (ev : Trb) : Option Mem :=
  if p.wanted then
    p.user.map fun user => memcpy user 0 ram p.dataV.toNat (actual ev p.dataLen)
  else p.user

/-- What a poll leaves: the driver, the caller's memory and the event consumed;
`none` is the timeout. -/
structure Polled where
  x : Xhci
  user : Option Mem
  event : Option Trb

/-- 0 on a consumed event, -1 on timeout. -/
def Polled.ret (p : Polled) : Int := if p.event.isSome then 0 else -1

def pollLoop (ctl : Controller) (p : Payload) : Nat → Xhci → Polled
  | 0, x => ⟨x, p.user, none⟩
  | n + 1, x =>
    let seen := x.observe ctl
    match seen.pollStep with
    | (x, some ev) => ⟨x, p.copied seen.ram ev, some ev⟩
    | (x, none) => pollLoop ctl p n x

def xhciPollEventRing (ctl : Controller) (x : Xhci) (timeoutMs : Nat) (p : Payload) : Polled :=
  if x.er.buffer = 0 then ⟨x, p.user, none⟩
  else pollLoop ctl p (timeoutMs * 1000 / 10) x

/-- The code of the first completion; other events are consumed on the way. -/
def waitLoop (ctl : Controller) : Nat → Xhci → Xhci × Option UInt32
  | 0, x => (x, none)
  | n + 1, x =>
    match (x.observe ctl).waitStep with
    | (x, some ev) => if ev.isCompletion then (x, some ev.compCode) else waitLoop ctl n x
    | (x, none) => waitLoop ctl n x

/-- `none` is the return of -1, `some code` that of 0 with `*out_code = code`. -/
def xhciWaitForCommandCompletion (ctl : Controller) (x : Xhci) (timeoutMs : Nat) :
    Xhci × Option UInt32 :=
  if x.er.buffer = 0 then (x, none) else waitLoop ctl (timeoutMs * 1000 / 10) x

/-! ## Enabling a slot -/

/-- Up to `n` waits of two seconds each. -/
def enableAttempts (ctl : Controller) : Nat → Xhci → Xhci × Option UInt32
  | 0, x => (x, none)
  | n + 1, x =>
    match xhciWaitForCommandCompletion ctl x 2000 with
    | (x, some comp) => (x, some comp)
    | (x, none) => enableAttempts ctl n x

/-- From the Enable Slot TRB on: three attempts, and one more after the other
CRCR sequence, which takes any completion code. -/
def issueEnableSlot (ctl : Controller) (x : Xhci) : Xhci × Int :=
  let x := { x with cmd := x.cmd.buildEnableSlot }
  let x := (xhciInitEventRing x).1
  if x.cmd.ringPhys = 0 then (x, -1)
  else
    match enableAttempts ctl 3 x with
    | (x, some comp) => (x, if comp = 0 then 0 else -1)
    | (x, none) =>
      match xhciWaitForCommandCompletion ctl x 2000 with
      | (x, some _) => (x, 0)
      | (x, none) => (x, -1)

def xhciSendEnableSlot (ctl : Controller) (x : Xhci) : Xhci × Int :=
  if !x.hwEnable then (x, 0)
  else
    let (x, r) := if x.cmd.ring = 0 then xhciInitCommandRing x else (x, 0)
    if r < 0 then (x, -1) else issueEnableSlot ctl x

/-! ## The device context -/

/-- Allocate the endpoint-0 ring if it is missing. -/
def ensureEp0Ring (x : Xhci) : Xhci :=
  if x.dev.ep0Ring ≠ 0 then x
  else
    let (p, x) := x.alloc 4096
    if p = 0 then x else { x with dev := { x.dev with ep0Ring := p, ep0RingPhys := p } }

/-- Allocate the ring segment table of endpoint 0 if it is missing. -/
def ensureEp0Rst (x : Xhci) : Xhci :=
  if x.dev.ep0Rst ≠ 0 then x
  else
    let (p, x) := x.alloc 4096
    if p = 0 then x else { x with dev := { x.dev with ep0Rst := p, ep0RstPhys := p } }

/-- A quadword in two dwords; pointers are 32 bits wide. -/
def setQword (page : Nat → UInt32) (i : Nat) (ptr : UInt32) : Nat → UInt32 :=
  Function.update (Function.update page i ptr) (i + 1) 0

/-- The endpoint context starts at dword 8 of the device context. -/
def ecBase : Nat := 8

/-- The dwords at which the EP0 dequeue pointer is put. -/
def dequeueFields : List Nat := [ecBase + 2, ecBase + 4, ecBase + 6]

/-- The dwords `xhci_init_device_context` writes into the zeroed page. -/
def contextPage (ep0RingPhys ep0RstPhys : UInt32) : Nat → UInt32 :=
  let page := Function.update (fun _ => 0) 0 1
  if ep0RingPhys = 0 then page
  else
    let page :=
      if ep0RstPhys = 0 then page
      else
        Function.update (setQword (setQword page (ecBase + 8) ep0RstPhys) (ecBase + 10) ep0RstPhys)
          (ecBase + 12) 1
    let page := dequeueFields.foldl (fun page i => setQword page i ep0RingPhys) page
    Function.update page (ecBase + 1) ((page (ecBase + 1) &&& 0xFFFF0000) ||| 64)

/-- The second test of `ep0_ring` repeats the first. -/
def xhciInitDeviceContext (x : Xhci) : Xhci × Int :=
  if x.dev.devCtx = 0 then (x, -1)
  else
    let x := ensureEp0Ring (ensureEp0Ring x)
    let x := if x.dev.ep0RingPhys = 0 then x else ensureEp0Rst x
    let page := contextPage x.dev.ep0RingPhys x.dev.ep0RstPhys
    ({ x with dev := { x.dev with pages := Function.update x.dev.pages x.dev.devCtx page } }, 0)

/-! ## Submission -/

/-- Allocate the DCBAA if it is missing. -/
def ensureDcbaa (x : Xhci) : Xhci :=
  if x.dev.dcbaa ≠ 0 then x
  else
    let (p, x) := x.alloc 4096
    { x with dev := { x.dev with
        dcbaa := p
        dcbaaEntry := if p = 0 then x.dev.dcbaaEntry else fun _ => 0 } }

/-- The DCBAA once, and a zeroed device context every time; `false` is the
return of -1. -/
def placeContext (x : Xhci) : Xhci × Bool :=
  let x := ensureDcbaa x
  if x.dev.dcbaa = 0 then (x, false)
  else
    let (p, x) := x.alloc 4096
    if p = 0 then ({ x with dev := { x.dev with devCtx := 0 } }, false)
    else
      ({ x with dev := { x.dev with
          devCtx := p
          devCtxPhys := p
          pages := Function.update x.dev.pages p fun _ => 0
          dcbaaEntry := Function.update x.dev.dcbaaEntry 1 p } }, true)

/-- There is memory for the device context, and for the DCBAA if it is missing. -/
def contextFits (dcbaa heap : UInt32) : Bool :=
  if dcbaa ≠ 0 then (kmalloc heap 4096).1 != 0
  else (kmalloc heap 4096).1 != 0 && (kmalloc (kmalloc heap 4096).2 4096).1 != 0

theorem placeContext_placed (x : Xhci) :
    (placeContext x).2 = contextFits x.dev.dcbaa x.heap := by
  by_cases missing : x.dev.dcbaa = 0
  · by_cases first : (kmalloc x.heap 4096).1 = 0
    · simp [placeContext, ensureDcbaa, contextFits, missing, alloc_block, first]
    · by_cases second : (kmalloc (kmalloc x.heap 4096).2 4096).1 = 0 <;>
        simp [placeContext, ensureDcbaa, contextFits, missing, alloc_block, alloc_heap,
          first, second]
  · by_cases first : (kmalloc x.heap 4096).1 = 0 <;>
      simp [placeContext, ensureDcbaa, contextFits, missing, alloc_block, first]

/-- `if (!g_slot_enabled) ...` -/
def tryEnableSlot (ctl : Controller) (x : Xhci) : Xhci :=
  if x.dev.slotEnabled then x
  else
    let (x, r) := xhciSendEnableSlot ctl x
    if r = 0 then
      let (x, r) := xhciInitDeviceContext x
      if r = 0 then { x with dev := { x.dev with slotEnabled := true } } else x
    else x

/-- What a submission leaves, with the value it returns. -/
structure Submitted where
  x : Xhci
  user : Option Mem
  event : Option Trb
  ret : Int

/-- Everything up to the doorbell; `false` is a return of -1 on the way. -/
def publishTransfer (ctl : Controller) (x : Xhci) : Xhci × Bool :=
  let (x, placed) := placeContext x
  if !placed then (x, false)
  else
    let x := tryEnableSlot ctl x
    if x.cmd.ring = 0 then (x, false)
    else
      match x.cmd.publish with
      | none => (x, false)
      | some cmd => ((xhciInitEventRing { x with cmd }).1, true)

/-- `event` is the one its poll consumed. The result of the poll is logged and
dropped. -/
def xhciSubmitCommandRing (ctl : Controller) (x : Xhci) (p : Payload) : Submitted :=
  if !x.hwEnable then
    ⟨{ x with cmd := x.cmd.lastSlots.foldl CmdRing.markPending x.cmd }, p.user, none, 0⟩
  else
    let (x, published) := publishTransfer ctl x
    if !published then ⟨x, p.user, none, -1⟩
    else if xhciProgramEventRing x < 0 then ⟨x, p.user, none, 0⟩
    else
      let polled := xhciPollEventRing ctl x 500 p
      ⟨polled.x, polled.user, polled.event, 0⟩

/-- The number of TRBs staged, or -1. -/
def xhciPrepareControlTransfer (x : Xhci) (q : CmdRing.Request) : Xhci × Int :=
  let (x, r) := if x.cmd.ring = 0 then xhciInitCommandRing x else (x, 0)
  if r < 0 then (x, -1)
  else ({ x with cmd := x.cmd.stage q }, (x.cmd.stage q).lastTrbCount)

/-! ## What the functions leave alone -/

section
variable {ctl : Controller} {I : Xhci → Prop}

/-- What looking at the ring and waiting keep, a whole wait keeps. -/
theorem waitLoop_rule (look : ∀ x, I x → I (x.observe ctl)) (one : ∀ x, I x → I x.waitStep.1)
    (n : Nat) {x : Xhci} (start : I x) : I (waitLoop ctl n x).1 := by
  induction n generalizing x with
  | zero => exact start
  | succ n ih =>
    have here := one _ (look x start)
    unfold waitLoop
    split
    · rename_i y ev taken
      rw [taken] at here
      split
      · exact here
      · exact ih here
    · rename_i y taken
      rw [taken] at here
      exact ih here

theorem wait_rule (look : ∀ x, I x → I (x.observe ctl)) (one : ∀ x, I x → I x.waitStep.1)
    (timeoutMs : Nat) {x : Xhci} (start : I x) :
    I (xhciWaitForCommandCompletion ctl x timeoutMs).1 := by
  unfold xhciWaitForCommandCompletion
  split
  · exact start
  · exact waitLoop_rule look one _ start

theorem enableAttempts_rule (look : ∀ x, I x → I (x.observe ctl))
    (one : ∀ x, I x → I x.waitStep.1) (n : Nat) {x : Xhci} (start : I x) :
    I (enableAttempts ctl n x).1 := by
  induction n generalizing x with
  | zero => exact start
  | succ n ih =>
    have here := wait_rule look one 2000 start
    unfold enableAttempts
    split
    · rename_i y comp waited
      rw [waited] at here
      exact here
    · rename_i y waited
      rw [waited] at here
      exact ih here

theorem issueEnableSlot_rule (look : ∀ x, I x → I (x.observe ctl))
    (one : ∀ x, I x → I x.waitStep.1) {x : Xhci}
    (start : I (xhciInitEventRing { x with cmd := x.cmd.buildEnableSlot }).1) :
    I (issueEnableSlot ctl x).1 := by
  simp only [issueEnableSlot]
  generalize (xhciInitEventRing { x with cmd := x.cmd.buildEnableSlot }).1 = y at start
  have tried := enableAttempts_rule look one 3 start
  split
  · exact start
  · split
    · rename_i z comp attempted
      rw [attempted] at tried
      exact tried
    · rename_i z attempted
      rw [attempted] at tried
      have waited := wait_rule look one 2000 tried
      split
      · rename_i w comp done
        rw [done] at waited
        exact waited
      · rename_i w done
        rw [done] at waited
        exact waited

/-- What looking at the ring and polling keep, a whole poll keeps. -/
theorem pollLoop_rule (look : ∀ x, I x → I (x.observe ctl)) (one : ∀ x, I x → I x.pollStep.1)
    (p : Payload) (n : Nat) {x : Xhci} (start : I x) : I (pollLoop ctl p n x).x := by
  induction n generalizing x with
  | zero => exact start
  | succ n ih =>
    have here := one _ (look x start)
    unfold pollLoop
    simp only
    split
    · rename_i y ev taken
      rw [taken] at here
      exact here
    · rename_i y taken
      rw [taken] at here
      exact ih here

theorem poll_rule (look : ∀ x, I x → I (x.observe ctl)) (one : ∀ x, I x → I x.pollStep.1)
    (p : Payload) (timeoutMs : Nat) {x : Xhci} (start : I x) :
    I (xhciPollEventRing ctl x timeoutMs p).x := by
  unfold xhciPollEventRing
  split
  · exact start
  · exact pollLoop_rule look one p _ start

end

theorem xhciInitEventRing_cmd (x : Xhci) : (xhciInitEventRing x).1.cmd = x.cmd := by
  simp only [xhciInitEventRing]
  repeat' split
  all_goals simp only [alloc_cmd]

theorem placeContext_cmd (x : Xhci) : (placeContext x).1.cmd = x.cmd := by
  simp only [placeContext, ensureDcbaa]
  repeat' split
  all_goals simp only [alloc_cmd]

theorem placeContext_slotEnabled (x : Xhci) :
    (placeContext x).1.dev.slotEnabled = x.dev.slotEnabled := by
  simp only [placeContext, ensureDcbaa]
  repeat' split
  all_goals simp only [alloc_dev]

theorem placeContext_hwEnable (x : Xhci) : (placeContext x).1.hwEnable = x.hwEnable := by
  simp only [placeContext, ensureDcbaa]
  repeat' split
  all_goals simp only [alloc_hwEnable]

theorem ensureEp0Ring_cmd (x : Xhci) : (ensureEp0Ring x).cmd = x.cmd := by
  simp only [ensureEp0Ring]
  repeat' split
  all_goals simp only [alloc_cmd]

theorem ensureEp0Rst_cmd (x : Xhci) : (ensureEp0Rst x).cmd = x.cmd := by
  simp only [ensureEp0Rst]
  repeat' split
  all_goals simp only [alloc_cmd]

theorem ensureEp0Ring_hwEnable (x : Xhci) : (ensureEp0Ring x).hwEnable = x.hwEnable := by
  simp only [ensureEp0Ring]
  repeat' split
  all_goals simp only [alloc_hwEnable]

theorem ensureEp0Rst_hwEnable (x : Xhci) : (ensureEp0Rst x).hwEnable = x.hwEnable := by
  simp only [ensureEp0Rst]
  repeat' split
  all_goals simp only [alloc_hwEnable]

theorem xhciInitDeviceContext_hwEnable (x : Xhci) :
    (xhciInitDeviceContext x).1.hwEnable = x.hwEnable := by
  simp only [xhciInitDeviceContext]
  repeat' split
  all_goals simp only [ensureEp0Rst_hwEnable, ensureEp0Ring_hwEnable]

theorem xhciInitDeviceContext_cmd (x : Xhci) : (xhciInitDeviceContext x).1.cmd = x.cmd := by
  simp only [xhciInitDeviceContext]
  repeat' split
  all_goals simp only [ensureEp0Rst_cmd, ensureEp0Ring_cmd]

end Xhci

end MyOS
