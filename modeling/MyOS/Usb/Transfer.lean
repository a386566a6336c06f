import MyOS.Usb.Xhci

/-!
# Control transfers

The two ways to make one, `xhci_control_transfer` in xhci.c and
`usb_control_transfer` in usb_host.c, and what xhci.c does with them. A pointer
of the caller is the memory behind it, `none` when it is NULL.
-/

namespace MyOS.Xhci

/-- `struct usb_setup`, and `setup[8]` of usb_host.c: the same eight bytes. -/
def setupPacket (bmRequestType bRequest : UInt8) (wValue wIndex wLength : UInt16) : List UInt8 :=
  [bmRequestType, bRequest] ++ bytes16 wValue ++ bytes16 wIndex ++ bytes16 wLength

/-- The arguments of `xhci_control_transfer`; `resp_len` is not used. -/
structure ControlRequest where
  bmRequestType : UInt8
  bRequest : UInt8
  wValue : UInt16
  wIndex : UInt16
  data : Option Mem
  dataLen : Int
  directionIn : Bool
  respBuf : Option Mem

/-- The arguments of `usb_control_transfer` that are used. -/
structure UsbRequest where
  bmRequestType : UInt8
  bRequest : UInt8
  wValue : UInt16
  wIndex : UInt16
  data : Option Mem
  wLength : UInt16

/-- `(bmRequestType & 0x80) == 0x80` -/
def UsbRequest.directionIn (q : UsbRequest) : Bool := q.bmRequestType &&& 0x80 == 0x80

/-- A failure before anything was submitted. -/
def Submitted.fail (x : Xhci) (user : Option Mem) : Submitted := ⟨x, user, none, -1⟩

/-- Both functions end alike: stage the TRBs, then submit them. -/
def stageAndSubmit (ctl : Controller) (x : Xhci) (q : CmdRing.Request) (user : Option Mem) :
    Submitted :=
  let (x, trbs) := xhciPrepareControlTransfer x q
  if trbs < 0 then .fail x user
  else xhciSubmitCommandRing ctl x ⟨q.data, user, q.dataLen, q.directionIn⟩

/-- The bytes of an OUT transfer go into the buffer of the driver. -/
def copyOut (x : Xhci) (dataV : UInt32) (data : Option Mem) (len : Nat) : Xhci :=
  match data with
  | some data => { x with ram := memcpy x.ram dataV.toNat data 0 len }
  | none => x

def xhciControlTransfer (ctl : Controller) (x : Xhci) (q : ControlRequest) : Submitted :=
  let (s, x) := x.alloc 8
  if s = 0 then .fail x q.respBuf
  else
    let wLength := (q.dataLen % 2 ^ 16).toNat.toUInt16
    let packet := setupPacket q.bmRequestType q.bRequest q.wValue q.wIndex wLength
    let x := { x with ram := x.ram.store s.toNat packet }
    if 0 < q.dataLen then
      let (dataV, x) := x.alloc q.dataLen.toNat.toUInt32
      if dataV = 0 then .fail x q.respBuf
      else
        let x := if q.directionIn then x else x.copyOut dataV q.data q.dataLen.toNat
        stageAndSubmit ctl x ⟨s, dataV, dataV, q.dataLen, q.directionIn⟩ q.respBuf
    else stageAndSubmit ctl x ⟨s, 0, 0, q.dataLen, q.directionIn⟩ q.respBuf

/-- `if(r<0) return -1; return (int)wLength;` -/
def Submitted.returning (r : Submitted) (wLength : UInt16) : Submitted :=
  { r with ret := if r.ret < 0 then -1 else wLength.toNat }

/-- The caller's buffer serves both directions. -/
def usbControlTransfer (ctl : Controller) (x : Xhci) (q : UsbRequest) : Submitted :=
  let (setupV, x) := x.alloc 8
  if setupV = 0 then .fail x q.data
  else
    let packet := setupPacket q.bmRequestType q.bRequest q.wValue q.wIndex q.wLength
    let x := { x with ram := x.ram.store setupV.toNat packet }
    if 0 < q.wLength ∧ q.data.isSome then
      let (dataV, x) := x.alloc q.wLength.toUInt32
      if dataV = 0 then .fail x q.data
      else
        let x := if q.directionIn then x else x.copyOut dataV q.data q.wLength.toNat
        let staged := ⟨setupV, dataV, dataV, q.wLength.toNat, q.directionIn⟩
        (stageAndSubmit ctl x staged q.data).returning q.wLength
    else
      let staged := ⟨setupV, 0, 0, q.wLength.toNat, q.directionIn⟩
      (stageAndSubmit ctl x staged q.data).returning q.wLength

/-! ## Descriptors -/

def xhciGetDeviceDescriptor (ctl : Controller) (x : Xhci) (buf : Option Mem) (len : Int) :
    Submitted :=
  xhciControlTransfer ctl x ⟨0x80, 6, (1 : UInt16) <<< 8, 0, none, len, true, buf⟩

def xhciGetConfigDescriptor (ctl : Controller) (x : Xhci) (buf : Option Mem) (len : Int) :
    Submitted :=
  if len ≤ 0 ∨ buf.isNone then .fail x buf
  else xhciControlTransfer ctl x ⟨0x80, 6, (2 : UInt16) <<< 8, 0, none, len, true, buf⟩

/-- `confhdr[2] | (confhdr[3] << 8)` -/
def totalLength (confhdr : Option Mem) : Nat :=
  match confhdr with
  | some hdr => (hdr 2).toNat ||| (hdr 3).toNat <<< 8
  | none => 0

/-- The descriptors `xhci_enumerate_once` goes on to fetch. Its walk through the
interfaces only logs. -/
def fetchConfig (ctl : Controller) (x : Xhci) : Xhci :=
  let hdr := xhciGetConfigDescriptor ctl x (some fun _ => 0) 9
  if hdr.ret = 0 then
    let totlen := totalLength hdr.user
    if 0 < totlen ∧ totlen ≤ 4096 then
      let (full, x) := hdr.x.alloc totlen.toUInt32
      if full = 0 then x
      else (xhciGetConfigDescriptor ctl x (some fun _ => 0) totlen).x
    else hdr.x
  else hdr.x

/-- Enable a slot if there is none; `false` is a return of -1. -/
def enableFirst (ctl : Controller) (x : Xhci) : Xhci × Bool :=
  if x.dev.slotEnabled then (x, true)
  else
    let (x, r) := xhciSendEnableSlot ctl x
    if r ≠ 0 then (x, false)
    else
      let (x, r) := xhciInitDeviceContext x
      if r ≠ 0 then (x, false)
      else ({ x with dev := { x.dev with slotEnabled := true } }, true)

def xhciEnumerateOnce (ctl : Controller) (x : Xhci) : Xhci × Int :=
  let (x, enabled) := enableFirst ctl x
  if !enabled then (x, -1)
  else
    let desc := xhciGetDeviceDescriptor ctl x (some fun _ => 0) 18
    if desc.ret = 0 then (fetchConfig ctl desc.x, desc.ret) else (desc.x, desc.ret)

end MyOS.Xhci
