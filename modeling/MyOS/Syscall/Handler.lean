import MyOS.Ui.Graphics

/-!
syscalls.c: the console, and the C side of a system call. What it draws is
returned as the drawing calls it makes.
-/

namespace MyOS

/-- `user_exited`, `user_exit_code` and `cons_y`. -/
structure Syscalls where
  userExited : Bool
  userExitCode : Int32
  consY : Int
  deriving DecidableEq

def Syscalls.boot : Syscalls := ⟨false, 0, 6⟩

def consX : Int := 6

def consolePuts (g : Display) (s : Syscalls) (str : List UInt8) : Syscalls × Draw :=
  let consY := s.consY + 10
  ({ s with consY := if consY > g.h - 10 then 6 else consY }, .string consX s.consY str 0x000000)

/-- `while (v > 0 && ti < 16) { tmp[ti++] = '0' + (v % 10); v /= 10; }` with so
much room left in `tmp`. -/
def exitDigits : Nat → Int32 → List UInt8
  | 0, _ => []
  | room + 1, v =>
    if v > 0 then (48 + (v % 10).toUInt32.toUInt8) :: exitDigits room (v / 10) else []

/-- The text of an exit code. `tmp` is filled from the last digit on. -/
def exitText (code : Int32) : List UInt8 :=
  if code = 0 then [48]
  else
    let neg := code < 0
    let tmp := exitDigits 16 (if neg then -code else code)
    (if neg then tmp ++ [45] else tmp).reverse

/-- The system call a program makes: the text of `len` bytes at `buf`, its end
with a code, or none the handler acts on. -/
inductive Syscall
  | write (buf : UInt32) (len : Nat)
  | exit (code : Int32)
  | ignored
  deriving DecidableEq

/-- `syscall_handler_c` up to its effect: at most 511 bytes are written, and
nothing for a negative length. -/
def Syscall.called (num ecx ebx : UInt32) : Syscall :=
  if num = 1 then
    let len := ecx.toInt32
    if len < 0 then .ignored
    else .write ebx (if len > 511 then 511 else len).toInt.toNat
  else if num = 2 then .exit ebx.toInt32
  else .ignored

/-- The effect, with `ram` the memory the program shares with the kernel. -/
def Syscall.perform (g : Display) (ram : UInt32 → UInt8) (s : Syscalls) :
    Syscall → Syscalls × List Draw
  | .write buf len =>
    let tmp := (List.range len).map fun i => ram (buf + UInt32.ofNat i)
    let (s, line) := consolePuts g s (cString tmp)
    (s, [line])
  | .exit code =>
    let s := { s with userExitCode := code, userExited := true }
    let (s, first) := consolePuts g s (ascii "[user exit]")
    let (s, second) := consolePuts g s (exitText code)
    (s, [first, second])
  | .ignored => (s, [])

def syscallHandlerC (g : Display) (ram : UInt32 → UInt8) (regs : Nat → UInt32) (s : Syscalls) :
    Syscalls × List Draw :=
  let num := regs 0
  let argEcx := regs 1
  let argEbx := regs 3
  (Syscall.called num argEcx argEbx).perform g ram s

end MyOS
