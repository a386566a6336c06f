import MyOS.Base.WordStack
import MyOS.Syscall.Handler

/-!
# The way into a system call

irqstubs.S, run by a CPU that knows the instructions it uses. Programs run with
the kernel's privileges, so an interrupt stays on the same stack. A segment
register is pushed with zeros in the upper half of its word.
-/

namespace MyOS

open WordStack

structure Cpu where
  eax : UInt32
  ecx : UInt32
  edx : UInt32
  ebx : UInt32
  ebp : UInt32
  esi : UInt32
  edi : UInt32
  ds : UInt16
  es : UInt16
  cs : UInt16
  eip : UInt32
  eflags : UInt32
  stack : Stack

namespace Cpu

def esp (c : Cpu) : UInt32 := c.stack.esp

def push (c : Cpu) (w : UInt32) : Cpu := { c with stack := c.stack.push w }

/-- `int $0x80` through an interrupt gate with selector 0x08: the flag IF, bit
9, is cleared in the handler. -/
def int80 (c : Cpu) : Cpu :=
  { c with
    cs := 0x08
    eflags := c.eflags &&& 0xFFFFFDFF
    stack := c.stack.pushAll [c.eflags, c.cs.toUInt32, c.eip] }

def pusha (c : Cpu) : Cpu :=
  { c with stack := c.stack.pushAll [c.eax, c.ecx, c.edx, c.ebx, c.esp, c.ebp, c.esi, c.edi] }

/-- The stack pointer that `pusha` saved is skipped. -/
def popa (c : Cpu) : Cpu :=
  { c with
    edi := c.stack.top
    esi := (c.stack.drop 1).top
    ebp := (c.stack.drop 2).top
    ebx := (c.stack.drop 4).top
    edx := (c.stack.drop 5).top
    ecx := (c.stack.drop 6).top
    eax := (c.stack.drop 7).top
    stack := c.stack.drop 8 }

def iret (c : Cpu) : Cpu :=
  { c with
    eip := c.stack.top
    cs := (c.stack.drop 1).top.toUInt16
    eflags := (c.stack.drop 2).top
    stack := c.stack.drop 3 }

/-- What a call of a C function with one argument leaves alone: the registers a
callee saves, the segments, and on the stack the thirteen words behind the
argument, which itself belongs to the callee. -/
structure Called (before after : Cpu) : Prop where
  esp : after.esp = before.esp
  ebx : after.ebx = before.ebx
  ebp : after.ebp = before.ebp
  esi : after.esi = before.esi
  edi : after.edi = before.edi
  ds : after.ds = before.ds
  es : after.es = before.es
  cs : after.cs = before.cs
  frame : ∀ i < 13, ((after.stack.drop 1).drop i).top = ((before.stack.drop 1).drop i).top

end Cpu

/-- The machine code of `syscall_handler_c`, from its call to its return. -/
structure HandlerCode where
  run : Cpu → Cpu
  called : ∀ c, Cpu.Called c (run c)

/-- The CPU and the kernel state the handler works on. `calls` and `drawn` are
the system calls handled and the drawing calls made, oldest first. -/
structure Machine where
  cpu : Cpu
  sys : Syscalls
  calls : List Syscall
  drawn : List Draw

inductive Instr
  | pusha | pushDs | pushEs
  | movAx (imm : UInt16) | movDsAx | movEsAx | movEaxEsp
  | pushEax | callSyscallHandlerC | addEsp (n : UInt32)
  | popEs | popDs | popa | iret

def irq80Stub : List Instr :=
  [.pusha, .pushDs, .pushEs, .movAx 0x10, .movDsAx, .movEsAx, .movEaxEsp, .pushEax,
    .callSyscallHandlerC, .addEsp 4, .popEs, .popDs, .popa, .iret]

/-- The dwords the handler's argument points at. -/
def Cpu.regs (c : Cpu) (i : Nat) : UInt32 := c.stack.mem (c.stack.top + 4 * UInt32.ofNat i)

section
variable (g : Display) (ram : UInt32 → UInt8) (code : HandlerCode)

def Machine.call (m : Machine) : Machine :=
  let done := syscallHandlerC g ram m.cpu.regs m.sys
  { cpu := code.run m.cpu
    sys := done.1
    calls := m.calls ++ [.called (m.cpu.regs 0) (m.cpu.regs 1) (m.cpu.regs 3)]
    drawn := m.drawn ++ done.2 }

def Instr.exec (m : Machine) : Instr → Machine
  | .pusha => { m with cpu := m.cpu.pusha }
  | .pushDs => { m with cpu := m.cpu.push m.cpu.ds.toUInt32 }
  | .pushEs => { m with cpu := m.cpu.push m.cpu.es.toUInt32 }
  | .movAx imm =>
    { m with cpu := { m.cpu with eax := (m.cpu.eax &&& 0xFFFF0000) ||| imm.toUInt32 } }
  | .movDsAx => { m with cpu := { m.cpu with ds := m.cpu.eax.toUInt16 } }
  | .movEsAx => { m with cpu := { m.cpu with es := m.cpu.eax.toUInt16 } }
  | .movEaxEsp => { m with cpu := { m.cpu with eax := m.cpu.esp } }
  | .pushEax => { m with cpu := m.cpu.push m.cpu.eax }
  | .callSyscallHandlerC => m.call g ram code
  | .addEsp n => { m with cpu := { m.cpu with stack := { m.cpu.stack with esp := m.cpu.esp + n } } }
  | .popEs =>
    { m with cpu := { m.cpu with es := m.cpu.stack.top.toUInt16, stack := m.cpu.stack.drop 1 } }
  | .popDs =>
    { m with cpu := { m.cpu with ds := m.cpu.stack.top.toUInt16, stack := m.cpu.stack.drop 1 } }
  | .popa => { m with cpu := m.cpu.popa }
  | .iret => { m with cpu := m.cpu.iret }

/-- A system call, from the `int $0x80` of the program to the instruction behind it. -/
def Machine.int80 (m : Machine) : Machine :=
  irq80Stub.foldl (Instr.exec g ram code) { m with cpu := m.cpu.int80 }

end

namespace Stub

/-- The words of an interrupted program on the stack, the top first. -/
def frame (c : Cpu) : List UInt32 :=
  [c.es.toUInt32, c.ds.toUInt32, c.edi, c.esi, c.ebp, c.esp - 4 - 4 - 4, c.ebx, c.edx, c.ecx,
    c.eax, c.eip, c.cs.toUInt32, c.eflags]

/-- The stack with this frame on it. -/
def saved (c : Cpu) : Stack := c.stack.pushAll (frame c).reverse

theorem saved_on (c : Cpu) : (saved c).On (frame c) := by
  have empty : c.stack.On [] := trivial
  have all := empty.pushAll (l := (frame c).reverse) (by simp [frame, UInt32.size])
  rw [List.reverse_reverse, List.append_nil] at all
  exact all

/-- The CPU when the handler is called. -/
def entering (c : Cpu) : Cpu :=
  { c with
    ds := 0x10
    es := 0x10
    cs := 0x08
    eflags := c.eflags &&& 0xFFFFFDFF
    eax := (saved c).esp
    stack := (saved c).push (saved c).esp }

theorem exec_entering (g : Display) (ram : UInt32 → UInt8) (code : HandlerCode) (m : Machine) :
    [Instr.pusha, .pushDs, .pushEs, .movAx 0x10, .movDsAx, .movEsAx, .movEaxEsp, .pushEax].foldl
      (Instr.exec g ram code) { m with cpu := m.cpu.int80 } = { m with cpu := entering m.cpu } := by
  have low (w : UInt32) : (w &&& 0xFFFF0000 ||| (0x10 : UInt16).toUInt32).toUInt16 = 0x10 := by
    rw [UInt32.toUInt16_or, UInt32.toUInt16_and]
    have zero : (0xFFFF0000 : UInt32).toUInt16 = 0 := rfl
    rw [zero, UInt16.and_zero, UInt16.zero_or]
    rfl
  simp only [List.foldl_cons, List.foldl_nil, Instr.exec, low]
  rfl

theorem entering_stack (c : Cpu) : (entering c).stack = (saved c).push (saved c).esp := rfl

theorem entering_on (c : Cpu) : (entering c).stack.On ((saved c).esp :: frame c) := by
  have room : 4 * (frame c).length < UInt32.size := by simp [frame, UInt32.size]
  have pushed : ((saved c).push (saved c).esp).On ((saved c).esp :: frame c) :=
    Stack.On.push (saved_on c) room (saved c).esp
  rw [entering_stack]
  exact pushed

/-- The handler's argument points at the frame. -/
theorem regs_entering (c : Cpu) {i : Nat} {w : UInt32} (at_i : (frame c)[i]? = some w) :
    (entering c).regs i = w := by
  have top : (entering c).stack.top = (saved c).esp := Stack.On.top (entering_on c)
  have word : (entering c).stack.mem ((entering c).stack.esp + 4 * UInt32.ofNat (i + 1)) = w := by
    apply Holds.get (entering_on c)
    rw [List.getElem?_cons_succ]
    exact at_i
  have address : (entering c).stack.esp + 4 * UInt32.ofNat (i + 1) =
      (saved c).esp + 4 * UInt32.ofNat i := by
    have below : (entering c).stack.esp + 4 = (saved c).esp := by
      rw [entering_stack, Stack.push]
      exact UInt32.sub_add_cancel ..
    rw [← add_four, below]
  rw [address] at word
  rw [Cpu.regs, top]
  exact word

/-- The frame is still there when the handler has returned. -/
theorem left_on (code : HandlerCode) (c : Cpu) :
    ((code.run (entering c)).stack.drop 1).On (frame c) := by
  have called := code.called (entering c)
  have before : ((entering c).stack.drop 1).On (frame c) :=
    Stack.On.drop (entering_on c) 1
  have esp : ((code.run (entering c)).stack.drop 1).esp = ((entering c).stack.drop 1).esp :=
    congrArg (· + 4 * UInt32.ofNat 1) called.esp
  unfold Stack.On
  rw [esp]
  apply before.congr
  intro i inside
  have word := called.frame i inside
  rw [Stack.top, Stack.top, Stack.drop, esp] at word
  dsimp only [Stack.drop] at word ⊢
  exact word

/-- The CPU behind the stub, for the one the handler returns with. -/
def leaving (c : Cpu) : Cpu :=
  let s := c.stack.drop 1
  let popped : Cpu :=
    { c with es := s.top.toUInt16, ds := (s.drop 1).top.toUInt16, stack := (s.drop 1).drop 1 }
  popped.popa.iret

theorem exec_leaving (g : Display) (ram : UInt32 → UInt8) (code : HandlerCode) (m : Machine) :
    [Instr.addEsp 4, .popEs, .popDs, .popa, .iret].foldl (Instr.exec g ram code) m =
      { m with cpu := leaving m.cpu } := by
  simp only [List.foldl_cons, List.foldl_nil, Instr.exec]
  rfl

theorem int80_eq (g : Display) (ram : UInt32 → UInt8) (code : HandlerCode) (m : Machine) :
    m.int80 g ram code =
      { Machine.call g ram code { m with cpu := entering m.cpu } with
        cpu := leaving (code.run (entering m.cpu)) } := by
  have parts : irq80Stub = [.pusha, .pushDs, .pushEs, .movAx 0x10, .movDsAx, .movEsAx,
    .movEaxEsp, .pushEax] ++ .callSyscallHandlerC :: [.addEsp 4, .popEs, .popDs, .popa, .iret] :=
      rfl
  rw [Machine.int80, parts, List.foldl_append, exec_entering, List.foldl_cons, exec_leaving]
  rfl

/-- What an interrupted program finds again. -/
structure Restored (before after : Cpu) : Prop where
  eax : after.eax = before.eax
  ecx : after.ecx = before.ecx
  edx : after.edx = before.edx
  ebx : after.ebx = before.ebx
  esp : after.esp = before.esp
  ebp : after.ebp = before.ebp
  esi : after.esi = before.esi
  edi : after.edi = before.edi
  ds : after.ds = before.ds
  es : after.es = before.es
  cs : after.cs = before.cs
  eip : after.eip = before.eip
  eflags : after.eflags = before.eflags

theorem leaving_restored {c left : Cpu} (on : (left.stack.drop 1).On (frame c))
    (esp : (left.stack.drop 1).esp = (saved c).esp) : Restored c (leaving left) := by
  have word {i : Nat} {w : UInt32} (at_i : (frame c)[i]? = some w) :
      (left.stack.drop (1 + i)).top = w := by
    rw [← Stack.drop_drop]
    exact Stack.On.word on at_i
  have selector (sel : UInt16) {w : UInt32} (same : w = sel.toUInt32) : w.toUInt16 = sel := by
    rw [same, UInt16.toUInt16_toUInt32]
  have bottom : (left.stack.drop (1 + 13)).esp = c.esp := by
    rw [← Stack.drop_drop, Stack.drop, esp]
    exact Stack.esp_pushAll c.stack (frame c).reverse
  constructor <;>
    simp only [leaving, Cpu.popa, Cpu.iret, Cpu.esp, Stack.drop_drop, Nat.reduceAdd]
  · exact word (i := 9) rfl
  · exact word (i := 8) rfl
  · exact word (i := 7) rfl
  · exact word (i := 6) rfl
  · exact bottom
  · exact word (i := 4) rfl
  · exact word (i := 3) rfl
  · exact word (i := 2) rfl
  · exact selector c.ds (word (i := 1) rfl)
  · exact selector c.es (word (i := 0) rfl)
  · exact selector c.cs (word (i := 11) rfl)
  · exact word (i := 10) rfl
  · exact word (i := 12) rfl

/-! ## The call the handler sees -/

section
variable (g : Display) (ram : UInt32 → UInt8) (code : HandlerCode)

theorem int80_restored (m : Machine) : Restored m.cpu (m.int80 g ram code).cpu := by
  rw [int80_eq]
  apply leaving_restored (left_on code m.cpu)
  rw [Stack.drop]
  have esp : (code.run (entering m.cpu)).stack.esp = (entering m.cpu).stack.esp :=
    (code.called (entering m.cpu)).esp
  rw [esp, entering_stack, Stack.push]
  exact UInt32.sub_add_cancel ..

/-- The words the handler takes for EAX, ECX and EBX are ES, DS and ESI. -/
theorem call_entering (m : Machine) :
    let call := Syscall.called m.cpu.es.toUInt32 m.cpu.ds.toUInt32 m.cpu.esi
    let done := call.perform g ram m.sys
    Machine.call g ram code { m with cpu := entering m.cpu } =
      ⟨code.run (entering m.cpu), done.1, m.calls ++ [call], m.drawn ++ done.2⟩ := by
  have es : (entering m.cpu).regs 0 = m.cpu.es.toUInt32 := regs_entering m.cpu rfl
  have ds : (entering m.cpu).regs 1 = m.cpu.ds.toUInt32 := regs_entering m.cpu rfl
  have esi : (entering m.cpu).regs 3 = m.cpu.esi := regs_entering m.cpu rfl
  simp only [Machine.call, syscallHandlerC, es, ds, esi]

/-- The call in EAX, ECX and EBX of the program is the one that is handled and
takes effect, and the program finds its registers as they were. -/
structure Served (before after : Machine) : Prop where
  calls : after.calls =
    before.calls ++ [.called before.cpu.eax before.cpu.ecx before.cpu.ebx]
  effect : (after.sys, after.drawn) =
    (((Syscall.called before.cpu.eax before.cpu.ecx before.cpu.ebx).perform g ram before.sys).1,
      before.drawn ++
        ((Syscall.called before.cpu.eax before.cpu.ecx before.cpu.ebx).perform g ram before.sys).2)
  restored : Restored before.cpu after.cpu

end

/-- The handler does nothing for these. -/
def Ignored (num ecx : UInt32) : Prop := num ≠ 2 ∧ (num = 1 → ecx.toInt32 < 0)

/-- ES, DS and ESI ask for the same as EAX, ECX and EBX. -/
inductive Agrees (c : Cpu) : Prop
  | ignored (es : c.es ≠ 1 ∧ c.es ≠ 2) (eax : Ignored c.eax c.ecx)
  | exit (es : c.es = 2) (eax : c.eax = 2) (esi : c.esi = c.ebx)
  | write (es : c.es = 1) (eax : c.eax = 1) (positive : 0 ≤ c.ecx.toInt32) (esi : c.esi = c.ebx)
      (ds : min 511 c.ds.toNat = min 511 c.ecx.toNat)

theorem called_ignored_iff {num ecx ebx : UInt32} :
    Syscall.called num ecx ebx = .ignored ↔ Ignored num ecx := by
  unfold Syscall.called Ignored
  by_cases one : num = 1
  · subst one
    by_cases negative : ecx.toInt32 < 0
    · simp [negative]
    · simp [negative]
  · by_cases two : num = 2
    · simp [two]
    · simp [one, two]

theorem toInt_toInt32 (x : UInt32) :
    x.toInt32.toInt = if x.toNat < 2147483648 then (x.toNat : Int) else x.toNat - 4294967296 := by
  have value := BitVec.toInt_eq_toNat_cond x.toBitVec
  change x.toInt32.toInt = _ at value
  rw [value]
  have small : x.toBitVec.toNat = x.toNat := rfl
  rw [small]
  split <;> split <;> omega

theorem called_exit (ecx ebx : UInt32) : Syscall.called 2 ecx ebx = .exit ebx.toInt32 := rfl

theorem called_write {ecx : UInt32} (positive : 0 ≤ ecx.toInt32) (ebx : UInt32) :
    Syscall.called 1 ecx ebx = .write ebx (min 511 ecx.toNat) := by
  have zero : (0 : Int32).toInt = 0 := rfl
  have bound : (511 : Int32).toInt = 511 := rfl
  have := ecx.toNat_lt
  have value := toInt_toInt32 ecx
  rw [Int32.le_iff_toInt_le, zero] at positive
  have length : (if ecx.toInt32 > 511 then 511 else ecx.toInt32).toInt.toNat =
      min 511 ecx.toNat := by
    split
    · rename_i long
      rw [gt_iff_lt, Int32.lt_iff_toInt_lt, bound] at long
      rw [bound]
      split at value <;> omega
    · rename_i short
      rw [gt_iff_lt, Int32.lt_iff_toInt_lt, bound] at short
      split at value <;> omega
  have negative : ¬ ecx.toInt32 < 0 := by
    rw [Int32.lt_iff_toInt_lt, zero]
    omega
  simp only [Syscall.called, if_pos, if_neg negative, length]

theorem selector_nonneg (sel : UInt16) : 0 ≤ sel.toUInt32.toInt32 := by
  have := sel.toNat_lt
  have value := toInt_toInt32 sel.toUInt32
  rw [UInt16.toNat_toUInt32] at value
  rw [Int32.le_iff_toInt_le]
  have zero : (0 : Int32).toInt = 0 := rfl
  split at value <;> omega

theorem selector_eq_iff (sel : UInt16) {n : Nat} (small : n < 65536) :
    sel.toUInt32 = UInt32.ofNat n ↔ sel = UInt16.ofNat n := by
  rw [← UInt32.toNat_inj, ← UInt16.toNat_inj, UInt16.toNat_toUInt32]
  simp only [UInt32.toNat_ofNat', UInt16.toNat_ofNat']
  omega

theorem called_cases (num ecx ebx : UInt32) :
    Ignored num ecx ∧ Syscall.called num ecx ebx = .ignored ∨
      num = 2 ∧ Syscall.called num ecx ebx = .exit ebx.toInt32 ∨
      num = 1 ∧ 0 ≤ ecx.toInt32 ∧
        Syscall.called num ecx ebx = .write ebx (min 511 ecx.toNat) := by
  by_cases ignored : Ignored num ecx
  · exact .inl ⟨ignored, called_ignored_iff.mpr ignored⟩
  · right
    by_cases two : num = 2
    · exact .inl ⟨two, by rw [two, called_exit]⟩
    · right
      have one : num = 1 ∧ 0 ≤ ecx.toInt32 := by
        by_contra other
        apply ignored
        refine ⟨two, fun one => ?_⟩
        by_contra nonneg
        exact other ⟨one, Int32.not_lt.mp nonneg⟩
      exact ⟨one.1, one.2, by rw [one.1, called_write one.2]⟩

theorem called_eq_iff (c : Cpu) :
    Syscall.called c.es.toUInt32 c.ds.toUInt32 c.esi = Syscall.called c.eax c.ecx c.ebx ↔
      Agrees c := by
  have es_one : c.es.toUInt32 = 1 ↔ c.es = 1 := selector_eq_iff c.es (n := 1) (by decide)
  have es_two : c.es.toUInt32 = 2 ↔ c.es = 2 := selector_eq_iff c.es (n := 2) (by decide)
  have positive := selector_nonneg c.ds
  constructor
  · intro same
    rcases called_cases c.eax c.ecx c.ebx with
      ⟨ignored, eax⟩ | ⟨two, eax⟩ | ⟨one, nonneg, eax⟩
    · rw [eax] at same
      obtain ⟨two, one⟩ := called_ignored_iff.mp same
      refine .ignored ⟨fun es => ?_, fun es => two (es_two.mpr es)⟩ ignored
      exact absurd (one (es_one.mpr es)) (Int32.not_lt.mpr positive)
    · rw [eax] at same
      rcases called_cases c.es.toUInt32 c.ds.toUInt32 c.esi with
        ⟨-, es⟩ | ⟨es, exits⟩ | ⟨-, -, es⟩
      · cases es.symm.trans same
      · rw [exits] at same
        exact .exit (es_two.mp es) two (Int32.ofUInt32.inj (Syscall.exit.inj same))
      · cases es.symm.trans same
    · rw [eax] at same
      rcases called_cases c.es.toUInt32 c.ds.toUInt32 c.esi with
        ⟨-, es⟩ | ⟨-, es⟩ | ⟨es, -, writes⟩
      · cases es.symm.trans same
      · cases es.symm.trans same
      · rw [writes, UInt16.toNat_toUInt32] at same
        obtain ⟨buf, len⟩ := Syscall.write.inj same
        exact .write (es_one.mp es) one nonneg buf len
  · rintro (⟨⟨one, two⟩, ignored⟩ | ⟨es, eax, esi⟩ | ⟨es, eax, nonneg, esi, ds⟩)
    · have mine : Ignored c.es.toUInt32 c.ds.toUInt32 :=
        ⟨mt es_two.mp two, fun is_one => absurd (es_one.mp is_one) one⟩
      rw [called_ignored_iff.mpr mine, called_ignored_iff.mpr ignored]
    · rw [es_two.mpr es, eax, called_exit, called_exit, esi]
    · rw [es_one.mpr es, eax, called_write positive, called_write nonneg, esi,
        UInt16.toNat_toUInt32, ds]

/-- A system call is served if and only if the segments and ESI happen to ask for
it, or neither asks for anything. -/
theorem served_iff (g : Display) (ram : UInt32 → UInt8) (code : HandlerCode) (m : Machine) :
    Served g ram m (m.int80 g ram code) ↔ Agrees m.cpu := by
  rw [← called_eq_iff]
  have made := call_entering g ram code m
  dsimp only at made
  constructor
  · intro served
    have calls := served.calls
    rw [int80_eq, made] at calls
    exact List.singleton_inj.mp (List.append_cancel_left calls)
  · intro same
    refine ⟨?_, ?_, int80_restored g ram code m⟩
    · rw [int80_eq, made, same]
    · rw [int80_eq, made, same]

/-- In the flat segments of the kernel no system call has an effect. -/
theorem int80_flat (g : Display) (ram : UInt32 → UInt8) (code : HandlerCode) {m : Machine}
    (flat : m.cpu.es = 0x10) :
    (m.int80 g ram code).sys = m.sys ∧ (m.int80 g ram code).drawn = m.drawn := by
  have ignored : Syscall.called m.cpu.es.toUInt32 m.cpu.ds.toUInt32 m.cpu.esi = .ignored := by
    rw [flat]
    rfl
  have made := call_entering g ram code m
  dsimp only at made
  rw [int80_eq, made, ignored]
  exact ⟨rfl, List.append_nil m.drawn⟩

/-- A handler that leaves every register and the whole stack alone. -/
def frugalCode : HandlerCode where
  run c := c
  called _ := ⟨rfl, rfl, rfl, rfl, rfl, rfl, rfl, rfl, fun _ _ => rfl⟩

/-- 1024 by 768 pixels, with an empty font. -/
def plainDisplay : Display := ⟨0xFD000000, 1024, 768, 4096, fun _ _ => 0⟩

/-- The exit of hello.c: `movl $42, %ebx; movl $2, %eax; int $0x80`. -/
def helloExit : Machine where
  cpu :=
    { eax := 2, ecx := 21, edx := 0, ebx := 42, ebp := 0x9FF00, esi := 0, edi := 0
      ds := 0x10, es := 0x10, cs := 0x08, eip := 0x200040, eflags := 0x202
      stack := ⟨0x9FE00, fun _ => 0⟩ }
  sys := .boot
  calls := []
  drawn := []

theorem helloExit_unserved :
    ¬ Served plainDisplay (fun _ => 0) helloExit
      (helloExit.int80 plainDisplay (fun _ => 0) frugalCode) := by
  intro served
  have sys := (int80_flat plainDisplay (fun _ => 0) frugalCode (m := helloExit) rfl).1
  have exited := congrArg Prod.fst served.effect
  dsimp only at exited
  rw [sys] at exited
  exact absurd (congrArg Syscalls.userExited exited) (by decide)

end Stub

end MyOS
