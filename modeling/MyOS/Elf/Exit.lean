import MyOS.Elf.Bounds
import MyOS.Syscall.Handler

/-!
# The code a program ends with

`elf32_load_and_run` from the call of the entry on. A program makes its system
calls and returns; the flag its exit sets stays set for the programs after it.
-/

namespace MyOS

/-- One call of `syscall_handler_c`: what `regs` points at, and the memory it is
made in. -/
structure HandlerCall where
  regs : Nat → UInt32
  ram : UInt32 → UInt8

/-- What a program does from its entry to its return. -/
structure Execution where
  calls : List HandlerCall
  ret : Int32

/-- The arguments of `elf32_load_and_run` with the heap it loads into, and what
the image does when it is entered. -/
structure Program where
  ram : Mem
  heap : UInt32
  elfData : Mem
  elfSize : UInt32
  execute : Image → UInt32 → Execution

namespace Exit

variable (g : Display)

def handle (s : Syscalls) (call : HandlerCall) : Syscalls :=
  (syscallHandlerC g call.ram call.regs s).1

/-- `int r = entry(); if (user_exited) return user_exit_code; return r;` -/
def callEntry (s : Syscalls) (e : Execution) : Syscalls × Int32 :=
  let s := e.calls.foldl (handle g) s
  (s, if s.userExited then s.userExitCode else e.ret)

/-- What a program does, if its entry is reached. -/
def Execution.of (p : Program) : Option Execution :=
  match elf32LoadAndRun p.ram p.heap p.elfData p.elfSize with
  | .error _ => none
  | .entered img entryRel => some (p.execute img entryRel)

/-- `elf32_load_and_run` to its end: the state it leaves and the value it returns. -/
def loadAndRun (s : Syscalls) (p : Program) : Syscalls × Int :=
  match elf32LoadAndRun p.ram p.heap p.elfData p.elfSize with
  | .error code => (s, code)
  | .entered img entryRel =>
    let (s, r) := callEntry g s (p.execute img entryRel)
    (s, r.toInt)

/-- The code of an exit system call. -/
def exitCode (call : HandlerCall) : Option Int32 :=
  if call.regs 0 = 2 then some (call.regs 3).toInt32 else none

/-- The code of the exit made during a run, the last one if there are several. -/
def exitOf (e : Execution) : Option Int32 := (e.calls.filterMap exitCode).getLast?

/-- The code of the last exit in a history of programs. -/
def lastExit (ps : List Program) : Option Int32 :=
  (ps.filterMap fun p => (Execution.of p).bind exitOf).getLast?

/-! ## The flag over a history -/

/-- A step that sets a value or leaves it makes of it the last one set. -/
theorem foldl_last {σ α β : Type} {step : σ → α → σ} {value : σ → Option β} {f : α → Option β}
    (sets : ∀ s a, value (step s a) = (f a).or (value s)) (s : σ) (as : List α) :
    value (as.foldl step s) = (as.filterMap f).getLast?.or (value s) := by
  induction as generalizing s with
  | nil => rfl
  | cons a as ih =>
    rw [List.foldl_cons, ih, sets]
    cases first : f a with
    | none => rw [List.filterMap_cons_none first, Option.none_or]
    | some b =>
      rw [List.filterMap_cons_some first, List.getLast?_cons]
      cases (as.filterMap f).getLast? <;> rfl

/-- The code that a program which does not exit is given all the same. -/
def left (s : Syscalls) : Option Int32 := if s.userExited then some s.userExitCode else none

theorem left_handle (s : Syscalls) (call : HandlerCall) :
    left (handle g s call) = (exitCode call).or (left s) := by
  unfold handle syscallHandlerC exitCode
  by_cases exits : call.regs 0 = 2
  · rw [if_pos exits, exits]
    rfl
  · rw [if_neg exits, Option.none_or]
    simp only [Syscall.called, if_neg exits]
    split
    · split <;> rfl
    · rfl

theorem left_calls (s : Syscalls) (e : Execution) :
    left (e.calls.foldl (handle g) s) = (exitOf e).or (left s) :=
  foldl_last (left_handle g) s e.calls

theorem callEntry_eq (s : Syscalls) (e : Execution) :
    left (callEntry g s e).1 = (exitOf e).or (left s) ∧
      (callEntry g s e).2 = ((exitOf e).or (left s)).getD e.ret := by
  rw [← left_calls g s e]
  refine ⟨rfl, ?_⟩
  simp only [callEntry, left]
  split <;> rfl

theorem loadAndRun_left (s : Syscalls) (p : Program) :
    left (loadAndRun g s p).1 = ((Execution.of p).bind exitOf).or (left s) := by
  unfold loadAndRun Execution.of
  cases elf32LoadAndRun p.ram p.heap p.elfData p.elfSize with
  | error code => rfl
  | entered img entryRel => exact (callEntry_eq g s (p.execute img entryRel)).1

theorem loadAndRun_ret {s : Syscalls} {p : Program} {e : Execution}
    (entered : Execution.of p = some e) :
    (loadAndRun g s p).2 = (((exitOf e).or (left s)).getD e.ret).toInt := by
  unfold loadAndRun
  unfold Execution.of at entered
  cases loaded : elf32LoadAndRun p.ram p.heap p.elfData p.elfSize with
  | error code =>
    rw [loaded] at entered
    cases entered
  | entered img entryRel =>
    rw [loaded] at entered
    cases entered
    exact congrArg Int32.toInt (callEntry_eq g s _).2

/-- The state behind a history of programs, run one after another from the boot on. -/
def behind (ps : List Program) : Syscalls := ps.foldl (fun s p => (loadAndRun g s p).1) .boot

theorem left_behind (ps : List Program) : left (behind g ps) = lastExit ps := by
  have last := foldl_last (loadAndRun_left g) .boot ps
  rw [show left Syscalls.boot = none from rfl, Option.or_none] at last
  exact last

/-! ## Every program of a history -/

/-- `P` holds of every program of the history and of those before it. -/
def Every (P : List Program → Program → Prop) (ps : List Program) : Prop :=
  ∀ before p after, ps = before ++ p :: after → P before p

/-- The value returned for a program is its own: the code it exits with, or
else what its entry returns. -/
def Own (before : List Program) (p : Program) : Prop :=
  ∀ e, Execution.of p = some e →
    (loadAndRun g (behind g before) p).2 = ((exitOf e).getD e.ret).toInt

/-- A program that does not exit comes before any that does, or returns the code
of the last exit before it. -/
def Fresh (before : List Program) (p : Program) : Prop :=
  ∀ e, Execution.of p = some e → exitOf e = none → ∀ code, lastExit before = some code →
    e.ret = code

theorem own_iff_fresh (before : List Program) (p : Program) : Own g before p ↔ Fresh before p := by
  unfold Own Fresh
  constructor
  · intro own e entered stays code last
    have returned := own e entered
    rw [loadAndRun_ret g entered, left_behind, stays, last] at returned
    exact (Int32.toInt_inj.mp returned).symm
  · intro fresh e entered
    rw [loadAndRun_ret g entered, left_behind]
    cases exits : exitOf e with
    | some code => rfl
    | none =>
      cases last : lastExit before with
      | none => rfl
      | some code => exact congrArg Int32.toInt (fresh e entered exits code last).symm

/-- In a history of programs each is given its own code if and only if none that
does not exit follows one that does, unless both end with the same code. -/
theorem every_own_iff (ps : List Program) : Every (Own g) ps ↔ Every Fresh ps := by
  constructor
  · intro own before p after parts
    exact (own_iff_fresh g before p).mp (own before p after parts)
  · intro fresh before p after parts
    exact (own_iff_fresh g before p).mpr (fresh before p after parts)

/-! ## Two programs -/

/-- A program of one segment that makes these calls and returns `ret`. -/
def oneProgram (calls : List HandlerCall) (ret : Int32) : Program :=
  ⟨fun _ => 0, heapStart, .ofList (oneSegment 0x1004 16 16), 100, fun _ _ => ⟨calls, ret⟩⟩

/-- `regs` of an exit with code 42. -/
def exit42 : HandlerCall := ⟨fun i => if i = 0 then 2 else if i = 3 then 42 else 0, fun _ => 0⟩

theorem oneProgram_execution (calls : List HandlerCall) (ret : Int32) :
    Execution.of (oneProgram calls ret) = some ⟨calls, ret⟩ := by
  have reaches : (loadOne 0x1004 16 16).reaches = true := by decide +kernel
  obtain ⟨img, entryRel, entered⟩ := Loaded.entered_of_reaches reaches
  have loaded : elf32LoadAndRun (oneProgram calls ret).ram (oneProgram calls ret).heap
      (oneProgram calls ret).elfData (oneProgram calls ret).elfSize =
        .entered img entryRel := entered
  rw [Execution.of, loaded]
  rfl

/-- The second program returns 7 and makes no system call. -/
theorem exit_left_behind :
    ¬ Every (Own ⟨0, 0, 0, 0, fun _ _ => 0⟩) [oneProgram [exit42] 0, oneProgram [] 7] := by
  intro own
  have second := own [oneProgram [exit42] 0] (oneProgram [] 7) [] rfl
  have returned := second _ (oneProgram_execution [] 7)
  rw [loadAndRun_ret _ (oneProgram_execution [] 7), left_behind] at returned
  simp only [lastExit, List.filterMap_cons, oneProgram_execution] at returned
  revert returned
  decide

end Exit

end MyOS
