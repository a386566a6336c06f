import Mathlib.Data.List.Iterate
import MyOS.Usb.Submission

/-!
# The answer to Enable Slot

`xhci_send_enable_slot` waits for the first completion event, four times at
most. It goes by the code of that event, whatever it completes; in the last
wait by any.
-/

namespace MyOS.Xhci

/-- The driver after one look of a wait. -/
def afterLook (ctl : Controller) (x : Xhci) : Xhci := (x.observe ctl).waitStep.1

/-- The completion event shown at the next look, if there is one. -/
def answer (ctl : Controller) (x : Xhci) : Option Trb :=
  (x.observe ctl).waitStep.2.filter Trb.isCompletion

/-- The first completion event shown within `n` looks. -/
def firstAnswer (ctl : Controller) (x : Xhci) (n : Nat) : Option Trb :=
  (List.iterate (afterLook ctl) x n).findSome? (answer ctl)

/-- The looks of one wait of two seconds. -/
def waitLooks : Nat := 2000 * 1000 / 10

/-- The driver when it rings the doorbell for Enable Slot. -/
def atEnableSlot (x : Xhci) : Xhci :=
  let x := if x.cmd.ring = 0 then (xhciInitCommandRing x).1 else x
  (xhciInitEventRing { x with cmd := x.cmd.buildEnableSlot }).1

/-- The first completion event shown within three waits has code 0; if they show
none, a fourth wait shows any. -/
def Accepted (ctl : Controller) (x : Xhci) : Prop :=
  match firstAnswer ctl x (3 * waitLooks) with
  | some ev => ev.compCode = 0
  | none => (firstAnswer ctl x (3 * waitLooks + waitLooks)).isSome = true

/-- The rings are there, and the controller accepts. -/
def Granted (ctl : Controller) (x : Xhci) : Prop :=
  let x := atEnableSlot x
  x.cmd.ring ≠ 0 ∧ x.cmd.ringPhys ≠ 0 ∧ x.er.buffer ≠ 0 ∧ Accepted ctl x

variable (ctl : Controller)

theorem firstAnswer_succ (x : Xhci) (n : Nat) :
    firstAnswer ctl x (n + 1) = (answer ctl x).or (firstAnswer ctl (afterLook ctl x) n) := by
  unfold firstAnswer
  rw [List.iterate, List.findSome?_cons]
  cases answer ctl x <;> rfl

theorem firstAnswer_add (x : Xhci) (m n : Nat) :
    firstAnswer ctl x (m + n) =
      (firstAnswer ctl x m).or (firstAnswer ctl ((afterLook ctl)^[m] x) n) := by
  unfold firstAnswer
  rw [List.iterate_add, List.findSome?_append]

theorem waitLoop_answer (n : Nat) (x : Xhci) :
    (waitLoop ctl n x).2 = (firstAnswer ctl x n).map Trb.compCode ∧
      (firstAnswer ctl x n = none → (waitLoop ctl n x).1 = (afterLook ctl)^[n] x) := by
  induction n generalizing x with
  | zero => exact ⟨rfl, fun _ => rfl⟩
  | succ n ih =>
    rw [firstAnswer_succ, waitLoop, Function.iterate_succ_apply]
    unfold answer afterLook at *
    rcases (x.observe ctl).waitStep with ⟨y, ev⟩
    cases ev with
    | none => exact ih y
    | some ev =>
      by_cases completion : ev.isCompletion = true
      · simp [completion]
      · simp only [completion, Option.filter_some, Bool.false_eq_true, if_false, Option.none_or]
        exact ih y

theorem afterLook_buffer (n : Nat) (x : Xhci) :
    ((afterLook ctl)^[n] x).er.buffer = x.er.buffer := by
  induction n generalizing x with
  | zero => rfl
  | succ n ih =>
    rw [Function.iterate_succ_apply, ih, afterLook, waitStep_er, pollStep]
    split <;> rfl

theorem wait_answer {x : Xhci} (opened : x.er.buffer ≠ 0) :
    xhciWaitForCommandCompletion ctl x 2000 = waitLoop ctl waitLooks x := if_neg opened

theorem enableAttempts_answer (n : Nat) {x : Xhci} (opened : x.er.buffer ≠ 0) :
    (enableAttempts ctl n x).2 = (firstAnswer ctl x (n * waitLooks)).map Trb.compCode ∧
      (firstAnswer ctl x (n * waitLooks) = none →
        (enableAttempts ctl n x).1 = (afterLook ctl)^[n * waitLooks] x) := by
  induction n generalizing x with
  | zero => simp [enableAttempts, firstAnswer]
  | succ n ih =>
    obtain ⟨code, state⟩ := waitLoop_answer ctl waitLooks x
    rw [enableAttempts, wait_answer ctl opened, Nat.succ_mul, Nat.add_comm, firstAnswer_add]
    rcases waited : waitLoop ctl waitLooks x with ⟨y, comp⟩
    rw [waited] at code state
    generalize waitLooks = m at *
    cases first : firstAnswer ctl x m with
    | some ev =>
      rw [first] at code
      cases code
      simp
    | none =>
      rw [first] at code
      cases code
      cases state first
      rw [Option.none_or, Nat.add_comm, Function.iterate_add_apply]
      exact ih ((congrArg (· ≠ 0) (afterLook_buffer ctl m x)).mpr opened)

theorem accepted_some {x : Xhci} {ev : Trb} (first : firstAnswer ctl x (3 * waitLooks) = some ev) :
    Accepted ctl x ↔ ev.compCode = 0 := by
  unfold Accepted
  rw [first]

theorem accepted_none {x : Xhci} (first : firstAnswer ctl x (3 * waitLooks) = none) :
    Accepted ctl x ↔
      (firstAnswer ctl ((afterLook ctl)^[3 * waitLooks] x) waitLooks).isSome = true := by
  unfold Accepted
  rw [first, firstAnswer_add, first, Option.none_or]

theorem issueEnableSlot_accepted {x y : Xhci}
    (opens : (xhciInitEventRing { x with cmd := x.cmd.buildEnableSlot }).1 = y) :
    (issueEnableSlot ctl x).2 = 0 ↔
      y.cmd.ringPhys ≠ 0 ∧ y.er.buffer ≠ 0 ∧ Accepted ctl y := by
  simp only [issueEnableSlot, opens]
  by_cases ring : y.cmd.ringPhys = 0
  · rw [if_pos ring]
    exact iff_of_false (show (-1 : Int) ≠ 0 by decide) fun granted => granted.1 ring
  · rw [if_neg ring]
    by_cases closed : y.er.buffer = 0
    · have silent {timeoutMs : Nat} : xhciWaitForCommandCompletion ctl y timeoutMs = (y, none) :=
        if_pos closed
      simp only [enableAttempts, silent]
      exact iff_of_false (by decide) fun granted => granted.2.1 closed
    · rw [and_iff_right ring, and_iff_right closed]
      obtain ⟨code, state⟩ := enableAttempts_answer ctl 3 closed
      generalize enableAttempts ctl 3 y = tried at code state
      rcases tried with ⟨z, comp⟩
      cases first : firstAnswer ctl y (3 * waitLooks) with
      | some ev =>
        rw [first] at code
        cases code
        rw [accepted_some ctl first]
        by_cases ok : ev.compCode = 0 <;> simp [ok]
      | none =>
        rw [first] at code
        cases code
        have same : z = (afterLook ctl)^[3 * waitLooks] y := state first
        have still : z.er.buffer ≠ 0 := by
          rw [same, afterLook_buffer]
          exact closed
        have last := (waitLoop_answer ctl waitLooks z).1
        rw [accepted_none ctl first, ← same]
        dsimp only
        rw [wait_answer ctl still]
        generalize firstAnswer ctl z waitLooks = shown at last
        generalize waitLoop ctl waitLooks z = r at last
        rcases r with ⟨w, comp⟩
        cases shown with
        | some ev =>
          cases last
          exact iff_of_true rfl rfl
        | none =>
          cases last
          exact iff_of_false (show (-1 : Int) ≠ 0 by decide) Bool.false_ne_true

/-- Enable Slot succeeds exactly if it is granted. -/
theorem xhciSendEnableSlot_granted {x : Xhci} (enable : x.hwEnable = true) :
    (xhciSendEnableSlot ctl x).2 = 0 ↔ Granted ctl x := by
  have cmd (y : Xhci) := xhciInitEventRing_cmd { y with cmd := y.cmd.buildEnableSlot }
  obtain ⟨made, -⟩ := xhciInitCommandRing_spec x
  simp only [xhciSendEnableSlot, enable, Bool.not_true, Bool.false_eq_true, if_false, Granted,
    atEnableSlot]
  by_cases ring : x.cmd.ring = 0
  · simp only [if_pos ring]
    generalize xhciInitCommandRing x = r at made
    rcases made with ⟨done, there⟩ | ⟨failed, none⟩
    · rw [if_neg (by rw [done]; decide), issueEnableSlot_accepted ctl rfl, cmd]
      exact (and_iff_right there).symm
    · rw [if_pos (by rw [failed]; decide), cmd]
      exact iff_of_false (show (-1 : Int) ≠ 0 by decide) fun granted => granted.1 none
  · simp only [if_neg ring, Int.lt_irrefl, if_false]
    rw [issueEnableSlot_accepted ctl rfl, cmd]
    exact (and_iff_right ring).symm

end MyOS.Xhci
