import Mathlib.Logic.Function.Iterate
import MyOS.Usb.Callers

/-!
# What a control transfer reports

`xhci_submit_command_ring` logs the result of its poll and returns 0. So a
transfer succeeds as soon as its TRBs are published, answered or not.
-/

namespace MyOS.Outcome

open CmdRing Xhci

/-! ## The poll -/

/-- The driver at its look number `k` from `x` on, as long as it finds nothing. -/
def looks (ctl : Controller) (x : Xhci) (k : Nat) : Xhci := (observe ctl)^[k + 1] x

/-- The first event shown within `n` looks is there, and is one of `mine`. -/
def Answered (ctl : Controller) (x : Xhci) (mine : Trb → Prop) (n : Nat) : Prop :=
  ∃ k < n, (∀ j < k, (looks ctl x j).er.valid = false) ∧ (looks ctl x k).er.valid = true ∧
    mine (looks ctl x k).er.entry

variable (ctl : Controller) (mine : Trb → Prop)

theorem answered_succ (x : Xhci) (n : Nat) :
    Answered ctl x mine (n + 1) ↔
      if (x.observe ctl).er.valid then mine (x.observe ctl).er.entry
      else Answered ctl (x.observe ctl) mine n := by
  have later (k : Nat) : looks ctl x (k + 1) = looks ctl (x.observe ctl) k := rfl
  constructor
  · rintro ⟨k, inside, silent, valid, hit⟩
    cases k with
    | zero => exact (if_pos valid).symm ▸ hit
    | succ k =>
      have first := silent 0 (Nat.succ_pos k)
      rw [if_neg (fun shown => by rw [looks, Function.iterate_one, shown] at first; cases first)]
      refine ⟨k, Nat.lt_of_succ_lt_succ inside, ?_, valid, hit⟩
      intro j before
      exact silent (j + 1) (Nat.succ_lt_succ before)
  · intro answered
    by_cases first : (x.observe ctl).er.valid = true
    · rw [if_pos first] at answered
      exact ⟨0, Nat.succ_pos n, fun j before => absurd before (Nat.not_lt_zero j), first, answered⟩
    · rw [if_neg first] at answered
      obtain ⟨k, inside, silent, valid, hit⟩ := answered
      refine ⟨k + 1, Nat.succ_lt_succ inside, ?_, valid, hit⟩
      intro j before
      cases j with
      | zero => exact Bool.eq_false_iff.mpr first
      | succ j => exact silent j (Nat.lt_of_succ_lt_succ before)

/-- The poll consumes the first event shown. -/
theorem pollLoop_event (p : Payload) (n : Nat) (x : Xhci) :
    (∃ ev, (pollLoop ctl p n x).event = some ev ∧ mine ev) ↔ Answered ctl x mine n := by
  induction n generalizing x with
  | zero =>
    constructor
    · rintro ⟨ev, none, -⟩
      cases none
    · rintro ⟨k, inside, -⟩
      exact absurd inside (Nat.not_lt_zero k)
  | succ n ih =>
    rw [answered_succ, pollLoop]
    by_cases first : (x.observe ctl).er.valid = true
    · simp [pollStep, first]
    · simp only [pollStep, first]
      exact ih _

/-- It copies what the memory holds when it consumes the event. -/
theorem pollLoop_user (p : Payload) (n : Nat) (x : Xhci) {ev : Trb}
    (done : (pollLoop ctl p n x).event = some ev) :
    (pollLoop ctl p n x).user = p.copied (pollLoop ctl p n x).x.ram ev := by
  induction n generalizing x with
  | zero => cases done
  | succ n ih =>
    rw [pollLoop] at done ⊢
    by_cases first : (x.observe ctl).er.valid = true
    · simp only [pollStep, first, if_true] at done ⊢
      rw [Option.some.inj done]
    · simp only [pollStep, first] at done ⊢
      exact ih _ done

/-! ## A submission -/

/-- All allocations of the submission succeed. -/
def HasMemory (x : Xhci) (q : Request) : Prop :=
  let y := (xhciPrepareControlTransfer x q).1
  y.cmd.ring ≠ 0 ∧ contextFits y.dev.dcbaa y.heap = true

instance (x : Xhci) (q : Request) : Decidable (HasMemory x q) :=
  inferInstanceAs (Decidable (_ ∧ _))

/-- The driver when it has published the TRBs and rings the doorbell. -/
def atDoorbell (x : Xhci) (q : Request) : Xhci :=
  (publishTransfer ctl (xhciPrepareControlTransfer x q).1).1

/-- An event of the transfer was consumed, and the bytes of an IN transfer with
a data stage are in the caller's buffer. -/
def Completed (q : Request) (user : Option Mem) (r : Submitted) : Prop :=
  ∃ ev, r.event = some ev ∧ mine ev ∧
    (q.hasData = true → q.directionIn = true →
      ∃ buf, user = some buf ∧
        r.user = some (memcpy buf 0 r.x.ram q.data.toNat (actual ev q.dataLen)))

/-- The value for success is returned for completed transfers only, and -1 for
all others. -/
def Honest (success : Int) (q : Request) (user : Option Mem) (r : Submitted) : Prop :=
  (r.ret = success → Completed mine q user r) ∧ (¬ Completed mine q user r → r.ret = -1)

/-- A transfer that gets through its allocations finds the event ring
programmed and its own event shown first in time, and has a buffer to receive
in if it has bytes to receive. -/
def Served (x : Xhci) (q : Request) (user : Option Mem) : Prop :=
  HasMemory x q →
    xhciProgramEventRing (atDoorbell ctl x q) = 0 ∧
      Answered ctl (atDoorbell ctl x q) mine (500 * 1000 / 10) ∧
      (q.hasData = true → q.directionIn = true → user.isSome = true)

/-- The state in which a transfer is submitted, and what it is submitted with. -/
theorem submission_cases {x : Xhci} (enable : x.hwEnable = true) (q : Request)
    (user : Option Mem) :
    ¬ HasMemory x q ∧ (stageAndSubmit ctl x q user).ret = -1 ∧
        (stageAndSubmit ctl x q user).event = none ∨
      HasMemory x q ∧ stageAndSubmit ctl x q user =
        if xhciProgramEventRing (atDoorbell ctl x q) < 0 then
          ⟨atDoorbell ctl x q, user, none, 0⟩
        else
          let polled := xhciPollEventRing ctl (atDoorbell ctl x q) 500
            ⟨q.data, user, q.dataLen, q.directionIn⟩
          ⟨polled.x, polled.user, polled.event, 0⟩ := by
  rcases prepared : xhciPrepareControlTransfer x q with ⟨y, trbs⟩
  simp only [HasMemory, atDoorbell, stageAndSubmit, prepared]
  by_cases failed : trbs < 0
  · have none := prepare_fails prepared failed
    rw [if_pos failed]
    exact .inl ⟨fun memory => memory.1 none, rfl, rfl⟩
  · obtain ⟨⟨cmd, ring, staged⟩, hw⟩ := prepare_spec prepared failed
    obtain ⟨kept, start⟩ := stage_staged cmd q
    rw [← staged] at kept start
    have enable' : y.hwEnable = true := hw.trans enable
    have ring' : y.cmd.ring ≠ 0 := kept ▸ ring
    have published := (publishTransfer_spec ctl enable' ring' start).1
    rw [placeContext_placed] at published
    simp only [if_neg failed, xhciSubmitCommandRing, enable', Bool.not_true, Bool.false_eq_true,
      if_false]
    cases room : contextFits y.dev.dcbaa y.heap with
    | false =>
      rw [room] at published
      rw [published]
      exact .inl ⟨fun memory => Bool.false_ne_true memory.2, rfl, rfl⟩
    | true =>
      rw [room] at published
      rw [published]
      exact .inr ⟨⟨ring', rfl⟩, rfl⟩

/-- What is consumed and copied once the TRBs are published. -/
theorem poll_completes {z : Xhci} (programmed : xhciProgramEventRing z = 0) (q : Request)
    (user : Option Mem) :
    let polled := xhciPollEventRing ctl z 500 ⟨q.data, user, q.dataLen, q.directionIn⟩
    Completed mine q user ⟨polled.x, polled.user, polled.event, 0⟩ ↔
      Answered ctl z mine (500 * 1000 / 10) ∧
        (q.hasData = true → q.directionIn = true → user.isSome = true) := by
  have opened : z.er.buffer ≠ 0 := by
    intro closed
    simp [xhciProgramEventRing, closed] at programmed
  have event := pollLoop_event ctl mine ⟨q.data, user, q.dataLen, q.directionIn⟩
    (500 * 1000 / 10) z
  simp only [xhciPollEventRing, if_neg opened]
  constructor
  · rintro ⟨ev, done, hit, copied⟩
    refine ⟨event.mp ⟨ev, done, hit⟩, ?_⟩
    intro data incoming
    obtain ⟨buf, given, -⟩ := copied data incoming
    rw [given]
    rfl
  · rintro ⟨answered, given⟩
    obtain ⟨ev, done, hit⟩ := event.mpr answered
    refine ⟨ev, done, hit, ?_⟩
    intro data incoming
    obtain ⟨buf, rfl⟩ := Option.isSome_iff_exists.mp (given data incoming)
    have wanted : (Payload.mk q.data (some buf) q.dataLen q.directionIn).wanted = true := by
      simp only [Request.hasData, Bool.and_eq_true] at data
      simp [Payload.wanted, data, incoming]
    refine ⟨buf, rfl, ?_⟩
    rw [pollLoop_user ctl _ _ z done, Payload.copied, if_pos wanted]
    rfl

theorem honest_success {success : Int} (q : Request) (user : Option Mem)
    {r : Submitted} (returned : r.ret = success) :
    Honest mine success q user r ↔ Completed mine q user r := by
  constructor
  · intro honest
    exact honest.1 returned
  · intro completed
    exact ⟨fun _ => completed, fun incomplete => absurd completed incomplete⟩

theorem honest_failure {success : Int} (code : 0 ≤ success) (q : Request) (user : Option Mem)
    {r : Submitted} (returned : r.ret = -1) : Honest mine success q user r := by
  refine ⟨?_, fun _ => returned⟩
  intro same
  omega

/-- What both functions make of a submission. -/
def Submitted.answering (r : Submitted) (success : Int) : Submitted :=
  { r with ret := if r.ret < 0 then -1 else success }

theorem completed_answering (q : Request) (user : Option Mem) (r : Submitted) (success : Int) :
    Completed mine q user (Submitted.answering r success) ↔ Completed mine q user r := Iff.rfl

/-- A transfer is reported honestly exactly if nothing goes wrong after it has
been published. -/
theorem submission_honest_iff {x : Xhci} (enable : x.hwEnable = true) (q : Request)
    (user : Option Mem) {success : Int} (code : 0 ≤ success) :
    Honest mine success q user (Submitted.answering (stageAndSubmit ctl x q user) success) ↔
      Served ctl mine x q user := by
  rcases submission_cases ctl enable q user with ⟨full, failed, -⟩ | ⟨memory, submitted⟩
  · refine iff_of_true (honest_failure mine code q user ?_) fun memory => absurd memory full
    simp only [Submitted.answering, failed]
    rfl
  · have zero : (stageAndSubmit ctl x q user).ret = 0 := by
      rw [submitted]
      split <;> rfl
    have returned : (Submitted.answering (stageAndSubmit ctl x q user) success).ret = success := by
      rw [Submitted.answering, zero]
      rfl
    rw [honest_success mine q user returned, completed_answering]
    by_cases failed : xhciProgramEventRing (atDoorbell ctl x q) < 0
    · rw [if_pos failed] at submitted
      refine iff_of_false ?_ ?_
      · rintro ⟨ev, done, -⟩
        rw [submitted] at done
        cases done
      · intro served
        have programmed := (served memory).1
        omega
    · have programmed : xhciProgramEventRing (atDoorbell ctl x q) = 0 := by
        unfold xhciProgramEventRing at failed ⊢
        split at failed
        · exact absurd (by decide) failed
        · rename_i there
          exact if_neg there
      have polled := poll_completes ctl mine programmed q user
      rw [if_neg failed] at submitted
      rw [submitted]
      constructor
      · intro completed _
        exact ⟨programmed, polled.mp completed⟩
      · intro served
        exact polled.mpr (served memory).2

/-! ## The two callers -/

/-- A call reports honestly: one that stages nothing fails. -/
def Reported (success : Int) (staged : Option (Xhci × Request)) (user : Option Mem)
    (r : Submitted) : Prop :=
  match staged with
  | none => r.ret = -1 ∧ r.event = none
  | some (_, s) => Honest mine success s user r

/-- A transfer that is staged is served. -/
def ServedIfStaged (staged : Option (Xhci × Request)) (user : Option Mem) : Prop :=
  ∀ y s, staged = some (y, s) → Served ctl mine y s user

theorem servedIfStaged_none (user : Option Mem) : ServedIfStaged ctl mine none user := by
  intro y s staged
  cases staged

theorem servedIfStaged_some (y : Xhci) (s : Request) (user : Option Mem) :
    ServedIfStaged ctl mine (some (y, s)) user ↔ Served ctl mine y s user := by
  constructor
  · intro served
    exact served y s rfl
  · intro served y' s' same
    cases same
    exact served

/-- A submission returns 0 or -1, which `xhci_control_transfer` hands on. -/
theorem answering_zero {x : Xhci} (enable : x.hwEnable = true) (q : Request)
    (user : Option Mem) :
    Submitted.answering (stageAndSubmit ctl x q user) 0 = stageAndSubmit ctl x q user := by
  have ret : (if (stageAndSubmit ctl x q user).ret < 0 then -1 else (0 : Int)) =
      (stageAndSubmit ctl x q user).ret := by
    rcases submission_cases ctl enable q user with ⟨-, failed, -⟩ | ⟨-, submitted⟩
    · rw [failed]
      rfl
    · rw [submitted]
      split <;> rfl
  rw [Submitted.answering, ret]

/-- The exact condition for both functions to return success only for a
transfer that was completed, whichever events count as its own. -/
theorem transfers_reported_iff {x : Xhci} (enable : x.hwEnable = true) :
    (∀ q, Reported mine 0 (xhciStaged x q) q.respBuf (xhciControlTransfer ctl x q) ↔
      ServedIfStaged ctl mine (xhciStaged x q) q.respBuf) ∧
    (∀ q, Reported mine q.wLength.toNat (usbStaged x q) q.data (usbControlTransfer ctl x q) ↔
      ServedIfStaged ctl mine (usbStaged x q) q.data) := by
  constructor
  · intro q
    rcases xhciControlTransfer_cases ctl x q with ⟨none, ret, event, -⟩ |
      ⟨y, s, staged, beside, same⟩
    · rw [none]
      exact iff_of_true ⟨ret, event⟩ (servedIfStaged_none ctl mine _)
    · have enable' := beside.enable.trans enable
      have honest := submission_honest_iff ctl mine enable' s q.respBuf (Int.le_refl 0)
      rw [answering_zero ctl enable'] at honest
      rw [staged, same, servedIfStaged_some]
      exact honest
  · intro q
    rcases usbControlTransfer_cases ctl x q with ⟨none, ret, event, -⟩ |
      ⟨y, s, staged, beside, same⟩
    · rw [none]
      exact iff_of_true ⟨ret, event⟩ (servedIfStaged_none ctl mine _)
    · rw [staged, same, servedIfStaged_some]
      exact submission_honest_iff ctl mine (beside.enable.trans enable) s q.data
        (Int.natCast_nonneg _)

/-! ## A silent controller -/

def silent : Controller where
  events _ _ _ := .zero
  memory _ ram := ram

theorem silent_unanswered (x : Xhci) (n : Nat) : ¬ Answered silent x mine n := by
  rintro ⟨k, -, -, valid, -⟩
  rw [looks, Function.iterate_succ_apply'] at valid
  cases valid

/-- `GET_DESCRIPTOR` for the device descriptor. -/
def deviceDescriptor : ControlRequest := ⟨0x80, 6, 0x100, 0, none, 18, true, some fun _ => 0⟩

theorem transfers_reported_descriptor :
    Reported (fun _ => True) 0 (xhciStaged .boot deviceDescriptor) deviceDescriptor.respBuf
        (xhciControlTransfer prompt .boot deviceDescriptor) ↔
      ServedIfStaged prompt (fun _ => True) (xhciStaged .boot deviceDescriptor)
        deviceDescriptor.respBuf :=
  (transfers_reported_iff prompt (fun _ => True) rfl).1 deviceDescriptor

/-- No controller answers, and the descriptor counts as read. -/
theorem silence_reported_as_success :
    (xhciControlTransfer silent .boot deviceDescriptor).ret = 0 ∧
      ¬ Reported (fun _ => True) 0 (xhciStaged .boot deviceDescriptor) deviceDescriptor.respBuf
        (xhciControlTransfer silent .boot deviceDescriptor) := by
  have room : (xhciStaged .boot deviceDescriptor).any (fun p => decide (HasMemory p.1 p.2)) =
      true := by decide +kernel
  rcases xhciControlTransfer_cases silent .boot deviceDescriptor with
    ⟨none, -⟩ | ⟨y, s, staged, beside, same⟩
  · rw [none] at room
    cases room
  · have memory : HasMemory y s := by
      rw [staged] at room
      exact of_decide_eq_true room
    have enable : y.hwEnable = true := beside.enable
    rw [same, staged]
    constructor
    · rcases submission_cases silent enable s deviceDescriptor.respBuf with
        ⟨full, -⟩ | ⟨-, submitted⟩
      · exact absurd memory full
      · rw [submitted]
        split <;> rfl
    · intro honest
      have iff := submission_honest_iff silent (fun _ => True) enable s deviceDescriptor.respBuf
        (Int.le_refl 0)
      rw [answering_zero silent enable] at iff
      obtain ⟨-, answered, -⟩ := iff.mp honest memory
      exact silent_unanswered _ _ _ answered

end MyOS.Outcome
