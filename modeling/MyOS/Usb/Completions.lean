import MyOS.Base.Runs
import MyOS.Usb.Submission

/-!
# Pending slots and outstanding transfers

A transfer takes two or three slots of the command ring. A completion clears
the mark of one slot if `xhci_wait_for_command_completion` consumes it, and of
none if `xhci_poll_event_ring` does, which every submission calls.
-/

namespace MyOS.Completions

open Runs CmdRing Xhci

/-- A submitted transfer. -/
structure Transfer where
  number : Nat
  token : UInt32
  deriving DecidableEq

/-- The driver beside the transfers themselves. `owner` is the outstanding
transfer a slot belongs to; `command` says that slot 0 was last issued as an
Enable Slot command. -/
structure Marks where
  x : Xhci
  owner : Nat → Option Transfer
  command : Bool
  submitted : Nat

def Marks.init (x : Xhci) : Marks := ⟨x, fun _ => none, false, 0⟩

/-- What submissions, polls and waits are made of, one look at the event ring at
a time. -/
inductive Step
  /-- Anything that leaves the command ring alone: the controller writes
  memory, the driver allocates or sets up the event ring. -/
  | other (y : Xhci)
  | stage (q : Request)
  | enableSlot
  | publish
  | poll
  | wait

def act (x : Xhci) : Step → Xhci
  | .other y => { y with cmd := x.cmd }
  | .stage q => { x with cmd := x.cmd.stage q }
  | .enableSlot => { x with cmd := x.cmd.buildEnableSlot }
  | .publish =>
    match x.cmd.publish with
    | some cmd => { x with cmd }
    | none => x
  | .poll => x.pollStep.1
  | .wait => x.waitStep.1

/-! ## Transfers -/

/-- The transfer whose TRB lies in the slot a completion points to. -/
def Marks.pointed (s : Marks) (i : Nat) : Option Transfer :=
  if i = 0 ∧ s.command = true then none else s.owner i

/-- The outstanding transfer that was given a token. -/
def Marks.tokened (s : Marks) (token : UInt32) : Option Transfer :=
  (List.range cmdRingTrbs).findSome? fun i => (s.owner i).filter fun t => t.token == token

/-- The transfer that an event completes: by its TRB pointer if that lies in the
ring, else by its token. -/
def Marks.named (s : Marks) (ev : Trb) : Option Transfer :=
  (s.x.cmd.pointedSlot ev).elim (s.tokened ev.a) s.pointed

/-- A completion is there to be consumed. -/
def Marks.due (s : Marks) : Bool := s.x.er.valid && s.x.er.entry.isCompletion

/-- The owners after a step: a transfer gets its slots when it is published, and
gives all of them back when its completion is consumed. -/
def Marks.owners (s : Marks) : Step → Nat → Option Transfer
  | .publish =>
    match s.x.cmd.publish with
    | some cmd =>
      fun i => if i ∈ cmd.lastSlots then some ⟨s.submitted, cmd.lastToken⟩ else s.owner i
    | none => s.owner
  | .poll | .wait =>
    if s.due then fun i => if s.owner i = s.named s.x.er.entry then none else s.owner i
    else s.owner
  | .other _ | .stage _ | .enableSlot => s.owner

def Marks.commands (s : Marks) : Step → Bool
  | .enableSlot => true
  | .publish =>
    match s.x.cmd.publish with
    | some cmd => s.command && decide (0 ∉ cmd.lastSlots)
    | none => s.command
  | .other _ | .stage _ | .poll | .wait => s.command

def step (s : Marks) (e : Step) : Marks where
  x := act s.x e
  owner := s.owners e
  command := s.commands e
  submitted := match e with
    | .publish => if s.x.cmd.publish.isSome then s.submitted + 1 else s.submitted
    | .other _ | .stage _ | .enableSlot | .poll | .wait => s.submitted

/-- A slot is marked exactly if it belongs to an outstanding transfer. -/
def Marked (s : Marks) : Prop :=
  ∀ i < cmdRingTrbs, s.x.cmd.pending i = (s.owner i).isSome

instance (s : Marks) : Decidable (Marked s) :=
  inferInstanceAs (Decidable (∀ i < cmdRingTrbs, _))

/-- No poll consumes the completion of an outstanding transfer, and a wait that
consumes a completion clears the one slot its transfer holds, or none that is
held. -/
def Releases (s : Marks) : Step → Prop
  | .poll => s.due = true → ∀ i < cmdRingTrbs, ∀ t, s.owner i = some t →
      s.named s.x.er.entry ≠ some t
  | .wait => s.due = true → ∀ i < cmdRingTrbs, ∀ t, s.owner i = some t →
      (s.x.cmd.matched s.x.er.entry = some i ↔ s.named s.x.er.entry = some t)
  | .other _ | .stage _ | .enableSlot | .publish => True

/-! ## One step -/

/-- What consuming an event does to the marks: the code clears one slot, or
none, where the transfer gives back all of its slots. -/
theorem marked_consume {s : Marks} (marked : Marked s) {x : Xhci} {cleared : Option Nat}
    (pending : ∀ i, x.cmd.pending i = if cleared = some i then false else s.x.cmd.pending i)
    (named : Option Transfer) {command : Bool} {submitted : Nat} :
    Marked ⟨x, fun i => if s.owner i = named then none else s.owner i, command, submitted⟩ ↔
      ∀ i < cmdRingTrbs, ∀ t, s.owner i = some t → (cleared = some i ↔ named = some t) := by
  constructor
  · intro after i slot t held
    have here := after i slot
    rw [pending, marked i slot] at here
    simp only [held, Option.isSome_some] at here
    constructor
    · intro same
      by_contra other
      rw [if_pos same, if_neg (Ne.symm other)] at here
      cases here
    · intro mine
      by_contra kept
      rw [if_neg kept, if_pos mine.symm] at here
      cases here
  · intro releases i slot
    rw [pending, marked i slot]
    cases held : s.owner i with
    | none =>
      simp only [held]
      split <;> split <;> rfl
    | some t =>
      have exact := releases i slot t held
      simp only [held, Option.isSome_some]
      by_cases same : cleared = some i
      · rw [if_pos same, if_pos (exact.mp same).symm]
        rfl
      · rw [if_neg same, if_neg (fun mine => same (exact.mpr mine.symm))]
        rfl

theorem waitStep_pending (x : Xhci) (i : Nat) :
    x.waitStep.1.cmd.pending i =
      if x.er.valid && x.er.entry.isCompletion then
        if x.cmd.matched x.er.entry = some i then false else x.cmd.pending i
      else x.cmd.pending i := by
  have released := release_pending x.cmd x.er.entry i
  simp only [waitStep]
  cases x.er.valid with
  | false => rfl
  | true =>
    cases x.er.entry.isCompletion with
    | false => rfl
    | true => exact released

theorem pollStep_cmd (x : Xhci) : x.pollStep.1.cmd = x.cmd := by
  unfold pollStep
  split <;> rfl

theorem stage_pending (cmd : CmdRing) (q : Request) : (cmd.stage q).pending = cmd.pending := by
  unfold stage
  split <;> rfl

/-- Publishing marks the slots the transfer gets. -/
theorem marked_publish {s : Marks} (marked : Marked s) : Marked (step s .publish) := by
  intro i slot
  by_cases nothing : s.x.cmd.lastStart = none ∨ s.x.cmd.lastTrbCount = 0
  · have failed : s.x.cmd.publish = none := by rw [publish_eq, if_pos nothing]
    simp only [step, act, Marks.owners, failed]
    exact marked i slot
  · have done : s.x.cmd.publish = some s.x.cmd.published := by rw [publish_eq, if_neg nothing]
    have slots : s.x.cmd.published.lastSlots = s.x.cmd.lastSlots := rfl
    simp only [step, act, Marks.owners, done, slots]
    by_cases mine : i ∈ s.x.cmd.lastSlots
    · simp [published, mine, slot]
    · simp only [published, mine, false_and, if_false]
      exact marked i slot

theorem marked_step_iff {s : Marks} (marked : Marked s) (e : Step) :
    Marked (step s e) ↔ Releases s e := by
  cases e with
  | other y => exact iff_of_true marked trivial
  | stage q =>
    refine iff_of_true (fun i slot => ?_) trivial
    exact (congrFun (stage_pending s.x.cmd q) i).trans (marked i slot)
  | enableSlot => exact iff_of_true marked trivial
  | publish => exact iff_of_true (marked_publish marked) trivial
  | poll =>
    have keeps (i : Nat) : s.x.pollStep.1.cmd.pending i =
        if (none : Option Nat) = some i then false else s.x.cmd.pending i := by
      rw [pollStep_cmd, if_neg nofun]
    by_cases due : s.due = true
    · simp only [step, act, Marks.owners, due, if_true, Releases, forall_true_left]
      rw [marked_consume marked keeps]
      simp
    · have same : Marked (step s .poll) := by
        intro i slot
        simp only [step, act, Marks.owners, due, pollStep_cmd]
        exact marked i slot
      exact iff_of_true same fun consumed => absurd consumed due
  | wait =>
    have clears := waitStep_pending s.x
    by_cases due : s.due = true
    · simp only [Marks.due] at due
      simp only [due, if_true] at clears
      simp only [step, act, Marks.owners, Marks.due, due, if_true, Releases, forall_true_left]
      exact marked_consume marked clears _
    · have same : Marked (step s .wait) := by
        intro i slot
        simp only [Marks.due] at due
        simp only [step, act, Marks.owners, Marks.due, due, clears]
        exact marked i slot
      exact iff_of_true same fun consumed => absurd consumed due

/-! ## The calls are made of these steps -/

def Reach (x y : Xhci) : Prop := ∃ es : List Step, es.foldl act x = y

theorem run_state (es : List Step) (s : Marks) : (es.foldl step s).x = es.foldl act s.x := by
  induction es generalizing s with
  | nil => rfl
  | cons e es ih => exact ih (step s e)

namespace Reach

variable {x y z : Xhci}

theorem refl (x : Xhci) : Reach x x := ⟨[], rfl⟩

theorem trans (h : Reach x y) (h' : Reach y z) : Reach x z := by
  obtain ⟨es, rfl⟩ := h
  obtain ⟨es', rfl⟩ := h'
  exact ⟨es ++ es', List.foldl_append⟩

theorem one (h : Reach x y) (e : Step) : Reach x (act y e) := h.trans ⟨[e], rfl⟩

theorem other (h : Reach x y) (same : z.cmd = y.cmd) : Reach x z := by
  have moved := h.one (.other z)
  rwa [act, ← same] at moved

end Reach

section
variable (ctl : Controller) {x y : Xhci}

theorem reach_wait (start : Reach x y) (timeoutMs : Nat) :
    Reach x (xhciWaitForCommandCompletion ctl y timeoutMs).1 := by
  refine wait_rule (I := Reach x) ?_ ?_ timeoutMs start
  · intro z reached
    exact reached.other rfl
  · intro z reached
    exact reached.one .wait

theorem reach_poll (start : Reach x y) (timeoutMs : Nat) (p : Payload) :
    Reach x (xhciPollEventRing ctl y timeoutMs p).x := by
  refine poll_rule (I := Reach x) ?_ ?_ p timeoutMs start
  · intro z reached
    exact reached.other rfl
  · intro z reached
    exact reached.one .poll

theorem reach_issueEnableSlot (start : Reach x y) : Reach x (issueEnableSlot ctl y).1 := by
  refine issueEnableSlot_rule (I := Reach x) ?_ ?_ ?_
  · intro z reached
    exact reached.other rfl
  · intro z reached
    exact reached.one .wait
  · exact (start.one .enableSlot).other (xhciInitEventRing_cmd _)

theorem reach_tryEnableSlot (start : Reach x y) (enable : y.hwEnable = true)
    (ring : y.cmd.ring ≠ 0) : Reach x (tryEnableSlot ctl y) := by
  have sent := reach_issueEnableSlot ctl start
  have same : xhciSendEnableSlot ctl y = issueEnableSlot ctl y := by
    simp only [xhciSendEnableSlot, enable, ring, Bool.not_true, Bool.false_eq_true, if_false,
      Int.lt_irrefl]
  unfold tryEnableSlot
  rw [same]
  split
  · exact start
  · simp only
    split
    · split
      · exact sent.other (xhciInitDeviceContext_cmd _)
      · exact sent.other (xhciInitDeviceContext_cmd _)
    · exact sent

theorem reach_publishTransfer (start : Reach x y) (enable : y.hwEnable = true)
    (ring : y.cmd.ring ≠ 0) : Reach x (publishTransfer ctl y).1 := by
  have cmd := placeContext_cmd y
  have placed := start.other cmd
  have tried := reach_tryEnableSlot ctl placed ((placeContext_hwEnable y).trans enable)
    (cmd ▸ ring)
  simp only [publishTransfer]
  split
  · exact placed
  · split
    · exact tried
    · have published := tried.one .publish
      simp only [act] at published
      split
      · exact tried
      · rename_i after done
        rw [done] at published
        exact published.other (xhciInitEventRing_cmd _)

theorem reach_submit (start : Reach x y) (enable : y.hwEnable = true) (ring : y.cmd.ring ≠ 0)
    (p : Payload) : Reach x (xhciSubmitCommandRing ctl y p).x := by
  have published := reach_publishTransfer ctl start enable ring
  simp only [xhciSubmitCommandRing, enable, Bool.not_true, Bool.false_eq_true, if_false]
  split
  · exact published
  · split
    · exact published
    · exact reach_poll ctl published 500 p

/-- A control transfer, from staging to the poll at its end. -/
theorem reach_transfer (start : Reach x y) (enable : y.hwEnable = true) (ring : y.cmd.ring ≠ 0)
    (q : Request) (user : Option Mem) : Reach x (stageAndSubmit ctl y q user).x := by
  obtain ⟨kept, -⟩ := stage_staged y.cmd q
  have count : ¬ (q.trbs.length : Int) < 0 := by omega
  simp only [stageAndSubmit, prepare_of_ring ring, if_neg count]
  exact reach_submit ctl (start.one (.stage q)) enable (kept ▸ ring) _

end

/-- The calls a driver makes once the command ring is there. -/
inductive Call
  | transfer (ctl : Controller) (q : Request) (user : Option Mem)
  | poll (ctl : Controller) (timeoutMs : Nat) (p : Payload)
  | wait (ctl : Controller) (timeoutMs : Nat)

def call (x : Xhci) : Call → Xhci
  | .transfer ctl q user => (stageAndSubmit ctl x q user).x
  | .poll ctl timeoutMs p => (xhciPollEventRing ctl x timeoutMs p).x
  | .wait ctl timeoutMs => (xhciWaitForCommandCompletion ctl x timeoutMs).1

theorem call_ring {x : Xhci} (enable : x.hwEnable = true) (ring : x.cmd.ring ≠ 0) (c : Call) :
    (call x c).hwEnable = true ∧ (call x c).cmd.ring ≠ 0 := by
  cases c with
  | transfer ctl q user =>
    obtain ⟨-, hw, cmd⟩ := stageAndSubmit_spec ctl enable ring q user
    refine ⟨hw, ?_⟩
    split at cmd <;> rw [call, bare_eq cmd]
    · have kept : ({ x with cmd := x.cmd.stage q } : Xhci).ready.ring = x.cmd.ring := by
        rw [ready_eq, stage_eq]
      exact fun none => ring (kept.symm.trans none)
    · rw [stage_eq]
      exact ring
  | poll ctl timeoutMs p =>
    obtain ⟨hw, -, cmd⟩ := quiet_eq (poll_quiet ctl x timeoutMs p)
    exact ⟨hw.trans enable, by rw [call, bare_eq cmd]; exact ring⟩
  | wait ctl timeoutMs =>
    obtain ⟨hw, -, cmd⟩ := quiet_eq (wait_quiet ctl timeoutMs x)
    exact ⟨hw.trans enable, by rw [call, bare_eq cmd]; exact ring⟩

/-- Every state between calls is the state of some run. -/
theorem calls_run {x : Xhci} (enable : x.hwEnable = true) (ring : x.cmd.ring ≠ 0)
    (cs : List Call) : Reach x (cs.foldl call x) := by
  suffices ∀ y, y.hwEnable = true → y.cmd.ring ≠ 0 → Reach x y → Reach x (cs.foldl call y) from
    this x enable ring (.refl x)
  intro y enable ring reached
  induction cs generalizing y with
  | nil => exact reached
  | cons c cs ih =>
    obtain ⟨enable', ring'⟩ := call_ring enable ring c
    apply ih _ enable' ring'
    cases c with
    | transfer ctl q user => exact reach_transfer ctl reached enable ring q user
    | poll ctl timeoutMs p => exact reach_poll ctl reached timeoutMs p
    | wait ctl timeoutMs => exact reach_wait ctl reached timeoutMs

/-! ## Whole runs -/

theorem init_marked {x : Xhci} (fresh : x.cmd.ring = 0) (ready : (xhciInitCommandRing x).2 = 0) :
    Marked (.init (xhciInitCommandRing x).1) := by
  intro i slot
  simp only [xhciInitCommandRing, fresh, ne_eq, not_true_eq_false, if_false] at ready ⊢
  split
  · rename_i failed
    rw [if_pos failed] at ready
    cases ready
  · exact if_pos slot

/-- The exact condition for a slot to be marked as long as its transfer is
outstanding. -/
theorem marked_along_iff {x : Xhci} (fresh : x.cmd.ring = 0)
    (ready : (xhciInitCommandRing x).2 = 0) (es : List Step) :
    Along step Marked (.init (xhciInitCommandRing x).1) es ↔
      Steps step Releases (.init (xhciInitCommandRing x).1) es :=
  along_iff_steps (E := fun _ => True)
    (fun _ e _ marked releases => (marked_step_iff marked e).mpr releases)
    (fun _ marked => marked)
    (fun _ e _ marked fails after => fails ((marked_step_iff marked e).mp after))
    (fun _ _ => trivial) (init_marked fresh ready)

/-- The controller writes one event at the dequeue position. -/
def report (idx : Nat) (ev : Trb) : Step :=
  .other { Xhci.boot with er := { EventRing.boot with
    buffer := 0x2000000, trbs := Function.update (fun _ => .zero) idx ev, dequeueIdx := idx } }

/-- The first transfer after boot: the Enable Slot command is answered and the
transfer completed, one event each. -/
def firstTransfer : List Step :=
  [.stage ⟨0x01300000, 0, 0, 0, false⟩, .enableSlot,
    report 0 ⟨heapStart, 0, 0, (0x21 : UInt32) <<< 10 ||| 1⟩, .wait, .publish,
    report 1 ⟨1, 0, 0, (0x21 : UInt32) <<< 10 ||| 1⟩, .poll]

theorem marked_along_first :
    Along step Marked (.init (xhciInitCommandRing .boot).1) firstTransfer ↔
      Steps step Releases (.init (xhciInitCommandRing .boot).1) firstTransfer :=
  marked_along_iff rfl (by decide) _

/-- Its slots stay marked after its poll has consumed the completion. -/
theorem poll_releases_nothing :
    ¬ Along step Marked (.init (xhciInitCommandRing .boot).1) firstTransfer := by
  intro along
  exact absurd (along_last along) (by decide +kernel)

end MyOS.Completions
