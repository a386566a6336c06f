import MyOS.Base.Runs
import MyOS.Usb.Submission

/-!
# The cycle bit of a TRB and its lap

The TRBs of one transfer all get the cycle bit of its first one, the Enable
Slot command always gets a 1. Both go wrong: the first when the transfer
straddles the end of the ring, the second on every other lap.
-/

namespace MyOS.Laps

open Circular Runs CmdRing Xhci

/-- The driver, the number of TRBs published so far, and the lap in which each
slot was last written by a TRB that was published or by Enable Slot. -/
structure Track where
  x : Xhci
  position : Nat
  lap : Nat → Option Nat

def Track.init (x : Xhci) : Track := ⟨x, 0, fun _ => none⟩

/-- A pair of calls: the transfer, what the controller does meanwhile, and the
caller's memory. -/
structure Pair where
  ctl : Controller
  q : Request
  user : Option Mem

/-- How far the slot `i` is ahead of a position. -/
def ahead (position i : Nat) : Nat := (i + cmdRingTrbs - position % cmdRingTrbs) % cmdRingTrbs

/-- Positions fall into laps of 256. A transfer whose submission fails stays
staged, and its slots carry no TRB of any lap. -/
def step (s : Track) (e : Pair) : Track :=
  let r := stageAndSubmit e.ctl s.x e.q e.user
  let count := e.q.trbs.length
  if r.ret = 0 then
    { x := r.x
      position := s.position + count
      lap := fun i =>
        if ahead s.position i < count then some ((s.position + ahead s.position i) / cmdRingTrbs)
        else if i = 0 ∧ s.x.dev.slotEnabled = false then some (s.position / cmdRingTrbs)
        else s.lap i }
  else
    { s with
      x := r.x
      lap := fun i => if ahead s.position i < count then none else s.lap i }

/-- The cycle bit is 1 on the laps 0, 2, 4 and so on. -/
def OwnLap (s : Track) : Prop :=
  ∀ i < cmdRingTrbs, ∀ l, s.lap i = some l → (s.x.cmd.trbs i).cycle = (l % 2 == 0)

/-- A transfer whose submission gets through its allocations does not run over
the end of the ring, and does not enable the slot on an odd lap, unless it puts
its own Setup TRB over the command. -/
def InLap (s : Track) (e : Pair) : Prop :=
  contextFits s.x.dev.dcbaa s.x.heap = true →
    s.x.cmd.head + e.q.trbs.length ≤ cmdRingTrbs ∧
      (s.x.dev.slotEnabled = true ∨ s.x.cmd.head = 0 ∨ s.x.cmd.cycle = true)

structure Inv (s : Track) : Prop where
  enable : s.x.hwEnable = true
  ring : s.x.cmd.ring ≠ 0
  head : s.x.cmd.head = s.position % cmdRingTrbs
  cycle : s.x.cmd.cycle = lapBit cmdRingTrbs s.position

theorem head_lt {s : Track} (inv : Inv s) : s.x.cmd.head < cmdRingTrbs := by
  rw [inv.head]
  exact Nat.mod_lt _ (by decide)

/-! ## One pair of calls -/

theorem count_trbs (q : Request) : q.trbs.length = 2 ∨ q.trbs.length = 3 := by
  unfold Request.trbs
  split
  · exact .inr rfl
  · exact .inl rfl

/-- The driver with a transfer staged. -/
def Track.staged (s : Track) (e : Pair) : Xhci := { s.x with cmd := s.x.cmd.stage e.q }

/-- What a pair of calls does to the ring. -/
theorem pair_spec {s : Track} (inv : Inv s) (e : Pair) :
    (stageAndSubmit e.ctl s.x e.q e.user).ret =
        (if contextFits s.x.dev.dcbaa s.x.heap then 0 else -1) ∧
      (stageAndSubmit e.ctl s.x e.q e.user).x.hwEnable = true ∧
      (stageAndSubmit e.ctl s.x e.q e.user).x.cmd.bare =
        if contextFits s.x.dev.dcbaa s.x.heap then (s.staged e).ready.published.bare
        else (s.staged e).cmd.bare := by
  exact stageAndSubmit_spec e.ctl inv.enable inv.ring e.q e.user

/-- The slots of the transfer are those ahead of the position. -/
theorem mem_slots {s : Track} (inv : Inv s) (q : Request) {i : Nat} (slot : i < cmdRingTrbs) :
    i ∈ (s.x.cmd.stage q).lastSlots ↔ ahead s.position i < q.trbs.length := by
  have head := inv.head
  have inside := head_lt inv
  have count := count_trbs q
  obtain ⟨start, length⟩ := stage_last s.x.cmd q
  simp only [lastSlots, start, length, List.mem_map, List.mem_range]
  constructor
  · rintro ⟨j, short, here⟩
    rw [slotAt_mod inside (by unfold cmdRingTrbs; omega)] at here
    unfold ahead cmdRingTrbs at *
    omega
  · intro short
    refine ⟨_, short, ?_⟩
    rw [slotAt_mod inside (by unfold cmdRingTrbs; omega)]
    unfold ahead cmdRingTrbs at *
    omega

theorem step_room {s : Track} (inv : Inv s) (e : Pair)
    (room : contextFits s.x.dev.dcbaa s.x.heap = true) :
    step s e =
      { x := (stageAndSubmit e.ctl s.x e.q e.user).x
        position := s.position + e.q.trbs.length
        lap := fun i =>
          if ahead s.position i < e.q.trbs.length then
            some ((s.position + ahead s.position i) / cmdRingTrbs)
          else if i = 0 ∧ s.x.dev.slotEnabled = false then some (s.position / cmdRingTrbs)
          else s.lap i } := by
  have ret := (pair_spec inv e).1
  rw [if_pos room] at ret
  simp only [step, if_pos ret]

theorem step_full {s : Track} (inv : Inv s) (e : Pair)
    (full : ¬ contextFits s.x.dev.dcbaa s.x.heap = true) :
    step s e =
      { s with
        x := (stageAndSubmit e.ctl s.x e.q e.user).x
        lap := fun i => if ahead s.position i < e.q.trbs.length then none else s.lap i } := by
  have ret := (pair_spec inv e).1
  rw [if_neg full] at ret
  simp only [step, ret]
  rfl

/-- The cycle bits after a submission that gets through. -/
theorem cycle_after {s : Track} (inv : Inv s) (e : Pair)
    (room : contextFits s.x.dev.dcbaa s.x.heap = true) {i : Nat} (slot : i < cmdRingTrbs) :
    ((step s e).x.cmd.trbs i).cycle =
      if ahead s.position i < e.q.trbs.length then s.x.cmd.cycle
      else if i = 0 ∧ s.x.dev.slotEnabled = false then true
      else (s.x.cmd.trbs i).cycle := by
  obtain ⟨-, -, ring⟩ := pair_spec inv e
  rw [if_pos room] at ring
  have trbs : (stageAndSubmit e.ctl s.x e.q e.user).x.cmd.trbs =
      (s.staged e).ready.published.trbs := by rw [bare_eq ring]
  have slots : (s.staged e).ready.lastSlots = (s.x.cmd.stage e.q).lastSlots := by
    rw [ready_eq]
    rfl
  have cycle : (s.staged e).ready.cycle = s.x.cmd.cycle := by
    rw [ready_eq]
    exact (congrArg CmdRing.cycle (stage_eq s.x.cmd e.q) : (s.x.cmd.stage e.q).cycle = _)
  have member := mem_slots inv e.q slot
  rw [step_room inv e room, trbs]
  by_cases mine : ahead s.position i < e.q.trbs.length
  · rw [if_pos mine]
    simp only [published, slots, if_pos (member.mpr mine), stamp_cycle, cycle]
  · rw [if_neg mine]
    have other : i ∉ (s.x.cmd.stage e.q).lastSlots := fun h => mine (member.mp h)
    simp only [published, slots, if_neg other, ready_trbs]
    by_cases command : i = 0 ∧ s.x.dev.slotEnabled = false
    · rw [if_pos command, if_pos (show i = 0 ∧ (s.staged e).dev.slotEnabled = false from command),
        Trb.withCycle_cycle]
    · rw [if_neg command,
        if_neg (show ¬ (i = 0 ∧ (s.staged e).dev.slotEnabled = false) from command)]
      exact congrArg Trb.cycle (stage_trbs_off (head_lt inv) e.q other)

theorem step_inv (s : Track) (e : Pair) (inv : Inv s) : Inv (step s e) := by
  obtain ⟨-, enable, ring⟩ := pair_spec inv e
  have staged : (s.staged e).cmd = s.x.cmd.stage e.q := rfl
  rw [stage_eq] at staged
  by_cases room : contextFits s.x.dev.dcbaa s.x.heap = true
  · rw [if_pos room] at ring
    have cmd := bare_eq ring
    rw [ready_eq, staged] at cmd
    have head := inv.head
    have count := count_trbs e.q
    have succ := inv.cycle
    rw [step_room inv e room]
    refine
      { enable, ring := ?_, head := (congrArg CmdRing.head cmd).trans ?_
        cycle := (congrArg CmdRing.cycle cmd).trans ?_ }
    · rw [cmd]
      exact inv.ring
    · simp only [published]
      unfold cmdRingTrbs at *
      split <;> omega
    · have short : e.q.trbs.length ≤ cmdRingTrbs := by unfold cmdRingTrbs; omega
      rw [lapBit_add short (by decide), ← inv.head, ← inv.cycle]
      rfl
  · rw [if_neg room] at ring
    have cmd := bare_eq ring
    rw [staged] at cmd
    rw [step_full inv e room]
    exact
      { enable
        ring := by rw [cmd]; exact inv.ring
        head := (congrArg CmdRing.head cmd).trans inv.head
        cycle := (congrArg CmdRing.cycle cmd).trans inv.cycle }

/-! ## Laps -/

theorem inLap_keeps {s : Track} {e : Pair} (inv : Inv s) (own : OwnLap s) (inLap : InLap s e) :
    OwnLap (step s e) := by
  intro i slot l here
  have head := inv.head
  have count := count_trbs e.q
  by_cases room : contextFits s.x.dev.dcbaa s.x.heap = true
  · obtain ⟨fits, command⟩ := inLap room
    rw [cycle_after inv e room slot]
    rw [step_room inv e room] at here
    simp only at here
    by_cases mine : ahead s.position i < e.q.trbs.length
    · rw [if_pos mine] at here ⊢
      have same : l = s.position / cmdRingTrbs := by
        have place := Option.some.inj here
        unfold ahead cmdRingTrbs at *
        omega
      rw [inv.cycle, same]
      rfl
    · rw [if_neg mine] at here ⊢
      by_cases issued : i = 0 ∧ s.x.dev.slotEnabled = false
      · rw [if_pos issued] at here ⊢
        have same := Option.some.inj here
        obtain ⟨rfl, off⟩ := issued
        rcases command with on | first | set
        · rw [off] at on
          cases on
        · exfalso
          unfold ahead cmdRingTrbs at *
          omega
        · rw [← same]
          exact (inv.cycle.symm.trans set).symm
      · rw [if_neg issued] at here ⊢
        exact own i slot l here
  · obtain ⟨-, -, ring⟩ := pair_spec inv e
    rw [if_neg room] at ring
    rw [step_full inv e room] at here ⊢
    simp only at here ⊢
    have other : ¬ ahead s.position i < e.q.trbs.length := by
      intro mine
      rw [if_pos mine] at here
      cases here
    rw [if_neg other] at here
    have off : i ∉ (s.x.cmd.stage e.q).lastSlots := fun h => other ((mem_slots inv e.q slot).mp h)
    have trb : (stageAndSubmit e.ctl s.x e.q e.user).x.cmd.trbs i = s.x.cmd.trbs i := by
      rw [bare_eq ring]
      exact stage_trbs_off (head_lt inv) e.q off
    rw [trb]
    exact own i slot l here

/-- Otherwise slot 0 gets the bit of the wrong lap. -/
theorem not_inLap_breaks {s : Track} {e : Pair} (inv : Inv s) (fails : ¬ InLap s e) :
    ¬ OwnLap (step s e) := by
  intro own
  have head := inv.head
  have count := count_trbs e.q
  unfold InLap at fails
  push Not at fails
  obtain ⟨room, wrong⟩ := fails
  have first := own 0 (by decide)
  rw [cycle_after inv e room (by decide), step_room inv e room] at first
  simp only at first
  by_cases fits : s.x.cmd.head + e.q.trbs.length ≤ cmdRingTrbs
  · obtain ⟨off, inside, clear⟩ := wrong fits
    have past : ¬ ahead s.position 0 < e.q.trbs.length := by
      unfold ahead cmdRingTrbs at *
      omega
    have issued : True ∧ s.x.dev.slotEnabled = false := ⟨trivial, by simpa using off⟩
    rw [if_neg past, if_neg past, if_pos issued, if_pos issued] at first
    have set : true = lapBit cmdRingTrbs s.position := first _ rfl
    rw [← inv.cycle] at set
    exact clear set.symm
  · have mine : ahead s.position 0 < e.q.trbs.length := by
      unfold ahead cmdRingTrbs at *
      omega
    have past : cmdRingTrbs ≤ s.position % cmdRingTrbs + ahead s.position 0 := by
      unfold ahead cmdRingTrbs at *
      omega
    have short : ahead s.position 0 ≤ cmdRingTrbs := Nat.le_of_lt (Nat.mod_lt _ (by decide))
    rw [if_pos mine, if_pos mine] at first
    have wrapped : s.x.cmd.cycle = lapBit cmdRingTrbs (s.position + ahead s.position 0) :=
      first _ rfl
    rw [lapBit_add short (by decide), if_pos past, inv.cycle] at wrapped
    cases bit : lapBit cmdRingTrbs s.position <;> simp [bit] at wrapped

theorem init_inv {x : Xhci} (enable : x.hwEnable = true) (fresh : x.cmd.ring = 0)
    (ready : (xhciInitCommandRing x).2 = 0) : Inv (.init (xhciInitCommandRing x).1) := by
  simp only [xhciInitCommandRing, fresh, ne_eq, not_true_eq_false, if_false] at ready ⊢
  split
  · rename_i failed
    rw [if_pos failed] at ready
    cases ready
  · rename_i block
    exact
      { enable := by rw [Track.init, alloc_hwEnable, enable]
        ring := block
        head := rfl
        cycle := by simp [Track.init, CmdRing.init, lapBit] }

/-- The exact condition for every TRB to carry the cycle bit of its own lap. -/
theorem ownLap_along_iff {x : Xhci} (enable : x.hwEnable = true) (fresh : x.cmd.ring = 0)
    (ready : (xhciInitCommandRing x).2 = 0) (es : List Pair) :
    Along step OwnLap (.init (xhciInitCommandRing x).1) es ↔
      Steps step InLap (.init (xhciInitCommandRing x).1) es :=
  along_iff_steps (I := fun s => Inv s ∧ OwnLap s) (E := fun _ => True)
    (fun s e _ inv inLap => ⟨step_inv s e inv.1, inLap_keeps inv.1 inv.2 inLap⟩)
    (fun s inv => inv.2)
    (fun s e _ inv fails => not_inLap_breaks inv.1 fails)
    (fun _ _ => trivial)
    ⟨init_inv enable fresh ready, fun i _ l none => by cases none⟩

/-- A transfer of three TRBs. -/
def threeTrbs : Pair := ⟨prompt, ⟨0x01300000, 0x01301000, 0x01301000, 18, true⟩, none⟩

theorem ownLap_along_first :
    Along step OwnLap (.init (xhciInitCommandRing .boot).1) [threeTrbs] ↔
      Steps step InLap (.init (xhciInitCommandRing .boot).1) [threeTrbs] :=
  ownLap_along_iff rfl rfl (by decide) _

/-- The 86th of them takes slots 255, 0 and 1. -/
theorem straddling_transfer :
    ¬ Along step OwnLap (.init (xhciInitCommandRing .boot).1) (List.replicate 86 threeTrbs) := by
  intro along
  have lap : ((List.replicate 86 threeTrbs).foldl step
      (.init (xhciInitCommandRing .boot).1)).lap 0 = some 1 := by decide +kernel
  have cycle : (((List.replicate 86 threeTrbs).foldl step
      (.init (xhciInitCommandRing .boot).1)).x.cmd.trbs 0).cycle = true := by decide +kernel
  have own := along_last along 0 (by decide) 1 lap
  rw [cycle] at own
  cases own

end MyOS.Laps
