import MyOS.Usb.Transfer

/-!
# What a submission does to the command ring

Staging and publishing in closed form, slot by slot. Waiting for an event
clears marks and nothing else of the ring; a submission that finds no slot
enabled writes the Enable Slot command over slot 0.
-/

namespace MyOS

open Circular

namespace CmdRing

/-! ## Publishing, slot by slot -/

theorem stamp_stamp (on : Bool) (token : UInt32) (t : Trb) :
    stamp on token (stamp on token t) = stamp on token t := by
  have same := congrArg Trb.d (t.withCycle_withCycle on on)
  simp only [stamp, Trb.withCycle, Trb.mk.injEq, true_and] at same ⊢
  exact same

theorem update_self_if {α : Type} (f : Nat → α) (g : α → α) (dst : Nat) :
    Function.update f dst (g (f dst)) = fun i => if i = dst then g (f i) else f i := by
  funext i
  by_cases here : i = dst
  · rw [here, Function.update_self, if_pos rfl]
  · rw [Function.update_of_ne here, if_neg here]

theorem stamp_cycle (on : Bool) (token : UInt32) (t : Trb) : (stamp on token t).cycle = on :=
  t.withCycle_cycle on

theorem foldl_publishSlot (token : UInt32) (slots : List Nat) (cmd : CmdRing) :
    slots.foldl (publishSlot token) cmd = { cmd with
      trbs := fun i => if i ∈ slots then stamp cmd.cycle token (cmd.trbs i) else cmd.trbs i
      pending := fun i => if i ∈ slots ∧ i < cmdRingTrbs then true else cmd.pending i
      token := fun i => if i ∈ slots then token else cmd.token i } := by
  induction slots generalizing cmd with
  | nil => simp
  | cons dst slots ih =>
    have one : publishSlot token cmd dst = { cmd with
        trbs := fun i => if i = dst then stamp cmd.cycle token (cmd.trbs i) else cmd.trbs i
        pending := fun i => if i = dst ∧ i < cmdRingTrbs then true else cmd.pending i
        token := fun i => if i = dst then token else cmd.token i } := by
      have trbs := update_self_if cmd.trbs (stamp cmd.cycle token) dst
      have tokens := update_self_if cmd.token (fun _ => token) dst
      have pending := update_self_if cmd.pending (fun _ => true) dst
      unfold publishSlot markPending
      by_cases outside : cmdRingTrbs ≤ dst
      · have none : ∀ i, ¬ (i = dst ∧ i < cmdRingTrbs) := by omega
        simp [outside, none, trbs, tokens]
      · have same : ∀ i, (i = dst ∧ i < cmdRingTrbs) = (i = dst) := fun i =>
          propext ⟨And.left, fun h => ⟨h, by omega⟩⟩
        simp [outside, same, trbs, tokens, pending]
    rw [List.foldl_cons, ih, one]
    congr 1
    · funext i
      by_cases here : i = dst <;> by_cases later : i ∈ slots <;> simp [here, later, stamp_stamp]
    · funext i
      by_cases here : i = dst
      · subst here
        by_cases inside : i < cmdRingTrbs <;> simp [inside]
      · simp [here]
    · funext i
      by_cases here : i = dst <;> by_cases later : i ∈ slots <;> simp [here, later]

/-- What publishing leaves. -/
def published (cmd : CmdRing) : CmdRing :=
  let token := cmd.tokenCounter + 1
  let head := cmd.head + cmd.lastTrbCount
  { cmd with
    trbs := fun i => if i ∈ cmd.lastSlots then stamp cmd.cycle token (cmd.trbs i) else cmd.trbs i
    pending := fun i => if i ∈ cmd.lastSlots ∧ i < cmdRingTrbs then true else cmd.pending i
    token := fun i => if i ∈ cmd.lastSlots then token else cmd.token i
    tokenCounter := token
    head := if cmdRingTrbs ≤ head then head - cmdRingTrbs else head
    cycle := if cmdRingTrbs ≤ head then !cmd.cycle else cmd.cycle
    lastToken := token }

theorem publish_eq (cmd : CmdRing) :
    cmd.publish =
      if cmd.lastStart = none ∨ cmd.lastTrbCount = 0 then none else some cmd.published := by
  simp only [publish, foldl_publishSlot]
  rfl

/-- The TRBs of the transfer staged last, in their order. -/
def lastTrbs (cmd : CmdRing) : List Trb := cmd.lastSlots.map cmd.trbs

theorem lastTrbs_published (cmd : CmdRing) :
    cmd.published.lastTrbs = cmd.lastTrbs.map (stamp cmd.cycle (cmd.tokenCounter + 1)) := by
  simp only [lastTrbs, List.map_map]
  apply List.map_congr_left
  intro i hi
  exact if_pos hi

/-! ## Staging, slot by slot -/

theorem slotAt_mod {start i : Nat} (inside : start < cmdRingTrbs) (short : i ≤ cmdRingTrbs) :
    slotAt start i = (start + i) % cmdRingTrbs := by
  unfold slotAt cmdRingTrbs at *
  split <;> omega

theorem next_mod {i : Nat} (inside : i < cmdRingTrbs) :
    next cmdRingTrbs i = (i + 1) % cmdRingTrbs := by
  have slot := next_slot (n := cmdRingTrbs) (by decide) i
  rwa [Nat.mod_eq_of_lt inside] at slot

/-- The slots of a transfer that starts at `head`. -/
theorem slots_apart {head : Nat} (inside : head < cmdRingTrbs) :
    slotAt head 0 = head ∧ slotAt head 1 = next cmdRingTrbs head ∧
      slotAt head 2 = next cmdRingTrbs (next cmdRingTrbs head) ∧
      head ≠ next cmdRingTrbs head ∧ head ≠ next cmdRingTrbs (next cmdRingTrbs head) ∧
      next cmdRingTrbs head ≠ next cmdRingTrbs (next cmdRingTrbs head) := by
  rw [slotAt_mod inside (by decide), slotAt_mod inside (by decide),
    slotAt_mod inside (by decide), next_mod (next_lt (by decide) head), next_mod inside]
  unfold cmdRingTrbs at *
  omega

theorem stage_last (cmd : CmdRing) (q : Request) :
    (cmd.stage q).lastStart = some cmd.head ∧ (cmd.stage q).lastTrbCount = q.trbs.length := by
  unfold stage Request.trbs
  split <;> exact ⟨rfl, rfl⟩

theorem stage_eq (cmd : CmdRing) (q : Request) :
    cmd.stage q = { cmd with
      trbs := (cmd.stage q).trbs, lastStart := some cmd.head, lastTrbCount := q.trbs.length } := by
  unfold stage Request.trbs
  split <;> rfl

/-- What is staged are the TRBs of the transfer. -/
theorem lastTrbs_stage {cmd : CmdRing} (inside : cmd.head < cmdRingTrbs) (q : Request) :
    (cmd.stage q).lastTrbs = q.trbs := by
  obtain ⟨first, second, third, apart₁, apart₂, apart₃⟩ := slots_apart inside
  unfold stage Request.trbs
  split
  · simp [lastTrbs, lastSlots, List.range_succ, first, second, third, apart₁, apart₂, apart₃]
  · simp [lastTrbs, lastSlots, List.range_succ, first, second, apart₁]

/-- Staging writes nothing else. -/
theorem stage_trbs_off {cmd : CmdRing} (inside : cmd.head < cmdRingTrbs) (q : Request) {i : Nat}
    (off : i ∉ (cmd.stage q).lastSlots) : (cmd.stage q).trbs i = cmd.trbs i := by
  obtain ⟨first, second, third, -, -, -⟩ := slots_apart inside
  unfold stage at off ⊢
  split at off
  · rename_i data
    simp [lastSlots, List.range_succ, first, second, third] at off
    simp [data, off]
  · rename_i data
    simp [lastSlots, List.range_succ, first, second] at off
    simp [data, off]

/-- The ring without the marks that a completion may clear. -/
def bare (cmd : CmdRing) : CmdRing :=
  { cmd with pending := fun _ => false, token := fun _ => 0 }

theorem bare_eq {cmd other : CmdRing} (same : cmd.bare = other.bare) :
    cmd = { other with pending := cmd.pending, token := cmd.token } := by
  cases cmd
  cases other
  simp only [bare, mk.injEq] at same
  simp [same]

theorem clear_bare (cmd : CmdRing) (pointed token : Option Nat) :
    (cmd.clear pointed token).bare = cmd.bare := by
  cases pointed with
  | some i => rfl
  | none =>
    cases token with
    | some i => rfl
    | none => rfl

theorem release_bare (cmd : CmdRing) (ev : Trb) : (cmd.release ev).bare = cmd.bare :=
  clear_bare cmd _ _

/-- Publishing asks for no mark. -/
theorem published_bare {cmd other : CmdRing} (same : cmd.bare = other.bare) :
    cmd.published.bare = other.published.bare := by
  have asks (cmd : CmdRing) : cmd.published.bare = cmd.bare.published.bare := rfl
  rw [asks, same, ← asks]

end CmdRing

namespace Xhci

open CmdRing

/-! ## What waiting leaves alone -/

variable (ctl : Controller)

/-- All but the event ring, the memory, the heap and the marks. -/
def quiet (x : Xhci) : Bool × XhciDevice × CmdRing := (x.hwEnable, x.dev, x.cmd.bare)

theorem quiet_eq {x y : Xhci} (same : x.quiet = y.quiet) :
    x.hwEnable = y.hwEnable ∧ x.dev = y.dev ∧ x.cmd.bare = y.cmd.bare := by
  simpa only [quiet, Prod.mk.injEq] using same

theorem quiet_marks (x : Xhci) {cmd : CmdRing} (kept : cmd.bare = x.cmd.bare) (er : EventRing) :
    ({ x with cmd, er } : Xhci).quiet = x.quiet :=
  congrArg (fun ring => (x.hwEnable, x.dev, ring)) kept

theorem waitStep_quiet (x : Xhci) : x.waitStep.1.quiet = x.quiet := by
  have marks := x.quiet_marks (release_bare x.cmd x.er.entry) x.er.consume
  simp only [waitStep]
  split
  · split
    · exact marks
    · rfl
  · rfl

theorem pollStep_quiet (x : Xhci) : x.pollStep.1.quiet = x.quiet := by
  unfold pollStep
  split <;> rfl

theorem wait_quiet (timeoutMs : Nat) (x : Xhci) :
    (xhciWaitForCommandCompletion ctl x timeoutMs).1.quiet = x.quiet := by
  refine wait_rule (I := fun y => y.quiet = x.quiet) ?_ ?_ timeoutMs rfl
  · intro y same
    exact same
  · intro y same
    rw [waitStep_quiet, same]

theorem poll_quiet (x : Xhci) (timeoutMs : Nat) (p : Payload) :
    (xhciPollEventRing ctl x timeoutMs p).x.quiet = x.quiet := by
  refine poll_rule (I := fun y => y.quiet = x.quiet) ?_ ?_ p timeoutMs rfl
  · intro y same
    exact same
  · intro y same
    rw [pollStep_quiet, same]

theorem xhciInitEventRing_quiet (x : Xhci) : (xhciInitEventRing x).1.quiet = x.quiet := by
  simp only [xhciInitEventRing]
  repeat' split
  all_goals simp only [quiet, alloc_cmd, alloc_dev, alloc_hwEnable]

/-! ## Enabling a slot -/

theorem issueEnableSlot_quiet (x : Xhci) :
    (issueEnableSlot ctl x).1.quiet = (x.hwEnable, x.dev, x.cmd.buildEnableSlot.bare) := by
  refine issueEnableSlot_rule
    (I := fun y => y.quiet = (x.hwEnable, x.dev, x.cmd.buildEnableSlot.bare)) ?_ ?_ ?_
  · intro y same
    exact same
  · intro y same
    rw [waitStep_quiet, same]
  · rw [xhciInitEventRing_quiet]
    rfl

theorem xhciSendEnableSlot_quiet {x : Xhci} (enable : x.hwEnable = true)
    (ring : x.cmd.ring ≠ 0) :
    (xhciSendEnableSlot ctl x).1.quiet = (x.hwEnable, x.dev, x.cmd.buildEnableSlot.bare) := by
  unfold xhciSendEnableSlot
  simp only [enable, ring, Bool.not_true, Bool.false_eq_true, if_false]
  rw [← enable]
  exact issueEnableSlot_quiet ctl x

/-- The ring a submission publishes from: it writes over slot 0 if it finds no
slot enabled. -/
def ready (x : Xhci) : CmdRing := if x.dev.slotEnabled then x.cmd else x.cmd.buildEnableSlot

theorem ready_eq (x : Xhci) : x.ready = { x.cmd with trbs := x.ready.trbs } := by
  unfold ready
  split <;> rfl

theorem ready_trbs (x : Xhci) (i : Nat) :
    x.ready.trbs i =
      if i = 0 ∧ x.dev.slotEnabled = false then Trb.withCycle ⟨0, 0, 0, (9 : UInt32) <<< 10⟩ true
      else x.cmd.trbs i := by
  unfold ready buildEnableSlot
  cases x.dev.slotEnabled with
  | true => simp
  | false =>
    by_cases first : i = 0
    · simp [first]
    · simp [first]

theorem tryEnableSlot_ring {x : Xhci} (enable : x.hwEnable = true) (ring : x.cmd.ring ≠ 0) :
    (tryEnableSlot ctl x).hwEnable = true ∧ (tryEnableSlot ctl x).cmd.bare = x.ready.bare := by
  have sent := xhciSendEnableSlot_quiet ctl enable ring
  unfold tryEnableSlot ready
  split
  · exact ⟨enable, rfl⟩
  · generalize xhciSendEnableSlot ctl x = r at sent
    simp only [quiet, Prod.mk.injEq, enable] at sent
    have cmd := xhciInitDeviceContext_cmd r.1
    have hw := xhciInitDeviceContext_hwEnable r.1
    simp only
    split
    · split
      · exact ⟨hw.trans sent.1, (congrArg bare cmd).trans sent.2.2⟩
      · exact ⟨hw.trans sent.1, (congrArg bare cmd).trans sent.2.2⟩
    · exact ⟨sent.1, sent.2.2⟩

/-! ## A whole submission -/

theorem publishTransfer_spec {x : Xhci} (enable : x.hwEnable = true) (ring : x.cmd.ring ≠ 0)
    (staged : ¬ (x.cmd.lastStart = none ∨ x.cmd.lastTrbCount = 0)) :
    (publishTransfer ctl x).2 = (placeContext x).2 ∧
      (publishTransfer ctl x).1.hwEnable = true ∧
      (publishTransfer ctl x).1.cmd.bare =
        if (placeContext x).2 then x.ready.published.bare else x.cmd.bare := by
  have cmd := placeContext_cmd x
  have enabled := placeContext_slotEnabled x
  have hw := (placeContext_hwEnable x).trans enable
  rcases place : placeContext x with ⟨y, placed⟩
  rw [place] at cmd enabled hw
  simp only at cmd enabled hw
  cases placed with
  | false => simp [publishTransfer, place, cmd, hw]
  | true =>
    obtain ⟨hw', tried⟩ := tryEnableSlot_ring ctl hw (by rw [cmd]; exact ring)
    have before : y.ready = x.ready := by unfold ready; rw [enabled, cmd]
    rw [before] at tried
    have ring' : (tryEnableSlot ctl y).cmd.ring ≠ 0 := by
      rw [bare_eq tried, ready_eq]
      exact ring
    have staged' : ¬ ((tryEnableSlot ctl y).cmd.lastStart = none ∨
        (tryEnableSlot ctl y).cmd.lastTrbCount = 0) := by
      rw [bare_eq tried, ready_eq]
      exact staged
    obtain ⟨hw'', -, cmd'⟩ := quiet_eq (xhciInitEventRing_quiet
      { tryEnableSlot ctl y with cmd := (tryEnableSlot ctl y).cmd.published })
    simp only [publishTransfer, place, Bool.not_true, Bool.false_eq_true, if_false, ring',
      publish_eq, if_neg staged', if_true]
    exact ⟨trivial, hw''.trans hw', cmd'.trans (published_bare tried)⟩

/-- A submission gets through if and only if its allocations do, and publishes
the TRBs that were staged last. -/
theorem submit_spec {x : Xhci} (enable : x.hwEnable = true) (ring : x.cmd.ring ≠ 0)
    (staged : ¬ (x.cmd.lastStart = none ∨ x.cmd.lastTrbCount = 0)) (p : Payload) :
    (xhciSubmitCommandRing ctl x p).ret = (if (placeContext x).2 then 0 else -1) ∧
      (xhciSubmitCommandRing ctl x p).x.hwEnable = true ∧
      (xhciSubmitCommandRing ctl x p).x.cmd.bare =
        if (placeContext x).2 then x.ready.published.bare else x.cmd.bare := by
  obtain ⟨result, hw, cmd⟩ := publishTransfer_spec ctl enable ring staged
  rw [← result] at cmd ⊢
  simp only [xhciSubmitCommandRing, enable, Bool.not_true, Bool.false_eq_true, if_false]
  cases got : (publishTransfer ctl x).2 with
  | false =>
    rw [got] at cmd
    exact ⟨rfl, hw, cmd⟩
  | true =>
    rw [got] at cmd
    simp only [Bool.not_true, Bool.false_eq_true, if_false, if_true]
    split
    · exact ⟨rfl, hw, cmd⟩
    · obtain ⟨hw', -, cmd'⟩ := quiet_eq (poll_quiet ctl (publishTransfer ctl x).1 500 p)
      exact ⟨rfl, hw'.trans hw, cmd'.trans cmd⟩

theorem xhciInitCommandRing_spec (x : Xhci) :
    ((xhciInitCommandRing x).2 = 0 ∧ (xhciInitCommandRing x).1.cmd.ring ≠ 0 ∨
      (xhciInitCommandRing x).2 = -1 ∧ (xhciInitCommandRing x).1.cmd.ring = 0) ∧
      (xhciInitCommandRing x).1.hwEnable = x.hwEnable := by
  simp only [xhciInitCommandRing]
  split
  · rename_i ring
    exact ⟨.inl ⟨rfl, ring⟩, rfl⟩
  · split
    · rename_i none failed
      refine ⟨.inr ⟨rfl, ?_⟩, ?_⟩
      · simp only [alloc_cmd]
        exact not_not.mp none
      · simp only [alloc_hwEnable]
    · rename_i block
      refine ⟨.inl ⟨rfl, ?_⟩, ?_⟩
      · simpa only [init] using block
      · simp only [alloc_hwEnable]

theorem prepare_spec {x y : Xhci} {q : Request} {trbs : Int}
    (prepared : xhciPrepareControlTransfer x q = (y, trbs)) (done : ¬ trbs < 0) :
    (∃ cmd : CmdRing, cmd.ring ≠ 0 ∧ y.cmd = cmd.stage q) ∧ y.hwEnable = x.hwEnable := by
  obtain ⟨spec, hw⟩ := xhciInitCommandRing_spec x
  simp only [xhciPrepareControlTransfer] at prepared
  by_cases ring : x.cmd.ring = 0
  · rw [if_pos ring] at prepared
    rcases spec with ⟨ok, made⟩ | failed
    · rw [if_neg (by rw [ok]; decide)] at prepared
      cases prepared
      exact ⟨⟨_, made, rfl⟩, hw⟩
    · rw [if_pos (by rw [failed.1]; decide)] at prepared
      cases prepared
      exact absurd (by decide) done
  · simp only [if_neg ring, Int.lt_irrefl, if_false] at prepared
    cases prepared
    exact ⟨⟨_, ring, rfl⟩, rfl⟩

theorem prepare_fails {x y : Xhci} {q : Request} {trbs : Int}
    (prepared : xhciPrepareControlTransfer x q = (y, trbs)) (failed : trbs < 0) :
    y.cmd.ring = 0 := by
  obtain ⟨spec, -⟩ := xhciInitCommandRing_spec x
  simp only [xhciPrepareControlTransfer] at prepared
  by_cases ring : x.cmd.ring = 0
  · rw [if_pos ring] at prepared
    rcases spec with ⟨ok, -⟩ | ⟨bad, none⟩
    · rw [if_neg (by rw [ok]; decide)] at prepared
      cases prepared
      omega
    · rw [if_pos (by rw [bad]; decide)] at prepared
      cases prepared
      exact none
  · simp only [if_neg ring, Int.lt_irrefl, if_false] at prepared
    cases prepared
    omega

theorem stage_staged (cmd : CmdRing) (q : Request) :
    (cmd.stage q).ring = cmd.ring ∧
      ¬ ((cmd.stage q).lastStart = none ∨ (cmd.stage q).lastTrbCount = 0) := by
  unfold stage
  split <;> exact ⟨rfl, by simp⟩

theorem prepare_of_ring {x : Xhci} (ring : x.cmd.ring ≠ 0) (q : Request) :
    xhciPrepareControlTransfer x q = ({ x with cmd := x.cmd.stage q }, (q.trbs.length : Int)) := by
  simp only [xhciPrepareControlTransfer, if_neg ring, Int.lt_irrefl, if_false, stage_last]

/-- What staging a transfer and submitting it does to the ring. -/
theorem stageAndSubmit_spec {x : Xhci} (enable : x.hwEnable = true) (ring : x.cmd.ring ≠ 0)
    (q : Request) (user : Option Mem) :
    (stageAndSubmit ctl x q user).ret = (if contextFits x.dev.dcbaa x.heap then 0 else -1) ∧
      (stageAndSubmit ctl x q user).x.hwEnable = true ∧
      (stageAndSubmit ctl x q user).x.cmd.bare =
        if contextFits x.dev.dcbaa x.heap then
          ({ x with cmd := x.cmd.stage q } : Xhci).ready.published.bare
        else (x.cmd.stage q).bare := by
  obtain ⟨kept, nonempty⟩ := stage_staged x.cmd q
  have count : ¬ (q.trbs.length : Int) < 0 := by omega
  have spec := submit_spec ctl (x := { x with cmd := x.cmd.stage q }) enable (kept ▸ ring) nonempty
    ⟨q.data, user, q.dataLen, q.directionIn⟩
  rw [placeContext_placed] at spec
  simp only [stageAndSubmit, prepare_of_ring ring, if_neg count]
  exact spec

/-- A controller that answers each look with a completion in the next entry of
the first lap. -/
def prompt : Controller where
  events n trbs i := if i = n then ⟨0, 0, 0, (0x21 : UInt32) <<< 10 ||| 1⟩ else trbs i
  memory _ ram := ram

end Xhci

end MyOS
