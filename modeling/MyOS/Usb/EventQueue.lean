import Mathlib.Data.List.GetD
import MyOS.Base.Runs
import MyOS.Usb.Xhci

/-!
# The event ring as a queue

The controller writes events round the ring with the cycle bit of their lap. A
consumed entry is zeroed, which has the cycle bit expected on every other lap:
there it is the type field that tells an event from an empty entry.
-/

namespace MyOS.EventQueue

open Circular Runs

/-- What the controller reports: a TRB with a type. -/
structure Event where
  trb : Trb
  typed : trb.type ≠ 0

/-- The driver and the controller, which keeps its enqueue index and cycle
state to itself. `written` and `consumed` are the events, oldest first. -/
structure Link where
  x : Xhci
  enqueue : Nat
  cycleState : Bool
  written : List Trb
  consumed : List Trb

def Link.init (x : Xhci) : Link := ⟨x, 0, true, [], []⟩

inductive Step
  | write (ev : Event)
  | poll
  | wait
  /-- What every submission does before it polls. -/
  | initEventRing

def Link.take (s : Link) (r : Xhci × Option Trb) : Link :=
  { s with x := r.1, consumed := s.consumed ++ r.2.toList }

/-- The controller does not write over the entry the driver will read next. -/
def step (s : Link) : Step → Link
  | .write ev =>
    if s.consumed.length + eventRingTrbs ≤ s.written.length then s
    else
      let trb := ev.trb.withCycle s.cycleState
      { s with
        x := { s.x with er := { s.x.er with
          trbs := Function.update s.x.er.trbs s.enqueue trb } }
        enqueue := next eventRingTrbs s.enqueue
        cycleState := if eventRingTrbs ≤ s.enqueue + 1 then !s.cycleState else s.cycleState
        written := s.written ++ [trb] }
  | .poll => s.take s.x.pollStep
  | .wait => s.take s.x.waitStep
  | .initEventRing => { s with x := s.x.xhciInitEventRing.1 }

/-- The events consumed are those written first, each once and in order; either
consumer takes the next one as soon as it is there. -/
structure Faithful (s : Link) : Prop where
  inOrder : s.consumed <+: s.written
  polls : s.x.pollStep.2 = s.written[s.consumed.length]?
  waits : s.x.waitStep.2 = s.written[s.consumed.length]?
  index : s.x.er.dequeueIdx < eventRingTrbs

structure Inv (s : Link) : Prop where
  opened : s.x.er.buffer ≠ 0
  behind : s.consumed.length ≤ s.written.length
  room : s.written.length ≤ s.consumed.length + 256
  enqueue : s.enqueue = s.written.length % 256
  cycleState : s.cycleState = lapBit 256 s.written.length
  dequeue : s.x.er.dequeueIdx = s.consumed.length % 256
  expected : s.x.er.expectedCycle = lapBit 256 s.consumed.length
  marked : ∀ k (h : k < s.written.length),
    s.written[k].d ≠ 0 ∧ s.written[k].cycle = lapBit 256 k
  shows : Shows 256 s.x.er.trbs s.consumed.length (s.consumed.length + 256)
    fun k => s.written.getD k .zero
  taken : s.consumed = s.written.take s.consumed.length

/-! ## What the driver finds at the dequeue position -/

section
variable {s : Link} (inv : Inv s)
include inv

theorem entry_eq : s.x.er.entry = s.written.getD s.consumed.length .zero := by
  have shown := inv.shows s.consumed.length (Nat.le_refl _) (by omega)
  rw [EventRing.entry, inv.dequeue]
  exact shown

/-- The cycle bit and the nonzero test together tell whether an event is there. -/
theorem valid_iff : s.x.er.valid = true ↔ s.consumed.length < s.written.length := by
  constructor
  · intro valid
    by_contra none
    have zero : s.x.er.entry = .zero := by
      rw [entry_eq inv, List.getD_eq_default _ _ (Nat.le_of_not_lt none)]
    rw [EventRing.valid, zero] at valid
    cases valid
  · intro more
    obtain ⟨nonzero, cycle⟩ := inv.marked _ more
    have here : s.x.er.entry = s.written[s.consumed.length] := by
      rw [entry_eq inv, List.getD_eq_getElem _ _ more]
    simp [EventRing.valid, here, nonzero, cycle, inv.expected]

theorem pollStep_event : s.x.pollStep.2 = s.written[s.consumed.length]? := by
  by_cases more : s.consumed.length < s.written.length
  · have valid := (valid_iff inv).mpr more
    rw [Xhci.pollStep, if_pos valid, List.getElem?_eq_getElem more]
    rw [entry_eq inv, List.getD_eq_getElem _ _ more]
  · have invalid := fun valid => more ((valid_iff inv).mp valid)
    rw [Xhci.pollStep, if_neg invalid, List.getElem?_eq_none (Nat.le_of_not_lt more)]

theorem faithful : Faithful s where
  inOrder := by
    rw [inv.taken]
    exact List.take_prefix _ _
  polls := pollStep_event inv
  waits := by rw [Xhci.waitStep_event, pollStep_event inv]
  index := by
    rw [inv.dequeue]
    exact Nat.mod_lt _ (by decide)

end

/-! ## One step -/

theorem write_inv {s : Link} (inv : Inv s) (ev : Event) : Inv (step s (.write ev)) := by
  simp only [step]
  split
  · exact inv
  · rename_i space
    have space : s.written.length < s.consumed.length + 256 := Nat.lt_of_not_le space
    have behind := inv.behind
    generalize same : ev.trb.withCycle s.cycleState = trb
    have length : (s.written ++ [trb]).length = s.written.length + 1 := by simp
    refine
      { opened := inv.opened, behind := ?_, room := ?_, enqueue := ?_, cycleState := ?_
        dequeue := inv.dequeue, expected := inv.expected, marked := ?_, shows := ?_, taken := ?_ }
    · rw [length]
      exact Nat.le_succ_of_le behind
    · rw [length]
      exact space
    · rw [length, inv.enqueue]
      exact next_slot (by decide) _
    · rw [length, lapBit_succ (by decide), inv.enqueue, inv.cycleState]
      rfl
    · intro k h
      by_cases last : k = s.written.length
      · subst last
        have typed : trb.type ≠ 0 := by
          rw [← same, Trb.withCycle_type]
          exact ev.typed
        have cycle : trb.cycle = lapBit 256 s.written.length := by
          rw [← same, Trb.withCycle_cycle, inv.cycleState]
        rw [List.getElem_concat_length rfl]
        exact ⟨Trb.nonzero_of_type typed, cycle⟩
      · simp only [length] at h
        have inside : k < s.written.length := by omega
        rw [List.getElem_append_left inside]
        exact inv.marked k inside
    · have set := inv.shows.set (Nat.le_refl _) behind space trb
      rw [inv.enqueue]
      refine set.congr fun k lo hi => ?_
      by_cases last : k = s.written.length
      · subst last
        simp
      · rw [Function.update_of_ne last]
        rcases Nat.lt_or_gt_of_ne last with before | after
        · rw [List.getD_append _ _ _ _ before]
        · have past : (s.written ++ [trb]).length ≤ k := by
            rw [length]
            exact after
          rw [List.getD_eq_default _ _ (Nat.le_of_lt after), List.getD_eq_default _ _ past]
    · rw [List.take_append_of_le_length behind]
      exact inv.taken

/-- Either consumer takes the event at the dequeue position if there is one. -/
theorem take_inv {s : Link} (inv : Inv s) {r : Xhci × Option Trb}
    (er : r.1.er = s.x.pollStep.1.er) (event : r.2 = s.x.pollStep.2) : Inv (s.take r) := by
  by_cases more : s.consumed.length < s.written.length
  · have valid := (valid_iff inv).mpr more
    have er' : r.1.er = s.x.er.consume := by rw [er, Xhci.pollStep, if_pos valid]
    have event' : r.2 = some s.written[s.consumed.length] := by
      rw [event, pollStep_event inv, List.getElem?_eq_getElem more]
    have length : (s.consumed ++ r.2.toList).length = s.consumed.length + 1 := by
      rw [event']
      simp
    have room := inv.room
    refine
      { opened := ?_, behind := ?_, room := ?_, enqueue := inv.enqueue
        cycleState := inv.cycleState, dequeue := ?_, expected := ?_, marked := inv.marked
        shows := ?_, taken := ?_ } <;> simp only [Link.take, length, er']
    · exact inv.opened
    · exact more
    · omega
    · rw [EventRing.consume, inv.dequeue]
      exact next_slot (by decide) _
    · rw [lapBit_succ (by decide), EventRing.consume, inv.dequeue, inv.expected]
      rfl
    · have behind : s.written.getD (s.consumed.length + 256) .zero = .zero :=
        List.getD_eq_default _ _ room
      rw [EventRing.consume, inv.dequeue]
      exact inv.shows.rotate .zero behind
    · rw [event', List.take_succ_eq_append_getElem more, ← inv.taken]
      rfl
  · have invalid := fun valid => more ((valid_iff inv).mp valid)
    have er' : r.1.er = s.x.er := by rw [er, Xhci.pollStep, if_neg invalid]
    have event' : r.2 = none := by rw [event, Xhci.pollStep, if_neg invalid]
    have same : s.consumed ++ r.2.toList = s.consumed := by
      rw [event']
      exact List.append_nil _
    refine
      { opened := ?_, behind := ?_, room := ?_, enqueue := inv.enqueue
        cycleState := inv.cycleState, dequeue := ?_, expected := ?_, marked := inv.marked
        shows := ?_, taken := ?_ } <;> simp only [Link.take, same, er']
    · exact inv.opened
    · exact inv.behind
    · exact inv.room
    · exact inv.dequeue
    · exact inv.expected
    · exact inv.shows
    · exact inv.taken

theorem step_inv (s : Link) (e : Step) (inv : Inv s) : Inv (step s e) := by
  cases e with
  | write ev => exact write_inv inv ev
  | poll => exact take_inv inv rfl rfl
  | wait => exact take_inv inv s.x.waitStep_er s.x.waitStep_event
  | initEventRing =>
    have same : s.x.xhciInitEventRing.1 = s.x := by rw [Xhci.xhciInitEventRing, if_pos inv.opened]
    simp only [step, same]
    exact inv

/-! ## Whole runs -/

/-- A fresh event ring is empty, and at the start of its first lap. -/
theorem init_ring {x : Xhci} (fresh : x.er.buffer = 0) (ready : x.xhciInitEventRing.2 = 0) :
    x.xhciInitEventRing.1.er.buffer ≠ 0 ∧ x.xhciInitEventRing.1.er.dequeueIdx = 0 ∧
      x.xhciInitEventRing.1.er.expectedCycle = true ∧
      ∀ i < 256, x.xhciInitEventRing.1.er.trbs i = .zero := by
  simp only [Xhci.xhciInitEventRing, fresh, ne_eq, not_true_eq_false, if_false] at ready ⊢
  split
  · rename_i failed
    rw [if_pos failed] at ready
    cases ready
  · rename_i buffer
    rw [if_neg buffer] at ready
    split
    · rename_i failed
      rw [if_pos failed] at ready
      cases ready
    · exact ⟨buffer, rfl, rfl, fun i hi => if_pos hi⟩

theorem init_inv {x : Xhci} (fresh : x.er.buffer = 0) (ready : x.xhciInitEventRing.2 = 0) :
    Inv (.init x.xhciInitEventRing.1) := by
  obtain ⟨opened, dequeue, expected, zeroed⟩ := init_ring fresh ready
  exact
    { opened, behind := Nat.le_refl _, room := Nat.zero_le _, enqueue := rfl
      cycleState := by simp [Link.init, lapBit]
      dequeue
      expected := by simpa [Link.init, lapBit] using expected
      marked := fun k h => absurd h (Nat.not_lt_zero k)
      shows := fun k _ _ => zeroed _ (Nat.mod_lt k (by decide))
      taken := rfl }

theorem events_once_in_order {x : Xhci} (fresh : x.er.buffer = 0)
    (ready : x.xhciInitEventRing.2 = 0) (es : List Step) :
    Along step Faithful (.init x.xhciInitEventRing.1) es :=
  along_mono (along_keep step_inv (init_inv fresh ready)) fun _ inv => faithful inv

/-- Two events are there before the driver looks. -/
theorem events_once_in_order_two :
    Along step Faithful (.init Xhci.boot.xhciInitEventRing.1)
      [.write ⟨⟨0x01300000, 0, 0, (0x21 : UInt32) <<< 10⟩, by decide⟩,
        .write ⟨⟨0x01300010, 0, 0, (0x20 : UInt32) <<< 10⟩, by decide⟩,
        .poll, .initEventRing, .wait, .poll] :=
  events_once_in_order rfl (by decide) _

end MyOS.EventQueue
