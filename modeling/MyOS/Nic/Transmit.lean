import MyOS.Base.Circular
import MyOS.Base.Runs
import MyOS.Nic.E1000

/-!
# Frames from `nic_tx` to the card

The card sends the descriptors from TDH up to but not including TDT, at its own
pace. `nic_tx` moves TDT on without asking where TDH is: sixteen frames ahead
of the card the two are equal again, and the ring counts as empty.
-/

namespace MyOS.Transmit

open Circular E1000 Runs

/-- A frame with the number it was given to `nic_tx` under, counted from 0. -/
abbrev Numbered := List UInt8 × Option Nat

/-- The driver and the card. `tdh` is the register `TDH`, `holds` the number of
the frame last written to a descriptor, `accepted` the frames given to a ready
driver and `sent` what the card has sent, oldest first. `rewrote` says that
`nic_tx` has written a descriptor whose frame had not been sent. -/
structure Link where
  tx : Tx
  tdh : Nat
  holds : Nat → Option Nat
  accepted : List (List UInt8)
  sent : List Numbered
  rewrote : Bool

def Link.init (ring : Nat → TxDesc) (bufs : Nat → Mem) : Link :=
  ⟨.init ring bufs, 0, fun _ => none, [], [], false⟩

def Link.numbered (s : Link) : List Numbered := s.accepted.zipIdx.map fun f => (f.1, some f.2)

/-- The frame in the descriptor `i`. -/
def Link.frameAt (s : Link) (i : Nat) : Numbered := (s.tx.frame i, s.holds i)

/-- What the card has still to send: the descriptors from TDH up to TDT. -/
def Link.queued (s : Link) : List Numbered :=
  (List.range ((s.tx.tdt + txDescCount - s.tdh) % txDescCount)).map fun j =>
    s.frameAt ((s.tdh + j) % txDescCount)

/-- The frame in the descriptor `i` has not been sent. -/
def Link.unsent (s : Link) (i : Nat) : Bool :=
  match s.holds i with
  | some n => !s.sent.any fun f => f.2 == some n
  | none => false

inductive Event
  | transmit (data : List UInt8)
  | send

/-- The frames the driver is given fit a buffer. -/
def Event.Fits : Event → Prop
  | .transmit data => data.length ≤ txBufSize
  | .send => True

instance : ∀ e : Event, Decidable e.Fits
  | .transmit _ => inferInstanceAs (Decidable (_ ≤ _))
  | .send => inferInstanceAs (Decidable True)

def step (s : Link) : Event → Link
  | .transmit data =>
    if s.tx.driverReady then
      { s with
        tx := E1000.nicTx s.tx data
        holds := Function.update s.holds s.tx.txTail (some s.accepted.length)
        accepted := s.accepted ++ [data]
        rewrote := s.rewrote || s.unsent s.tx.txTail }
    else { s with tx := E1000.nicTx s.tx data }
  | .send =>
    if s.tdh = s.tx.tdt then s
    else { s with tdh := (s.tdh + 1) % txDescCount, sent := s.sent ++ [s.frameAt s.tdh] }

/-- Every frame accepted has been sent once, with its own bytes and in its
turn, or stands in the queue of the card; none was overwritten before. -/
structure Transmits (s : Link) : Prop where
  each : s.sent ++ s.queued = s.numbered
  kept : s.rewrote = false

instance (s : Link) : Decidable (Transmits s) :=
  decidable_of_iff (s.sent ++ s.queued = s.numbered ∧ s.rewrote = false)
    ⟨fun h => ⟨h.1, h.2⟩, fun h => ⟨h.each, h.kept⟩⟩

/-- `nic_tx` finds a free descriptor: TDT stays behind TDH when it moves on. -/
def Free (s : Link) : Event → Prop
  | .transmit _ => s.tx.driverReady = true → (s.tx.tdt + 1) % txDescCount ≠ s.tdh
  | .send => True

instance (s : Link) : ∀ e, Decidable (Free s e)
  | .transmit _ => inferInstanceAs (Decidable (_ → _ ≠ _))
  | .send => inferInstanceAs (Decidable True)

/-! ## The ring as a window of the accepted frames -/

structure Inv (s : Link) : Prop where
  ready : s.tx.driverReady = true
  behind : s.sent.length ≤ s.accepted.length
  room : s.accepted.length < s.sent.length + 16
  tail : s.tx.txTail = s.accepted.length % 16
  tdt : s.tx.tdt = s.accepted.length % 16
  tdh : s.tdh = s.sent.length % 16
  holds : ∀ i n, s.holds i = some n → n % 16 = i ∧ n < s.accepted.length
  shows : Shows 16 s.frameAt s.sent.length s.accepted.length fun k =>
    (s.accepted.getD k [], some k)
  sent : s.sent = s.numbered.take s.sent.length
  kept : s.rewrote = false

theorem init_inv (ring : Nat → TxDesc) (bufs : Nat → Mem) : Inv (.init ring bufs) where
  ready := rfl
  behind := Nat.le_refl _
  room := by simp [Link.init]
  tail := rfl
  tdt := rfl
  tdh := rfl
  holds := fun i n h => by cases h
  shows := fun _ _ hi => absurd hi (Nat.not_lt_zero _)
  sent := rfl
  kept := rfl

theorem length_numbered (s : Link) : s.numbered.length = s.accepted.length := by
  simp [Link.numbered]

theorem getElem_numbered (s : Link) {k : Nat} (h : k < s.numbered.length) :
    s.numbered[k] = (s.accepted.getD k [], some k) := by
  rw [length_numbered] at h
  simp [Link.numbered, h]

/-- What the card has still to send are the frames accepted and not yet sent. -/
theorem queued_eq {s : Link} (inv : Inv s) : s.queued = s.numbered.drop s.sent.length := by
  have behind := inv.behind
  have room := inv.room
  have count : (s.tx.tdt + txDescCount - s.tdh) % txDescCount =
      s.accepted.length - s.sent.length := by
    rw [inv.tdt, inv.tdh, txDescCount]
    omega
  rw [Link.queued, count]
  apply List.ext_getElem
  · simp [length_numbered]
  · intro j hj _
    simp only [List.length_map, List.length_range] at hj
    rw [List.getElem_map, List.getElem_range, List.getElem_drop, getElem_numbered, inv.tdh]
    rw [txDescCount, Nat.mod_add_mod]
    exact inv.shows _ (by omega) (by omega)

theorem inv_transmits {s : Link} (inv : Inv s) : Transmits s where
  each := by
    rw [queued_eq inv]
    calc s.sent ++ s.numbered.drop s.sent.length
        = s.numbered.take s.sent.length ++ s.numbered.drop s.sent.length := by rw [← inv.sent]
      _ = s.numbered := List.take_append_drop ..
  kept := inv.kept

/-- The card sends the frame whose turn it is. -/
theorem send_inv {s : Link} (inv : Inv s) : Inv (step s .send) := by
  rw [step]
  split
  · exact inv
  · rename_i some
    have behind := inv.behind
    have room := inv.room
    rw [inv.tdh, inv.tdt] at some
    have ahead : s.sent.length < s.accepted.length := by omega
    have here : s.frameAt s.tdh =
        (s.accepted.getD s.sent.length [], Option.some s.sent.length) := by
      rw [inv.tdh]
      exact inv.shows _ (Nat.le_refl _) ahead
    refine ⟨inv.ready, ?_, ?_, inv.tail, inv.tdt, ?_, inv.holds, ?_, ?_, inv.kept⟩
    · simp only [List.length_append, List.length_singleton]; omega
    · simp only [List.length_append, List.length_singleton]; omega
    · simp only [List.length_append, List.length_singleton, txDescCount, inv.tdh]; omega
    · rw [List.length_append]
      exact inv.shows.mono (Nat.le_add_right ..) (Nat.le_refl _)
    · have next : s.numbered.take (s.sent.length + 1) =
          s.numbered.take s.sent.length ++ [s.frameAt s.tdh] := by
        rw [List.take_succ_eq_append_getElem (by rwa [length_numbered]), getElem_numbered, here]
      rw [List.length_append, List.length_singleton]
      change _ = s.numbered.take (s.sent.length + 1)
      rw [next, ← inv.sent]

/-- The descriptor at the tail holds no unsent frame. -/
theorem tail_sent {s : Link} (inv : Inv s) : s.unsent s.tx.txTail = false := by
  have room := inv.room
  unfold Link.unsent
  cases held : s.holds s.tx.txTail with
  | none => rfl
  | some n =>
    obtain ⟨slot, old⟩ := inv.holds _ n held
    rw [inv.tail] at slot
    have before : n < s.sent.length := by omega
    have entry : (s.accepted.getD n [], some n) ∈ s.sent := by
      rw [inv.sent, List.mem_take_iff_getElem]
      exact ⟨n, by rw [length_numbered]; omega, getElem_numbered ..⟩
    simp only [Bool.not_eq_false', List.any_eq_true]
    exact ⟨_, entry, by simp⟩

theorem nicTx_registers {tx : Tx} (ready : tx.driverReady = true) (data : List UInt8) :
    (E1000.nicTx tx data).driverReady = true ∧
    (E1000.nicTx tx data).txTail = (tx.txTail + 1) % txDescCount ∧
    (E1000.nicTx tx data).tdt = (tx.txTail + 1) % txDescCount := by
  simp [E1000.nicTx, ready]

/-- What a call leaves, whether or not a descriptor was free. -/
theorem transmit_eq {s : Link} (inv : Inv s) {data : List UInt8}
    (fits : data.length ≤ txBufSize) :
    let s' := step s (.transmit data)
    s'.tx.driverReady = true ∧ s'.tx.txTail = (s.accepted.length + 1) % 16 ∧
    s'.tx.tdt = (s.accepted.length + 1) % 16 ∧ s'.tdh = s.tdh ∧ s'.sent = s.sent ∧
    s'.accepted = s.accepted ++ [data] ∧ s'.rewrote = false ∧
    s'.holds = Function.update s.holds (s.accepted.length % 16) (some s.accepted.length) ∧
    s'.frameAt = Function.update s.frameAt (s.accepted.length % 16)
      (data, some s.accepted.length) := by
  obtain ⟨ready, tail, tdt⟩ := nicTx_registers inv.ready data
  have idle := tail_sent inv
  have frame := nicTx_frame inv.ready fits
  rw [inv.tail] at tail tdt idle frame
  rw [txDescCount, Nat.mod_add_mod] at tail tdt
  dsimp only
  rw [step, if_pos inv.ready, inv.tail]
  refine ⟨ready, tail, tdt, rfl, rfl, rfl, by simp [inv.kept, idle], rfl, ?_⟩
  funext i
  simp only [Link.frameAt, frame]
  by_cases here : i = s.accepted.length % 16
  · subst here
    simp
  · simp [here, Link.frameAt]

theorem transmit_inv {s : Link} (inv : Inv s) {data : List UInt8}
    (fits : data.length ≤ txBufSize) (free : (s.tx.tdt + 1) % txDescCount ≠ s.tdh) :
    Inv (step s (.transmit data)) := by
  obtain ⟨ready, tail, tdt, tdh, sent, accepted, kept, holds, frames⟩ := transmit_eq inv fits
  generalize step s (.transmit data) = s' at *
  have behind := inv.behind
  have room := inv.room
  rw [inv.tdt, inv.tdh, txDescCount] at free
  have count : s'.accepted.length = s.accepted.length + 1 := by simp [accepted]
  have older (k : Nat) (h : k < s.accepted.length) :
      s'.accepted.getD k [] = s.accepted.getD k [] := by
    rw [accepted, List.getD_eq_getElem?_getD, List.getElem?_append_left h,
      List.getD_eq_getElem?_getD]
  have newest : s'.accepted.getD s.accepted.length [] = data := by
    rw [accepted]
    simp
  refine ⟨ready, by rw [sent]; omega, by rw [sent]; omega, by rw [tail, count], by rw [tdt, count],
    by rw [tdh, sent, inv.tdh], ?_, ?_, ?_, kept⟩
  · intro i n held
    rw [holds] at held
    by_cases here : i = s.accepted.length % 16
    · subst here
      rw [Function.update_self] at held
      cases held
      exact ⟨rfl, by omega⟩
    · rw [Function.update_of_ne here] at held
      obtain ⟨slot, old⟩ := inv.holds i n held
      exact ⟨slot, by omega⟩
  · rw [frames, sent, count]
    refine Shows.write ?_ (by omega) _ (by rw [newest])
    exact inv.shows.congr fun k _ hk => by rw [older k hk]
  · have grown : s'.numbered = s.numbered ++ [(data, some s.accepted.length)] := by
      rw [Link.numbered, accepted, List.zipIdx_append, Nat.zero_add]
      simp [Link.numbered]
    rw [sent, grown, List.take_append_of_le_length (by rw [length_numbered]; exact behind)]
    exact inv.sent

/-- Without a free descriptor TDT moves on to TDH: the whole ring is lost to
the card. -/
theorem full_loses (s : Link) (e : Event) (fits : e.Fits) (inv : Inv s) (full : ¬ Free s e) :
    ¬ Transmits (step s e) := by
  cases e with
  | send => exact absurd trivial full
  | transmit data =>
    simp only [Free, Classical.not_imp, not_not] at full
    have meets := full.2
    obtain ⟨-, -, tdt, tdh, sent, accepted, -⟩ := transmit_eq inv fits
    rw [inv.tdt, txDescCount, Nat.mod_add_mod] at meets
    intro transmits
    have count := congrArg List.length transmits.each
    have nothing : (step s (.transmit data)).queued = [] := by
      rw [Link.queued, tdt, tdh, meets, txDescCount, Nat.add_sub_cancel_left]
      rfl
    rw [nothing, length_numbered, accepted, sent] at count
    simp only [List.append_nil, List.length_append, List.length_singleton] at count
    have behind := inv.behind
    omega

theorem step_inv (s : Link) (e : Event) (fits : e.Fits) (inv : Inv s) (free : Free s e) :
    Inv (step s e) := by
  cases e with
  | transmit data => exact transmit_inv inv fits (free inv.ready)
  | send => exact send_inv inv

/-- In every run each accepted frame is sent once with its own bytes, and none
is overwritten before, if and only if every call of `nic_tx` finds a free
descriptor. -/
theorem transmits_along_iff (ring : Nat → TxDesc) (bufs : Nat → Mem) (es : List Event)
    (fits : ∀ e ∈ es, e.Fits) :
    Along step Transmits (.init ring bufs) es ↔ Steps step Free (.init ring bufs) es :=
  along_iff_steps step_inv (fun _ inv => inv_transmits inv) full_loses fits (init_inv ring bufs)

/-- Two frames, the first of which is sent before the second is given. -/
theorem transmits_two :
    Along step Transmits (.init (fun _ => ⟨0, 0, 0⟩) fun _ _ => 0)
      [.transmit [1, 2], .send, .transmit [3], .send] :=
  (transmits_along_iff _ _ _ (by decide)).mpr (by decide)

/-- Sixteen frames before the card sends the first. -/
theorem sixteen_frames_lost :
    ¬ Along step Transmits (.init (fun _ => ⟨0, 0, 0⟩) fun _ _ => 0)
      (List.replicate 16 (.transmit [7])) := by
  decide +kernel

end MyOS.Transmit
