import MyOS.Base.Circular
import MyOS.Base.Runs
import MyOS.Nic.E1000

/-!
# Frames from the card to `net_rx`

The card fills descriptors round the ring, from its head up to but not
including RDT. `rtl8139_poll` empties them in the order of their indices, which
is another order as soon as a batch runs over the end of the ring.
-/

namespace MyOS.Receive

open Circular E1000 Runs

/-- What the card writes for one frame. -/
structure RxFrame where
  bytes : List UInt8
  status : UInt8
  some : bytes ≠ []
  fits : bytes.length ≤ rxBufSize
  done : (status &&& 0x01 != 0) = true

/-- The card fills the descriptor `i` and the buffer behind it. -/
def fill (rx : Rx) (i : Nat) (f : RxFrame) : Rx :=
  { rx with
    rxRing := Function.update rx.rxRing i ⟨f.bytes.length.toUInt16, f.status⟩
    rxBufs := Function.update rx.rxBufs i ((rx.rxBufs i).map fun buf => buf.store 0 f.bytes) }

/-- The driver and the card. `rdh` is the card's head, `holds` the number of the
frame last written to a descriptor, counted from 0 by arrival; `delivered` are
the frames passed to `net_rx` with that number. -/
structure Link where
  rx : Rx
  rdh : Nat
  holds : Nat → Nat
  arrived : List (List UInt8)
  delivered : List (List UInt8 × Nat)

def Link.init (lengths : Nat → UInt16) (bufs : Nat → Mem) : Link :=
  ⟨.init lengths bufs, 0, fun _ => 0, [], []⟩

inductive Event
  | arrive (f : RxFrame)
  | poll

/-- A frame that finds no descriptor does not arrive. -/
def step (s : Link) : Event → Link
  | .arrive f =>
    if s.rdh = s.rx.rdt then s
    else
      { s with
        rx := fill s.rx s.rdh f
        rdh := (s.rdh + 1) % rxDescCount
        holds := Function.update s.holds s.rdh s.arrived.length
        arrived := s.arrived ++ [f.bytes] }
  | .poll =>
    let (rx, made) := rtl8139Poll s.rx
    { s with rx, delivered := s.delivered ++ made.map fun c => (c.frame, s.holds c.desc) }

/-- What was delivered are the frames that arrived first, each once, by their
numbers in the order of arrival. -/
def InOrder (s : Link) : Prop := s.delivered <+: s.arrived.zipIdx

instance (s : Link) : Decidable (InOrder s) := inferInstanceAs (Decidable (_ <+: _))

/-- A poll does not meet filled descriptors at both ends of the ring. -/
def NotAround (s : Link) : Event → Prop
  | .arrive _ => True
  | .poll => ¬ ((s.rx.rxRing (rxDescCount - 1)).done = true ∧ (s.rx.rxRing 0).done = true)

/-! ## The ring as a window of the arrivals -/

/-- The frame waiting in the descriptor `i`, with its number. -/
def Link.waiting (s : Link) (i : Nat) : Option (List UInt8 × Nat) :=
  (s.rx.due i).map fun c => (c.frame, s.holds c.desc)

structure Inv (s : Link) : Prop where
  ready : s.rx.driverReady = true
  bufs : ∀ i, (s.rx.rxBufs i).isSome
  behind : s.delivered.length ≤ s.arrived.length
  room : s.arrived.length < s.delivered.length + 32
  rdh : s.rdh = s.arrived.length % 32
  rdt : s.rx.rdt = (s.delivered.length + 31) % 32
  filled : ∀ i < 32, (s.rx.rxRing i).done = true → (s.waiting i).isSome
  shows : Shows 32 s.waiting s.delivered.length (s.delivered.length + 32)
    fun k => s.arrived.zipIdx[k]?
  inOrder : InOrder s

theorem init_inv (lengths : Nat → UInt16) (bufs : Nat → Mem) : Inv (.init lengths bufs) where
  ready := rfl
  bufs := fun _ => rfl
  behind := Nat.le_refl _
  room := by simp [Link.init]
  rdh := rfl
  rdt := rfl
  filled := fun i _ h => by simp [Link.init, Rx.init, RxDesc.done] at h
  shows := fun k _ _ => by
    simp [Link.init, Link.waiting, Rx.due, Rx.init, RxDesc.done]
  inOrder := List.prefix_rfl

theorem due_desc {rx : Rx} {i : Nat} {c : RxCall} (h : rx.due i = some c) : c.desc = i := by
  unfold Rx.due Rx.call at h
  split at h
  · split at h
    · split at h
      · cases h; rfl
      · cases h
    · cases h
  · cases h

theorem waiting_eq (s : Link) (i : Nat) :
    s.waiting i = (s.rx.due i).map fun c => (c.frame, s.holds i) := by
  unfold Link.waiting
  cases here : s.rx.due i with
  | none => rfl
  | some c => rw [Option.map_some, Option.map_some, due_desc here]

/-- A frame that has been written waits in its descriptor. -/
theorem due_fill {rx : Rx} {i : Nat} (buf : (rx.rxBufs i).isSome) (f : RxFrame) :
    (fill rx i f).due i = some ⟨i, f.bytes⟩ := by
  obtain ⟨m, here⟩ := Option.isSome_iff_exists.mp buf
  have word : f.bytes.length.toUInt16.toNat = f.bytes.length :=
    UInt16.toNat_ofNat_of_lt' (Nat.lt_of_le_of_lt f.fits (by decide))
  have some : 0 < f.bytes.length := List.length_pos_iff.mpr f.some
  have done : (fill rx i f).rxRing i = ⟨f.bytes.length.toUInt16, f.status⟩ :=
    Function.update_self ..
  have written : (fill rx i f).rxBufs i = (rx.rxBufs i).map fun buf => buf.store 0 f.bytes :=
    Function.update_self ..
  rw [Rx.due, Rx.call, done, written, here]
  simp only [RxDesc.done, f.done, word, some, if_true, Option.map_some, Mem.load_store]

theorem due_fill_of_ne {rx : Rx} {i j : Nat} (other : j ≠ i) (f : RxFrame) :
    (fill rx i f).due j = rx.due j := by
  have ring : (fill rx i f).rxRing j = rx.rxRing j := Function.update_of_ne other ..
  have bufs : (fill rx i f).rxBufs j = rx.rxBufs j := Function.update_of_ne other ..
  simp only [Rx.due, Rx.call, ring, bufs]

theorem arrive_inv {s : Link} (inv : Inv s) (f : RxFrame) : Inv (step s (.arrive f)) := by
  rw [step]
  split
  · exact inv
  · rename_i free
    have behind := inv.behind
    have room := inv.room
    rw [inv.rdh, inv.rdt] at free
    have waiting : ({ s with
        rx := fill s.rx s.rdh f
        rdh := (s.rdh + 1) % rxDescCount
        holds := Function.update s.holds s.rdh s.arrived.length
        arrived := s.arrived ++ [f.bytes] } : Link).waiting =
        Function.update s.waiting s.rdh (some (f.bytes, s.arrived.length)) := by
      funext i
      rw [waiting_eq]
      by_cases here : i = s.rdh
      · subst here
        simp [due_fill (inv.bufs _)]
      · simp [due_fill_of_ne here, here, waiting_eq]
    have numbered : (s.arrived ++ [f.bytes]).zipIdx = s.arrived.zipIdx ++
        [(f.bytes, s.arrived.length)] := by
      rw [List.zipIdx_append, Nat.zero_add]
      rfl
    refine ⟨inv.ready, ?_, ?_, ?_, ?_, inv.rdt, ?_, ?_, ?_⟩
    · intro i
      by_cases here : i = s.rdh
      · subst here; simp [fill, inv.bufs]
      · simp [fill, here, inv.bufs]
    · simp only [List.length_append, List.length_singleton]; omega
    · simp only [List.length_append, List.length_singleton]; omega
    · simp only [List.length_append, List.length_singleton, rxDescCount, inv.rdh]; omega
    · intro i below done
      rw [waiting]
      by_cases here : i = s.rdh
      · simp [here]
      · rw [Function.update_of_ne here]
        refine inv.filled i below ?_
        simpa [fill, here] using done
    · rw [waiting, inv.rdh]
      have written := inv.shows.set (Nat.le_refl _) (k := s.arrived.length) (by omega) (by omega)
        (some (f.bytes, s.arrived.length))
      refine written.congr fun k _ _ => ?_
      dsimp only
      rw [numbered, List.getElem?_append, List.length_zipIdx]
      by_cases last : k = s.arrived.length
      · simp [last]
      · rw [Function.update_of_ne last]
        split
        · rfl
        · rw [List.getElem?_eq_none (by simp; omega), List.getElem?_eq_none (by simp; omega)]
    · exact inv.inOrder.trans (numbered ▸ List.prefix_append ..)

/-- A descriptor is filled when the position it stands for has been reached. -/
theorem done_iff {s : Link} (inv : Inv s) {i : Nat} (below : i < 32) :
    (s.rx.rxRing i).done = true ↔
      (if s.delivered.length % 32 ≤ i then s.delivered.length + (i - s.delivered.length % 32)
        else s.delivered.length + 32 + i - s.delivered.length % 32) < s.arrived.length := by
  have reached (k : Nat) : k < s.arrived.length ↔ (s.arrived.zipIdx[k]?).isSome := by simp
  rw [reached, ← inv.shows.at_cell below]
  refine ⟨inv.filled i below, fun waits => ?_⟩
  by_contra idle
  rw [waiting_eq, Rx.due, if_neg idle] at waits
  cases waits

/-- Both ends of the ring are filled exactly when the batch runs over the end. -/
theorem around_iff {s : Link} (inv : Inv s) :
    ((s.rx.rxRing 31).done = true ∧ (s.rx.rxRing 0).done = true) ↔
      32 < s.delivered.length % 32 + (s.arrived.length - s.delivered.length) := by
  have behind := inv.behind
  have room := inv.room
  rw [done_iff inv (by omega), done_iff inv (by omega)]
  split <;> split <;> omega

theorem filterMap_range' {α : Type} (l : List α) (r : Nat) :
    (List.range' r (l.length - r)).filterMap (fun k => l[k]?) = l.drop r := by
  induction n : l.length - r generalizing r with
  | zero =>
    rw [List.drop_eq_nil_of_le (by omega)]
    rfl
  | succ n ih =>
    have here : r < l.length := by omega
    rw [List.range'_succ, List.filterMap_cons, List.getElem?_eq_getElem here, ih (r + 1) (by omega),
      List.drop_eq_getElem_cons here]

theorem step_poll {s : Link} (ready : s.rx.driverReady = true) :
    (step s .poll).delivered = s.delivered ++ (List.range rxDescCount).filterMap s.waiting := by
  rw [step, rtl8139Poll_eq ready]
  dsimp only
  rw [List.map_filterMap]
  rfl

/-- A poll of a batch within one lap delivers everything that has arrived. -/
theorem poll_delivers {s : Link} (inv : Inv s) (fair : NotAround s .poll) :
    (step s .poll).delivered = s.arrived.zipIdx := by
  have lap : s.delivered.length % 32 + (s.arrived.length - s.delivered.length) ≤ 32 :=
    Nat.not_lt.mp fun past => fair ((around_iff inv).mpr past)
  have batch := inv.shows.collect lap fun k hk => by
    rw [List.getElem?_eq_none (by rw [List.length_zipIdx]; exact hk)]
  have rest := filterMap_range' s.arrived.zipIdx s.delivered.length
  rw [List.length_zipIdx] at rest
  have made : (List.range rxDescCount).filterMap s.waiting =
      s.arrived.zipIdx.drop s.delivered.length := batch.trans rest
  have before := List.prefix_iff_eq_take.mp inv.inOrder
  rw [step_poll inv.ready, made]
  calc s.delivered ++ s.arrived.zipIdx.drop s.delivered.length
      = s.arrived.zipIdx.take s.delivered.length ++ s.arrived.zipIdx.drop s.delivered.length := by
        rw [← before]
    _ = s.arrived.zipIdx := List.take_append_drop ..

/-- After such a poll RDT stands at the last descriptor that was filled. -/
theorem lastDone_batch {s : Link} (inv : Inv s) (fair : NotAround s .poll) :
    lastDone s.rx.rxRing s.rx.rdt 32 = (s.arrived.length + 31) % 32 := by
  have behind := inv.behind
  have lap : s.delivered.length % 32 + (s.arrived.length - s.delivered.length) ≤ 32 :=
    Nat.not_lt.mp fun past => fair ((around_iff inv).mpr past)
  by_cases none : s.arrived.length = s.delivered.length
  · rw [lastDone_none fun j hj => ?_, inv.rdt, none]
    rw [← Bool.not_eq_true, done_iff inv hj]
    split <;> omega
  · refine lastDone_eq ?_ (by omega) fun j hi hj => ?_
    · rw [done_iff inv (by omega)]
      split <;> omega
    · rw [← Bool.not_eq_true, done_iff inv hj]
      split <;> omega

theorem poll_inv {s : Link} (inv : Inv s) (fair : NotAround s .poll) : Inv (step s .poll) := by
  have delivers := poll_delivers inv fair
  have rx : (step s .poll).rx = { s.rx with
      rxRing := cleared s.rx.rxRing rxDescCount
      rdt := lastDone s.rx.rxRing s.rx.rdt rxDescCount } := by
    rw [step, rtl8139Poll_eq inv.ready]
  have idle (i : Nat) (below : i < 32) : ((step s .poll).rx.rxRing i).done = false := by
    rw [rx]
    exact cleared_not_done below
  have count : (step s .poll).delivered.length = s.arrived.length := by
    rw [delivers, List.length_zipIdx]
  refine ⟨by rw [rx]; exact inv.ready, by rw [rx]; exact inv.bufs, ?_, ?_, inv.rdh, ?_, ?_, ?_, ?_⟩
  · exact Nat.le_of_eq count
  · rw [count]; exact Nat.lt_add_of_pos_right (by decide)
  · rw [count, rx]
    exact lastDone_batch inv fair
  · intro i below done
    rw [idle i below] at done
    cases done
  · intro k lo _
    rw [count] at lo
    have nothing : s.arrived.zipIdx[k]? = none :=
      List.getElem?_eq_none (by rw [List.length_zipIdx]; exact lo)
    have empty : (step s .poll).waiting (k % 32) = none := by
      rw [waiting_eq, Rx.due, if_neg (by simp [idle (k % 32) (Nat.mod_lt k (by decide))])]
      rfl
    rw [empty]
    exact nothing.symm
  · rw [InOrder, delivers]
    exact List.prefix_rfl

theorem step_inv (s : Link) (e : Event) (inv : Inv s) (fair : NotAround s e) : Inv (step s e) := by
  cases e with
  | arrive f => exact arrive_inv inv f
  | poll => exact poll_inv inv fair

/-- A poll that meets filled descriptors at both ends hands on the frame in
descriptor 0 first, although the batch starts before it. -/
theorem around_out_of_order (s : Link) (e : Event) (inv : Inv s) (around : ¬ NotAround s e) :
    ¬ InOrder (step s e) := by
  cases e with
  | arrive f => exact absurd trivial around
  | poll =>
    have both := not_not.mp around
    have past := (around_iff inv).mp both
    have behind := inv.behind
    have room := inv.room
    have first := inv.shows.at_cell (i := 0) (by decide)
    rw [if_neg (by omega)] at first
    generalize position : s.delivered.length + 32 + 0 - s.delivered.length % 32 = k at first
    have reached : k < s.arrived.zipIdx.length := by rw [List.length_zipIdx]; omega
    intro ordered
    rw [InOrder, step_poll inv.ready] at ordered
    have scan : (List.range rxDescCount).filterMap s.waiting =
        s.arrived.zipIdx[k] :: (List.range' 1 31).filterMap s.waiting := by
      rw [show List.range rxDescCount = 0 :: List.range' 1 31 from rfl, List.filterMap_cons, first,
        List.getElem?_eq_getElem reached]
    rw [scan] at ordered
    have entry := congrArg Prod.snd (ordered.getElem (i := s.delivered.length) (by simp))
    rw [List.getElem_append_right (Nat.le_refl _)] at entry
    simp only [Nat.sub_self, List.getElem_cons_zero, List.getElem_zipIdx, Nat.zero_add] at entry
    omega

/-- In every run the frames are delivered in the order of their arrival, each
once and none left out, if and only if no poll meets filled descriptors at both
ends of the ring. -/
theorem inOrder_along_iff (lengths : Nat → UInt16) (bufs : Nat → Mem) (es : List Event) :
    Along step InOrder (.init lengths bufs) es ↔ Steps step NotAround (.init lengths bufs) es :=
  along_iff_steps (E := fun _ => True) (fun s e _ => step_inv s e) (fun _ inv => inv.inOrder)
    (fun s e _ => around_out_of_order s e) (fun _ _ => trivial) (init_inv lengths bufs)

/-- A frame of one byte. -/
def aFrame (b : UInt8) : RxFrame := ⟨[b], 0x01, by simp, Nat.le_add_left 1 2047, rfl⟩

/-- The next two frames after the first 31 fill descriptors 31 and 0, and come
out the wrong way round. -/
theorem two_frames_swapped :
    ¬ Along step InOrder (.init (fun _ => 0) fun _ _ => 0)
      (List.replicate 31 (.arrive (aFrame 7)) ++
        [.poll, .arrive (aFrame 1), .arrive (aFrame 2), .poll]) := by
  decide +kernel

end MyOS.Receive
