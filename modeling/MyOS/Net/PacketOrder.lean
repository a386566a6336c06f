import MyOS.Base.Parking
import MyOS.Net.ArpCache
import MyOS.Net.RoundTrip

/-!
# Packets in the order of their submission

Submissions are numbered, and `Watch` follows which of them waits in which slot
and which have gone out. A slot that became free is given to the next packet,
whatever waits behind it, and the flush takes the slots in their own order.
-/

namespace MyOS.PacketOrder

open ArpCache Parking Pending Runs

structure Watch where
  kernel : Kernel
  subs : List IpSend
  lot : Lot 8 UInt32

def Watch.start (k : Kernel) : Watch := ⟨k, [], .empty⟩

/-- The sender of a valid ARP frame. -/
def arpSender : NetEvent → Option UInt32
  | .send .. => none
  | .rx frame len =>
    match (netRxDemux frame len).val with
    | [.arp spa _] => some spa
    | _ => none

def freeSlot (n : Net) : Option (Fin 8) := Slots.first n.pending fun p => p.dstIp == 0

def resolved (n : Net) (dstIp : UInt32) : Bool := (arpLookup n (nextHop n.netif dstIp)).isSome

/-- The packet of a resolved next hop goes out at once, any other waits in the
free slot. -/
def watch (w : Watch) (e : NetEvent) : Watch :=
  match e with
  | .send dstIp proto payload =>
    { kernel := netStep w.kernel e
      subs := w.subs ++ [⟨dstIp, proto, payload⟩]
      lot := if resolved w.kernel.net dstIp then w.lot.pass dstIp
        else match freeSlot w.kernel.net with
          | some i => w.lot.park i dstIp
          | none => { w.lot with count := w.lot.count + 1 } }
  | .rx .. =>
    { w with
      kernel := netStep w.kernel e
      lot := match arpSender e with
        | some spa => w.lot.release spa
        | none => w.lot }

/-! ## What is said of a run -/

/-- Packets for the subnet that fit into a frame, each finding the address or a
slot, and ARP frames from the subnet. -/
def Local (w : Watch) : NetEvent → Prop
  | .send dstIp _ payload =>
    nextHop w.kernel.net.netif dstIp = dstIp ∧ payload.length ≤ 1480 ∧
      (resolved w.kernel.net dstIp = true ∨ (freeSlot w.kernel.net).isSome = true)
  | .rx frame len =>
    ∃ spa sha, ArpFrom frame len spa sha ∧ nextHop w.kernel.net.netif spa = spa

/-- What waits for the sender of an ARP frame stands in the slots in the order
of submission. 0, which marks a free slot, is no destination to wait for. -/
def Lined (w : Watch) : NetEvent → Prop
  | .send dstIp _ _ => dstIp = 0 → resolved w.kernel.net dstIp = true
  | .rx frame len => ∀ spa sha, ArpFrom frame len spa sha → w.lot.Lined spa

/-- The packet `p` is in slot `i`. -/
def InSlot (n : Net) (i : Fin 8) (p : IpSend) : Prop :=
  p.dstIp ≠ 0 ∧ n.pending i = ⟨p.dstIp, p.proto, p.payload⟩

/-- No submission has gone out twice, each that has not waits in a slot for its
address, and those for one destination have gone out in their order. -/
structure Delivered (w : Watch) : Prop where
  once : (w.lot.gone.map Prod.fst).Nodup
  waits : ∀ q p, w.subs[q]? = some p → (∃ a ∈ w.lot.gone, a.1 = q) ∨
    ∃ i, InSlot w.kernel.net i p ∧ arpLookup w.kernel.net p.dstIp = none
  inOrder : w.lot.InOrder

def isIp (frame : List UInt8) : Bool := etherType (.ofList frame) == 0x0800

/-- `f` is what `net_send_ip` makes of submission `a` now. -/
def Direct (w : Watch) (a : Nat × UInt32) (f : List UInt8) : Prop :=
  ∃ p, w.subs[a.1]? = some p ∧ p.dstIp = a.2 ∧
    (netSendIp w.kernel.net p.dstIp p.proto p.payload).tx = w.kernel.net.tx ++ [f]

/-- The IP frames of a step are those of the submissions that go out in it, each
as a direct send would produce it. -/
def SentDirect (w : Watch) (e : NetEvent) : Prop :=
  List.Forall₂ (Direct (watch w e)) ((watch w e).lot.gone.drop w.lot.gone.length)
    (((watch w e).kernel.net.tx.drop w.kernel.net.tx.length).filter isIp)

/-! ## The invariant -/

/-- Slot `i` holds the packet of submission `a`, whose address is not known. -/
structure Held (n : Net) (subs : List IpSend) (i : Fin 8) (a : Nat × UInt32) : Prop where
  packet : ∃ p, subs[a.1]? = some p ∧ p.dstIp = a.2 ∧ InSlot n i p
  unknown : arpLookup n a.2 = none
  onSubnet : nextHop n.netif a.2 = a.2

structure Inv (w : Watch) : Prop where
  kept : w.lot.Kept
  ahead : w.lot.Ahead
  inOrder : w.lot.InOrder
  counted : w.lot.count = w.subs.length
  free : ∀ i, w.lot.slots i = none → (w.kernel.net.pending i).dstIp = 0
  held : ∀ i a, w.lot.slots i = some a → Held w.kernel.net w.subs i a

theorem Held.dst {n : Net} {subs : List IpSend} {i : Fin 8} {a : Nat × UInt32}
    (h : Held n subs i a) : (n.pending i).dstIp = a.2 ∧ a.2 ≠ 0 := by
  obtain ⟨p, -, same, nonzero, here⟩ := h.packet
  rw [here, ← same]
  exact ⟨rfl, nonzero⟩

/-- A submission that comes later changes nothing of what is held. -/
theorem Held.later {n n' : Net} {subs : List IpSend} {i : Fin 8} {a : Nat × UInt32}
    (h : Held n subs i a) (more : List IpSend) (netif : n'.netif = n.netif)
    (slot : n'.pending i = n.pending i) (unknown : arpLookup n' a.2 = none) :
    Held n' (subs ++ more) i a := by
  obtain ⟨⟨p, found, same, nonzero, here⟩, -, onSubnet⟩ := h
  refine ⟨⟨p, ?_, same, nonzero, slot.trans here⟩, unknown, ?_⟩
  · rw [List.getElem?_append_left (List.getElem?_eq_some_iff.mp found).1]
    exact found
  · rw [netif]
    exact onSubnet

theorem Inv.slot_free {w : Watch} (inv : Inv w) {i : Fin 8}
    (zero : (w.kernel.net.pending i).dstIp = 0) : w.lot.slots i = none := by
  cases here : w.lot.slots i with
  | none => rfl
  | some a =>
    obtain ⟨dst, nonzero⟩ := (inv.held i a here).dst
    exact absurd (dst.symm.trans zero) nonzero

theorem Inv.delivered {w : Watch} (inv : Inv w) : Delivered w := by
  constructor
  · exact inv.kept.once
  · intro q p found
    have issued : q < w.lot.count := by
      rw [inv.counted]
      exact (List.getElem?_eq_some_iff.mp found).1
    rcases inv.kept.all q issued with gone | ⟨i, a, here, rfl⟩
    · exact .inl gone
    · obtain ⟨⟨p', found', same, inSlot⟩, unknown, -⟩ := inv.held i a here
      have packet : p = p' := Option.some.inj (found.symm.trans found')
      subst packet
      rw [← same] at unknown
      exact .inr ⟨i, inSlot, unknown⟩
  · exact inv.inOrder

theorem inv_start {k : Kernel} (empty : ∀ i, (k.net.pending i).dstIp = 0) : Inv (.start k) := by
  constructor
  · exact Lot.kept_empty
  · intro a mem
    cases mem
  · exact List.Pairwise.nil
  · rfl
  · intro i _
    exact empty i
  · intro i a here
    cases here

/-! ## Sending -/

theorem isIp_ipFrame (netif : NetIf) (mac : MacAddr) (dstIp : UInt32) (proto : UInt8)
    (payload : List UInt8) : isIp (ipFrame netif mac dstIp proto payload) = true := by
  have holds : (Mem.ofList (ipFrame netif mac dstIp proto payload)).Holds 0
      (ipFrame netif mac dstIp proto payload) := by
    simpa using Mem.holds_ofList (ipFrame netif mac dstIp proto payload) []
  exact beq_iff_eq.mpr (RoundTrip.ipFrame_fields holds).type

theorem sendArpRequest_tx (n : Net) (targetIp : UInt32) :
    ∃ frame, (sendArpRequest n targetIp).tx = n.tx ++ [frame] ∧ isIp frame = false := by
  refine ⟨_, rfl, ?_⟩
  have type (rest : List UInt8) : etherType (.ofList ((bcast.toList ++ n.netif.mac.toList ++
      bytes16 (htons 0x0806)) ++ rest)) = 0x0806 := by
    have holds := Mem.holds_ofList (bcast.toList ++ n.netif.mac.toList ++ bytes16 (htons 0x0806))
      rest
    simp only [Mem.holds_append, List.length_append, Vector.length_toList, Nat.reduceAdd] at holds
    have typed : Mem.load16 _ 12 = htons 0x0806 := load16_bytes16 holds.2
    rw [etherType, typed, ntohs_htons]
  simp only [isIp, List.append_assoc] at type ⊢
  rw [type]
  rfl

theorem resolved_iff {n : Net} {dstIp : UInt32} :
    resolved n dstIp = true ↔ ∃ mac, arpLookup n (nextHop n.netif dstIp) = some mac :=
  Option.isSome_iff_exists

theorem direct_known {w : Watch} {a : Nat × UInt32} {p : IpSend} {mac : MacAddr}
    (found : w.subs[a.1]? = some p) (same : p.dstIp = a.2)
    (known : arpLookup w.kernel.net (nextHop w.kernel.net.netif p.dstIp) = some mac) :
    Direct w a (ipFrame w.kernel.net.netif mac p.dstIp p.proto p.payload) := by
  refine ⟨p, found, same, ?_⟩
  rw [netSendIp_resolved _ _ known, nicTx_tx]

section
variable {w : Watch} {dstIp : UInt32} {proto : UInt8} {payload : List UInt8}

theorem watch_resolved {mac : MacAddr}
    (known : arpLookup w.kernel.net (nextHop w.kernel.net.netif dstIp) = some mac) :
    watch w (.send dstIp proto payload) =
      { kernel := { w.kernel with
          net := nicTx w.kernel.net (ipFrame w.kernel.net.netif mac dstIp proto payload) }
        subs := w.subs ++ [⟨dstIp, proto, payload⟩]
        lot := w.lot.pass dstIp } := by
  simp only [watch, if_pos (resolved_iff.mpr ⟨mac, known⟩), netStep,
    netSendIp_resolved proto payload known]

theorem inv_resolved (inv : Inv w) (onSubnet : nextHop w.kernel.net.netif dstIp = dstIp)
    (known : resolved w.kernel.net dstIp = true) : Inv (watch w (.send dstIp proto payload)) := by
  obtain ⟨mac, found⟩ := resolved_iff.mp known
  rw [watch_resolved found]
  rw [onSubnet] at found
  constructor
  · exact inv.kept.pass dstIp
  · apply inv.ahead.pass
    rintro i a here rfl
    rw [(inv.held i a here).unknown] at found
    cases found
  · exact inv.inOrder.pass inv.kept dstIp
  · rw [List.length_append, ← inv.counted]
    rfl
  · exact inv.free
  · intro i a here
    have before := inv.held i a here
    exact before.later _ rfl rfl before.unknown

theorem sentDirect_resolved (known : resolved w.kernel.net dstIp = true)
    (inv : Inv w) : SentDirect w (.send dstIp proto payload) := by
  obtain ⟨mac, found⟩ := resolved_iff.mp known
  rw [SentDirect, watch_resolved found]
  have gone : (w.lot.pass dstIp).gone.drop w.lot.gone.length = [(w.lot.count, dstIp)] :=
    List.drop_left' rfl
  have frame : isIp (ipFrame w.kernel.net.netif mac dstIp proto payload) = true := isIp_ipFrame ..
  dsimp only
  rw [gone, nicTx_tx, List.drop_left' rfl, List.filter_cons_of_pos frame]
  apply List.Forall₂.cons _ .nil
  refine direct_known (p := ⟨dstIp, proto, payload⟩) ?_ rfl found
  rw [inv.counted]
  exact List.getElem?_concat_length

theorem watch_queued {i : Fin 8} (unknown : resolved w.kernel.net dstIp = false)
    (slot : freeSlot w.kernel.net = some i) (short : payload.length ≤ 1480) :
    watch w (.send dstIp proto payload) =
      { kernel := { w.kernel with
          net := sendArpRequest { w.kernel.net with
            pending := Function.update w.kernel.net.pending i ⟨dstIp, proto, payload⟩ }
              (nextHop w.kernel.net.netif dstIp) }
        subs := w.subs ++ [⟨dstIp, proto, payload⟩]
        lot := w.lot.park i dstIp } := by
  have missing : arpLookup w.kernel.net (nextHop w.kernel.net.netif dstIp) = none :=
    Option.isSome_eq_false_iff.mp unknown |> Option.isNone_iff_eq_none.mp
  have whole : payload.take 1500 = payload := List.take_of_length_le (by omega)
  have queued := netSendIp_queued proto payload missing slot
  rw [whole] at queued
  simp only [watch, unknown, Bool.false_eq_true, if_false, slot, netStep, queued]

theorem inv_queued {i : Fin 8} (inv : Inv w) (onSubnet : nextHop w.kernel.net.netif dstIp = dstIp)
    (nonzero : dstIp ≠ 0) (unknown : resolved w.kernel.net dstIp = false)
    (slot : freeSlot w.kernel.net = some i) (short : payload.length ≤ 1480) :
    Inv (watch w (.send dstIp proto payload)) := by
  rw [watch_queued unknown slot short]
  have zero : (w.kernel.net.pending i).dstIp = 0 := by simpa using Slots.first_holds slot
  have missing : arpLookup w.kernel.net dstIp = none := by
    rw [resolved, onSubnet] at unknown
    exact Option.isNone_iff_eq_none.mp (Option.isSome_eq_false_iff.mp unknown)
  constructor
  · exact inv.kept.park (inv.slot_free zero) dstIp
  · exact inv.ahead.park inv.kept i dstIp
  · exact inv.inOrder
  · rw [List.length_append, ← inv.counted]
    rfl
  · intro j vacant
    rw [Lot.park_slots] at vacant
    by_cases here : j = i
    · subst here
      rw [Function.update_self] at vacant
      cases vacant
    · rw [Function.update_of_ne here] at vacant
      have other : Function.update w.kernel.net.pending i ⟨dstIp, proto, payload⟩ j =
          w.kernel.net.pending j := Function.update_of_ne here ..
      exact (congrArg PendingPkt.dstIp other).trans (inv.free j vacant)
  · intro j a taken
    rw [Lot.park_slots] at taken
    by_cases here : j = i
    · subst here
      rw [Function.update_self] at taken
      rw [← Option.some.inj taken]
      refine ⟨⟨⟨dstIp, proto, payload⟩, ?_, rfl, nonzero, Function.update_self ..⟩, missing,
        onSubnet⟩
      dsimp only
      rw [inv.counted]
      exact List.getElem?_concat_length
    · rw [Function.update_of_ne here] at taken
      have before := inv.held j a taken
      exact before.later _ rfl (Function.update_of_ne here ..) before.unknown

/-- Nothing but the ARP request goes out. -/
theorem sentDirect_queued {i : Fin 8} (unknown : resolved w.kernel.net dstIp = false)
    (slot : freeSlot w.kernel.net = some i) (short : payload.length ≤ 1480) :
    SentDirect w (.send dstIp proto payload) := by
  rw [SentDirect, watch_queued unknown slot short]
  have gone : (w.lot.park i dstIp).gone.drop w.lot.gone.length = [] := List.drop_length
  obtain ⟨frame, sent, notIp⟩ := sendArpRequest_tx { w.kernel.net with
    pending := Function.update w.kernel.net.pending i ⟨dstIp, proto, payload⟩ }
      (nextHop w.kernel.net.netif dstIp)
  dsimp only
  rw [gone, sent, List.drop_left' rfl, List.filter_cons_of_neg (by simp [notIp])]
  exact .nil

end

/-! ## Learning -/

section
variable {w : Watch} {frame : Mem} {len : Int} {spa : UInt32} {sha : MacAddr}

theorem arpLookup_arpStore_of_ne {n : Net} {ip : UInt32} (other : ip ≠ spa)
    (unknown : arpLookup n ip = none) : arpLookup (arpStore n spa sha) ip = none := by
  have absent (i : Fin 8) : (n.arpCache i).ip ≠ ip := by
    have none := Slots.first_eq_none.mp (Option.map_eq_none_iff.mp unknown) i
    simpa using none
  apply Option.map_eq_none_iff.mpr
  apply Slots.first_eq_none.mpr
  intro j
  apply beq_eq_false_iff_ne.mpr
  unfold arpStore
  split
  · rename_i i found
    by_cases here : j = i
    · subst here
      simpa using absent j
    · simpa [here] using absent j
  · by_cases here : j = Slots.claim n.arpCache fun e => e.ip == 0
    · simp [here, other.symm]
    · simpa [here] using absent j

theorem arpLookup_flush (n : Net) (ip : UInt32) (a : UInt32) :
    arpLookup (flushPendingForIp n a) ip = arpLookup n ip := by
  rw [arpLookup, arpLookup, flushPendingForIp_arpCache]

theorem watch_arp (arp : ArpFrom frame len spa sha) : watch w (.rx frame len) =
    { w with kernel := netStep w.kernel (.rx frame len), lot := w.lot.release spa } := by
  have sender : arpSender (.rx frame len) = some spa := by
    unfold arpSender
    dsimp only
    rw [arp.demux]
  unfold watch
  dsimp only
  rw [sender]

/-- What the frame does to the network layer. -/
structure Learned (n : Net) (spa : UInt32) (sha : MacAddr) (n' : Net) : Prop where
  netif : n'.netif = n.netif
  known : arpLookup n' spa = some sha
  unknown : ∀ ip, ip ≠ spa → arpLookup n ip = none → arpLookup n' ip = none
  pending : ∀ i, n'.pending i = cleared spa (n.pending i)
  tx : n'.tx = n.tx ++
    ((List.finRange 8).filter fun i => (n.pending i).dstIp = spa).map (slotFrame n sha)

theorem netStep_learned (k : Kernel) (arp : ArpFrom frame len spa sha)
    (direct : nextHop k.net.netif spa = spa) :
    Learned k.net spa sha (netStep k (.rx frame len)).net := by
  have learns : Learns spa sha (.rx frame len) := arp.demux
  obtain ⟨pending, tx⟩ := net_learns learns direct
  have lookup (ip : UInt32) : arpLookup (netStep k (.rx frame len)).net ip =
      arpLookup (arpStore k.net spa sha) ip := by
    rw [netStep_learns learns]
    dsimp only
    rw [arpLookup_flush]
  constructor
  · exact netif_learns learns
  · rw [lookup, arpLookup_arpStore]
  · intro ip other unknown
    rw [lookup, arpLookup_arpStore_of_ne other unknown]
  · exact pending
  · exact tx

theorem cleared_of_ne {p : PendingPkt} (other : p.dstIp ≠ spa) : cleared spa p = p := if_neg other

theorem inv_arp (inv : Inv w) (arp : ArpFrom frame len spa sha)
    (direct : nextHop w.kernel.net.netif spa = spa) (lined : w.lot.Lined spa) :
    Inv (watch w (.rx frame len)) := by
  have learned := netStep_learned w.kernel arp direct
  rw [watch_arp arp]
  generalize netStep w.kernel (.rx frame len) = k' at learned
  constructor
  · exact inv.kept.release spa
  · exact inv.ahead.release spa
  · exact (Lot.inOrder_release inv.inOrder inv.ahead spa).mpr lined
  · exact inv.counted
  · intro i vacant
    rw [learned.pending i]
    cases here : w.lot.slots i with
    | none =>
      have zero := inv.free i here
      rw [cleared_of_ne (by rw [zero]; exact arp.nonzero.symm)]
      exact zero
    | some a =>
      have mine : a.2 = spa := by
        by_contra other
        have stays := Lot.release_slots.mpr ⟨here, other⟩
        rw [vacant] at stays
        cases stays
      rw [cleared, if_pos ((inv.held i a here).dst.1.trans mine)]
  · intro i a here
    obtain ⟨before, other⟩ := Lot.release_slots.mp here
    have held := inv.held i a before
    have slot : k'.net.pending i = w.kernel.net.pending i := by
      rw [learned.pending i, cleared_of_ne]
      rw [held.dst.1]
      exact other
    have after := held.later [] learned.netif slot (learned.unknown a.2 other held.unknown)
    rwa [List.append_nil] at after

theorem sentDirect_arp (inv : Inv w) (arp : ArpFrom frame len spa sha)
    (direct : nextHop w.kernel.net.netif spa = spa) : SentDirect w (.rx frame len) := by
  have learned := netStep_learned w.kernel arp direct
  rw [SentDirect, watch_arp arp]
  generalize netStep w.kernel (.rx frame len) = k' at learned
  have gone : (w.lot.release spa).gone.drop w.lot.gone.length = w.lot.waiting spa :=
    List.drop_left' rfl
  dsimp only
  rw [gone, learned.tx, List.drop_left' rfl, List.filter_eq_self.mpr]
  · apply Lot.waiting_forall₂
    · intro i
      rw [decide_eq_true_eq]
      constructor
      · intro mine
        cases here : w.lot.slots i with
        | none =>
          have zero := inv.free i here
          exact absurd (mine.symm.trans zero) arp.nonzero
        | some a => exact ⟨a, rfl, (inv.held i a here).dst.1.symm.trans mine⟩
      · rintro ⟨a, here, same⟩
        exact (inv.held i a here).dst.1.trans same
    · rintro i a here rfl
      obtain ⟨⟨p, found, same, -, inSlot⟩, -, onSubnet⟩ := inv.held i a here
      have known : arpLookup k'.net (nextHop k'.net.netif p.dstIp) = some sha := by
        rw [learned.netif, same, onSubnet]
        exact learned.known
      rw [slotFrame, inSlot, ← learned.netif]
      exact direct_known found same known
  · intro f mem
    obtain ⟨i, -, rfl⟩ := List.mem_map.mp mem
    exact isIp_ipFrame ..

end

/-! ## Runs -/

theorem unresolved_slot {w : Watch} {dstIp : UInt32}
    (place : resolved w.kernel.net dstIp = true ∨ (freeSlot w.kernel.net).isSome = true)
    (unknown : resolved w.kernel.net dstIp = false) : ∃ i, freeSlot w.kernel.net = some i := by
  rcases place with known | vacant
  · rw [unknown] at known
    cases known
  · exact Option.isSome_iff_exists.mp vacant

theorem inv_watch {w : Watch} {e : NetEvent} (inv : Inv w) (onNet : Local w e)
    (lined : Lined w e) : Inv (watch w e) := by
  cases e with
  | send dstIp proto payload =>
    obtain ⟨onSubnet, short, place⟩ := onNet
    cases known : resolved w.kernel.net dstIp with
    | true => exact inv_resolved inv onSubnet known
    | false =>
      obtain ⟨i, slot⟩ := unresolved_slot place known
      have nonzero : dstIp ≠ 0 := by
        intro zero
        have found := lined zero
        rw [known] at found
        cases found
      exact inv_queued inv onSubnet nonzero known slot short
  | rx frame len =>
    obtain ⟨spa, sha, arp, direct⟩ := onNet
    exact inv_arp inv arp direct (lined spa sha arp)

theorem watch_sentDirect {w : Watch} {e : NetEvent} (inv : Inv w) (onNet : Local w e) :
    SentDirect w e := by
  cases e with
  | send dstIp proto payload =>
    obtain ⟨-, short, place⟩ := onNet
    cases known : resolved w.kernel.net dstIp with
    | true => exact sentDirect_resolved known inv
    | false =>
      obtain ⟨i, slot⟩ := unresolved_slot place known
      exact sentDirect_queued known slot short
  | rx frame len =>
    obtain ⟨spa, sha, arp, direct⟩ := onNet
    exact sentDirect_arp inv arp direct

/-- A step that is not lined up loses a packet or sends two in the wrong order. -/
theorem unlined_breaks {w : Watch} {e : NetEvent} (inv : Inv w) (onNet : Local w e)
    (unlined : ¬ Lined w e) : ¬ Delivered (watch w e) := by
  intro delivered
  cases e with
  | send dstIp proto payload =>
    obtain ⟨-, short, place⟩ := onNet
    obtain ⟨zero, unknown⟩ := Classical.not_imp.mp unlined
    rw [Bool.not_eq_true] at unknown
    obtain ⟨i, slot⟩ := unresolved_slot place unknown
    rw [watch_queued unknown slot short] at delivered
    have last : (w.subs ++ [⟨dstIp, proto, payload⟩])[w.subs.length]? =
        some ⟨dstIp, proto, payload⟩ := List.getElem?_concat_length
    rcases delivered.waits _ _ last with ⟨a, gone, number⟩ | ⟨j, ⟨nonzero, -⟩, -⟩
    · have issued := inv.kept.issued a gone
      rw [number, inv.counted] at issued
      exact lt_irrefl _ issued
    · exact nonzero zero
  | rx frame len =>
    obtain ⟨spa, sha, arp, -⟩ := onNet
    apply unlined
    intro spa' sha' arp'
    have same : spa' = spa := arp'.sender.symm.trans arp.sender
    subst same
    have ordered := delivered.inOrder
    rw [watch_arp arp'] at ordered
    exact (Lot.inOrder_release inv.inOrder inv.ahead spa').mp ordered

/-- In a run of such sends and ARP frames every packet goes out once, as a direct
send would produce it and in its order, if and only if each ARP frame finds what
waits for its sender lined up in the slots. -/
theorem delivered_iff (k : Kernel) (es : List NetEvent)
    (empty : ∀ i, (k.net.pending i).dstIp = 0) (onNet : Steps watch Local (.start k) es) :
    (Along watch Delivered (.start k) es ∧ Steps watch SentDirect (.start k) es) ↔
      Steps watch Lined (.start k) es := by
  have start := inv_start empty
  have exact_order : Along watch Delivered (.start k) es ↔ Steps watch Lined (.start k) es :=
    along_iff_steps_under (fun _ _ => inv_watch) (fun _ => Inv.delivered)
      (fun _ _ => unlined_breaks) start onNet
  constructor
  · rintro ⟨delivered, -⟩
    exact exact_order.mp delivered
  · intro lined
    refine ⟨exact_order.mpr lined, ?_⟩
    exact steps_of_steps (E := fun _ => True)
      (fun w e _ inv both => inv_watch inv both.1 both.2)
      (fun w e _ inv both => watch_sentDirect inv both.1) (fun _ _ => trivial) start
      (steps_and onNet lined)

/-! ## Two hosts -/

def hostA : UInt32 := 0x0A000202
def hostB : UInt32 := 0x0A000203

def reply (host : UInt32) : NetEvent :=
  .rx (.ofList (arpReply host (Vector.replicate 6 0x35))) 42

/-- Two packets wait for A, and A answers. -/
theorem delivered_iff_one_host :
    Along watch Delivered (.start configured)
      [.send hostA 17 [1], .send hostA 17 [2], reply hostA] := by
  have arp : ArpFrom (.ofList (arpReply hostA (Vector.replicate 6 0x35))) 42 hostA
      (Vector.replicate 6 0x35) := arpFrom_of_mem (by decide +kernel)
  have onNet : Steps watch Local (.start configured)
      [.send hostA 17 [1], .send hostA 17 [2], reply hostA] :=
    ⟨⟨by decide +kernel, by decide, by decide +kernel⟩,
      ⟨by decide +kernel, by decide, by decide +kernel⟩, ⟨_, _, arp, by decide +kernel⟩, trivial⟩
  have lined : Steps watch Lined (.start configured)
      [.send hostA 17 [1], .send hostA 17 [2], reply hostA] := by
    have some : hostA ≠ 0 := by decide
    refine ⟨fun zero => absurd zero some, fun zero => absurd zero some, ?_, trivial⟩
    intro spa sha arp'
    rw [← arp'.sender, arp.sender]
    decide +kernel
  exact ((delivered_iff configured _ (fun _ => rfl) onNet).mpr lined).1

/-- Packets for A, B and again B. The third takes the slot that A's left free,
and B's answer sends it before the second. -/
def overtaking : List NetEvent :=
  [.send hostA 17 [1], .send hostB 17 [2], reply hostA, .send hostB 17 [3], reply hostB]

theorem overtaking_reorders : Steps watch Local (.start configured) overtaking ∧
    ((overtaking.foldl netStep configured).net.tx.filter isIp).map (List.drop 34) =
      [[1], [3], [2]] ∧
    ¬ Along watch Delivered (.start configured) overtaking := by
  refine ⟨?_, by decide +kernel, ?_⟩
  · have arpA : ArpFrom (.ofList (arpReply hostA (Vector.replicate 6 0x35))) 42 hostA
        (Vector.replicate 6 0x35) := arpFrom_of_mem (by decide +kernel)
    have arpB : ArpFrom (.ofList (arpReply hostB (Vector.replicate 6 0x35))) 42 hostB
        (Vector.replicate 6 0x35) := arpFrom_of_mem (by decide +kernel)
    exact ⟨⟨by decide +kernel, by decide, by decide +kernel⟩,
      ⟨by decide +kernel, by decide, by decide +kernel⟩, ⟨_, _, arpA, by decide +kernel⟩,
      ⟨by decide +kernel, by decide, by decide +kernel⟩, ⟨_, _, arpB, by decide +kernel⟩, trivial⟩
  · intro delivered
    have ordered := (along_last delivered).inOrder
    have gone : (overtaking.foldl watch (.start configured)).lot.gone =
        [(0, hostA), (2, hostB), (1, hostB)] := by decide +kernel
    rw [Lot.InOrder, gone] at ordered
    exact absurd ordered (by decide)

end MyOS.PacketOrder
