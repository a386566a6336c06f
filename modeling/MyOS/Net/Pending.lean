import Mathlib.Data.List.Basic
import MyOS.Base.Runs
import MyOS.Net.Receive

/-!
# Packets that wait for an address

A packet waits for the address of its next hop. The flush looks for packets
whose destination is the learned address, so it passes over those that wait for
the gateway on behalf of somebody else.
-/

namespace MyOS.Pending

open Runs

/-- The packet in slot `i` waits for `a`. -/
def Waits (n : Net) (a : UInt32) (i : Fin 8) : Prop :=
  (n.pending i).dstIp ≠ 0 ∧ nextHop n.netif (n.pending i).dstIp = a

instance (n : Net) (a : UInt32) (i : Fin 8) : Decidable (Waits n a i) :=
  inferInstanceAs (Decidable (_ ∧ _))

/-- The frame around the packet in slot `i`, addressed to `mac`. -/
def slotFrame (n : Net) (mac : MacAddr) (i : Fin 8) : List UInt8 :=
  ipFrame n.netif mac (n.pending i).dstIp (n.pending i).proto (n.pending i).payload

/-- The frames owed once `mac` is known to be the address of `a`, in slot order. -/
def owed (n : Net) (a : UInt32) (mac : MacAddr) : List (List UInt8) :=
  ((List.finRange 8).filter fun i => Waits n a i).map (slotFrame n mac)

inductive NetEvent
  | send (dstIp : UInt32) (proto : UInt8) (payload : List UInt8)
  | rx (frame : Mem) (len : Int)

def netStep (k : Kernel) : NetEvent → Kernel
  | .send dstIp proto payload => { k with net := netSendIp k.net dstIp proto payload }
  | .rx frame len => netRx k frame len

/-- The event is a valid ARP frame that tells the address of `a`. -/
def Learns (a : UInt32) (mac : MacAddr) : NetEvent → Prop
  | .send .. => False
  | .rx frame len => (netRxDemux frame len).val = [.arp a mac]

instance (a : UInt32) (mac : MacAddr) : ∀ e, Decidable (Learns a mac e)
  | .send .. => inferInstanceAs (Decidable False)
  | .rx .. => inferInstanceAs (Decidable (_ = _))

/-- After a valid ARP frame nothing waits for its sender any more, and all that
did has been sent to the address learned. -/
def Flushes (k : Kernel) (e : NetEvent) : Prop :=
  ∀ a mac, Learns a mac e →
    (∀ i, ¬ Waits (netStep k e).net a i) ∧
    (owed k.net a mac).Sublist ((netStep k e).net.tx.drop k.net.tx.length)

/-- All that waits for the sender of a valid ARP frame is meant for the sender. -/
def OnlyForSender (k : Kernel) (e : NetEvent) : Prop :=
  ∀ a mac, Learns a mac e → ∀ i, Waits k.net a i → (k.net.pending i).dstIp = a

/-- The next hop of a next hop is itself: the gateway is not reached through a
gateway. -/
theorem nextHop_nextHop (netif : NetIf) (dstIp : UInt32) :
    nextHop netif (nextHop netif dstIp) = nextHop netif dstIp := by
  by_cases onSubnet : (dstIp ^^^ netif.ip) &&& netif.netmask = 0
  · simp [nextHop, onSubnet]
  · have gateway : nextHop netif dstIp = netif.gwIp := if_pos onSubnet
    rw [gateway, nextHop]
    split <;> rfl

theorem not_waits_indirect {n : Net} {a : UInt32} (indirect : nextHop n.netif a ≠ a) (i : Fin 8) :
    ¬ Waits n a i := by
  rintro ⟨_, rfl⟩
  exact indirect (nextHop_nextHop ..)

/-- The slot after the flush has dealt with it. -/
def cleared (a : UInt32) (p : PendingPkt) : PendingPkt :=
  if p.dstIp = a then { p with dstIp := 0, payload := [] } else p

/-- With the address known and directly reachable, one turn of the flush loop
sends the packet of its slot if it is meant for `a`, and touches nothing else. -/
theorem flushSlot_known {n : Net} {a : UInt32} {mac : MacAddr} (known : arpLookup n a = some mac)
    (direct : nextHop n.netif a = a) (i : Fin 8) :
    flushSlot a n i = { n with
      pending := Function.update n.pending i (cleared a (n.pending i))
      tx := n.tx ++ if (n.pending i).dstIp = a then [slotFrame n mac i] else [] } := by
  unfold flushSlot cleared
  split
  · rename_i mine
    have sends := netSendIp_resolved (n.pending i).proto (n.pending i).payload
      (show arpLookup n (nextHop n.netif (n.pending i).dstIp) = some mac by
        rw [mine, direct, known])
    rw [sends]
    rfl
  · simp

theorem foldl_flushSlot_known {a : UInt32} {mac : MacAddr} (is : List (Fin 8)) :
    ∀ {n : Net}, arpLookup n a = some mac → nextHop n.netif a = a → is.Nodup →
      is.foldl (flushSlot a) n = { n with
        pending := fun j => if j ∈ is then cleared a (n.pending j) else n.pending j
        tx := n.tx ++ (is.filter fun i => (n.pending i).dstIp = a).map (slotFrame n mac) } := by
  induction is with
  | nil => intro n _ _ _; simp
  | cons i is ih =>
    intro n known direct nodup
    obtain ⟨fresh, rest⟩ := List.nodup_cons.mp nodup
    have turn := flushSlot_known known direct i
    have known' : arpLookup (flushSlot a n i) a = some mac := by rw [turn]; exact known
    have direct' : nextHop (flushSlot a n i).netif a = a := by rw [turn]; exact direct
    rw [List.foldl_cons, ih known' direct' rest, turn]
    have others : ∀ j ∈ is,
        Function.update n.pending i (cleared a (n.pending i)) j = n.pending j := by
      intro j hj
      apply Function.update_of_ne
      rintro rfl
      exact fresh hj
    simp only [Net.mk.injEq, true_and]
    constructor
    · funext j
      by_cases here : j = i
      · subst here
        simp [fresh]
      · simp [here]
    · have same : (is.filter fun j =>
          (Function.update n.pending i (cleared a (n.pending i)) j).dstIp = a) =
          is.filter fun j => (n.pending j).dstIp = a :=
        List.filter_congr fun j hj => by rw [others j hj]
      rw [same, List.append_assoc, List.filter_cons]
      congr 1
      have frames : (is.filter fun j => (n.pending j).dstIp = a).map (slotFrame
          { n with pending := Function.update n.pending i (cleared a (n.pending i))
                   tx := n.tx ++
                     if (n.pending i).dstIp = a then [slotFrame n mac i] else [] } mac) =
          (is.filter fun j => (n.pending j).dstIp = a).map (slotFrame n mac) :=
        List.map_congr_left fun j hj => by
          simp only [slotFrame, others j (List.mem_filter.mp hj).1]
      rw [frames]
      by_cases mine : (n.pending i).dstIp = a <;> simp [mine]

theorem netStep_learns {k : Kernel} {e : NetEvent} {a : UInt32} {mac : MacAddr}
    (learns : Learns a mac e) :
    netStep k e = { k with net := flushPendingForIp (arpStore k.net a mac) a } := by
  cases e with
  | send => exact learns.elim
  | rx frame len =>
    simp only [Learns] at learns
    simp only [netStep, netRx, learns, List.foldl_cons, List.foldl_nil, deliver]

theorem netif_learns {k : Kernel} {e : NetEvent} {a : UInt32} {mac : MacAddr}
    (learns : Learns a mac e) : (netStep k e).net.netif = k.net.netif := by
  rw [netStep_learns learns]
  simp

/-- What the flush leaves of a directly reachable sender's packets, and sends. -/
theorem net_learns {k : Kernel} {e : NetEvent} {a : UInt32} {mac : MacAddr}
    (learns : Learns a mac e) (direct : nextHop k.net.netif a = a) :
    (∀ j, (netStep k e).net.pending j = cleared a (k.net.pending j)) ∧
    (netStep k e).net.tx = k.net.tx ++
      ((List.finRange 8).filter fun i => (k.net.pending i).dstIp = a).map
        (slotFrame k.net mac) := by
  have flush := foldl_flushSlot_known (List.finRange 8) (arpLookup_arpStore k.net a mac)
    (by simpa using direct) (List.nodup_finRange 8)
  have frames : slotFrame (arpStore k.net a mac) mac = slotFrame k.net mac := by
    funext i
    simp [slotFrame]
  rw [netStep_learns learns, flushPendingForIp, flush]
  simp [frames]

theorem waits_learns {k : Kernel} {e : NetEvent} {a : UInt32} {mac : MacAddr}
    (learns : Learns a mac e) (direct : nextHop k.net.netif a = a) (i : Fin 8) :
    Waits (netStep k e).net a i ↔ Waits k.net a i ∧ (k.net.pending i).dstIp ≠ a := by
  rw [Waits, (net_learns learns direct).1, netif_learns learns, cleared]
  split
  · rename_i mine
    simp [mine]
  · rename_i other
    exact ⟨fun waits => ⟨waits, other⟩, fun waits => waits.1⟩

/-- One ARP frame: everything owed goes out and nothing is left waiting, if and
only if all that waits is meant for the sender itself. -/
theorem learn_iff {k : Kernel} {e : NetEvent} {a : UInt32} {mac : MacAddr}
    (learns : Learns a mac e) :
    ((∀ i, ¬ Waits (netStep k e).net a i) ∧
      (owed k.net a mac).Sublist ((netStep k e).net.tx.drop k.net.tx.length)) ↔
    ∀ i, Waits k.net a i → (k.net.pending i).dstIp = a := by
  by_cases direct : nextHop k.net.netif a = a
  · constructor
    · intro ⟨nobody, _⟩ i waits
      by_contra other
      exact nobody i ((waits_learns learns direct i).mpr ⟨waits, other⟩)
    · intro only
      constructor
      · intro i waits
        obtain ⟨before, other⟩ := (waits_learns learns direct i).mp waits
        exact other (only i before)
      · rw [(net_learns learns direct).2, List.drop_left]
        apply List.Sublist.map
        apply List.monotone_filter_right
        intro i waits
        simpa using only i (by simpa using waits)
  · have before (i : Fin 8) := not_waits_indirect direct i
    have after (i : Fin 8) : ¬ Waits (netStep k e).net a i :=
      not_waits_indirect (by rwa [netif_learns learns]) i
    have nothing : owed k.net a mac = [] := by simp [owed, before]
    rw [nothing]
    exact ⟨fun _ i waits => absurd waits (before i), fun _ => ⟨after, List.nil_sublist _⟩⟩

/-- In any run: every valid ARP frame flushes all that waits for its sender if
and only if what waits for it is always meant for it. -/
theorem flushes_iff (k : Kernel) (es : List NetEvent) :
    Steps netStep Flushes k es ↔ Steps netStep OnlyForSender k es := by
  refine steps_congr_of_step (E := fun _ => True) (fun k e _ => ?_) (fun _ _ => trivial)
  exact forall_congr' fun a => forall_congr' fun mac => imp_congr_right learn_iff

/-- 10.0.2.15/24 with the gateway 10.0.2.2, as the kernel is started. -/
def configured : Kernel :=
  { Kernel.boot with
    net := netSetIpv4 (netInit .boot (Vector.replicate 6 0x52)) 0x0A00020F 0xFFFFFF00 0x0A000202 }

/-- An ARP reply from `spa`. -/
def arpReply (spa : UInt32) (sha : MacAddr) : List UInt8 :=
  List.replicate 12 0 ++ bytes16 (htons 0x0806) ++ bytes16 (htons 1) ++ bytes16 (htons 0x0800) ++
    [6, 4] ++ bytes16 (htons 2) ++ sha.toList ++ bytes32 (htonl spa) ++ List.replicate 10 0

/-- A packet for 8.8.8.8 waits for the gateway, and the gateway's answer leaves
it waiting. -/
theorem gateway_packet_kept : ¬ Steps netStep Flushes configured
    [.send 0x08080808 17 [1],
      .rx (.ofList (arpReply 0x0A000202 (Vector.replicate 6 0x35))) 42] := by
  rintro ⟨_, flushes, _⟩
  have learns : Learns 0x0A000202 (Vector.replicate 6 0x35)
      (.rx (.ofList (arpReply 0x0A000202 (Vector.replicate 6 0x35))) 42) := by
    decide +kernel
  exact (flushes _ _ learns).1 0 (by decide +kernel)

end MyOS.Pending
