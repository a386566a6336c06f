import Mathlib.Data.List.Induction
import MyOS.Base.KeyedTable
import MyOS.Net.Pending
import MyOS.Tcp.Sends

/-!
# What the ARP cache knows

Each address stands in at most one entry, with what its own last ARP frame said.
-/

namespace MyOS.ArpCache

open KeyedTable Pending Traced

def live (e : ArpCacheEntry) : Bool := e.ip != 0

def vacant (e : ArpCacheEntry) : Bool := e.ip == 0

/-- A valid ARP frame of the station `sha` with the nonzero address `spa`. -/
structure ArpFrom (frame : Mem) (len : Int) (spa : UInt32) (sha : MacAddr) : Prop where
  long : 42 ≤ len
  type : etherType frame = 0x0806
  htype : ntohs (frame.load16 14) = 1
  ptype : ntohs (frame.load16 16) = 0x0800
  hlen : frame 18 = 6
  plen : frame 19 = 4
  sender : ntohl (frame.load32 28) = spa
  nonzero : spa ≠ 0
  hardware : macAt frame 22 = sha

def Announces (ip : UInt32) (mac : MacAddr) : NetEvent → Prop
  | .send .. => False
  | .rx frame len => ArpFrom frame len ip mac

/-- Of the frames from `ip` the last one came from `mac`. -/
def MostRecent (es : List NetEvent) (ip : UInt32) (mac : MacAddr) : Prop :=
  ∃ before e after, es = before ++ e :: after ∧ Announces ip mac e ∧
    ∀ f ∈ after, ∀ other, ¬ Announces ip other f

/-! ## From a frame to `arp_store` -/

section
variable {frame : Mem} {len : Int} {spa : UInt32} {sha : MacAddr}

theorem ArpFrom.demux (h : ArpFrom frame len spa sha) :
    (netRxDemux frame len).val = [.arp spa sha] := by
  obtain ⟨long, type, htype, ptype, hlen, plen, rfl, nonzero, rfl⟩ := h
  have arp : (arpDemux frame len).val = [.arp (ntohl (frame.load32 28)) (macAt frame 22)] := by
    simp only [arpDemux, val_ite, val_bind, val_pure]
    rw [if_neg (by omega), if_neg (by exact not_not.mpr htype), if_neg (by exact not_not.mpr ptype),
      if_neg (by exact not_not.mpr hlen), if_neg (by exact not_not.mpr plen),
      if_neg (by exact nonzero)]
    rfl
  simp only [netRxDemux, val_ite, val_bind, val_pure]
  rw [if_neg (by omega), if_pos (by exact type), arp]

theorem arpFrom_of_mem (found : .arp spa sha ∈ (netRxDemux frame len).val) :
    ArpFrom frame len spa sha := by
  have ip : .arp spa sha ∉ (ipDemux frame len).val := by
    intro found
    obtain ⟨-, r, none, -⟩ := ipDemux_range found
    cases none
  simp only [netRxDemux, val_ite, val_bind, val_pure] at found
  split at found
  · cases found
  split at found
  · rename_i type
    simp only [arpDemux, val_ite, val_bind, val_pure] at found
    repeat' split at found
    all_goals simp only [List.not_mem_nil, List.mem_singleton, Handoff.arp.injEq] at found
    rename_i long htype ptype hlen plen nonzero
    obtain ⟨rfl, rfl⟩ := found
    exact ⟨by omega, type, not_not.mp htype, not_not.mp ptype, not_not.mp hlen, not_not.mp plen,
      rfl, nonzero, rfl⟩
  split at found
  · exact absurd found ip
  · cases found

end

theorem deliver_arpCache (frame : Mem) (k : Kernel) (h : Handoff)
    (other : ∀ spa sha, h ≠ .arp spa sha) :
    (deliver frame k h).net.arpCache = k.net.arpCache := by
  cases h with
  | arp spa sha => exact absurd rfl (other spa sha)
  | dnsOnResponse => rfl
  | udpOnDatagram => rfl
  | tcpOnRx srcIp dstIp start length =>
    have emits := tcpOnRx_emits k (frame.advance start) length srcIp dstIp
    rw [deliver, emits.net, Net.sendAll_arpCache]

theorem foldl_deliver_arpCache (frame : Mem) (hs : List Handoff)
    (other : ∀ h ∈ hs, ∀ spa sha, h ≠ .arp spa sha) (k : Kernel) :
    (hs.foldl (deliver frame) k).net.arpCache = k.net.arpCache := by
  induction hs generalizing k with
  | nil => rfl
  | cons h hs ih =>
    have here := deliver_arpCache frame k h (other h (by simp))
    exact (ih (fun h mem => other h (by simp [mem])) _).trans here

theorem flushPendingForIp_arpCache (n : Net) (ip : UInt32) :
    (flushPendingForIp n ip).arpCache = n.arpCache := by
  have slot (n : Net) (i : Fin 8) : (flushSlot ip n i).arpCache = n.arpCache := by
    unfold flushSlot
    split
    · exact netSendIp_arpCache ..
    · rfl
  unfold flushPendingForIp
  induction List.finRange 8 generalizing n with
  | nil => rfl
  | cons i is ih => exact (ih _).trans (slot n i)

theorem arpStore_arpCache {ip : UInt32} (nonzero : ip ≠ 0) (n : Net) (mac : MacAddr) :
    (arpStore n ip mac).arpCache = store live ArpCacheEntry.ip vacant n.arpCache ⟨ip, mac⟩ := by
  have same : find live ArpCacheEntry.ip n.arpCache ip =
      Slots.first n.arpCache fun e => e.ip == ip := by
    unfold find
    congr 1
    funext e
    by_cases here : e.ip = ip
    · simp [live, here, nonzero]
    · simp [here]
  unfold arpStore store slotFor
  rw [same]
  cases found : Slots.first n.arpCache fun e => e.ip == ip with
  | none => rfl
  | some i =>
    have hit : (n.arpCache i).ip = ip := by simpa using Slots.first_holds found
    rw [← hit]
    rfl

/-- What one event makes of the cache. -/
def CacheStep (n : Net) (e : NetEvent) (n' : Net) : Prop :=
  (∃ ip mac, ip ≠ 0 ∧ Announces ip mac e ∧
    n'.arpCache = store live ArpCacheEntry.ip vacant n.arpCache ⟨ip, mac⟩) ∨
  (∀ ip mac, ¬ Announces ip mac e) ∧ n'.arpCache = n.arpCache

theorem netStep_cacheStep (k : Kernel) (e : NetEvent) : CacheStep k.net e (netStep k e).net := by
  cases e with
  | send => exact .inr ⟨fun _ _ => id, netSendIp_arpCache ..⟩
  | rx frame len =>
    by_cases valid : ∃ ip mac, ArpFrom frame len ip mac
    · obtain ⟨ip, mac, from_ip⟩ := valid
      refine .inl ⟨ip, mac, from_ip.nonzero, from_ip, ?_⟩
      rw [netStep, netRx, from_ip.demux, List.foldl_cons, List.foldl_nil, deliver,
        flushPendingForIp_arpCache, arpStore_arpCache from_ip.nonzero]
    · refine .inr ⟨fun ip mac from_ip => valid ⟨ip, mac, from_ip⟩, ?_⟩
      apply foldl_deliver_arpCache
      rintro h mem spa sha rfl
      exact valid ⟨spa, sha, arpFrom_of_mem mem⟩

/-- A frame has one sender. -/
theorem Announces.unique {ip ip' : UInt32} {mac mac' : MacAddr} {e : NetEvent}
    (h : Announces ip mac e) (h' : Announces ip' mac' e) : ip = ip' ∧ mac = mac' := by
  cases e with
  | send => exact h.elim
  | rx frame len =>
    exact ⟨h.sender.symm.trans h'.sender, h.hardware.symm.trans h'.hardware⟩

/-! ## Runs -/

def Distinct (n : Net) : Prop := Apart live ArpCacheEntry.ip n.arpCache

/-- The address learned for `ip` is the last one announced. -/
def Recent (n : Net) (es : List NetEvent) : Prop :=
  ∀ ip mac, ip ≠ 0 → arpLookup n ip = some mac → MostRecent es ip mac

theorem arpLookup_eq {ip : UInt32} (nonzero : ip ≠ 0) (n : Net) :
    arpLookup n ip = (find live ArpCacheEntry.ip n.arpCache ip).map fun i =>
      (n.arpCache i).mac := by
  unfold arpLookup find
  congr 2
  funext e
  by_cases here : e.ip = ip
  · simp [live, here, nonzero]
  · simp [here]

theorem live_of_ne {ip : UInt32} (nonzero : ip ≠ 0) (mac : MacAddr) :
    live ⟨ip, mac⟩ = true := by simpa [live] using nonzero

theorem MostRecent.later {es : List NetEvent} {ip : UInt32} {mac : MacAddr}
    (h : MostRecent es ip mac) {e : NetEvent} (silent : ∀ other, ¬ Announces ip other e) :
    MostRecent (es ++ [e]) ip mac := by
  obtain ⟨before, f, after, rfl, announced, last⟩ := h
  refine ⟨before, f, after ++ [e], by simp, announced, ?_⟩
  intro g mem
  rcases List.mem_append.mp mem with old | new
  · exact last g old
  · rw [List.mem_singleton.mp new]
    exact silent

section
variable {n n' : Net} {e : NetEvent}

theorem CacheStep.distinct (step : CacheStep n e n') (distinct : Distinct n) : Distinct n' := by
  unfold Distinct
  rcases step with ⟨ip, mac, -, -, cache⟩ | ⟨-, cache⟩
  · rw [cache]
    exact Apart.store distinct
  · rw [cache]
    exact distinct

theorem CacheStep.recent {es : List NetEvent} (step : CacheStep n e n') (distinct : Distinct n)
    (recent : Recent n es) : Recent n' (es ++ [e]) := by
  intro ip mac nonzero found
  rw [arpLookup_eq nonzero] at found
  rcases step with ⟨spa, sha, live_spa, announced, cache⟩ | ⟨silent, cache⟩
  · rw [cache] at found
    by_cases same : spa = ip
    · subst same
      obtain ⟨l, at_l, rfl⟩ := Option.map_eq_some_iff.mp found
      have stored : (find live ArpCacheEntry.ip
          (store live ArpCacheEntry.ip vacant n.arpCache ⟨spa, sha⟩) spa).map
          (store live ArpCacheEntry.ip vacant n.arpCache ⟨spa, sha⟩) = some ⟨spa, sha⟩ :=
        Apart.find_store distinct (live_of_ne live_spa sha)
      rw [at_l, Option.map_some, Option.some.injEq] at stored
      rw [stored]
      exact ⟨es, e, [], rfl, announced, fun _ mem => absurd mem (List.not_mem_nil)⟩
    · obtain ⟨l, at_l, rfl⟩ := Option.map_eq_some_iff.mp found
      have other : (ArpCacheEntry.mk spa sha).ip ≠ ip := same
      obtain ⟨before, kept⟩ := Apart.find_store_of_ne distinct other at_l
      rw [kept]
      apply MostRecent.later
      · apply recent ip _ nonzero
        rw [arpLookup_eq nonzero, before, Option.map_some]
      · intro other also
        exact same (announced.unique also).1
  · rw [cache, ← arpLookup_eq nonzero] at found
    exact (recent ip mac nonzero found).later (silent ip)

/-- An address is lost from entry 0 alone, to a new one, with all entries in use. -/
def LostFromFirst (n : Net) (e : NetEvent) (n' : Net) : Prop :=
  ∀ ip, ip ≠ 0 → (arpLookup n ip).isSome → arpLookup n' ip = none →
    (n.arpCache Slots.victim).ip = ip ∧ (∀ i, (n.arpCache i).ip ≠ 0) ∧
      ∃ new mac, Announces new mac e ∧ arpLookup n new = none

theorem CacheStep.lost (step : CacheStep n e n') (distinct : Distinct n) :
    LostFromFirst n e n' := by
  intro ip nonzero known lost
  rw [arpLookup_eq nonzero] at known lost
  obtain ⟨l, before⟩ := Option.isSome_iff_exists.mp (Option.isSome_map ▸ known)
  rcases step with ⟨spa, sha, live_spa, announced, cache⟩ | ⟨-, cache⟩
  · have dead (e : ArpCacheEntry) (free : vacant e = true) : live e = false := by
      simpa [live, vacant] using free
    rw [cache, Option.map_eq_none_iff] at lost
    obtain ⟨rfl, full, unknown⟩ := Apart.lost_store distinct dead
      (live_of_ne live_spa sha) before lost
    refine ⟨(find_holds before).2, fun i => by simpa [vacant] using full i, spa, sha, announced, ?_⟩
    rw [arpLookup_eq live_spa, unknown, Option.map_none]
  · rw [cache, before] at lost
    cases lost

end

/-- After `net_init`, whatever frames arrive: what the cache says about a
nonzero address is what its last ARP frame said, no address stands in two
entries, and none is lost but from entry 0. -/
theorem cache_recent_distinct {k : Kernel} {n : Net} {mac : MacAddr}
    (init : k.net.arpCache = (netInit n mac).arpCache) (es : List NetEvent) :
    Recent (es.foldl netStep k).net es ∧ Distinct (es.foldl netStep k).net ∧
      ∀ e, LostFromFirst (es.foldl netStep k).net e (netStep (es.foldl netStep k) e).net := by
  have inv : Recent (es.foldl netStep k).net es ∧ Distinct (es.foldl netStep k).net := by
    induction es using List.reverseRecOn with
    | nil =>
      have empty (i : Fin 8) : (k.net.arpCache i).ip = 0 := by rw [init, netInit]
      constructor
      · intro ip mac nonzero found
        obtain ⟨i, first, -⟩ := Option.map_eq_some_iff.mp found
        have hit : (k.net.arpCache i).ip = ip := by simpa using Slots.first_holds first
        exact absurd (hit.symm.trans (empty i)) nonzero
      · intro i j alive
        simp [live, empty i] at alive
    | append_singleton es e ih =>
      rw [List.foldl_append]
      have step := netStep_cacheStep (es.foldl netStep k) e
      exact ⟨step.recent ih.2 ih.1, step.distinct ih.2⟩
  exact ⟨inv.1, inv.2, fun e => (netStep_cacheStep _ e).lost inv.2⟩

/-- The gateway is known by what it said last. -/
theorem cache_recent_distinct_gateway :
    MostRecent [.rx (.ofList (arpReply 0x0A000202 (Vector.replicate 6 0x35))) 42,
      .rx (.ofList (arpReply 0x0A000202 (Vector.replicate 6 0x36))) 42] 0x0A000202
      (Vector.replicate 6 0x36) := by
  have init : configured.net.arpCache = (netInit .boot (Vector.replicate 6 0x52)).arpCache := rfl
  exact (cache_recent_distinct init _).1 _ _ (by decide) (by decide +kernel)

end MyOS.ArpCache
