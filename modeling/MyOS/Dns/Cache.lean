import MyOS.Base.KeyedTable
import MyOS.Base.Runs
import MyOS.Dns.Outstanding

/-!
# The names in the cache

A name is stored once and then keeps its address. It can only be lost from
entry 0, to the answer for another name.
-/

namespace MyOS.NameCache

open KeyedTable Outstanding Runs

def live (e : DnsCacheEntry) : Bool := e.ip != 0

/-- The names of the live entries are pairwise distinct. -/
def Distinct (d : Dns) : Prop := Apart live DnsCacheEntry.name d.cache

/-- A name is as long as `strncpy` makes it. -/
def Short (name : Name) : Prop := name.length ≤ 126

theorem dnsCacheStore_cases {d : Dns} {name : Name} (short : Short name) (ip : UInt32) :
    (∃ i, dnsCached d name = some i) ∧ dnsCacheStore name d ip = d ∨
      dnsCached d name = none ∧ (dnsCacheStore name d ip).cache =
        Function.update d.cache (Slots.claim d.cache fun e => e.ip == 0) ⟨name, ip⟩ := by
  have whole : strncpy name 127 = name := strncpy_fits short
  unfold dnsCacheStore
  cases known : dnsCached d name with
  | some i => exact .inl ⟨⟨i, rfl⟩, rfl⟩
  | none =>
    rw [whole]
    exact .inr ⟨rfl, rfl⟩

theorem dnsCacheStore_distinct {d : Dns} {name : Name} (distinct : Distinct d) (short : Short name)
    (ip : UInt32) : Distinct (dnsCacheStore name d ip) := by
  rcases dnsCacheStore_cases short ip with ⟨-, same⟩ | ⟨unknown, cache⟩
  · rw [same]
    exact distinct
  · unfold Distinct
    rw [cache]
    apply distinct.put
    intro j alive same
    exact absurd same (find_eq_none.mp unknown j alive)

/-- The entry of slot `i` stays, unless it was entry 0 and `name` took its place. -/
def Keeps (d : Dns) (name : Name) (i : Fin 8) (d' : Dns) : Prop :=
  d'.cache i = d.cache i ∨ i = 0 ∧ (d'.cache 0).name = name ∧ (d.cache 0).name ≠ name

theorem dnsCacheStore_keeps {d d' : Dns} {name : Name} {i : Fin 8} (alive : live (d.cache i) = true)
    (keeps : Keeps d name i d') (short : Short name) (ip : UInt32) :
    Keeps d name i (dnsCacheStore name d' ip) := by
  rcases dnsCacheStore_cases (d := d') short ip with ⟨-, same⟩ | ⟨unknown, cache⟩
  · rw [same]
    exact keeps
  · unfold Keeps
    rw [cache]
    rcases keeps with kept | ⟨rfl, taken, other⟩
    · by_cases here : i = Slots.claim d'.cache fun e => e.ip == 0
      · have found : live (d'.cache i) = true := by rw [kept]; exact alive
        have differs : (d'.cache i).name ≠ name := find_eq_none.mp unknown i found
        rcases claim_cases d'.cache fun e => e.ip == 0 with vacant | ⟨first, -⟩
        · rw [← here] at vacant
          simp [live, beq_iff_eq.mp vacant] at found
        · rw [first] at here
          subst here
          rw [kept] at differs
          rw [first, Function.update_self]
          exact .inr ⟨rfl, rfl, differs⟩
      · rw [Function.update_of_ne here]
        exact .inl kept
    · by_cases here : (0 : Fin 8) = Slots.claim d'.cache fun e => e.ip == 0
      · rw [← here, Function.update_self]
        exact .inr ⟨rfl, rfl, other⟩
      · rw [Function.update_of_ne here]
        exact .inr ⟨rfl, taken, other⟩

/-- What one response stores, it stores under one name. -/
theorem foldl_dnsCacheStore {d : Dns} {name : Name} (short : Short name) (ips : List UInt32) :
    (Distinct d → Distinct (ips.foldl (dnsCacheStore name) d)) ∧
      ∀ i, live (d.cache i) = true → Keeps d name i (ips.foldl (dnsCacheStore name) d) := by
  suffices ∀ d', (Distinct d → Distinct d') →
      (∀ i, live (d.cache i) = true → Keeps d name i d') →
      (Distinct d → Distinct (ips.foldl (dnsCacheStore name) d')) ∧
        ∀ i, live (d.cache i) = true → Keeps d name i (ips.foldl (dnsCacheStore name) d') from
    this d id fun i _ => .inl rfl
  induction ips with
  | nil =>
    intro d' distinct keeps
    exact ⟨distinct, keeps⟩
  | cons ip ips ih =>
    intro d' distinct keeps
    apply ih
    · intro before
      exact dnsCacheStore_distinct (distinct before) short ip
    · intro i alive
      exact dnsCacheStore_keeps alive (keeps i alive) short ip

/-! ## Runs -/

def dnsStep (k : Kernel) : DnsEvent → Kernel
  | .query name => (dnsQueryAsync k name).1
  | .response srcIp data len => { k with dns := dnsOnResponse k.dns srcIp data len }

structure Inv (d : Dns) : Prop where
  distinct : Distinct d
  short : ∀ i, Short (d.qtracks i).name

theorem dnsQueryAsync_cache (k : Kernel) (name : Name) :
    (dnsQueryAsync k name).1.dns.cache = k.dns.cache := by
  unfold dnsQueryAsync
  cases dnsGetCached k.dns name with
  | some ip => rfl
  | none =>
    simp only
    cases dnsQueryPacket (k.dns.qidCounter + 1) name <;> rfl

theorem qtrackGetname_short {d : Dns} (inv : Inv d) {id : UInt16} {name : Name}
    (found : qtrackGetname d id = some name) : Short name := by
  obtain ⟨i, -, rfl⟩ := Option.map_eq_some_iff.mp found
  exact inv.short i

theorem dnsOnResponse_cache (d : Dns) (srcIp : UInt32) (data : Mem) (len : Int) :
    (dnsOnResponse d srcIp data len).cache =
      match qtrackGetname d (dnsId data) with
      | some name => ((dnsAnswers data len).addresses.foldl (dnsCacheStore name) d).cache
      | none => d.cache := by
  simp only [dnsOnResponse]
  cases qtrackGetname d (dnsId data) <;> split <;> rfl

/-- A response keeps the names apart, and every entry but for entry 0. -/
theorem dnsOnResponse_keeps {d : Dns} (inv : Inv d) (srcIp : UInt32) (data : Mem) (len : Int) :
    Distinct (dnsOnResponse d srcIp data len) ∧
      ∀ i, live (d.cache i) = true →
        (dnsOnResponse d srcIp data len).cache i = d.cache i ∨
          i = 0 ∧ ((dnsOnResponse d srcIp data len).cache 0).name ≠ (d.cache 0).name := by
  have cache := dnsOnResponse_cache d srcIp data len
  unfold Distinct
  cases found : qtrackGetname d (dnsId data) with
  | none =>
    rw [found] at cache
    rw [cache]
    exact ⟨inv.distinct, fun i _ => .inl rfl⟩
  | some name =>
    rw [found] at cache
    obtain ⟨distinct, keeps⟩ := foldl_dnsCacheStore (d := d) (qtrackGetname_short inv found)
      (dnsAnswers data len).addresses
    rw [cache]
    refine ⟨distinct inv.distinct, ?_⟩
    intro i alive
    rcases keeps i alive with kept | ⟨first, taken, other⟩
    · exact .inl kept
    · exact .inr ⟨first, fun same => other (same.symm.trans taken)⟩

theorem dnsStep_inv (k : Kernel) (e : DnsEvent) (inv : Inv k.dns) : Inv (dnsStep k e).dns := by
  cases e with
  | query name =>
    constructor
    · unfold Distinct
      rw [dnsStep, dnsQueryAsync_cache]
      exact inv.distinct
    · intro i
      rw [dnsStep, dnsQueryAsync_qtracks]
      split
      · by_cases here : i = qtrackSlot k.dns
        · rw [here, Function.update_self]
          exact List.length_take_le 126 name
        · rw [Function.update_of_ne here]
          exact inv.short i
      · exact inv.short i
  | response srcIp data len =>
    constructor
    · exact (dnsOnResponse_keeps inv srcIp data len).1
    · intro i
      rw [dnsStep, dnsOnResponse_qtracks]
      split
      · simp only [qtrackClear]
        split
        · exact Nat.zero_le _
        · exact inv.short i
      · exact inv.short i

/-- Entry 0 holds `name` and is overwritten. -/
def Overwrites (name : Name) (k : Kernel) (e : DnsEvent) : Prop :=
  live (k.dns.cache 0) = true ∧ (k.dns.cache 0).name = name ∧
    (dnsStep k e).dns.cache 0 ≠ k.dns.cache 0

instance (name : Name) (k : Kernel) (e : DnsEvent) : Decidable (Overwrites name k e) :=
  inferInstanceAs (Decidable (_ ∧ _ ∧ _ ≠ _))

theorem dnsStep_keeps {k : Kernel} (inv : Inv k.dns) {e : DnsEvent} {name : Name} {ip : UInt32}
    (cached : dnsGetCached k.dns name = some ip) (whole : ¬ Overwrites name k e) :
    dnsGetCached (dnsStep k e).dns name = some ip := by
  obtain ⟨i, found, rfl⟩ := Option.map_eq_some_iff.mp cached
  have holds : live (k.dns.cache i) = true ∧ (k.dns.cache i).name = name := find_holds found
  obtain ⟨alive, named⟩ := holds
  have kept : (dnsStep k e).dns.cache i = k.dns.cache i := by
    cases e with
    | query m => rw [dnsStep, dnsQueryAsync_cache]
    | response srcIp data len =>
      rcases (dnsOnResponse_keeps inv srcIp data len).2 i alive with kept | ⟨rfl, other⟩
      · exact kept
      · by_contra differs
        exact whole ⟨alive, named, differs⟩
  have still : dnsCached (dnsStep k e).dns name = some i := by
    apply (dnsStep_inv k e inv).distinct.find_iff.mpr
    rw [kept]
    exact ⟨alive, named⟩
  rw [dnsGetCached, still, Option.map_some, kept]

/-- The empty tables meet the invariant, and every call keeps it. -/
theorem foldl_dnsStep_inv {k : Kernel} (empty : k.dns = .boot) (es : List DnsEvent) :
    Inv (es.foldl dnsStep k).dns := by
  have start : Inv k.dns := by
    rw [empty]
    refine ⟨?_, fun i => Nat.zero_le _⟩
    intro i j alive
    cases alive
  exact along_last (along_keep (I := fun k : Kernel => Inv k.dns) dnsStep_inv start)

/-- From the empty tables on, the cached names are always distinct, and a name
that is cached keeps its address as long as entry 0 is not overwritten while it
holds the name. -/
theorem names_distinct_and_kept {k : Kernel} (empty : k.dns = .boot) (es : List DnsEvent) :
    Distinct (es.foldl dnsStep k).dns ∧
      ∀ name ip fs, dnsGetCached (es.foldl dnsStep k).dns name = some ip →
        Steps dnsStep (fun k e => ¬ Overwrites name k e) (es.foldl dnsStep k) fs →
        dnsGetCached (fs.foldl dnsStep (es.foldl dnsStep k)).dns name = some ip := by
  have inv := foldl_dnsStep_inv empty es
  refine ⟨inv.distinct, ?_⟩
  intro name ip fs cached whole
  generalize es.foldl dnsStep k = k at inv cached whole
  induction fs generalizing k with
  | nil => exact cached
  | cons e fs ih =>
    have next := dnsStep_keeps inv cached whole.1
    exact ih (dnsStep k e) (dnsStep_inv k e inv) next whole.2

/-- "a.b" has been answered, and another name is asked for. -/
theorem names_distinct_and_kept_answer :
    dnsGetCached ([.query [99]].foldl dnsStep
      ([.query [97, 46, 98], answer 0x4001].foldl dnsStep .boot)).dns [97, 46, 98] =
        some 0x01020304 :=
  (names_distinct_and_kept rfl [.query [97, 46, 98], answer 0x4001]).2 _ _ [.query [99]]
    (by decide +kernel) (by decide +kernel)

end MyOS.NameCache
