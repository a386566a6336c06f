import MyOS.Dns.Cache

/-!
# From a query to the cached address

The name of a query is copied twice by a `strncpy` that leaves room for one
byte less than its caller does: 126 bytes of a name survive, not 127.
-/

namespace MyOS.Resolution

open KeyedTable NameCache Outstanding Runs

/-! ## A response -/

/-- The labels from `off` on, uncompressed, with their root label end before `stop`. -/
inductive LabelsAt (data : Mem) : Nat → Nat → Prop
  | root {off : Nat} (zero : data off = 0) : LabelsAt data off (off + 1)
  | label {off stop : Nat} (some : data off ≠ 0) (plain : data off ≤ 63)
      (rest : LabelsAt data (off + (1 + (data off).toNat)) stop) : LabelsAt data off stop

/-- A response to query `id` with one question. Its first answer, behind the
question, is an IN A record with a pointer as its owner name, for the address `a`. -/
structure Answers (id : UInt16) (a : UInt32) (data : Mem) (len : Int) : Prop where
  id : dnsId data = id
  questions : be16 data 4 = 1
  answers : be16 data 6 ≠ 0
  record : ∃ stop, LabelsAt data 12 stop ∧ data (stop + 4) &&& 0xC0 = 0xC0 ∧
    be16 data (stop + 6) = 1 ∧ be16 data (stop + 8) = 1 ∧ be16 data (stop + 14) = 4 ∧
    be32 data (stop + 16) = a ∧ (stop : Int) + 20 ≤ len

theorem LabelsAt.lt {data : Mem} {off stop : Nat} (labels : LabelsAt data off stop) :
    off < stop := by
  induction labels with
  | root => exact Nat.lt_succ_self _
  | label => omega

/-- The walk over plain labels stops at the root label. -/
theorem skipLabels_labels {data : Mem} {len : Int} {off stop : Nat}
    (labels : LabelsAt data off stop) (inside : (stop : Int) ≤ len) {fuel : Nat}
    (enough : stop ≤ fuel + off) : skipLabels data len fuel off + 1 = stop := by
  induction labels generalizing fuel with
  | root zero =>
    cases fuel with
    | zero => omega
    | succ fuel => rw [skipLabels, if_neg (fun more => more.2 zero)]
  | @label off stop some plain rest ih =>
    have before := rest.lt
    cases fuel with
    | zero => omega
    | succ fuel =>
      rw [skipLabels, if_pos ⟨by omega, some⟩]
      exact ih inside (by omega)

/-- Its first address is the first one the walk reaches. -/
theorem Answers.addresses {id : UInt16} {a : UInt32} {data : Mem} {len : Int}
    (h : Answers id a data len) : ∃ more, (dnsAnswers data len).addresses = a :: more := by
  obtain ⟨stop, labels, pointer, atype, aclass, rdlen, address, inside⟩ := h.record
  have start := labels.lt
  have name : skipName data len 12 + 1 = stop :=
    skipLabels_labels labels (by omega) (by omega)
  have questions : skipQuestions data len (be16 data 4).toNat 12 = some (stop + 4) := by
    have one : (be16 data 4).toNat = 1 := by rw [h.questions]; rfl
    rw [one]
    simp only [skipQuestions, name]
    rw [if_neg (by omega)]
  obtain ⟨n, count⟩ : ∃ n, (be16 data 6).toNat = n + 1 := by
    apply Nat.exists_eq_succ_of_ne_zero
    intro zero
    exact h.answers (UInt16.toNat_inj.mp zero)
  have size : ((4 : UInt16).toNat : Int) = 4 := rfl
  simp only [dnsAnswers, questions, count, walkAnswers, pointer, if_true, Nat.add_assoc,
    Nat.reduceAdd, atype, aclass, rdlen, address, and_self]
  rw [if_neg (by omega), if_neg (by omega), if_neg (by omega), if_neg (by omega)]
  exact ⟨_, rfl⟩

/-! ## The stores of a response -/

/-- The name of the first slot under an id, when some slot is under it. -/
theorem qtrackGetname_first {d : Dns} {id : UInt16} {i : Fin 8} (here : (d.qtracks i).qid = id) :
    ∃ j ≤ i, (d.qtracks j).qid = id ∧ (∀ l < j, (d.qtracks l).qid ≠ id) ∧
      qtrackGetname d id = some (d.qtracks j).name := by
  obtain ⟨j, first⟩ := Slots.first_exists (t := d.qtracks) (p := fun q => q.qid == id)
    (beq_iff_eq.mpr here)
  obtain ⟨same, before⟩ := Slots.first_eq_some.mp first
  have unused : ∀ l < j, (d.qtracks l).qid ≠ id := by
    intro l earlier
    exact bne_iff_ne.mp (by simpa using before l earlier)
  refine ⟨j, ?_, beq_iff_eq.mp same, unused, by rw [qtrackGetname, first, Option.map_some]⟩
  by_contra later
  exact unused i (not_le.mp later) here

/-- A name already in the cache is not stored again. -/
theorem foldl_dnsCacheStore_known {d : Dns} {name : Name} {i : Fin 8}
    (known : dnsCached d name = some i) (ips : List UInt32) :
    ips.foldl (dnsCacheStore name) d = d := by
  induction ips with
  | nil => rfl
  | cons ip ips ih =>
    have same : dnsCacheStore name d ip = d := by
      unfold dnsCacheStore
      rw [known]
    rw [List.foldl_cons, same, ih]

/-- A new name is found under the first of its addresses. -/
theorem foldl_dnsCacheStore_new {d : Dns} {name : Name} (distinct : Distinct d)
    (short : Short name) (new : dnsCached d name = none) {a : UInt32} (nonzero : a ≠ 0)
    (ips : List UInt32) : dnsGetCached ((a :: ips).foldl (dnsCacheStore name) d) name = some a := by
  have cache : (dnsCacheStore name d a).cache =
      Function.update d.cache (Slots.claim d.cache fun e => e.ip == 0) ⟨name, a⟩ := by
    rcases dnsCacheStore_cases (d := d) short a with ⟨⟨i, known⟩, -⟩ | ⟨-, cache⟩
    · rw [new] at known
      cases known
    · exact cache
  have slot : (dnsCacheStore name d a).cache (Slots.claim d.cache fun e => e.ip == 0) =
      ⟨name, a⟩ := by
    rw [cache]
    exact Function.update_self ..
  have known : dnsCached (dnsCacheStore name d a) name =
      some (Slots.claim d.cache fun e => e.ip == 0) := by
    apply (dnsCacheStore_distinct distinct short a).find_iff.mpr
    rw [slot]
    exact ⟨bne_iff_ne.mpr nonzero, rfl⟩
  rw [List.foldl_cons, foldl_dnsCacheStore_known known, dnsGetCached, known, Option.map_some, slot]

/-- The stores for one name bring no other into the cache. -/
theorem foldl_dnsCacheStore_other {d : Dns} {m name : Name} (short : Short m) (other : m ≠ name)
    (absent : dnsCached d name = none) (ips : List UInt32) :
    dnsCached (ips.foldl (dnsCacheStore m) d) name = none := by
  induction ips generalizing d with
  | nil => exact absent
  | cons ip ips ih =>
    apply ih
    rcases dnsCacheStore_cases (d := d) short ip with ⟨-, same⟩ | ⟨-, cache⟩
    · rw [same]
      exact absent
    · apply find_eq_none.mpr
      intro i alive
      rw [cache] at alive ⊢
      by_cases here : i = Slots.claim d.cache fun e => e.ip == 0
      · subst here
        rw [Function.update_self]
        exact other
      · rw [Function.update_of_ne here] at alive ⊢
        exact find_eq_none.mp absent i alive

/-- Such a response makes the name known if and only if it is the name of the
first slot under the id. -/
theorem answers_resolve {d : Dns} (inv : Inv d) {id : UInt16} {name m : Name}
    (found : qtrackGetname d id = some m) (uncached : dnsGetCached d name = none)
    {a : UInt32} (nonzero : a ≠ 0) {data : Mem} {len : Int} (response : Answers id a data len)
    (srcIp : UInt32) : dnsGetCached (dnsOnResponse d srcIp data len) name = some a ↔ m = name := by
  have absent : dnsCached d name = none := Option.map_eq_none_iff.mp uncached
  have short : Short m := qtrackGetname_short inv found
  obtain ⟨more, addresses⟩ := response.addresses
  have cache := dnsOnResponse_cache d srcIp data len
  rw [response.id, found, addresses] at cache
  have lookup : dnsGetCached (dnsOnResponse d srcIp data len) name =
      dnsGetCached ((a :: more).foldl (dnsCacheStore m) d) name := by
    rw [dnsGetCached, dnsGetCached, dnsCached, dnsCached, cache]
  rw [lookup]
  constructor
  · intro resolved
    by_contra other
    rw [dnsGetCached, foldl_dnsCacheStore_other short other absent] at resolved
    cases resolved
  · rintro rfl
    exact foldl_dnsCacheStore_new inv.distinct short absent nonzero more

/-! ## From the query on -/

/-- The query for `name` has gone out under `id` in `k`. What followed up to `d`
has left its slot alone, and the name is not known yet. -/
structure Waiting (k : Kernel) (name : Name) (id : UInt16) (d : Dns) : Prop where
  reached : ∃ (k₀ : Kernel) (es₀ : List DnsEvent), k₀.dns = .boot ∧ k = es₀.foldl dnsStep k₀
  sent : sendsUnder k name = some id
  since : ∃ es : List DnsEvent, d = (es.foldl dnsStep (dnsStep k (.query name))).dns
  kept : d.qtracks (qtrackSlot k.dns) = ⟨id, strncpy name 127⟩
  unknown : dnsGetCached d name = none

theorem Waiting.inv {k : Kernel} {name : Name} {id : UInt16} {d : Dns} (h : Waiting k name id d) :
    Inv d := by
  obtain ⟨k₀, es₀, empty, rfl⟩ := h.reached
  obtain ⟨es, rfl⟩ := h.since
  have before : Inv (es₀.foldl dnsStep k₀).dns := foldl_dnsStep_inv empty es₀
  have after := dnsStep_inv _ (.query name) before
  exact along_last (along_keep (I := fun k : Kernel => Inv k.dns) dnsStep_inv after)

/-- The name of a query resolves if and only if it has at most 126 characters,
and the first slot under its id, where that is not its own, carries the name too. -/
theorem resolves_iff {k : Kernel} {name : Name} {id : UInt16} {d : Dns}
    (waiting : Waiting k name id d) {a : UInt32} (nonzero : a ≠ 0) {data : Mem} {len : Int}
    (response : Answers id a data len) (srcIp : UInt32) :
    dnsGetCached (dnsOnResponse d srcIp data len) name = some a ↔
      name.length ≤ 126 ∧ ∀ j < qtrackSlot k.dns, (d.qtracks j).qid = id →
        (∀ i < j, (d.qtracks i).qid ≠ id) → (d.qtracks j).name = name := by
  have own : (d.qtracks (qtrackSlot k.dns)).qid = id := by rw [waiting.kept]
  obtain ⟨j, upto, under, first, found⟩ := qtrackGetname_first own
  have short := qtrackGetname_short waiting.inv found
  rw [answers_resolve waiting.inv found waiting.unknown nonzero response srcIp]
  constructor
  · intro same
    rw [same] at short
    refine ⟨short, ?_⟩
    intro l _ under' first'
    have here : l = j := by
      rcases lt_trichotomy l j with before | here | behind
      · exact absurd under' (first l before)
      · exact here
      · exact absurd under (first' j behind)
    rw [here, same]
  · rintro ⟨fits, lower⟩
    rcases lt_or_eq_of_le upto with before | here
    · exact lower j before under first
    · rw [here, waiting.kept]
      exact strncpy_fits fits

/-! ## Two names -/

/-- The answer 1.2.3.4 to the question for a packed name, under 0x4001. -/
def answerTo (packed : List UInt8) : List UInt8 :=
  [0x40, 0x01, 0x81, 0x80, 0, 1, 0, 1, 0, 0, 0, 0] ++ packed ++
    [0, 1, 0, 1, 0xC0, 12, 0, 1, 0, 1, 0, 0, 0, 60, 0, 4, 1, 2, 3, 4]

theorem resolves_iff_short :
    dnsGetCached (dnsOnResponse (dnsStep .boot (.query [97, 46, 98])).dns 0x0A000203
      (.ofList (answerTo [1, 97, 1, 98, 0])) 37) [97, 46, 98] = some 0x01020304 := by
  have waiting : Waiting .boot [97, 46, 98] 0x4001 (dnsStep .boot (.query [97, 46, 98])).dns :=
    { reached := ⟨.boot, [], rfl, rfl⟩
      sent := by decide +kernel
      since := ⟨[], rfl⟩
      kept := by decide +kernel
      unknown := by decide +kernel }
  have response : Answers 0x4001 0x01020304 (.ofList (answerTo [1, 97, 1, 98, 0])) 37 :=
    { id := by decide +kernel
      questions := by decide +kernel
      answers := by decide +kernel
      record := ⟨17, .label (by decide) (by decide) (.label (by decide) (by decide)
        (.root (by decide))), by decide +kernel⟩ }
  apply (resolves_iff waiting (by decide) response 0x0A000203).mpr
  decide +kernel

/-- Two labels of 63 characters, 127 with the dot. -/
def longName : Name := List.replicate 63 97 ++ 46 :: List.replicate 63 97

def longPacked : List UInt8 :=
  63 :: List.replicate 63 97 ++ 63 :: List.replicate 63 97 ++ [0]

/-- Its query goes out and is answered, and the name is still unknown. -/
theorem longName_unresolved :
    Waiting .boot longName 0x4001 (dnsStep .boot (.query longName)).dns ∧
      Answers 0x4001 0x01020304 (.ofList (answerTo longPacked)) 161 ∧
      dnsGetCached (dnsOnResponse (dnsStep .boot (.query longName)).dns 0x0A000203
        (.ofList (answerTo longPacked)) 161) longName ≠ some 0x01020304 := by
  refine ⟨?_, ?_, by decide +kernel⟩
  · exact
      { reached := ⟨.boot, [], rfl, rfl⟩
        sent := by decide +kernel
        since := ⟨[], rfl⟩
        kept := by decide +kernel
        unknown := by decide +kernel }
  · exact
      { id := by decide +kernel
        questions := by decide +kernel
        answers := by decide +kernel
        record := ⟨141, .label (by decide) (by decide) (.label (by decide) (by decide)
          (.root (by decide))), by decide +kernel⟩ }

end MyOS.Resolution
