import MyOS.Base.Runs
import MyOS.Dns.Table

/-!
# Which query an answer is stored for

Queries are numbered in the order they are sent. `Watch` follows which of them
each slot of `qtracks` was written for, from the calls alone, and so which
queries are outstanding: sent, not answered, not evicted.
-/

namespace MyOS.Outstanding

open Runs

inductive DnsEvent
  | query (name : Name)
  | response (srcIp : UInt32) (data : Mem) (len : Int)

structure Watch where
  kernel : Kernel
  queries : List (UInt16 × Name)
  tag : Fin 8 → Option Nat

/-- Before the first call: no slot is taken, whatever the counter and cache. -/
def Watch.start (k : Kernel) : Watch := ⟨k, [], fun _ => none⟩

/-- The id under which `dns_query_async` sends a query for the name. -/
def sendsUnder (k : Kernel) (name : Name) : Option UInt16 :=
  if (dnsGetCached k.dns name).isNone ∧ (dnsQueryPacket (k.dns.qidCounter + 1) name).isSome then
    some (k.dns.qidCounter + 1)
  else none

/-- A query that is sent takes a slot from whoever had it. A query is answered
by a response with its id that brings an address or is read to its end. -/
def watch (w : Watch) : DnsEvent → Watch
  | .query name =>
    { kernel := (dnsQueryAsync w.kernel name).1
      queries := match sendsUnder w.kernel name with
        | some id => w.queries ++ [(id, name)]
        | none => w.queries
      tag := match sendsUnder w.kernel name with
        | some _ => Function.update w.tag (qtrackSlot w.kernel.dns) (some w.queries.length)
        | none => w.tag }
  | .response srcIp data len =>
    { w with
      kernel := { w.kernel with dns := dnsOnResponse w.kernel.dns srcIp data len }
      tag := fun i =>
        if ((dnsAnswers data len).finished ∨ (dnsAnswers data len).addresses ≠ []) ∧
            ((w.tag i).bind fun q => w.queries[q]?).map Prod.fst = some (dnsId data) then none
        else w.tag i }

/-- Query `q` was sent for `n` under `id`, and it is the last one under `id`. -/
structure LastUnder (queries : List (UInt16 × Name)) (id : UInt16) (n : Name) (q : Nat) :
    Prop where
  sent : queries[q]? = some (id, n)
  last : ∀ r m, q < r → queries[r]? ≠ some (id, m)

/-- Whatever a response stores, it stores for the last query under its id, and
that query is outstanding. -/
def StoresOutstanding (w : Watch) : DnsEvent → Prop
  | .query _ => True
  | .response srcIp data len =>
    ∀ e ∈ responseStores w.kernel.dns srcIp data len,
      ∃ q, LastUnder w.queries (dnsId data) e.name q ∧ ∃ i, w.tag i = some q

/-- No slot still tracks a query under `id`. -/
def Untracked (w : Watch) (id : UInt16) : Prop :=
  ∀ i, (w.kernel.dns.qtracks i).qid ≠ 0 → (w.kernel.dns.qtracks i).qid ≠ id

instance (w : Watch) (id : UInt16) : Decidable (Untracked w id) := Nat.decidableForallFin _

/-- A query goes out under an id that no slot still tracks, for a name that fits
into a slot. A response that brings an address and whose id stands in the table
is not numbered 0, and is read to its end. -/
def Tracked (w : Watch) : DnsEvent → Prop
  | .query name => (sendsUnder w.kernel name).all fun id => name.length ≤ 126 ∧ Untracked w id
  | .response _ data len =>
    (dnsAnswers data len).addresses ≠ [] → (qtrackGetname w.kernel.dns (dnsId data)).isSome →
      dnsId data ≠ 0 ∧ (dnsAnswers data len).finished = true

instance (w : Watch) : ∀ e, Decidable (Tracked w e)
  | .query _ => inferInstanceAs (Decidable (_ = true))
  | .response .. => inferInstanceAs (Decidable (_ → _ → _ ∧ _))

/-- Every taken slot holds the record of the last query under its id. -/
def TableTrue (w : Watch) : Prop :=
  ∀ i, (w.kernel.dns.qtracks i).qid ≠ 0 → ∃ q, w.tag i = some q ∧
    LastUnder w.queries (w.kernel.dns.qtracks i).qid (w.kernel.dns.qtracks i).name q ∧
    (w.kernel.dns.qtracks i).name.length ≤ 126

/-! ## Queries -/

/-- What a query does to the table, if it is sent and if not. -/
theorem dnsQueryAsync_qtracks (k : Kernel) (name : Name) :
    (dnsQueryAsync k name).1.dns.qtracks = match sendsUnder k name with
      | some id => Function.update k.dns.qtracks (qtrackSlot k.dns) ⟨id, strncpy name 127⟩
      | none => k.dns.qtracks := by
  unfold dnsQueryAsync sendsUnder
  cases dnsGetCached k.dns name with
  | some ip => rfl
  | none =>
    cases packet : dnsQueryPacket (k.dns.qidCounter + 1) name with
    | none => simp [packet]
    | some buf => simp [packet, qtrackAdd, qtrackSlot]

/-- A query under another id does not change which one is the last. -/
theorem LastUnder.append {queries : List (UInt16 × Name)} {id : UInt16} {n : Name} {q : Nat}
    (h : LastUnder queries id n q) {id' : UInt16} (other : id ≠ id') (m : Name) :
    LastUnder (queries ++ [(id', m)]) id n q := by
  obtain ⟨sent, last⟩ := h
  have inside : q < queries.length := (List.getElem?_eq_some_iff.mp sent).1
  refine ⟨by rwa [List.getElem?_append_left inside], fun r m' later at_r => ?_⟩
  rcases Nat.lt_or_ge r queries.length with old | new
  · rw [List.getElem?_append_left old] at at_r
    exact last r m' later at_r
  · rw [List.getElem?_append_right new] at at_r
    have := List.mem_of_getElem? at_r
    simp only [List.mem_singleton, Prod.mk.injEq] at this
    exact other this.1

theorem lastUnder_new (queries : List (UInt16 × Name)) (id : UInt16) (n : Name) :
    LastUnder (queries ++ [(id, n)]) id n queries.length := by
  refine ⟨by simp, fun r m later at_r => ?_⟩
  rw [List.getElem?_eq_none (by simp; omega)] at at_r
  cases at_r

theorem tableTrue_query (w : Watch) (name : Name) (inv : TableTrue w)
    (tracked : Tracked w (.query name)) : TableTrue (watch w (.query name)) := by
  intro i taken
  simp only [watch, dnsQueryAsync_qtracks] at taken ⊢
  cases sends : sendsUnder w.kernel name with
  | none =>
    rw [sends] at taken
    exact inv i taken
  | some id =>
    obtain ⟨short, unused⟩ : name.length ≤ 126 ∧ Untracked w id := by
      simpa [Tracked, sends] using tracked
    have whole : strncpy name 127 = name := strncpy_fits short
    simp only [sends] at taken ⊢
    by_cases here : i = qtrackSlot w.kernel.dns
    · subst here
      simp only [Function.update_self, whole]
      exact ⟨_, rfl, lastUnder_new .., short⟩
    · simp only [Function.update_of_ne here] at taken ⊢
      obtain ⟨q, tagged, last, fits⟩ := inv i taken
      exact ⟨q, tagged, last.append (unused i taken) name, fits⟩

/-! ## Responses -/

/-- A response clears the slots with its id and forgets the queries with its id;
one that is cut off before its first address does neither. -/
theorem tableTrue_response (w : Watch) (srcIp : UInt32) (data : Mem) (len : Int)
    (inv : TableTrue w) (tracked : Tracked w (.response srcIp data len)) :
    TableTrue (watch w (.response srcIp data len)) := by
  intro i taken
  simp only [watch, dnsOnResponse_qtracks] at taken ⊢
  by_cases mine : (w.kernel.dns.qtracks i).qid = dnsId data
  · by_cases finished : (dnsAnswers data len).finished = true
    · simp [finished, qtrackClear, mine] at taken
    · have silent : (dnsAnswers data len).addresses = [] := by
        by_contra brings
        exact finished (tracked brings (qtrackGetname_isSome mine)).2
      rw [if_neg finished] at taken ⊢
      obtain ⟨q, tagged, last⟩ := inv i taken
      exact ⟨q, by simp [finished, silent, tagged], last⟩
  · have slot : (if (dnsAnswers data len).finished = true then
        (qtrackClear w.kernel.dns (dnsId data)).qtracks else w.kernel.dns.qtracks) i =
        w.kernel.dns.qtracks i := by
      split
      · exact if_neg mine
      · rfl
    rw [slot] at taken ⊢
    obtain ⟨q, tagged, last, fits⟩ := inv i taken
    refine ⟨q, ?_, last, fits⟩
    rw [if_neg, tagged]
    rintro ⟨_, sameId⟩
    rw [tagged, Option.bind_some, last.sent, Option.map_some] at sameId
    exact mine (Option.some.inj sameId)

theorem tableTrue_step (w : Watch) (e : DnsEvent) (inv : TableTrue w) (tracked : Tracked w e) :
    TableTrue (watch w e) := by
  cases e with
  | query name => exact tableTrue_query w name inv tracked
  | response srcIp data len => exact tableTrue_response w srcIp data len inv tracked

/-- With a true table, what a response stores it stores for an outstanding query. -/
theorem stores_outstanding (w : Watch) (e : DnsEvent) (inv : TableTrue w) (tracked : Tracked w e) :
    StoresOutstanding w e := by
  cases e with
  | query name => trivial
  | response srcIp data len =>
    intro entry stored
    obtain ⟨brings, name, found, stored_as⟩ := responseStores_named stored
    obtain ⟨i, first, rfl⟩ := Option.map_eq_some_iff.mp found
    have mine : (w.kernel.dns.qtracks i).qid = dnsId data := by
      simpa using Slots.first_holds first
    have nonzero := (tracked brings (qtrackGetname_isSome mine)).1
    obtain ⟨q, tagged, last, fits⟩ := inv i (mine ▸ nonzero)
    rw [mine] at last
    have whole : strncpy (w.kernel.dns.qtracks i).name 127 = (w.kernel.dns.qtracks i).name :=
      strncpy_fits fits
    rw [whole] at stored_as
    exact ⟨q, stored_as ▸ last, i, tagged⟩

/-- In every run whose calls meet `Tracked`, every stored answer belongs to an
outstanding query: the last one sent under its id, for the name it is stored
under. -/
theorem stores_outstanding_along (k : Kernel) (es : List DnsEvent)
    (empty : ∀ i, (k.dns.qtracks i).qid = 0)
    (tracked : Steps watch Tracked (.start k) es) :
    Steps watch StoresOutstanding (.start k) es := by
  have start : TableTrue (.start k) := fun i taken => absurd (empty i) taken
  exact steps_of_steps (E := fun _ => True) (fun w e _ => tableTrue_step w e)
    (fun w e _ => stores_outstanding w e) (fun _ _ => trivial) start tracked

/-- A response without questions, with one A record for the address 1.2.3.4. -/
def answerBytes (id : UInt16) : List UInt8 :=
  [(id >>> 8).toUInt8, id.toUInt8, 0x81, 0x80, 0, 0, 0, 1, 0, 0, 0, 0,
    0xC0, 12, 0, 1, 0, 1, 0, 0, 0, 60, 0, 4, 1, 2, 3, 4]

def answer (id : UInt16) : DnsEvent := .response 0x0A000203 (.ofList (answerBytes id)) 28

/-- A query for "a.b", its answer, the same answer again, and one that no query
asked for. -/
theorem stores_outstanding_once :
    Steps watch StoresOutstanding (.start .boot)
      [.query [97, 46, 98], answer 0x4001, answer 0x4001, answer 0x4002] :=
  stores_outstanding_along _ _ (fun _ => rfl) (by decide +kernel)

/-- Nothing has been asked, and a response numbered 0 is stored under the empty
name of a free slot. -/
theorem stores_for_no_query : ¬ Steps watch StoresOutstanding (.start .boot) [answer 0] := by
  rintro ⟨stores, _⟩
  have stored : (⟨[], 0x01020304⟩ : DnsCacheEntry) ∈
      responseStores Kernel.boot.dns 0x0A000203 (.ofList (answerBytes 0)) 28 := by
    decide +kernel
  obtain ⟨q, last, _⟩ := stores _ stored
  exact absurd last.sent (by simp [Watch.start])

end MyOS.Outstanding
