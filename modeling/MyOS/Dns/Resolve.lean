import Mathlib.Data.List.Induction
import MyOS.Dns.Resolution
import MyOS.Http.Receive

/-!
# Waiting for a name

`dns_resolve` asks once and then polls the NIC until the cache has the name. What
the cache has, it has from a response to a query of this kernel; under names cut
to 126 bytes.
-/

namespace MyOS.Resolve

open KeyedTable NameCache Outstanding Resolution Runs

/-- The loop, with the polls it has left and those made. -/
def resolveLoop (polls : Nat → List (Mem × Int)) (name : Name) :
    Nat → Nat → Kernel → Nat × Kernel × Option UInt32
  | 0, n, k => (n, k, none)
  | left + 1, n, k =>
    let k := pollFrames k (polls n)
    if (dnsGetCached k.dns name).isSome then (n + 1, k, dnsGetCached k.dns name)
    else resolveLoop polls name left (n + 1) k

/-- The polls made, and the address where 1 is returned. -/
def dnsResolve (polls : Nat → List (Mem × Int)) (k : Kernel) (name : Name) :
    Nat × Kernel × Option UInt32 :=
  if (dnsGetCached k.dns name).isSome then (0, k, dnsGetCached k.dns name)
  else resolveLoop polls name 20000 0 (dnsQueryAsync k name).1

/-! ## What the tables are told -/

/-- The call of `dns_on_response` among those of `net_rx`. -/
def response (frame : Mem) : Handoff → Option DnsEvent
  | .dnsOnResponse srcIp start length => some (.response srcIp (frame.advance start) length)
  | _ => none

def responses (f : Mem × Int) : List DnsEvent := (netRxDemux f.1 f.2).val.filterMap (response f.1)

/-- The calls the first `n` polls lead to. -/
def heard (polls : Nat → List (Mem × Int)) (n : Nat) : List DnsEvent :=
  (List.range n).flatMap fun i => (polls i).flatMap responses

/-- A kernel with the tables as they are after these calls. -/
def told (es : List DnsEvent) : Kernel := es.foldl dnsStep .boot

theorem told_append (es es' : List DnsEvent) : told (es ++ es') = es'.foldl dnsStep (told es) :=
  List.foldl_append

theorem heard_succ (polls : Nat → List (Mem × Int)) (n : Nat) :
    heard polls (n + 1) = heard polls n ++ (polls n).flatMap responses := by
  simp only [heard, List.range_succ, List.flatMap_append, List.flatMap_singleton]

section
variable {k k' : Kernel}

/-- The tables follow from the tables. -/
theorem dnsStep_congr (same : k.dns = k'.dns) (e : DnsEvent) :
    (dnsStep k e).dns = (dnsStep k' e).dns := by
  cases e with
  | query name =>
    change (dnsQueryAsync k name).1.dns = (dnsQueryAsync k' name).1.dns
    unfold dnsQueryAsync
    rw [same]
    cases dnsGetCached k'.dns name with
    | some ip => exact same
    | none =>
      simp only
      cases dnsQueryPacket (k'.dns.qidCounter + 1) name <;> rfl
  | response srcIp data len => simp only [dnsStep, same]

theorem rxDataIntoBuf_dns (k : Kernel) (s : SockRef) (pl : List UInt8) :
    (rxDataIntoBuf k s pl).dns = k.dns := by
  simp only [rxDataIntoBuf]
  split <;> rfl

theorem tcpTakeData_dns (k : Kernel) (th : Segment) : (tcpTakeData k th).dns = k.dns :=
  rxDataIntoBuf_dns k .gSock th.payload

theorem tcpInput_dns (k : Kernel) (th : Segment) : (tcpInput k th).dns = k.dns := by
  have data :
      (if th.payload ≠ [] ∧ th.seq = (k.sock .gSock).rcvNxt then tcpTakeData k th else k).dns =
      k.dns := by
    split
    · exact tcpTakeData_dns k th
    · rfl
  unfold tcpInput
  dsimp only
  split
  · rfl
  · split
    · split <;> rfl
    · split
      · exact data
      · exact data
    · split <;> rfl
    · split <;> rfl
    · rfl

theorem tcpOnRx_dns (k : Kernel) (ipPkt : Mem) (ipLen : Int) (srcIp dstIp : UInt32) :
    (tcpOnRx k ipPkt ipLen srcIp dstIp).dns = k.dns := by
  unfold tcpOnRx
  split
  · exact tcpInput_dns k _
  · rfl

theorem deliver_told {es : List DnsEvent} (before : k.dns = (told es).dns) (frame : Mem)
    (h : Handoff) :
    (deliver frame k h).dns = (told (es ++ (response frame h).toList)).dns := by
  cases h with
  | arp spa sha =>
    simp only [deliver, response, Option.toList_none, List.append_nil]
    exact before
  | udpOnDatagram srcIp srcPort start length =>
    simp only [deliver, response, Option.toList_none, List.append_nil]
    exact before
  | tcpOnRx srcIp dstIp start length =>
    simp only [deliver, response, Option.toList_none, List.append_nil, tcpOnRx_dns]
    exact before
  | dnsOnResponse srcIp start length =>
    rw [told_append]
    exact dnsStep_congr before (.response srcIp (frame.advance start) length)

/-- A frame changes the tables by its response alone. -/
theorem netRx_told {es : List DnsEvent} (before : k.dns = (told es).dns) (f : Mem × Int) :
    (netRx k f.1 f.2).dns = (told (es ++ responses f)).dns := by
  unfold netRx responses
  generalize (netRxDemux f.1 f.2).val = hs
  induction hs generalizing k es with
  | nil => simpa using before
  | cons h hs ih =>
    have rest := ih (deliver_told before f.1 h)
    rw [List.append_assoc] at rest
    rw [List.foldl_cons, rest, List.filterMap_cons]
    cases response f.1 h <;> rfl

theorem pollFrames_told {es : List DnsEvent} (before : k.dns = (told es).dns)
    (fs : List (Mem × Int)) : (pollFrames k fs).dns = (told (es ++ fs.flatMap responses)).dns := by
  induction fs generalizing k es with
  | nil =>
    rw [List.flatMap_nil, List.append_nil]
    exact before
  | cons f fs ih =>
    have rest := ih (netRx_told before f)
    rw [List.append_assoc] at rest
    exact rest

theorem query_told {es : List DnsEvent} (before : k.dns = (told es).dns) (name : Name) :
    (dnsQueryAsync k name).1.dns = (told (es ++ [.query name])).dns := by
  rw [told_append]
  exact dnsStep_congr before (.query name)

end

/-! ## The loop -/

section
variable {polls : Nat → List (Mem × Int)} {name : Name} {k : Kernel} {es : List DnsEvent}

/-- The loop ends behind the first poll that leaves the name in the cache, or
behind the last one. -/
theorem resolveLoop_told (left n : Nat) (before : k.dns = (told (es ++ heard polls n)).dns)
    (missing : dnsGetCached k.dns name = none) : ∃ m k',
    resolveLoop polls name left n k = (m, k', dnsGetCached k'.dns name) ∧
      k'.dns = (told (es ++ heard polls m)).dns ∧ m ≤ n + left ∧
      (∀ i, n ≤ i → i < m → dnsGetCached (told (es ++ heard polls i)).dns name = none) ∧
      (m = n + left ∨ dnsGetCached k'.dns name ≠ none) := by
  induction left generalizing n k with
  | zero =>
    have done : resolveLoop polls name 0 n k = (n, k, dnsGetCached k.dns name) := by
      rw [resolveLoop, missing]
    exact ⟨n, k, done, before, Nat.le_refl n,
      fun i above below => absurd above (Nat.not_le.mpr below), .inl rfl⟩
  | succ left ih =>
    have next : (pollFrames k (polls n)).dns = (told (es ++ heard polls (n + 1))).dns := by
      rw [heard_succ, ← List.append_assoc]
      exact pollFrames_told before (polls n)
    cases found : dnsGetCached (pollFrames k (polls n)).dns name with
    | some ip =>
      refine ⟨n + 1, _, ?_, next, by omega, fun i above below => ?_, .inr ?_⟩
      · rw [resolveLoop, found, if_pos (Option.isSome_some)]
      · obtain rfl : i = n := by omega
        rw [← before]
        exact missing
      · rw [found]
        exact Option.some_ne_none ip
    | none =>
      obtain ⟨m, k', loop, after, upto, earlier, last⟩ := ih (n + 1) next found
      refine ⟨m, k', ?_, after, by omega, fun i above below => ?_, last.imp_left (by omega)⟩
      · rw [resolveLoop, found, if_neg (by decide), loop]
      · rcases Nat.eq_or_lt_of_le above with rfl | above
        · rw [← before]
          exact missing
        · exact earlier i above below

/-- What is returned is what the cache has behind the first poll at which it has
something, or behind the last one. -/
theorem dnsResolve_told (before : k.dns = (told es).dns) (polls : Nat → List (Mem × Int))
    (name : Name) : ∃ m k', dnsResolve polls k name = (m, k', dnsGetCached k'.dns name) ∧
      k'.dns = (told (es ++ .query name :: heard polls m)).dns ∧ m ≤ 20000 ∧
      (∀ i < m, dnsGetCached (told (es ++ .query name :: heard polls i)).dns name = none) ∧
      (m = 20000 ∨ dnsGetCached k'.dns name ≠ none) := by
  have asked := query_told before name
  have split (i : Nat) : es ++ .query name :: heard polls i =
      es ++ [.query name] ++ heard polls i := by
    rw [List.append_assoc]
    rfl
  have start : (dnsQueryAsync k name).1.dns =
      (told (es ++ [.query name] ++ heard polls 0)).dns := by
    rw [asked]
    exact congrArg (fun es => (told es).dns) (List.append_nil _).symm
  unfold dnsResolve
  cases cached : dnsGetCached k.dns name with
  | some ip =>
    have kept : (dnsQueryAsync k name).1 = k := by
      unfold dnsQueryAsync
      rw [cached]
    refine ⟨0, k, ?_, ?_, Nat.zero_le _, fun i below => absurd below (Nat.not_lt_zero i), .inr ?_⟩
    · rw [cached, if_pos Option.isSome_some]
    · rw [split, ← start, kept]
    · rw [cached]
      exact Option.some_ne_none ip
  | none =>
    have missing : dnsGetCached (dnsQueryAsync k name).1.dns name = none := by
      rw [dnsGetCached, dnsCached, dnsQueryAsync_cache]
      exact cached
    obtain ⟨m, k', loop, after, upto, earlier, last⟩ := resolveLoop_told 20000 0 start missing
    simp only [split]
    refine ⟨m, k', (if_neg (by decide)).trans loop, after, by omega,
      fun i below => earlier i (Nat.zero_le i) below, last.imp_left (by omega)⟩

end

/-! ## Where an address comes from -/

/-- A query under `id` for a name of which this much is kept. -/
def Asked (es : List DnsEvent) (id : UInt16) (name : Name) : Prop :=
  ∃ before m behind, es = before ++ .query m :: behind ∧ sendsUnder (told before) m = some id ∧
    name = strncpy m 127

/-- Behind such a query came a response with its id, which names the address. -/
def Origin (es : List DnsEvent) (name : Name) (ip : UInt32) : Prop :=
  ∃ before srcIp data len behind, es = before ++ .response srcIp data len :: behind ∧
    Asked before (dnsId data) name ∧ ip ∈ (dnsAnswers data len).addresses

structure Explained (es : List DnsEvent) : Prop where
  tracks : ∀ i, ((told es).dns.qtracks i).name = [] ∨
    Asked es ((told es).dns.qtracks i).qid ((told es).dns.qtracks i).name
  cache : ∀ i, live ((told es).dns.cache i) = true → ((told es).dns.cache i).name = [] ∨
    Origin es ((told es).dns.cache i).name ((told es).dns.cache i).ip

section
variable {es : List DnsEvent} {id : UInt16} {name : Name} {ip : UInt32}

theorem Asked.append (asked : Asked es id name) (e : DnsEvent) : Asked (es ++ [e]) id name := by
  obtain ⟨before, m, behind, rfl, sent, cut⟩ := asked
  exact ⟨before, m, behind ++ [e], by simp, sent, cut⟩

theorem Asked.short (asked : Asked es id name) : Short name := by
  obtain ⟨before, m, behind, -, -, rfl⟩ := asked
  exact List.length_take_le 126 m

theorem Origin.append (origin : Origin es name ip) (e : DnsEvent) : Origin (es ++ [e]) name ip := by
  obtain ⟨before, srcIp, data, len, behind, rfl, asked, address⟩ := origin
  exact ⟨before, srcIp, data, len, behind ++ [e], by simp, asked, address⟩

/-- The stores of a response write its addresses, under its name. -/
theorem foldl_dnsCacheStore_entry (name : Name) (ips : List UInt32) (d : Dns) (i : Fin 8) :
    (ips.foldl (dnsCacheStore name) d).cache i = d.cache i ∨
      ∃ ip ∈ ips, (ips.foldl (dnsCacheStore name) d).cache i = ⟨strncpy name 127, ip⟩ := by
  induction ips generalizing d with
  | nil => exact .inl rfl
  | cons ip ips ih =>
    rw [List.foldl_cons]
    rcases ih (dnsCacheStore name d ip) with kept | ⟨ip', mem, stored⟩
    · rw [kept]
      unfold dnsCacheStore
      split
      · exact .inl rfl
      · by_cases here : i = Slots.claim d.cache fun e => e.ip == 0
        · subst here
          exact .inr ⟨ip, List.mem_cons_self, Function.update_self ..⟩
        · exact .inl (Function.update_of_ne here ..)
    · exact .inr ⟨ip', List.mem_cons_of_mem ip mem, stored⟩

theorem told_snoc (es : List DnsEvent) (e : DnsEvent) : told (es ++ [e]) = dnsStep (told es) e :=
  told_append es [e]

theorem explained_query (explained : Explained es) (m : Name) : Explained (es ++ [.query m]) := by
  have queries : (told (es ++ [.query m])).dns.qtracks =
      (dnsQueryAsync (told es) m).1.dns.qtracks := by
    rw [told_snoc, dnsStep]
  constructor
  · intro i
    have old := (explained.tracks i).imp_right fun asked => asked.append (.query m)
    rw [queries, dnsQueryAsync_qtracks]
    cases sends : sendsUnder (told es) m with
    | none => exact old
    | some id =>
      by_cases here : i = qtrackSlot (told es).dns
      · subst here
        simp only [Function.update_self]
        exact .inr ⟨es, m, [], rfl, sends, rfl⟩
      · simp only [Function.update_of_ne here]
        exact old
  · intro i
    have same : (told (es ++ [.query m])).dns.cache = (told es).dns.cache := by
      rw [told_snoc]
      exact dnsQueryAsync_cache (told es) m
    rw [same]
    exact fun alive => (explained.cache i alive).imp_right fun origin => origin.append (.query m)

theorem explained_response (explained : Explained es) (srcIp : UInt32) (data : Mem) (len : Int) :
    Explained (es ++ [.response srcIp data len]) := by
  have dns : (told (es ++ [.response srcIp data len])).dns =
      dnsOnResponse (told es).dns srcIp data len := by
    rw [told_snoc]
    rfl
  constructor
  · intro i
    rw [dns, dnsOnResponse_qtracks]
    have old := (explained.tracks i).imp_right fun asked => asked.append (.response srcIp data len)
    split
    · simp only [qtrackClear]
      split
      · exact .inl rfl
      · exact old
    · exact old
  · intro i
    rw [dns, dnsOnResponse_cache]
    have old := fun alive => (explained.cache i alive).imp_right
      fun origin => origin.append (.response srcIp data len)
    cases found : qtrackGetname (told es).dns (dnsId data) with
    | none => exact old
    | some name =>
      dsimp only
      rcases foldl_dnsCacheStore_entry name (dnsAnswers data len).addresses (told es).dns i with
        kept | ⟨ip, address, stored⟩
      · rw [kept]
        exact old
      · rw [stored]
        intro _
        -- The name was found in a slot under the id of the response.
        obtain ⟨j, first, rfl⟩ := Option.map_eq_some_iff.mp found
        have under : ((told es).dns.qtracks j).qid = dnsId data := by
          simpa using Slots.first_holds first
        rcases explained.tracks j with empty | asked
        · exact .inl (by rw [empty]; rfl)
        · rw [under] at asked
          have whole : strncpy ((told es).dns.qtracks j).name 127 =
              ((told es).dns.qtracks j).name :=
            strncpy_fits asked.short
          refine .inr ⟨es, srcIp, data, len, [], rfl, ?_, address⟩
          rw [whole]
          exact asked

theorem explained (es : List DnsEvent) : Explained es := by
  induction es using List.reverseRecOn with
  | nil => exact ⟨fun _ => .inl rfl, fun _ alive => nomatch alive⟩
  | append_singleton es e ih =>
    cases e with
    | query m => exact explained_query ih m
    | response srcIp data len => exact explained_response ih srcIp data len

end

/-- An address that `dns_resolve` returns stood in a response with the id of a query
that this kernel had sent, for a name that is this one when cut to 126 bytes. A name
with more bytes is never resolved; it is only waited for. -/
theorem resolved_origin {k : Kernel} {es : List DnsEvent} (history : k.dns = (told es).dns)
    (polls : Nat → List (Mem × Int)) {name : Name} (some : name ≠ []) : ∃ m k' r,
      dnsResolve polls k name = (m, k', r) ∧ m ≤ 20000 ∧
      k'.dns = (told (es ++ .query name :: heard polls m)).dns ∧
      (r = none → m = 20000) ∧
      ∀ ip, r = Option.some ip → name.length ≤ 126 ∧ ip ≠ 0 ∧
        Origin (es ++ .query name :: heard polls m) name ip := by
  obtain ⟨m, k', call, after, upto, -, last⟩ := dnsResolve_told history polls name
  refine ⟨m, k', _, call, upto, after, fun none => last.resolve_right (not_not.mpr none), ?_⟩
  intro ip found
  rw [after] at found
  obtain ⟨i, first, rfl⟩ := Option.map_eq_some_iff.mp found
  have holds : live ((told (es ++ .query name :: heard polls m)).dns.cache i) = true ∧
      ((told (es ++ .query name :: heard polls m)).dns.cache i).name = name := find_holds first
  obtain ⟨alive, named⟩ := holds
  rcases (explained (es ++ .query name :: heard polls m)).cache i alive with empty | origin
  · exact absurd (named.symm.trans empty) some
  · rw [named] at origin
    obtain ⟨before, srcIp, data, len, behind, same, asked, address⟩ := origin
    exact ⟨asked.short, bne_iff_ne.mp alive, before, srcIp, data, len, behind, same, asked, address⟩

/-- "a.b" has been asked for and answered. -/
theorem resolved_origin_answer : ∃ m, Origin ([.query [97, 46, 98], answer 0x4001] ++
    .query [97, 46, 98] :: heard (fun _ => []) m) [97, 46, 98] 0x01020304 := by
  have known : dnsGetCached (told [.query [97, 46, 98], answer 0x4001]).dns [97, 46, 98] =
      some 0x01020304 := by decide +kernel
  obtain ⟨m, k', r, call, -, -, -, origin⟩ :=
    @resolved_origin (told [.query [97, 46, 98], answer 0x4001]) _ rfl (fun _ => []) [97, 46, 98]
      (by decide)
  rw [dnsResolve, known, if_pos Option.isSome_some] at call
  cases call
  exact ⟨0, (origin _ rfl).2.2⟩

/-! ## When an address comes -/

/-- The query for `name` stands in `slot`; no other slot stands for its id or its name. -/
structure Awaits (d : Dns) (slot : Fin 8) (id : UInt16) (name : Name) : Prop where
  own : d.qtracks slot = ⟨id, name⟩
  apart : ∀ i, i ≠ slot → (d.qtracks i).qid ≠ id ∧ (d.qtracks i).name ≠ name
  unknown : dnsGetCached d name = none

section
variable {d : Dns} {slot : Fin 8} {id : UInt16} {name : Name}

/-- Its own slot is the first under the id. -/
theorem Awaits.found (awaits : Awaits d slot id name) : qtrackGetname d id = some name := by
  have own : (d.qtracks slot).qid = id := congrArg QTrack.qid awaits.own
  obtain ⟨j, -, under, -, found⟩ := qtrackGetname_first own
  have here : j = slot := by
    by_contra elsewhere
    exact (awaits.apart j elsewhere).1 under
  rw [found, here, awaits.own]

end

/-- The answer 1.2.3.4 in a frame from the resolver. -/
def answerFrame : List UInt8 :=
  List.replicate 12 0 ++ [0x08, 0x00, 0x45, 0, 0, 65, 0, 1, 0, 0, 64, 17, 0, 0, 10, 0, 2, 3,
    10, 0, 2, 15, 0, 53, 0xC3, 0x50, 0, 45, 0, 0] ++ answerTo [1, 97, 1, 98, 0]

/-- It comes with the third poll. -/
def third : Nat → List (Mem × Int)
  | 2 => [(.ofList answerFrame, 79)]
  | _ => []

end MyOS.Resolve
