import MyOS.Dns.Message
import MyOS.Net.Send
import MyOS.StringC

/-! dns.c: the cache, the table of outstanding queries, and the two calls that use them. -/

namespace MyOS

/-! ## The cache -/

def dnsCached (d : Dns) (name : Name) : Option (Fin 8) :=
  Slots.first d.cache fun e => e.ip != 0 && e.name == name

def dnsCacheStore (name : Name) (d : Dns) (ip : UInt32) : Dns :=
  match dnsCached d name with
  | some _ => d
  | none =>
    let e := ⟨strncpy name 127, ip⟩
    { d with
      cache := Function.update d.cache (Slots.claim d.cache fun e => e.ip == 0) e
      stored := d.stored ++ [e] }

def dnsGetCached (d : Dns) (name : Name) : Option UInt32 :=
  (dnsCached d name).map fun i => (d.cache i).ip

/-! ## Outstanding queries -/

/-- The slot `qtrack_add` uses: the first free one, or slot 0. -/
def qtrackSlot (d : Dns) : Fin 8 := Slots.claim d.qtracks fun q => q.qid == 0

def qtrackAdd (d : Dns) (qid : UInt16) (name : Name) : Dns :=
  { d with qtracks := Function.update d.qtracks (qtrackSlot d) ⟨qid, strncpy name 127⟩ }

def qtrackGetname (d : Dns) (qid : UInt16) : Option Name :=
  (Slots.first d.qtracks fun q => q.qid == qid).map fun i => (d.qtracks i).name

def qtrackClear (d : Dns) (qid : UInt16) : Dns :=
  { d with qtracks := fun i => if (d.qtracks i).qid = qid then ⟨0, []⟩ else d.qtracks i }

/-! ## The calls -/

def dnsOnResponse (d : Dns) (_srcIp : UInt32) (data : Mem) (len : Int) : Dns :=
  let answers := dnsAnswers data len
  let d' := match qtrackGetname d (dnsId data) with
    | some name => answers.addresses.foldl (dnsCacheStore name) d
    | none => d
  if answers.finished then qtrackClear d' (dnsId data) else d'

/-- The query for `name` goes out, under `id`, to the resolver at 10.0.2.3. -/
def dnsQueryAsync (k : Kernel) (name : Name) : Kernel × Int :=
  match dnsGetCached k.dns name with
  | some _ => (k, 1)
  | none =>
    let id := k.dns.qidCounter + 1
    let dns := { k.dns with qidCounter := id }
    match dnsQueryPacket id name with
    | none => ({ k with dns }, 0)
    | some buf =>
      ({ k with
          dns := qtrackAdd dns id name
          net := netSendUdpIpv4 k.net 0x0A000203 53 50000 buf }, 1)

/-! ## What a store leaves alone -/

section
variable (name : Name) (d : Dns) (ip : UInt32) (ips : List UInt32)

@[simp] theorem dnsCacheStore_qtracks : (dnsCacheStore name d ip).qtracks = d.qtracks := by
  unfold dnsCacheStore; split <;> rfl

@[simp] theorem foldl_dnsCacheStore_qtracks :
    (ips.foldl (dnsCacheStore name) d).qtracks = d.qtracks := by
  induction ips generalizing d with
  | nil => rfl
  | cons ip ips ih => rw [List.foldl_cons, ih, dnsCacheStore_qtracks]

/-- One call of `dns_cache_store` writes at most one entry, under its own name. -/
theorem dnsCacheStore_stored :
    ∃ es, (dnsCacheStore name d ip).stored = d.stored ++ es ∧
      ∀ e ∈ es, e.name = strncpy name 127 := by
  unfold dnsCacheStore
  split
  · exact ⟨[], by simp⟩
  · exact ⟨[⟨strncpy name 127, ip⟩], rfl, by simp⟩

/-- So do the stores of one response. -/
theorem foldl_dnsCacheStore_stored :
    ∃ es, (ips.foldl (dnsCacheStore name) d).stored = d.stored ++ es ∧
      (∀ e ∈ es, e.name = strncpy name 127) ∧ (ips = [] → es = []) := by
  induction ips generalizing d with
  | nil => exact ⟨[], by simp⟩
  | cons ip ips ih =>
    obtain ⟨first, appended, named⟩ := dnsCacheStore_stored name d ip
    obtain ⟨later, appended', named', _⟩ := ih (dnsCacheStore name d ip)
    refine ⟨first ++ later, ?_, ?_, by simp⟩
    · rw [List.foldl_cons, appended', appended, List.append_assoc]
    · intro e he
      rcases List.mem_append.mp he with he | he
      · exact named e he
      · exact named' e he

end

/-- An id that stands in some slot is found. -/
theorem qtrackGetname_isSome {d : Dns} {i : Fin 8} {qid : UInt16} (here : (d.qtracks i).qid = qid) :
    (qtrackGetname d qid).isSome = true := by
  have found : ∃ j, Slots.first d.qtracks (fun q => q.qid == qid) = some j :=
    Slots.first_exists (beq_iff_eq.mpr here)
  obtain ⟨j, first⟩ := found
  simp [qtrackGetname, first]

/-- The entries one response writes. -/
def responseStores (d : Dns) (srcIp : UInt32) (data : Mem) (len : Int) : List DnsCacheEntry :=
  (dnsOnResponse d srcIp data len).stored.drop d.stored.length

/-- They carry the name found under the id of the response, and the response
has brought an address. -/
theorem responseStores_named {d : Dns} {srcIp : UInt32} {data : Mem} {len : Int}
    {e : DnsCacheEntry} (he : e ∈ responseStores d srcIp data len) :
    (dnsAnswers data len).addresses ≠ [] ∧
      ∃ name, qtrackGetname d (dnsId data) = some name ∧ e.name = strncpy name 127 := by
  have cleared (d : Dns) (b : Bool) (id : UInt16) :
      (if b then qtrackClear d id else d).stored = d.stored := by split <;> rfl
  simp only [responseStores, dnsOnResponse, cleared] at he
  cases found : qtrackGetname d (dnsId data) with
  | none => simp [found] at he
  | some name =>
    obtain ⟨es, appended, named, empty⟩ :=
      foldl_dnsCacheStore_stored name d (dnsAnswers data len).addresses
    simp only [found, appended, List.drop_left] at he
    refine ⟨fun nothing => ?_, name, rfl, named e he⟩
    simp [empty nothing] at he

/-- A response changes no track except by clearing those with its id. -/
theorem dnsOnResponse_qtracks (d : Dns) (srcIp : UInt32) (data : Mem) (len : Int) :
    (dnsOnResponse d srcIp data len).qtracks =
      if (dnsAnswers data len).finished then (qtrackClear d (dnsId data)).qtracks
      else d.qtracks := by
  have same : (match qtrackGetname d (dnsId data) with
      | some name => (dnsAnswers data len).addresses.foldl (dnsCacheStore name) d
      | none => d).qtracks = d.qtracks := by
    split
    · exact foldl_dnsCacheStore_qtracks ..
    · rfl
  simp only [dnsOnResponse]
  split
  · simp only [qtrackClear, same]
  · exact same

end MyOS
