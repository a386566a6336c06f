import MyOS.Dns.PackName
import MyOS.Dns.Table

/-!
# The buffer of a query

`dns_query_async` with the writes to its buffer. It gives `pack_name` all that is
left behind the header, and then appends four bytes more.
-/

namespace MyOS.Query

open Prefixed
open PackName (labels packName_fits packName_unfit packName_within packName_eq)

structure Queried where
  buf : Written
  /-- The query passed to `net_send_udp_ipv4`. -/
  sent : Option (List UInt8)
  kernel : Kernel
  ret : Int

def header (id : UInt16) : List UInt8 :=
  [(id >>> 8).toUInt8, (id &&& 0xFF).toUInt8, 0x01, 0x00, 0x00, 0x01, 0x00, 0x00, 0x00, 0x00,
    0x00, 0x00]

/-- Type A and class IN. -/
def question : List UInt8 := [0x00, 0x01, 0x00, 0x01]

/-- What follows `int n = pack_name(name, buf + off, sizeof(buf) - off);`. -/
def afterPack (k : Kernel) (name : Name) (id : UInt16) (buf : Written) (n : Int) : Queried :=
  let dns := { k.dns with qidCounter := id }
  if n < 0 then ⟨buf, none, { k with dns }, 0⟩
  else
    let off := 12 + n.toNat
    let buf := buf.copy off question
    let query := buf.bytes.load 0 (off + 4)
    ⟨buf, some query,
      { k with
        dns := qtrackAdd dns id name
        net := netSendUdpIpv4 k.net 0x0A000203 53 50000 query }, 1⟩

/-- `dns_query_async`, where `stack` is the memory from its buffer on. -/
def dnsQueryAsync (k : Kernel) (name : Name) (stack : Mem) : Queried :=
  match dnsGetCached k.dns name with
  | some _ => ⟨⟨stack, []⟩, none, k, 1⟩
  | none =>
    let id := k.dns.qidCounter + 1
    let buf := Written.copy ⟨stack, []⟩ 0 (header id)
    let (buf, n) := PackName.packName name buf 12 (512 - 12)
    afterPack k name id buf n

/-- No write leaves the buffer of 512 bytes; and nothing is recorded or sent, or a
query that fits goes out. -/
structure Safe (k : Kernel) (name : Name) (stack : Mem) : Prop where
  inside : ∀ i ∈ (dnsQueryAsync k name stack).buf.places, i < 512
  outcome : ((dnsQueryAsync k name stack).ret = 0 ∧ (dnsQueryAsync k name stack).sent = none ∧
      (dnsQueryAsync k name stack).kernel.dns.qtracks = k.dns.qtracks ∧
      (dnsQueryAsync k name stack).kernel.net = k.net) ∨
    ∃ query start, (dnsQueryAsync k name stack).sent = some query ∧ query.length ≤ 512 ∧
      query = start ++ encode (labels name) ++ question ∧ start.length = 12

section
variable {k : Kernel} {name : Name} (stack : Mem)

/-! ## The three ways out -/

theorem query_cached {ip : UInt32} (cached : dnsGetCached k.dns name = some ip) :
    dnsQueryAsync k name stack = ⟨⟨stack, []⟩, none, k, 1⟩ := by
  unfold dnsQueryAsync
  rw [cached]

/-- The buffer with the header. -/
def started (k : Kernel) : Written := Written.copy ⟨stack, []⟩ 0 (header (k.dns.qidCounter + 1))

theorem query_packed (uncached : dnsGetCached k.dns name = none) :
    dnsQueryAsync k name stack = afterPack k name (k.dns.qidCounter + 1)
      (PackName.packName name (started stack k) 12 500).1
      (PackName.packName name (started stack k) 12 500).2 := by
  unfold dnsQueryAsync
  rw [uncached]
  rfl

theorem query_unfit (uncached : dnsGetCached k.dns name = none)
    (unfit : ¬ (Fits 63 (labels name) ∧ size (labels name) ≤ 500)) :
    dnsQueryAsync k name stack = ⟨(PackName.packName name (started stack k) 12 500).1, none,
      { k with dns := { k.dns with qidCounter := k.dns.qidCounter + 1 } }, 0⟩ := by
  rw [query_packed stack uncached, packName_unfit unfit, afterPack, if_pos (by decide)]

/-- The bytes up to the end of the question. -/
theorem query_bytes (fits : Fits 63 (labels name)) (room : size (labels name) ≤ 500) :
    ((PackName.packName name (started stack k) 12 500).1.copy (12 + size (labels name))
      question).bytes.load 0 (12 + size (labels name) + 4) =
      header (k.dns.qidCounter + 1) ++ encode (labels name) ++ question := by
  have bytes : (PackName.packName name (started stack k) 12 500).1.bytes =
      (started stack k).bytes.store 12 (encode (labels name)) := (packName_fits fits room).2
  have first : (started stack k).bytes.load 0 12 = header (k.dns.qidCounter + 1) :=
    Mem.load_store stack 0 (header (k.dns.qidCounter + 1))
  have second := Mem.load_store_append (started stack k).bytes (encode (labels name)) 12
  have third := Mem.load_store_append (PackName.packName name (started stack k) 12 500).1.bytes
    question (12 + size (labels name))
  rw [first, length_encode, ← bytes] at second
  rw [second] at third
  exact third

theorem query_fits (uncached : dnsGetCached k.dns name = none) (fits : Fits 63 (labels name))
    (room : size (labels name) ≤ 500) :
    dnsQueryAsync k name stack =
      ⟨(PackName.packName name (started stack k) 12 500).1.copy (12 + size (labels name)) question,
        some (header (k.dns.qidCounter + 1) ++ encode (labels name) ++ question),
        { k with
          dns := qtrackAdd { k.dns with qidCounter := k.dns.qidCounter + 1 }
            (k.dns.qidCounter + 1) name
          net := netSendUdpIpv4 k.net 0x0A000203 53 50000
            (header (k.dns.qidCounter + 1) ++ encode (labels name) ++ question) }, 1⟩ := by
  have value : (PackName.packName name (started stack k) 12 500).2 = size (labels name) :=
    (packName_fits fits room).1
  rw [query_packed stack uncached, value, afterPack, if_neg (by omega), Int.toNat_natCast]
  dsimp only
  rw [query_bytes stack fits room]

/-- The model of the call in the name tables does the same. -/
theorem dnsQueryAsync_eq (k : Kernel) (name : Name) :
    ((dnsQueryAsync k name stack).kernel, (dnsQueryAsync k name stack).ret) =
      MyOS.dnsQueryAsync k name := by
  have low : ((k.dns.qidCounter + 1) &&& (0xFF : UInt16)).toUInt8 =
      (k.dns.qidCounter + 1).toUInt8 := by
    rw [UInt16.toUInt8_and]
    exact UInt8.and_neg_one
  unfold MyOS.dnsQueryAsync
  cases cached : dnsGetCached k.dns name with
  | some ip => rw [query_cached stack cached]
  | none =>
    dsimp only
    rw [dnsQueryPacket, packName_eq]
    by_cases fit : Fits 63 (labels name) ∧ size (labels name) ≤ 500
    · rw [query_fits stack cached fit.1 fit.2, if_pos fit, Option.map_some, header, low]
      rfl
    · rw [query_unfit stack cached fit, if_neg fit, Option.map_none]

/-! ## The buffer -/

theorem started_within (limit : Nat) (room : 12 ≤ limit) :
    Written.Within (fun i => i < limit) ⟨stack, []⟩ (started stack k) := by
  apply (Written.Within.refl _ _).copy
  intro j _ high
  change j < 0 + 12 at high
  omega

theorem packed_within : Written.Within (fun i => i < 512) ⟨stack, []⟩
    (PackName.packName name (started stack k) 12 500).1 := by
  have packed : Written.Within (fun i => 12 ≤ i ∧ i < 12 + 500) (started stack k)
    (PackName.packName name (started stack k) 12 500).1 := packName_within
  have inside : Written.Within (fun i => i < 512) (started stack k)
      (PackName.packName name (started stack k) 12 500).1 :=
    ⟨fun i mem => (packed.places i mem).imp_right (by omega),
      fun i outside => packed.kept i (by omega)⟩
  exact (started_within stack 512 (by omega)).trans inside

theorem places_of_within {o : Written} {P : Nat → Prop} (h : Written.Within P ⟨stack, []⟩ o) :
    ∀ i ∈ o.places, P i := by
  intro i mem
  rcases h.places i mem with before | here
  · cases before
  · exact here

/-- A name of 497 to 500 bytes leaves no room for the question. -/
theorem query_overruns (uncached : dnsGetCached k.dns name = none) (fits : Fits 63 (labels name))
    (long : 496 < size (labels name)) (room : size (labels name) ≤ 500) :
    12 + size (labels name) + 3 ∈ (dnsQueryAsync k name stack).buf.places ∧
      512 ≤ 12 + size (labels name) + 3 := by
  rw [query_fits stack uncached fits room]
  refine ⟨Written.mem_places_copy (by omega) ?_, by omega⟩
  change 12 + size (labels name) + 3 < 12 + size (labels name) + 4
  omega

/-- The call is safe if and only if the name is not cached and its encoding is not
one of 497 to 500 bytes. -/
theorem safe_iff (k : Kernel) (name : Name) (stack : Mem) : Safe k name stack ↔
    dnsGetCached k.dns name = none ∧
      ¬ (Fits 63 (labels name) ∧ 497 ≤ size (labels name) ∧ size (labels name) ≤ 500) := by
  constructor
  · intro safe
    have uncached : dnsGetCached k.dns name = none := by
      cases cached : dnsGetCached k.dns name with
      | none => rfl
      | some ip =>
        have outcome := safe.outcome
        rw [query_cached stack cached] at outcome
        rcases outcome with ⟨zero, -⟩ | ⟨query, start, sent, -⟩
        · cases zero
        · cases sent
    refine ⟨uncached, ?_⟩
    rintro ⟨fits, long, room⟩
    obtain ⟨mem, outside⟩ := query_overruns stack uncached fits long room
    have inside := safe.inside _ mem
    omega
  · rintro ⟨uncached, short⟩
    by_cases fit : Fits 63 (labels name) ∧ size (labels name) ≤ 500
    · have room : size (labels name) ≤ 496 := by
        by_contra long
        exact short ⟨fit.1, by omega, fit.2⟩
      have query := query_fits stack uncached fit.1 fit.2
      have within : Written.Within (fun i => i < 512) ⟨stack, []⟩
          ((PackName.packName name (started stack k) 12 500).1.copy (12 + size (labels name))
            question) := by
        apply (packed_within stack).copy
        intro j _ high
        change j < 12 + size (labels name) + 4 at high
        omega
      constructor
      · rw [query]
        exact places_of_within stack within
      · right
        refine ⟨_, header (k.dns.qidCounter + 1), by rw [query], ?_, rfl, rfl⟩
        rw [List.length_append, List.length_append, length_encode]
        change 12 + size (labels name) + 4 ≤ 512
        omega
    · have query := query_unfit stack uncached fit
      constructor
      · rw [query]
        exact places_of_within stack (packed_within stack)
      · left
        rw [query]
        exact ⟨rfl, rfl, rfl, rfl⟩

/-- Seven labels of 63 characters and one of 47. -/
def longest : Name :=
  (List.replicate 7 (List.replicate 63 97 ++ [46])).flatten ++ List.replicate 47 97

theorem longest_unsafe : ¬ Safe .boot longest fun _ => 0 := by
  intro safe
  have fits : Fits 63 (labels longest) := by decide +kernel
  have value : size (labels longest) = 497 := by decide +kernel
  obtain ⟨mem, outside⟩ := query_overruns (k := .boot) (fun _ => 0) (by decide +kernel) fits
    (by omega) (by omega)
  have inside := safe.inside _ mem
  omega

end

end MyOS.Query
