import MyOS.Base.Memory

/-!
dns.c: the bytes of a query, and the walk over a response. The walk reads the
message only; which table entries it leads to is decided in `Dns.Table`.
-/

namespace MyOS

/-- The loop of `pack_name` over the labels between the dots. It ends without
error behind a trailing dot, where the rest of the name is empty. -/
def packLabels (cap : Nat) : List (List UInt8) → List UInt8 → Option (List UInt8)
  | [], out => if cap ≤ out.length then none else some (out ++ [0])
  | label :: rest, out =>
    if (label = [] ∧ rest = []) ∨ cap ≤ out.length then
      if cap ≤ out.length then none else some (out ++ [0])
    else if label.length = 0 ∨ 63 < label.length then none
    else if cap ≤ out.length + 1 + label.length then none
    else packLabels cap rest (out ++ label.length.toUInt8 :: label)

def packName (name : List UInt8) (cap : Nat) : Option (List UInt8) :=
  packLabels cap (name.splitOn 46) []

/-- The packet `dns_query_async` builds in its buffer of 512 bytes. -/
def dnsQueryPacket (id : UInt16) (name : List UInt8) : Option (List UInt8) :=
  (packName name 500).map fun packed =>
    [(id >>> 8).toUInt8, id.toUInt8, 1, 0, 0, 1, 0, 0, 0, 0, 0, 0] ++ packed ++ [0, 1, 0, 1]

/-! ## Reading a response -/

/-- `(data[off] << 8) | data[off + 1]` -/
def be16 (data : Mem) (off : Nat) : UInt16 :=
  (data off).toUInt16 <<< 8 ||| (data (off + 1)).toUInt16

/-- `(data[off] << 24) | ... | data[off + 3]` -/
def be32 (data : Mem) (off : Nat) : UInt32 :=
  (data off).toUInt32 <<< 24 ||| (data (off + 1)).toUInt32 <<< 16 |||
    (data (off + 2)).toUInt32 <<< 8 ||| (data (off + 3)).toUInt32

/-- `while (off < len && data[off] != 0) off += 1 + data[off];` -/
def skipLabels (data : Mem) (len : Int) : Nat → Nat → Nat
  | 0, off => off
  | fuel + 1, off =>
    if (off : Int) < len ∧ data off ≠ 0 then skipLabels data len fuel (off + (1 + (data off).toNat))
    else off

/-- Every turn of the loop moves `off`, so `len` turns are enough. -/
theorem skipLabels_done (data : Mem) (len : Int) (fuel off : Nat) (enough : len ≤ fuel + off) :
    ¬ ((skipLabels data len fuel off : Int) < len ∧ data (skipLabels data len fuel off) ≠ 0) := by
  induction fuel generalizing off with
  | zero =>
    rw [skipLabels]
    rintro ⟨inside, _⟩
    omega
  | succ fuel ih =>
    rw [skipLabels]
    split
    · exact ih _ (by omega)
    · assumption

def skipName (data : Mem) (len : Int) (off : Nat) : Nat := skipLabels data len len.toNat off

/-- The loop over the questions; `none` is the early return. -/
def skipQuestions (data : Mem) (len : Int) : Nat → Nat → Option Nat
  | 0, off => some off
  | qdcount + 1, off =>
    let off := skipName data len off + 1
    if (off : Int) + 4 > len then none else skipQuestions data len qdcount (off + 4)

/-- The addresses of the A records reached, and whether the walk got to the
end of the message. -/
structure DnsAnswers where
  addresses : List UInt32
  finished : Bool
  deriving DecidableEq

/-- The loop over the answers. -/
def walkAnswers (data : Mem) (len : Int) : Nat → Nat → DnsAnswers
  | 0, _ => ⟨[], true⟩
  | ancount + 1, off =>
    if (off : Int) + 12 > len then ⟨[], false⟩
    else
      let off := if data off &&& 0xC0 = 0xC0 then off + 2 else skipName data len off + 1
      if (off : Int) + 10 > len then ⟨[], false⟩
      else
        let atype := be16 data off
        let aclass := be16 data (off + 2)
        let rdlen := be16 data (off + 8)
        let off := off + 10
        if (off : Int) + rdlen.toNat > len then ⟨[], false⟩
        else
          let rest := walkAnswers data len ancount (off + rdlen.toNat)
          if atype = 1 ∧ aclass = 1 ∧ rdlen = 4 then
            { rest with addresses := be32 data off :: rest.addresses }
          else rest

def dnsId (data : Mem) : UInt16 := be16 data 0

def dnsAnswers (data : Mem) (len : Int) : DnsAnswers :=
  if len < 12 then ⟨[], false⟩
  else match skipQuestions data len (be16 data 4).toNat 12 with
    | none => ⟨[], false⟩
    | some off => walkAnswers data len (be16 data 6).toNat off

end MyOS
