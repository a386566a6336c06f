import MyOS.Base.Memory

/-! endian.h: byte order on the little-endian target and the Internet checksum. -/

namespace MyOS

def htons (x : UInt16) : UInt16 := x <<< 8 ||| x >>> 8

def ntohs (x : UInt16) : UInt16 := htons x

def htonl (x : UInt32) : UInt32 :=
  (x &&& 0x000000FF) <<< 24 ||| (x &&& 0x0000FF00) <<< 8 |||
    (x &&& 0x00FF0000) >>> 8 ||| (x &&& 0xFF000000) >>> 24

def ntohl (x : UInt32) : UInt32 := htonl x

/-! ## Words as bytes -/

theorem or_shift (a b i : Nat) (h : a < 2 ^ i) : a ||| b <<< i = a + b * 2 ^ i := by
  rw [Nat.or_comm, ← Nat.shiftLeft_add_eq_or_of_lt h, Nat.shiftLeft_eq, Nat.add_comm]

theorem and_byteMask (x k : Nat) : x &&& 255 <<< k = (x / 2 ^ k % 256) <<< k := by
  apply Nat.eq_of_testBit_eq
  intro i
  have bits (j : Nat) : Nat.testBit 255 j = decide (j < 8) := by
    simpa using Nat.testBit_two_pow_sub_one 8 j
  rw [Nat.testBit_and, Nat.testBit_shiftLeft, Nat.testBit_shiftLeft, bits,
    show 256 = 2 ^ 8 from rfl, Nat.testBit_mod_two_pow, Nat.testBit_div_two_pow]
  by_cases h : k ≤ i
  · simp [h, Bool.and_comm]
  · simp [h]

theorem toNat_load16 (m : Mem) (off : Nat) :
    (m.load16 off).toNat = (m off).toNat + (m (off + 1)).toNat * 256 := by
  have low := (m off).toNat_lt
  have high := (m (off + 1)).toNat_lt
  have fits : (m (off + 1)).toNat <<< 8 % 65536 = (m (off + 1)).toNat <<< 8 := by
    rw [Nat.shiftLeft_eq]; omega
  have join := or_shift (m off).toNat (m (off + 1)).toNat 8 (by omega)
  simpa [Mem.load16, fits] using join

theorem toNat_load32 (m : Mem) (off : Nat) :
    (m.load32 off).toNat = (m off).toNat + (m (off + 1)).toNat * 256 +
      (m (off + 2)).toNat * 65536 + (m (off + 3)).toNat * 16777216 := by
  have b0 := (m off).toNat_lt
  have b1 := (m (off + 1)).toNat_lt
  have b2 := (m (off + 2)).toNat_lt
  have b3 := (m (off + 3)).toNat_lt
  have s1 : (m (off + 1)).toNat <<< 8 % 4294967296 = (m (off + 1)).toNat <<< 8 := by
    rw [Nat.shiftLeft_eq]; omega
  have s2 : (m (off + 2)).toNat <<< 16 % 4294967296 = (m (off + 2)).toNat <<< 16 := by
    rw [Nat.shiftLeft_eq]; omega
  have s3 : (m (off + 3)).toNat <<< 24 % 4294967296 = (m (off + 3)).toNat <<< 24 := by
    rw [Nat.shiftLeft_eq]; omega
  simp only [Mem.load32, UInt32.toNat_or, UInt32.toNat_shiftLeft, UInt8.toNat_toUInt32,
    UInt32.toNat_ofNat, Nat.reducePow, Nat.reduceMod, s1, s2, s3]
  rw [or_shift _ _ 8 (by omega), or_shift _ _ 16 (by omega), or_shift _ _ 24 (by omega)]
  omega

theorem toNat_htons (x : UInt16) : (htons x).toNat = x.toNat % 256 * 256 + x.toNat / 256 := by
  have := x.toNat_lt
  have join := or_shift (x.toNat / 256) (x.toNat % 256) 8 (by omega)
  have high : x.toNat <<< 8 % 65536 = (x.toNat % 256) <<< 8 := by
    simp only [Nat.shiftLeft_eq]; omega
  have low : x.toNat >>> 8 = x.toNat / 256 := by rw [Nat.shiftRight_eq_div_pow]
  rw [htons, UInt16.toNat_or, Nat.or_comm]
  simp only [UInt16.toNat_shiftLeft, UInt16.toNat_shiftRight, UInt16.toNat_ofNat, Nat.reducePow,
    Nat.reduceMod, high, low]
  omega

theorem toNat_htonl (x : UInt32) :
    (htonl x).toNat = x.toNat % 256 * 16777216 + x.toNat / 256 % 256 * 65536 +
      x.toNat / 65536 % 256 * 256 + x.toNat / 16777216 := by
  have := x.toNat_lt
  have m0 := and_byteMask x.toNat 0
  have m1 := and_byteMask x.toNat 8
  have m2 := and_byteMask x.toNat 16
  have m3 := and_byteMask x.toNat 24
  simp only [Nat.shiftLeft_eq, Nat.reducePow, Nat.reduceMul, Nat.div_one, Nat.mul_one]
    at m0 m1 m2 m3
  have value : (htonl x).toNat = (x.toNat % 256) <<< 24 ||| (x.toNat / 256 % 256) <<< 16 |||
      (x.toNat / 65536 % 256) <<< 8 ||| x.toNat / 16777216 := by
    simp only [htonl, UInt32.toNat_or, UInt32.toNat_shiftLeft, UInt32.toNat_shiftRight,
      UInt32.toNat_and, UInt32.toNat_ofNat, Nat.shiftLeft_eq, Nat.shiftRight_eq_div_pow,
      Nat.reducePow, Nat.reduceMod, m0, m1, m2, m3]
    congr 1
    · congr 1
      · congr 1 <;> omega
      · omega
    · omega
  have reorder (a b c d : Nat) : a ||| b ||| c ||| d = d ||| c ||| b ||| a := by ac_rfl
  rw [value, reorder, or_shift _ _ 8 (by omega), or_shift _ _ 16 (by omega),
    or_shift _ _ 24 (by omega)]
  omega

@[simp] theorem ntohs_htons (x : UInt16) : ntohs (htons x) = x := by
  apply UInt16.toNat_inj.mp
  have := x.toNat_lt
  rw [ntohs, toNat_htons, toNat_htons]
  omega

theorem digits_of_sum {a b c d : Nat} (hb : b < 256) (hc : c < 256) (hd : d < 256) :
    let y := a * 16777216 + b * 65536 + c * 256 + d
    y % 256 = d ∧ y / 256 % 256 = c ∧ y / 65536 % 256 = b ∧ y / 16777216 = a := by
  dsimp only
  refine ⟨?_, ?_, ?_, ?_⟩ <;> omega

theorem sum_of_digits (x : Nat) :
    x / 16777216 * 16777216 + x / 65536 % 256 * 65536 + x / 256 % 256 * 256 + x % 256 = x := by
  omega

@[simp] theorem ntohl_htonl (x : UInt32) : ntohl (htonl x) = x := by
  apply UInt32.toNat_inj.mp
  have swapped := toNat_htonl x
  obtain ⟨y0, y1, y2, y3⟩ := digits_of_sum (a := x.toNat % 256) (b := x.toNat / 256 % 256)
    (c := x.toNat / 65536 % 256) (d := x.toNat / 16777216)
    (by omega) (by omega) (by have := x.toNat_lt; omega)
  rw [← swapped] at y0 y1 y2 y3
  rw [ntohl, toNat_htonl, y0, y1, y2, y3, sum_of_digits]

/-- A word written in native order is read back. -/
theorem load16_bytes16 {m : Mem} {off : Nat} {x : UInt16} (h : m.load off 2 = bytes16 x) :
    m.load16 off = x := by
  simp only [Mem.load_succ, Mem.load_zero, bytes16, List.cons.injEq, and_true] at h
  apply UInt16.toNat_inj.mp
  have := x.toNat_lt
  rw [toNat_load16, h.1, h.2]
  simp only [UInt16.toNat_toUInt8, UInt16.toNat_shiftRight, UInt16.toNat_ofNat,
    Nat.shiftRight_eq_div_pow, Nat.reducePow, Nat.reduceMod]
  omega

theorem load32_bytes32 {m : Mem} {off : Nat} {x : UInt32} (h : m.load off 4 = bytes32 x) :
    m.load32 off = x := by
  simp only [Mem.load_succ, Mem.load_zero, bytes32, List.cons.injEq, and_true] at h
  apply UInt32.toNat_inj.mp
  have := x.toNat_lt
  rw [toNat_load32, h.1, h.2.1, h.2.2.1, h.2.2.2]
  simp only [UInt32.toNat_toUInt8, UInt32.toNat_shiftRight, UInt32.toNat_ofNat,
    Nat.shiftRight_eq_div_pow, Nat.reducePow, Nat.reduceMod]
  omega

/-! ## The checksum -/

/-- The loop over native 16-bit words, with a last odd byte added as it is. -/
def wordSum : List UInt8 → UInt32 → UInt32
  | a :: b :: rest, sum => wordSum rest (sum + (a.toUInt32 ||| b.toUInt32 <<< 8))
  | [a], sum => sum + a.toUInt32
  | [], sum => sum

/-- `while (sum >> 16) sum = (sum & 0xFFFF) + (sum >> 16)`, for at most `turns` turns. -/
def foldCarry : Nat → UInt32 → UInt32
  | 0, sum => sum
  | turns + 1, sum =>
    if sum >>> 16 = 0 then sum else foldCarry turns ((sum &&& (0xFFFF : UInt32)) + (sum >>> 16))

theorem toNat_shift16 (sum : UInt32) : (sum >>> 16).toNat = sum.toNat / 65536 := by
  simp [UInt32.toNat_shiftRight, Nat.shiftRight_eq_div_pow]

theorem toNat_foldStep (sum : UInt32) :
    ((sum &&& (0xFFFF : UInt32)) + (sum >>> 16)).toNat = sum.toNat % 65536 + sum.toNat / 65536 := by
  have low : (sum &&& (0xFFFF : UInt32)).toNat = sum.toNat % 65536 := by
    simpa using Nat.and_two_pow_sub_one_eq_mod sum.toNat 16
  have := sum.toNat_lt
  rw [UInt32.toNat_add, low, toNat_shift16]
  omega

/-- Two turns exhaust the loop: a third would find no carry left. -/
theorem foldCarry_two (sum : UInt32) : foldCarry 2 sum >>> 16 = 0 := by
  have small (x : UInt32) : x >>> 16 = 0 ↔ x.toNat < 65536 := by
    rw [← UInt32.toNat_inj, toNat_shift16]
    simp only [UInt32.toNat_zero]
    omega
  have := sum.toNat_lt
  simp only [foldCarry]
  split
  · assumption
  · have once := toNat_foldStep sum
    split
    · assumption
    · rename_i carry
      rw [small] at carry ⊢
      rw [toNat_foldStep, once]
      omega

/-- The ones'-complement checksum both net.c and tcp.c compute. -/
def onesComplementSum (data : List UInt8) : UInt16 :=
  ~~~(foldCarry 2 (wordSum data 0)).toUInt16

def ipChecksum (data : List UInt8) : UInt16 := onesComplementSum data

end MyOS
