import MyOS.Base.OnesComplement
import MyOS.Tcp.Socket

/-!
# The Internet checksum

RFC 1071 sums big-endian words. The code sums words in native order and stores
the result in native order, which comes to the same.
-/

namespace MyOS.Checksum

open OnesComplement

/-- The data as big-endian words, an odd byte padded with a zero. -/
def bigEndianWords : List UInt8 → List Nat
  | a :: b :: rest => (a.toNat * 256 + b.toNat) :: bigEndianWords rest
  | [a] => [a.toNat * 256]
  | [] => []

/-- The complement of the sum, as RFC 1071 has it. -/
def internetChecksum (data : List UInt8) : Nat := 65535 - sum 65536 (bigEndianWords data)

theorem bigEndianWords_lt (data : List UInt8) : ∀ w ∈ bigEndianWords data, w < 65536 := by
  fun_induction bigEndianWords data with
  | case1 a b rest ih =>
    have high := a.toNat_lt
    have low := b.toNat_lt
    intro w mem
    rcases List.mem_cons.mp mem with rfl | mem
    · omega
    · exact ih w mem
  | case2 a =>
    have high := a.toNat_lt
    intro w mem
    rw [List.mem_singleton] at mem
    omega
  | case3 =>
    intro w mem
    cases mem

theorem internetChecksum_eq (data : List UInt8) :
    internetChecksum data = 65535 - word 65536 (bigEndianWords data).sum := by
  rw [internetChecksum, sum_eq_word (by decide) (bigEndianWords_lt data)]

/-- At an even offset a pair of bytes is a word. -/
theorem bigEndianWords_append {pre : List UInt8} (even : pre.length % 2 = 0) (data : List UInt8) :
    bigEndianWords (pre ++ data) = bigEndianWords pre ++ bigEndianWords data := by
  fun_induction bigEndianWords pre with
  | case1 a b rest ih =>
    rw [List.length_cons, List.length_cons] at even
    exact congrArg ((a.toNat * 256 + b.toNat) :: ·) (ih (by omega))
  | case2 a => cases even
  | case3 => rfl

/-! ## The loops -/

theorem toNat_native (a b : UInt8) :
    (a.toUInt32 ||| b.toUInt32 <<< 8).toNat = b.toNat * 256 + a.toNat := by
  have low := a.toNat_lt
  have high := b.toNat_lt
  have fits : b.toNat <<< 8 % 4294967296 = b.toNat <<< 8 := by
    rw [Nat.shiftLeft_eq]
    omega
  have join := or_shift a.toNat b.toNat 8 (by omega)
  have value : (a.toUInt32 ||| b.toUInt32 <<< 8).toNat = a.toNat ||| b.toNat <<< 8 := by
    simp [fits]
  omega

/-- Short data cannot overflow the accumulator, which sums the words with their
bytes exchanged. -/
theorem toNat_wordSum {data : List UInt8} {s : UInt32}
    (fits : s.toNat + 65535 * data.length < 4294967296) :
    (wordSum data s).toNat = s.toNat + ((bigEndianWords data).map (swap 256)).sum := by
  fun_induction wordSum data s with
  | case1 a b rest s ih =>
    have low := a.toNat_lt
    have high := b.toNat_lt
    have next : (s + (a.toUInt32 ||| b.toUInt32 <<< 8)).toNat =
        s.toNat + (b.toNat * 256 + a.toNat) := by
      rw [List.length_cons, List.length_cons] at fits
      rw [UInt32.toNat_add, toNat_native]
      exact Nat.mod_eq_of_lt (by omega)
    have swapped : swap 256 (a.toNat * 256 + b.toNat) = b.toNat * 256 + a.toNat := swap_pair high
    rw [ih (by rw [next]; simp only [List.length_cons] at fits; omega), next, bigEndianWords,
      List.map_cons, List.sum_cons, swapped]
    omega
  | case2 a s =>
    have low := a.toNat_lt
    have swapped : swap 256 (a.toNat * 256) = a.toNat := by
      have pair : swap 256 (a.toNat * 256 + 0) = 0 * 256 + a.toNat := swap_pair (by decide)
      rwa [Nat.add_zero, Nat.zero_mul, Nat.zero_add] at pair
    have value : (s + a.toUInt32).toNat = s.toNat + a.toNat := by
      rw [List.length_singleton] at fits
      rw [UInt32.toNat_add, UInt8.toNat_toUInt32]
      exact Nat.mod_eq_of_lt (by omega)
    rw [value, bigEndianWords, List.map_singleton, List.sum_singleton, swapped]
  | case3 s => rfl

theorem word_foldCarry (turns : Nat) (s : UInt32) :
    word 65536 (foldCarry turns s).toNat = word 65536 s.toNat := by
  induction turns generalizing s with
  | zero => rfl
  | succ turns ih =>
    rw [foldCarry]
    split
    · rfl
    · rw [ih, toNat_foldStep]
      exact word_fold (by decide) s.toNat

theorem toNat_foldCarry (s : UInt32) : (foldCarry 2 s).toNat = word 65536 s.toNat := by
  have done := congrArg UInt32.toNat (foldCarry_two s)
  rw [toNat_shift16] at done
  have below : (foldCarry 2 s).toNat < 65536 := by
    have := (foldCarry 2 s).toNat_lt
    rw [UInt32.toNat_zero] at done
    omega
  rw [← word_foldCarry 2 s, word_of_lt below]

/-! ## The checksum -/

theorem toNat_onesComplementSum {data : List UInt8} (short : data.length ≤ 65535) :
    (onesComplementSum data).toNat = swap 256 (internetChecksum data) := by
  have fits : (0 : UInt32).toNat + 65535 * data.length < 4294967296 := by
    rw [UInt32.toNat_zero]
    omega
  have total := toNat_wordSum fits
  rw [UInt32.toNat_zero, Nat.zero_add] at total
  have folded := toNat_foldCarry (wordSum data 0)
  rw [total, word_sum_swap (b := 256) (by decide)] at folded
  have below : word 65536 (bigEndianWords data).sum < 256 * 256 := word_lt (by decide) _
  rw [onesComplementSum, UInt16.toNat_not, UInt32.toNat_toUInt16, folded,
    Nat.mod_eq_of_lt (swap_lt below), internetChecksum_eq]
  exact (swap_complement below).symm

theorem internetChecksum_lt (data : List UInt8) : internetChecksum data < 65536 := by
  unfold internetChecksum
  omega

/-- A word stored in native order, read in big-endian order. -/
theorem bigEndianWords_bytes16 (x : UInt16) : bigEndianWords (bytes16 x) = [swap 256 x.toNat] := by
  have := x.toNat_lt
  have low : x.toUInt8.toNat = x.toNat % 256 := by simp
  have high : (x >>> 8).toUInt8.toNat = x.toNat / 256 := by
    simp only [UInt16.toNat_toUInt8, UInt16.toNat_shiftRight, UInt16.toNat_ofNat,
      Nat.shiftRight_eq_div_pow, Nat.reducePow, Nat.reduceMod]
    omega
  simp only [bytes16, bigEndianWords, low, high, swap]

theorem stored {data : List UInt8} (short : data.length ≤ 65535) :
    bigEndianWords (bytes16 (onesComplementSum data)) = [internetChecksum data] := by
  rw [bigEndianWords_bytes16, toNat_onesComplementSum short, swap_swap (internetChecksum_lt data)]

/-- Put into its place, where two zeros have stood, it makes the checksum zero. -/
theorem verifies {pre post : List UInt8} (even : pre.length % 2 = 0)
    (short : (pre ++ 0 :: 0 :: post).length ≤ 65535) :
    internetChecksum (pre ++ bytes16 (onesComplementSum (pre ++ 0 :: 0 :: post)) ++ post) = 0 := by
  have pair (x y : UInt8) (rest : List UInt8) :
      (bigEndianWords (x :: y :: rest)).sum =
        (bigEndianWords [x, y]).sum + (bigEndianWords rest).sum := by
    simp only [bigEndianWords, List.sum_cons, List.sum_nil, Nat.add_zero]
  have blank : (bigEndianWords (pre ++ 0 :: 0 :: post)).sum =
      (bigEndianWords pre).sum + (bigEndianWords post).sum := by
    rw [bigEndianWords_append even, List.sum_append, pair]
    exact congrArg _ (Nat.zero_add _)
  have field := congrArg List.sum (stored short)
  rw [List.sum_singleton, internetChecksum_eq, blank] at field
  have filled : (bigEndianWords (pre ++ bytes16 (onesComplementSum (pre ++ 0 :: 0 :: post)) ++
      post)).sum = (bigEndianWords pre).sum + (bigEndianWords post).sum + (65535 -
        word 65536 ((bigEndianWords pre).sum + (bigEndianWords post).sum)) := by
    rw [List.append_assoc, bigEndianWords_append even, List.sum_append, ← field]
    rw [show bytes16 (onesComplementSum (pre ++ 0 :: 0 :: post)) ++ post =
      (onesComplementSum (pre ++ 0 :: 0 :: post)).toUInt8 ::
      (onesComplementSum (pre ++ 0 :: 0 :: post) >>> 8).toUInt8 :: post from rfl, pair]
    change _ + ((bigEndianWords (bytes16 _)).sum + _) = _
    omega
  rw [internetChecksum_eq, filled, word_complement (by decide)]

theorem verifies_native {data : List UInt8} (short : data.length ≤ 65535)
    (zero : internetChecksum data = 0) : onesComplementSum data = 0 := by
  apply UInt16.toNat_inj.mp
  rw [toNat_onesComplementSum short, zero]
  rfl

/-! ## What is sent -/

/-- The header `net_send_ip` builds carries its checksum in bytes 10 and 11. -/
theorem ipHeader_verifies (netif : NetIf) (dstIp : UInt32) (proto : UInt8) (payloadLen : Nat) :
    internetChecksum (ipHeader netif dstIp proto payloadLen
      (ipChecksum (ipHeader netif dstIp proto payloadLen 0))) = 0 := by
  let pre := [0x45, 0] ++ bytes16 (htons (20 + payloadLen).toUInt16) ++ bytes16 (htons 1) ++
    bytes16 0 ++ [64, proto]
  let post := bytes32 (htonl netif.ip) ++ bytes32 (htonl dstIp)
  have split (c : UInt16) : ipHeader netif dstIp proto payloadLen c = pre ++ bytes16 c ++ post := by
    simp only [ipHeader, pre, post, List.append_assoc]
  have blank : ipHeader netif dstIp proto payloadLen 0 = pre ++ 0 :: 0 :: post := by
    rw [split, List.append_assoc]
    rfl
  have before : pre.length = 10 := rfl
  have behind : post.length = 8 := rfl
  rw [split, blank]
  apply verifies
  · rw [before]
  · simp only [List.length_append, List.length_cons, before, behind]
    omega

/-- The pseudo header has 12 bytes, and the checksum of the TCP header stands 16
bytes behind it. -/
theorem tcpSegment_verifies (s : TcpSocket) (flags : UInt8) {payload : List UInt8}
    (short : payload.length ≤ 1460) :
    internetChecksum (pseudoHeader s payload.length ++ tcpSegment s flags payload) = 0 := by
  let pre := pseudoHeader s payload.length ++ (bytes16 (htons s.localPort) ++
    bytes16 (htons s.remotePort) ++ bytes32 (htonl s.sndNxt) ++ bytes32 (htonl s.rcvNxt) ++
    [0x50, flags] ++ bytes16 (htons 4096))
  let post := bytes16 0 ++ payload
  have split (c : UInt16) : pseudoHeader s payload.length ++ tcpHeader s flags c ++ payload =
      pre ++ bytes16 c ++ post := by
    simp only [tcpHeader, pre, post, List.append_assoc]
  have blank : pseudoHeader s payload.length ++ tcpHeader s flags 0 ++ payload =
      pre ++ 0 :: 0 :: post := by
    rw [split, List.append_assoc]
    rfl
  have size : pre.length = 28 := rfl
  rw [tcpSegment, ← List.append_assoc, split, csum16, blank]
  apply verifies
  · rw [size]
  · simp only [List.length_append, List.length_cons, size, post, length_bytes16]
    omega

/-- The checksum of both files is the one of RFC 1071, and what they send passes it. -/
theorem checksum_rfc1071 :
    (∀ data : List UInt8, data.length ≤ 65535 →
      bigEndianWords (bytes16 (ipChecksum data)) = [internetChecksum data] ∧
        csum16 data = ipChecksum data) ∧
    (∀ pre post : List UInt8, pre.length % 2 = 0 → (pre ++ 0 :: 0 :: post).length ≤ 65535 →
      ipChecksum (pre ++ bytes16 (ipChecksum (pre ++ 0 :: 0 :: post)) ++ post) = 0) ∧
    (∀ n dstIp proto payload mac, arpLookup n (nextHop n.netif dstIp) = some mac →
      ∃ header, header.length = 20 ∧
        (netSendIp n dstIp proto payload).tx = n.tx ++
          [mac.toList ++ n.netif.mac.toList ++ bytes16 (htons 0x0800) ++ header ++ payload] ∧
        internetChecksum header = 0) ∧
    (∀ (k : Kernel) (s : SockRef) flags payload, payload.length ≤ 1460 →
      ∃ seg, (tcpSendSegment k s flags payload).tcp.sent =
          k.tcp.sent ++ [⟨(k.sock s).remoteIp, 6, seg⟩] ∧
        internetChecksum (pseudoHeader (k.sock s) payload.length ++ seg) = 0) := by
  refine ⟨?_, ?_, ?_, ?_⟩
  · intro data short
    exact ⟨stored short, rfl⟩
  · intro pre post even short
    apply verifies_native
    · simp only [List.length_append, List.length_cons, length_bytes16] at short ⊢
      omega
    · exact verifies even short
  · intro n dstIp proto payload mac known
    refine ⟨_, rfl, ?_, ipHeader_verifies n.netif dstIp proto payload.length⟩
    rw [netSendIp_resolved proto payload known]
    rfl
  · intro k s flags payload short
    exact ⟨_, rfl, tcpSegment_verifies (k.sock s) flags short⟩

theorem checksum_rfc1071_boot :
    bigEndianWords (bytes16 (ipChecksum [1, 2, 3])) = [internetChecksum [1, 2, 3]] ∧
      ipChecksum ([1, 2] ++ bytes16 (ipChecksum [1, 2, 0, 0, 3]) ++ [3]) = 0 ∧
      (∃ header, header.length = 20 ∧
        (netSendIp (arpStore .boot 0x0A000202 bcast) 0x0A000202 17 [1]).tx = [] ++
          [bcast.toList ++ List.replicate 6 0 ++ bytes16 (htons 0x0800) ++ header ++ [1]] ∧
        internetChecksum header = 0) ∧
      ∃ seg, (tcpSendSegment .boot .gSock 0x18 [1]).tcp.sent = [] ++ [⟨0, 6, seg⟩] ∧
        internetChecksum (pseudoHeader (Kernel.boot.sock .gSock) 1 ++ seg) = 0 := by
  have known : arpLookup (arpStore .boot 0x0A000202 bcast)
      (nextHop (arpStore .boot 0x0A000202 bcast).netif 0x0A000202) = some bcast := by decide
  exact ⟨(checksum_rfc1071.1 [1, 2, 3] (by decide)).1,
    checksum_rfc1071.2.1 [1, 2] [3] rfl (by decide),
    checksum_rfc1071.2.2.1 _ _ 17 [1] bcast known,
    checksum_rfc1071.2.2.2 .boot .gSock 0x18 [1] (by decide)⟩

end MyOS.Checksum
