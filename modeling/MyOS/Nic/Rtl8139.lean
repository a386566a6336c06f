import Mathlib.Algebra.Order.BigOperators.Group.List
import MyOS.Base.Aligned
import MyOS.Endian

/-!
rtl8139.c: the receive half of the driver, and the card that writes the frames.
-/

namespace MyOS.Rtl8139

def rlRxbuf : Nat := 8192

/-! ## The driver -/

/-- `rx_buf` is a pointer and `ring` the bytes from it on; `isr` and `capr` are
registers. `passed` lists the frames handed to `net_rx` and `headers` the offsets
at which a header has been read; `polling` says that the loop is not done. -/
structure Rx where
  initialized : Bool
  rxBuf : UInt32
  ring : Mem
  rxOff : UInt32
  isr : UInt16
  capr : UInt16
  passed : List (List UInt8)
  headers : List Nat
  polling : Bool

/-- Behind `rtl8139_init`, with the block from `kmalloc` and what stood in it. -/
def Rx.init (buf : UInt32) (ring : Mem) : Rx :=
  { initialized := buf != 0
    rxBuf := buf
    ring
    rxOff := 0
    isr := 0
    capr := 0
    passed := []
    headers := []
    polling := false }

def Rx.status (rx : Rx) : UInt16 := rx.ring.load16 rx.rxOff.toNat

def Rx.plen (rx : Rx) : UInt16 := rx.ring.load16 (rx.rxOff.toNat + 2)

/-- The frame at `rx_off` is handed on; a length below that of the CRC counts as none. -/
def Rx.pass (rx : Rx) : Rx :=
  let rxOff := (rx.rxOff + 4 + rx.plen.toUInt32 + 3) &&& ~~~3
  { rx with
    passed := rx.passed ++ [rx.ring.load (rx.rxOff.toNat + 4) (rx.plen.toNat - 4)]
    rxOff
    capr := (rxOff - 16).toUInt16
    headers := rx.headers ++ [rx.rxOff.toNat] }

/-- The loop, for as many turns as there is fuel. -/
def rxLoop : Nat → Rx → Rx
  | 0, rx => rx
  | fuel + 1, rx =>
    if rx.status &&& 0x01 = 0 then
      { rx with headers := rx.headers ++ [rx.rxOff.toNat], polling := false }
    else rxLoop fuel rx.pass

def rtl8139Poll (fuel : Nat) (rx : Rx) : Rx :=
  if !rx.initialized then rx
  else if rx.rxBuf = 0 then rx
  else if rx.isr = 0 then rx
  else
    -- Writing the bits read clears them.
    let acked := { rx with isr := rx.isr &&& ~~~rx.isr }
    if rx.isr &&& 0x01 != 0 then rxLoop fuel { acked with polling := true } else acked

/-! ## The card -/

/-- A frame received without error. -/
structure Frame where
  status : UInt16
  data : List UInt8
  crc : UInt32
  ok : status &&& 0x01 ≠ 0

namespace Frame

/-- What stands in the ring: the length counts the CRC. -/
def record (f : Frame) : List UInt8 :=
  bytes16 f.status ++ (bytes16 (f.data.length + 4).toUInt16 ++ (f.data ++ bytes32 f.crc))

/-- The next frame starts at a dword. -/
def size (f : Frame) : Nat := Aligned.roundUp 4 (f.data.length + 8)

theorem length_record (f : Frame) : f.record.length = f.data.length + 8 := by
  simp only [record, List.length_append, length_bytes16, length_bytes32]
  omega

theorem size_bounds (f : Frame) : f.record.length ≤ f.size ∧ 8 ≤ f.size ∧ 4 ∣ f.size := by
  rw [length_record, size, Aligned.roundUp]
  omega

end Frame

def bytes (fs : List Frame) : Nat := (fs.map Frame.size).sum

/-- The frames `fs` stand in the ring, the first one at the offset `v` modulo its size. -/
def Layout (ring : Mem) : Nat → List Frame → Prop
  | _, [] => True
  | v, f :: fs => ring.Holds (v % 8192) f.record ∧ Layout ring (v + f.size) fs

section
variable {ring : Mem} {v V : Nat} {f : Frame} {fs gs : List Frame}

@[simp] theorem bytes_nil : bytes [] = 0 := rfl

@[simp] theorem bytes_cons : bytes (f :: fs) = f.size + bytes fs := List.sum_cons

@[simp] theorem bytes_append : bytes (fs ++ gs) = bytes fs + bytes gs := by
  rw [bytes, List.map_append, List.sum_append, bytes, bytes]

theorem bytes_aligned (fs : List Frame) : 4 ∣ bytes fs := by
  induction fs with
  | nil => exact Nat.dvd_zero 4
  | cons f fs ih =>
    rw [bytes_cons]
    exact Nat.dvd_add f.size_bounds.2.2 ih

theorem length_le_bytes (fs : List Frame) : 8 * fs.length ≤ bytes fs := by
  induction fs with
  | nil => exact Nat.le_refl 0
  | cons f fs ih =>
    have := f.size_bounds
    rw [bytes_cons, List.length_cons]
    omega

theorem size_le_bytes (mem : f ∈ fs) : f.size ≤ bytes fs :=
  List.single_le_sum (fun _ _ => Nat.zero_le _) _ (List.mem_map_of_mem mem)

theorem layout_append : Layout ring v (fs ++ [f]) ↔
    Layout ring v fs ∧ ring.Holds ((v + bytes fs) % 8192) f.record := by
  induction fs generalizing v with
  | nil => simp [Layout]
  | cons g fs ih =>
    simp only [List.cons_append, Layout, ih, bytes_cons, Nat.add_assoc, and_assoc]

/-- Within one lap a frame written behind the others does not reach them. -/
theorem layout_store {bs : List UInt8} (laid : Layout ring v fs) (behind : v + bytes fs ≤ V)
    (room : V + bs.length ≤ v + 8192) : Layout (ring.store (V % 8192) bs) v fs := by
  induction fs generalizing v with
  | nil => trivial
  | cons f fs ih =>
    obtain ⟨first, rest⟩ := laid
    have size := f.size_bounds
    rw [bytes_cons] at behind
    refine ⟨?_, ih rest (by omega) (by omega)⟩
    refine (Mem.load_congr ?_).trans first
    intro i inside
    exact Mem.store_outside _ _ _ (by omega)

end

/-! ## Turns of the loop -/

section
variable {rx : Rx} {f : Frame}

/-- A frame below the end of the ring is read as it was written. -/
theorem pass_frame (here : rx.ring.Holds rx.rxOff.toNat f.record) (aligned : 4 ∣ rx.rxOff.toNat)
    (low : rx.rxOff.toNat < 8192) (fits : f.size ≤ 8192) :
    rx.status &&& 0x01 ≠ 0 ∧ rx.pass.passed = rx.passed ++ [f.data] ∧
      rx.pass.rxOff.toNat = rx.rxOff.toNat + f.size := by
  obtain ⟨first, rest⟩ := (Mem.holds_append ..).mp here
  obtain ⟨second, rest⟩ := (Mem.holds_append ..).mp rest
  obtain ⟨third, -⟩ := (Mem.holds_append ..).mp rest
  have short : f.data.length + 8 ≤ 8192 := by
    have size := f.size_bounds.1
    rw [Frame.length_record] at size
    omega
  have status : rx.status = f.status := load16_bytes16 first
  have plen : rx.plen = (f.data.length + 4).toUInt16 := load16_bytes16 second
  have word : rx.plen.toNat = f.data.length + 4 := by
    rw [plen]
    exact UInt16.toNat_ofNat_of_lt'
      (Nat.lt_of_lt_of_le (by omega) (show 8192 ≤ UInt16.size by decide))
  refine ⟨status ▸ f.ok, ?_, ?_⟩
  · have data : rx.ring.load (rx.rxOff.toNat + 4) f.data.length = f.data := third
    rw [Rx.pass, word, Nat.add_sub_cancel, data]
  · have mask : (~~~3 : UInt32).toNat = (2 ^ (32 - 2) - 1) * 2 ^ 2 := rfl
    have sum : (rx.rxOff + 4 + rx.plen.toUInt32 + 3).toNat =
        rx.rxOff.toNat + f.data.length + 11 := by
      simp only [UInt32.toNat_add, UInt16.toNat_toUInt32, word, UInt32.toNat_ofNat]
      omega
    have rounded := Aligned.toNat_and_high (rx.rxOff + 4 + rx.plen.toUInt32 + 3) (by decide) mask
    rw [sum] at rounded
    rw [Frame.size, Aligned.roundUp]
    refine rounded.trans ?_
    omega

/-- One turn of the loop, over the first of the frames laid out. -/
theorem rxLoop_frame {fs : List Frame} (laid : Layout rx.ring rx.rxOff.toNat (f :: fs))
    (aligned : 4 ∣ rx.rxOff.toNat) (low : rx.rxOff.toNat < 8192) (fits : f.size ≤ 8192)
    (fuel : Nat) :
    rxLoop (fuel + 1) rx = rxLoop fuel rx.pass ∧ rx.pass.passed = rx.passed ++ [f.data] ∧
      rx.pass.rxOff.toNat = rx.rxOff.toNat + f.size ∧ 4 ∣ rx.pass.rxOff.toNat ∧
      Layout rx.pass.ring rx.pass.rxOff.toNat fs := by
  obtain ⟨first, rest⟩ := laid
  rw [Nat.mod_eq_of_lt low] at first
  obtain ⟨filled, passed, next⟩ := pass_frame first aligned low fits
  refine ⟨?_, passed, next, ?_, ?_⟩
  · rw [rxLoop, if_neg filled]
  · rw [next]
    exact Nat.dvd_add aligned f.size_bounds.2.2
  · rw [next]
    exact rest

/-- Nothing handed on and no header read is ever forgotten. -/
theorem rxLoop_extends (fuel : Nat) (rx : Rx) : rx.headers <+: (rxLoop fuel rx).headers ∧
    rx.passed <+: (rxLoop fuel rx).passed := by
  induction fuel generalizing rx with
  | zero => exact ⟨List.prefix_refl _, List.prefix_refl _⟩
  | succ fuel ih =>
    rw [rxLoop]
    split
    · exact ⟨List.prefix_append .., List.prefix_refl _⟩
    · obtain ⟨headers, passed⟩ := ih rx.pass
      exact ⟨(List.prefix_append ..).trans headers, (List.prefix_append ..).trans passed⟩

theorem mem_headers {fuel : Nat} (some : 0 < fuel) (rx : Rx) :
    rx.rxOff.toNat ∈ (rxLoop fuel rx).headers := by
  obtain ⟨fuel, rfl⟩ := Nat.exists_eq_add_one_of_ne_zero (Nat.ne_of_gt some)
  have last : rx.rxOff.toNat ∈ rx.headers ++ [rx.rxOff.toNat] :=
    List.mem_append_right _ List.mem_cons_self
  rw [rxLoop]
  split
  · exact last
  · exact (rxLoop_extends fuel rx.pass).1.subset last

/-- The driver behind the frames `fs`, which stand at `rx_off`. -/
structure Behind (rx : Rx) (fs : List Frame) (rx' : Rx) : Prop where
  passed : rx'.passed = rx.passed ++ fs.map Frame.data
  rxOff : rx'.rxOff.toNat = rx.rxOff.toNat + bytes fs
  headers : ∀ h ∈ rx'.headers, h ∈ rx.headers ∨ h < 8192
  same : rx'.ring = rx.ring ∧ rx'.initialized = rx.initialized ∧ rx'.rxBuf = rx.rxBuf ∧
    rx'.isr = rx.isr

/-- A loop that finds the frames in the ring hands on all of them, if they end
below its end and no frame seems to stand behind them. -/
theorem rxLoop_all {fs : List Frame} (laid : Layout rx.ring rx.rxOff.toNat fs)
    (aligned : 4 ∣ rx.rxOff.toNat) (low : rx.rxOff.toNat + bytes fs < 8192)
    (quiet : rx.ring.load16 (rx.rxOff.toNat + bytes fs) &&& 0x01 = 0) {fuel : Nat}
    (enough : fs.length < fuel) :
    Behind rx fs (rxLoop fuel rx) ∧ (rxLoop fuel rx).polling = false := by
  induction fs generalizing rx fuel with
  | nil =>
    obtain ⟨fuel, rfl⟩ := Nat.exists_eq_add_one_of_ne_zero (Nat.ne_of_gt enough)
    have idle : rx.status &&& 0x01 = 0 := quiet
    rw [rxLoop, if_pos idle]
    refine ⟨⟨(List.append_nil _).symm, rfl, ?_, rfl, rfl, rfl, rfl⟩, rfl⟩
    intro h mem
    rcases List.mem_append.mp mem with before | here
    · exact .inl before
    · rw [List.mem_singleton.mp here]
      exact .inr low
  | cons f fs ih =>
    obtain ⟨fuel, rfl⟩ := Nat.exists_eq_add_one_of_ne_zero (Nat.ne_of_gt (Nat.zero_lt_of_lt enough))
    rw [bytes_cons] at low quiet
    have size := f.size_bounds
    have below : rx.rxOff.toNat < 8192 := by omega
    have fits : f.size ≤ 8192 := by omega
    obtain ⟨turn, passed, next, aligned', rest⟩ := rxLoop_frame laid aligned below fits fuel
    have shorter : fs.length < fuel := Nat.lt_of_succ_lt_succ enough
    rw [← Nat.add_assoc, ← next] at low quiet
    rw [turn]
    obtain ⟨behind, ended⟩ := ih rest aligned' low quiet shorter
    refine ⟨⟨?_, ?_, ?_, behind.same⟩, ended⟩
    · rw [behind.passed, passed, List.append_assoc]
      rfl
    · rw [behind.rxOff, next, bytes_cons, Nat.add_assoc]
    · intro h mem
      rcases behind.headers h mem with before | below
      · rcases List.mem_append.mp before with before | here
        · exact .inl before
        · rw [List.mem_singleton.mp here]
          exact .inr (by omega)
      · exact .inr below

/-- Otherwise it reads a header behind the ring, or hands on more frames than there are. -/
theorem rxLoop_wrong {fs : List Frame} (laid : Layout rx.ring rx.rxOff.toNat fs)
    (aligned : 4 ∣ rx.rxOff.toNat) (low : rx.rxOff.toNat < 8192)
    (each : ∀ f ∈ fs, f.size ≤ 8192)
    (wrong : ¬ (rx.rxOff.toNat + bytes fs < 8192 ∧
      rx.ring.load16 (rx.rxOff.toNat + bytes fs) &&& 0x01 = 0)) {fuel : Nat}
    (enough : fs.length + 1 < fuel) :
    (∃ h ∈ (rxLoop fuel rx).headers, 8192 ≤ h) ∨
      rx.passed.length + fs.length < (rxLoop fuel rx).passed.length := by
  induction fs generalizing rx fuel with
  | nil =>
    obtain ⟨fuel, rfl⟩ := Nat.exists_eq_add_one_of_ne_zero (Nat.ne_of_gt (Nat.zero_lt_of_lt enough))
    have filled : ¬ rx.status &&& 0x01 = 0 := fun quiet => wrong ⟨low, quiet⟩
    rw [rxLoop, if_neg filled]
    have more := (rxLoop_extends fuel rx.pass).2.length_le
    have one : rx.pass.passed.length = rx.passed.length + 1 := List.length_append
    rw [List.length_nil]
    exact .inr (by omega)
  | cons f fs ih =>
    obtain ⟨fuel, rfl⟩ := Nat.exists_eq_add_one_of_ne_zero (Nat.ne_of_gt (Nat.zero_lt_of_lt enough))
    rw [bytes_cons, ← Nat.add_assoc] at wrong
    rw [List.length_cons] at enough ⊢
    obtain ⟨turn, -, next, aligned', rest⟩ :=
      rxLoop_frame laid aligned low (each f List.mem_cons_self) fuel
    rw [← next] at wrong
    rw [turn]
    by_cases past : rx.pass.rxOff.toNat < 8192
    · have one : rx.pass.passed.length = rx.passed.length + 1 := List.length_append
      have others : ∀ g ∈ fs, g.size ≤ 8192 := fun g mem => each g (List.mem_cons_of_mem f mem)
      have shorter : fs.length + 1 < fuel := by omega
      rcases ih rest aligned' past others wrong shorter with behind | more
      · exact .inl behind
      · exact .inr (by omega)
    · exact .inl ⟨_, mem_headers (by omega) rx.pass, Nat.not_lt.mp past⟩

end

end MyOS.Rtl8139
