import MyOS.Base.Runs
import MyOS.Nic.Rtl8139

/-!
# Frames through the ring of the RTL8139

The card goes round the ring, the driver does not: `rx_off` is never reduced.
What it hands on is right for one lap.
-/

namespace MyOS.Rtl8139

open Runs

/-- The driver, the offset at which the card writes next, and all frames received. -/
structure System where
  rx : Rx
  cardOff : Nat
  received : List Frame

def System.start (buf : UInt32) (ring : Mem) : System := ⟨Rx.init buf ring, 0, []⟩

/-- The frames received and not handed on yet. -/
def System.unread (s : System) : List Frame := s.received.drop s.rx.passed.length

/-- A frame that would reach unread ones is dropped. Without `rtl8139_init` the
receiver is off. -/
def System.receive (s : System) (f : Frame) : System :=
  if s.rx.initialized ∧ bytes s.unread + f.size ≤ rlRxbuf then
    { rx := { s.rx with ring := s.rx.ring.store s.cardOff f.record, isr := s.rx.isr ||| 0x01 }
      cardOff := (s.cardOff + f.size) % rlRxbuf
      received := s.received ++ [f] }
  else s

/-- `raise` stands for the other interrupts of the card. -/
inductive Event
  | frame (f : Frame)
  | raise (bits : UInt16)
  | poll

def step (fuel : Nat) (s : System) : Event → System
  | .frame f => s.receive f
  | .raise bits => { s with rx := { s.rx with isr := s.rx.isr ||| (bits &&& ~~~0x01) } }
  | .poll => { s with rx := rtl8139Poll fuel s.rx }

/-- No header has been read behind the ring, and what `net_rx` has got are the
frames received, each once and in order: the first ones, and all of them when the
driver has come to the end of its loop and no new one is announced. -/
structure Right (s : System) : Prop where
  headers : ∀ h ∈ s.rx.headers, h < 8192
  inOrder : s.rx.passed <+: s.received.map Frame.data
  returned : s.rx.polling = false
  complete : s.rx.isr &&& 0x01 = 0 → s.rx.passed = s.received.map Frame.data

/-- With frames announced, all those received so far end within the first lap,
and no frame seems to stand behind them. -/
def WithinLap (s : System) : Event → Prop
  | .poll => s.rx.isr &&& 0x01 ≠ 0 → bytes s.received < 8192 ∧
      s.rx.ring.load16 (bytes s.received) &&& 0x01 = 0
  | _ => True

/-! ## The invariant -/

/-- The frames `old` have been handed on, and `new` stand in the ring. -/
structure Sound (s : System) (old new : List Frame) : Prop where
  received : s.received = old ++ new
  passed : s.rx.passed = old.map Frame.data
  rxOff : s.rx.rxOff.toNat = bytes old
  low : bytes old < 8192
  room : bytes new ≤ 8192
  card : s.cardOff = bytes s.received % 8192
  laid : Layout s.rx.ring (bytes old) new
  announced : s.rx.isr &&& 0x01 = 0 ↔ new = []
  headers : ∀ h ∈ s.rx.headers, h < 8192
  stopped : s.rx.polling = false
  alive : s.rx.initialized = true ∧ s.rx.rxBuf ≠ 0 ∨ s.rx.initialized = false ∧ s.received = []

section
variable {s : System} {old new : List Frame} {fuel : Nat}

theorem Sound.right (sound : Sound s old new) : Right s where
  headers := sound.headers
  inOrder := by
    rw [sound.passed, sound.received, List.map_append]
    exact List.prefix_append ..
  returned := sound.stopped
  complete quiet := by
    rw [sound.passed, sound.received, sound.announced.mp quiet, List.append_nil]

theorem Sound.unread (sound : Sound s old new) : s.unread = new := by
  rw [System.unread, sound.received, sound.passed, List.length_map, List.drop_left]

theorem announce (isr : UInt16) : (isr ||| 0x01) &&& 0x01 ≠ 0 := by
  have set : (isr ||| 0x01) &&& 0x01 = 0x01 := by
    apply UInt16.toBitVec_inj.mp
    ext i below
    simp only [UInt16.toBitVec_and, UInt16.toBitVec_or, BitVec.getElem_and, BitVec.getElem_or]
    cases isr.toBitVec[i] <;> simp
  rw [set]
  decide

theorem keep_announced (isr bits : UInt16) :
    (isr ||| (bits &&& ~~~0x01)) &&& 0x01 = isr &&& 0x01 := by
  apply UInt16.toBitVec_inj.mp
  ext i below
  by_cases first : i = 0
  · simp [first]
  · simp [first]

/-- A frame is heard of by a driver that is up. -/
theorem Sound.up (sound : Sound s old new) (some : s.received ≠ []) :
    s.rx.initialized = true ∧ s.rx.rxBuf ≠ 0 := by
  rcases sound.alive with up | ⟨-, none⟩
  · exact up
  · exact absurd none some

theorem Sound.accept (sound : Sound s old new) {f : Frame} (on : s.rx.initialized = true)
    (fits : bytes new + f.size ≤ 8192) : Sound (s.receive f) old (new ++ [f]) := by
  have accepted : s.rx.initialized ∧ bytes s.unread + f.size ≤ rlRxbuf := ⟨on, sound.unread ▸ fits⟩
  have size := f.size_bounds
  have card := sound.card
  have total : bytes s.received = bytes old + bytes new := by rw [sound.received, bytes_append]
  have off : s.cardOff = (bytes old + bytes new) % 8192 := total ▸ card
  rw [System.receive, if_pos accepted]
  refine ⟨?_, sound.passed, sound.rxOff, sound.low, ?_, ?_, ?_, ?_, sound.headers,
    sound.stopped, ?_⟩
  · rw [sound.received, List.append_assoc]
  · rw [bytes_append, bytes_cons, bytes_nil]
    exact fits
  · rw [bytes_append, bytes_cons, bytes_nil, card]
    exact Nat.mod_add_mod ..
  · rw [off]
    refine layout_append.mpr ⟨layout_store sound.laid (Nat.le_refl _) ?_, Mem.load_store ..⟩
    omega
  · exact iff_of_false (announce _) (List.append_ne_nil_of_right_ne_nil _ (List.cons_ne_nil f []))
  · rcases sound.alive with up | ⟨down, -⟩
    · exact .inl up
    · rw [on] at down
      cases down

theorem Sound.receive (sound : Sound s old new) (f : Frame) :
    ∃ old new, Sound (s.receive f) old new := by
  by_cases accepted : s.rx.initialized ∧ bytes s.unread + f.size ≤ rlRxbuf
  · have fits := accepted.2
    rw [sound.unread] at fits
    exact ⟨old, new ++ [f], sound.accept accepted.1 fits⟩
  · rw [System.receive, if_neg accepted]
    exact ⟨old, new, sound⟩

/-- Frames that fit are all accepted. -/
theorem Sound.fill (sound : Sound s old new) (fs : List Frame) (on : s.rx.initialized = true)
    (fits : bytes new + bytes fs ≤ 8192) :
    Sound ((fs.map Event.frame).foldl (step fuel) s) old (new ++ fs) := by
  induction fs generalizing s new with
  | nil =>
    rw [List.append_nil]
    exact sound
  | cons f fs ih =>
    rw [bytes_cons, ← Nat.add_assoc] at fits
    have next := sound.accept on (Nat.le_trans (Nat.le_add_right _ _) fits)
    have up := next.up (by rw [next.received]; simp)
    have rest := ih next up.1 (by rwa [bytes_append, bytes_cons, bytes_nil])
    rwa [List.append_assoc] at rest

theorem Sound.raise (sound : Sound s old new) (bits : UInt16) :
    Sound (step fuel s (.raise bits)) old new := by
  have flags : (s.rx.isr ||| (bits &&& ~~~0x01)) &&& 0x01 = 0 ↔ new = [] := by
    rw [keep_announced]
    exact sound.announced
  exact { sound with announced := flags }

/-- Without a frame announced a poll only acknowledges. -/
theorem Sound.poll_quiet (sound : Sound s old new) (quiet : s.rx.isr &&& 0x01 = 0) :
    Sound (step fuel s .poll) old new := by
  have same : rtl8139Poll fuel s.rx = s.rx ∨
      rtl8139Poll fuel s.rx = { s.rx with isr := s.rx.isr &&& ~~~s.rx.isr } := by
    unfold rtl8139Poll
    rw [quiet]
    split
    · exact .inl rfl
    · split
      · exact .inl rfl
      · split
        · exact .inl rfl
        · exact .inr rfl
  have nothing : (s.rx.isr &&& ~~~s.rx.isr) &&& 0x01 = 0 := by
    rw [UInt16.and_not_self, UInt16.zero_and]
  change Sound { s with rx := rtl8139Poll fuel s.rx } old new
  rcases same with same | same
  · rw [same]
    exact sound
  · rw [same]
    exact { sound with announced := iff_of_true nothing (sound.announced.mp quiet) }

/-- With one announced it runs its loop. -/
theorem Sound.poll_eq (sound : Sound s old new) (announced : s.rx.isr &&& 0x01 ≠ 0) :
    rtl8139Poll fuel s.rx =
      rxLoop fuel { s.rx with isr := s.rx.isr &&& ~~~s.rx.isr, polling := true } := by
  have some : s.received ≠ [] := by
    rw [sound.received]
    exact List.append_ne_nil_of_right_ne_nil _ (mt sound.announced.mpr announced)
  have up := sound.up some
  have nonzero : s.rx.isr ≠ 0 := by
    intro zero
    rw [zero] at announced
    exact announced rfl
  have bit : (s.rx.isr &&& 0x01 != 0) = true := bne_iff_ne.mpr announced
  simp only [rtl8139Poll, up.1, up.2, nonzero, bit, Bool.not_true, Bool.false_eq_true,
    if_false, if_true]

/-- The loop meets what the card has written. -/
theorem Sound.starts (sound : Sound s old new) :
    Layout s.rx.ring s.rx.rxOff.toNat new ∧ 4 ∣ s.rx.rxOff.toNat ∧ s.rx.rxOff.toNat < 8192 ∧
      s.rx.rxOff.toNat + bytes new = bytes s.received ∧ new.length ≤ 1024 := by
  have count := length_le_bytes new
  have room := sound.room
  rw [sound.rxOff, sound.received, bytes_append]
  exact ⟨sound.laid, bytes_aligned old, sound.low, rfl, by omega⟩

theorem Sound.poll_within (sound : Sound s old new) (enough : 1025 < fuel)
    (within : WithinLap s .poll) : Sound (step fuel s .poll) (old ++ new) [] := by
  by_cases quiet : s.rx.isr &&& 0x01 = 0
  · obtain rfl := sound.announced.mp quiet
    rw [List.append_nil]
    exact sound.poll_quiet quiet
  · obtain ⟨low, clear⟩ := within quiet
    obtain ⟨laid, aligned, -, total, count⟩ := sound.starts
    let entry := { s.rx with isr := s.rx.isr &&& ~~~s.rx.isr, polling := true }
    have laid' : Layout entry.ring entry.rxOff.toNat new := laid
    have low' : entry.rxOff.toNat + bytes new < 8192 := total ▸ low
    have clear' : entry.ring.load16 (entry.rxOff.toNat + bytes new) &&& 0x01 = 0 := total ▸ clear
    have shorter : new.length < fuel := by omega
    obtain ⟨behind, ended⟩ := rxLoop_all laid' aligned low' clear' shorter
    obtain ⟨-, initialized, rxBuf, isr⟩ := behind.same
    change Sound { s with rx := rtl8139Poll fuel s.rx } (old ++ new) []
    rw [sound.poll_eq quiet]
    refine ⟨?_, ?_, ?_, ?_, Nat.zero_le _, sound.card, trivial, ?_, ?_, ended, ?_⟩
    · rw [List.append_nil]
      exact sound.received
    · have passed : entry.passed = old.map Frame.data := sound.passed
      exact behind.passed.trans (by rw [passed, List.map_append])
    · exact behind.rxOff.trans (total.trans (congrArg bytes sound.received))
    · rw [← sound.received]
      exact low
    · refine iff_of_true ?_ rfl
      rw [isr]
      change (s.rx.isr &&& ~~~s.rx.isr) &&& 0x01 = 0
      rw [UInt16.and_not_self, UInt16.zero_and]
    · intro h mem
      rcases behind.headers h mem with before | below
      · exact sound.headers h before
      · exact below
    · rw [initialized, rxBuf]
      exact sound.alive

theorem Sound.poll_wrong (sound : Sound s old new) (enough : 1025 < fuel)
    (wrong : ¬ WithinLap s .poll) : ¬ Right (step fuel s .poll) := by
  obtain ⟨announced, wrong⟩ := Classical.not_imp.mp wrong
  obtain ⟨laid, aligned, low, total, count⟩ := sound.starts
  let entry := { s.rx with isr := s.rx.isr &&& ~~~s.rx.isr, polling := true }
  have laid' : Layout entry.ring entry.rxOff.toNat new := laid
  have each : ∀ f ∈ new, f.size ≤ 8192 := fun f mem => (size_le_bytes mem).trans sound.room
  have wrong' : ¬ (entry.rxOff.toNat + bytes new < 8192 ∧
      entry.ring.load16 (entry.rxOff.toNat + bytes new) &&& 0x01 = 0) := total ▸ wrong
  have shorter : new.length + 1 < fuel := by omega
  have gone := rxLoop_wrong laid' aligned low each wrong' shorter
  intro right
  have headers := right.headers
  have inOrder := right.inOrder.length_le
  change ∀ h ∈ (rtl8139Poll fuel s.rx).headers, h < 8192 at headers
  change (rtl8139Poll fuel s.rx).passed.length ≤ _ at inOrder
  rw [sound.poll_eq announced] at headers inOrder
  rcases gone with ⟨h, mem, above⟩ | more
  · exact absurd (headers h mem) (Nat.not_lt.mpr above)
  · have size : entry.passed.length = old.length := by
      have passed : entry.passed = old.map Frame.data := sound.passed
      rw [passed, List.length_map]
    change _ ≤ (s.received.map Frame.data).length at inOrder
    rw [sound.received, List.length_map, List.length_append] at inOrder
    have bound : (rxLoop fuel entry).passed.length ≤ old.length + new.length := inOrder
    omega

end

theorem start_sound (buf : UInt32) (ring : Mem) : Sound (System.start buf ring) [] [] where
  received := rfl
  passed := rfl
  rxOff := rfl
  low := by decide
  room := by decide
  card := rfl
  laid := trivial
  announced := iff_of_true (UInt16.zero_and) rfl
  headers := fun h mem => nomatch mem
  stopped := rfl
  alive := by
    by_cases null : buf = 0
    · exact .inr ⟨by rw [null]; rfl, rfl⟩
    · exact .inl ⟨bne_iff_ne.mpr null, null⟩

/-- In every run what the driver hands on is right throughout if and only if
every poll that finds frames announced finds all frames so far within the first
lap of the ring, with nothing behind them that looks like one more. -/
theorem right_along_iff (buf : UInt32) (ring : Mem) {fuel : Nat} (enough : 1025 < fuel)
    (es : List Event) :
    Along (step fuel) Right (System.start buf ring) es ↔
      Steps (step fuel) WithinLap (System.start buf ring) es := by
  refine along_iff_steps (I := fun s => ∃ old new, Sound s old new) (E := fun _ => True) ?_ ?_ ?_
    (fun _ _ => trivial) ⟨[], [], start_sound buf ring⟩
  · rintro s (f | bits | _) - ⟨old, new, sound⟩ within
    · exact sound.receive f
    · exact ⟨old, new, sound.raise bits⟩
    · exact ⟨old ++ new, [], sound.poll_within enough within⟩
  · rintro s ⟨old, new, sound⟩
    exact sound.right
  · rintro s (f | bits | _) - ⟨old, new, sound⟩ wrong
    · exact absurd trivial wrong
    · exact absurd trivial wrong
    · exact sound.poll_wrong enough wrong

/-- An Ethernet frame of 60 bytes. -/
def shortest (c : UInt8) : Frame :=
  { status := 0x0001
    data := List.replicate 60 c
    crc := 0
    ok := by decide }

/-- Four frames and three polls. -/
theorem right_along_iff_shortest : Along (step 1026) Right (System.start 0x01000000 fun _ => 0)
    [.frame (shortest 1), .poll, .frame (shortest 2), .frame (shortest 3), .poll,
      .frame (shortest 4), .poll] := by
  refine (right_along_iff 0x01000000 (fun _ => 0) (by decide) _).mpr
    ⟨trivial, ?_, trivial, trivial, ?_, trivial, ?_, trivial⟩
  · unfold WithinLap
    decide +kernel
  · unfold WithinLap
    decide +kernel
  · unfold WithinLap
    decide +kernel

/-- An Ethernet frame of full size, 1524 bytes of the ring. -/
def fullFrame : Frame :=
  { status := 0x0001
    data := List.replicate 1514 0
    crc := 0
    ok := by decide }

theorem size_fullFrame : fullFrame.size = 1524 := by
  rw [Frame.size, fullFrame, List.length_replicate]
  rfl

/-- The driver behind `rtl8139_init`, with one frame announced. -/
def oneFrame : System := (System.start 0x01000000 fun _ => 0).receive fullFrame

theorem sound_oneFrame : Sound oneFrame [] [fullFrame] := by
  have start := start_sound 0x01000000 fun _ => 0
  refine start.accept rfl ?_
  rw [size_fullFrame]
  decide

theorem within_oneFrame : WithinLap oneFrame .poll := by
  have total : bytes oneFrame.received = 1524 := by
    rw [sound_oneFrame.received, List.nil_append, bytes_cons, size_fullFrame, bytes_nil]
  have length : fullFrame.record.length = 1522 := by
    rw [Frame.length_record, fullFrame, List.length_replicate]
  have accepted : (System.start 0x01000000 fun _ => 0).rx.initialized ∧
      bytes (System.start 0x01000000 fun _ => 0).unread + fullFrame.size ≤ rlRxbuf := by
    rw [(start_sound _ _).unread, size_fullFrame]
    decide
  have ring : oneFrame.rx.ring = Mem.store (fun _ => 0) 0 fullFrame.record := by
    rw [oneFrame, System.receive, if_pos accepted]
    rfl
  have clear (i : Nat) (behind : 1522 ≤ i) : oneFrame.rx.ring i = 0 := by
    rw [ring]
    exact Mem.store_outside _ _ _ (.inr (by omega))
  intro announced
  rw [total, Mem.load16, clear 1524 (by decide), clear 1525 (by decide)]
  decide

/-- With the sixth full frame the lap is over. -/
theorem sixth_frame_lost : ¬ Along (step 1026) Right (System.start 0x01000000 fun _ => 0)
    (.frame fullFrame :: .poll :: (List.replicate 5 fullFrame).map .frame ++ [.poll]) := by
  have enough : 1025 < 1026 := by decide
  have five : bytes (List.replicate 5 fullFrame) = 7620 := by
    simp only [List.replicate, bytes_cons, size_fullFrame, bytes_nil]
  have first := sound_oneFrame.poll_within enough within_oneFrame
  have up := first.up (first.received ▸ List.cons_ne_nil fullFrame [])
  have all : Sound (((List.replicate 5 fullFrame).map .frame).foldl (step 1026)
      (step 1026 oneFrame .poll)) [fullFrame] (List.replicate 5 fullFrame) :=
    first.fill _ up.1 (by rw [five]; decide)
  intro along
  have last := along_last along
  rw [List.cons_append, List.foldl_cons, List.cons_append, List.foldl_cons,
    List.foldl_append] at last
  refine all.poll_wrong enough ?_ last
  intro within
  have announced := mt all.announced.mp (List.cons_ne_nil _ _)
  have total := (within announced).1
  rw [all.received, bytes_append, bytes_cons, bytes_nil, size_fullFrame, five] at total
  omega

end MyOS.Rtl8139
