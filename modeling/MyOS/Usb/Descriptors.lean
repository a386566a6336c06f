import MyOS.Base.Traced

/-!
# The walk over a configuration descriptor

The end of `xhci_enumerate_once`: from descriptor to descriptor by the length in
the first byte, while the two bytes of a header are left in the buffer. What
follows a header is read without a look at where the buffer ends.
-/

namespace MyOS.Descriptors

open Traced

variable (full : Mem) (totlen : Nat)

/-- The classes taken for network-capable: CDC, CDC data and vendor-specific. -/
def NetworkClass (ifClass : UInt8) : Prop := ifClass = 0x02 ∨ ifClass = 0x0A ∨ ifClass = 0xFF

instance : DecidablePred NetworkClass := fun ifClass =>
  inferInstanceAs (Decidable (ifClass = 0x02 ∨ ifClass = 0x0A ∨ ifClass = 0xFF))

/-- What the walk looks at in the descriptor at `off`. -/
def inspect (off : Nat) (blen dtype : UInt8) (foundNet : Bool) : Traced Bool :=
  if dtype = 0x04 ∧ blen ≥ 9 then do
    let ifClass ← u8 full (off + 5)
    let _ifSub ← u8 full (off + 6)
    let _ifProto ← u8 full (off + 7)
    pure (if NetworkClass ifClass then true else foundNet)
  else pure foundNet

/-- The loop from `off` on. -/
def walk (off : Nat) (foundNet : Bool) : Traced Bool :=
  if _header : off + 2 ≤ totlen then do
    let blen ← u8 full off
    let dtype ← u8 full (off + 1)
    if _stop : blen < 2 then pure foundNet
    else do
      let foundNet ← inspect full off blen dtype foundNet
      if off + blen.toNat ≥ totlen then pure foundNet
      else walk (off + blen.toNat) foundNet
  else pure foundNet
termination_by totlen - off
decreasing_by
  have two : 2 ≤ blen.toNat := UInt8.le_iff_toNat_le.mp (UInt8.not_lt.mp _stop)
  omega

/-! ## The chain -/

/-- A header stands at `off`, and its length is one of a descriptor. -/
structure Header (off : Nat) : Prop where
  inside : off + 2 ≤ totlen
  length : 2 ≤ (full off).toNat

structure Complete (off : Nat) : Prop extends Header full totlen off where
  fits : off + (full off).toNat ≤ totlen

instance (off : Nat) : Decidable (Header full totlen off) :=
  decidable_of_iff (off + 2 ≤ totlen ∧ 2 ≤ (full off).toNat)
    ⟨fun both => ⟨both.1, both.2⟩, fun header => ⟨header.inside, header.length⟩⟩

instance (off : Nat) : Decidable (Complete full totlen off) :=
  decidable_of_iff (Header full totlen off ∧ off + (full off).toNat ≤ totlen)
    ⟨fun both => ⟨both.1, both.2⟩, fun complete => ⟨complete.toHeader, complete.fits⟩⟩

/-- From descriptor to descriptor, each of them complete. -/
inductive Chain : Nat → Nat → Prop
  | here (off : Nat) : Chain off off
  | next {off x : Nat} : Complete full totlen off → Chain (off + (full off).toNat) x → Chain off x

/-- An interface descriptor, by its type and length. -/
structure Interface (off : Nat) : Prop where
  type : full (off + 1) = 0x04
  length : 9 ≤ (full off).toNat

instance (off : Nat) : Decidable (Interface full off) :=
  decidable_of_iff (full (off + 1) = 0x04 ∧ 9 ≤ (full off).toNat)
    ⟨fun both => ⟨both.1, both.2⟩, fun interface => ⟨interface.type, interface.length⟩⟩

structure NetworkInterface (off : Nat) : Prop extends Interface full off where
  cls : NetworkClass (full (off + 5))

/-- A complete descriptor of the chain is a network interface. -/
def HasNetwork : Prop :=
  ∃ x, Chain full totlen 0 x ∧ Complete full totlen x ∧ NetworkInterface full x

/-- The walk reads only in the buffer, and finds exactly the network interfaces. -/
structure Right : Prop where
  inside : Within (· < totlen) (walk full totlen 0 false)
  found : (walk full totlen 0 false).val = true ↔ HasNetwork full totlen

/-- An interface descriptor cut off at the end of the chain has the bytes that are
read, and is no network interface unless there is a complete one as well. -/
structure CutOffHarmless : Prop where
  body : ∀ x, Chain full totlen 0 x → Header full totlen x → Interface full x →
    totlen < x + (full x).toNat → x + 8 ≤ totlen
  cls : ∀ x, Chain full totlen 0 x → Header full totlen x → NetworkInterface full x →
    totlen < x + (full x).toNat → HasNetwork full totlen

/-! ## One turn -/

section
variable {full : Mem} {totlen : Nat}

theorem walk_end {off : Nat} (behind : ¬ off + 2 ≤ totlen) (foundNet : Bool) :
    walk full totlen off foundNet = pure foundNet := by
  rw [walk, dif_neg behind]

/-- A turn that ends the loop: the length is not one of a descriptor. -/
theorem walk_stop {off : Nat} (inside : off + 2 ≤ totlen) (stop : ¬ 2 ≤ (full off).toNat)
    (foundNet : Bool) : walk full totlen off foundNet = (do
      let _blen ← u8 full off
      let _dtype ← u8 full (off + 1)
      pure foundNet) := by
  rw [walk, dif_pos inside]
  refine bind_congr_val _ (bind_congr_val _ ?_)
  have less : full off < 2 := UInt8.lt_iff_toNat_lt.mpr (Nat.not_le.mp stop)
  exact dif_pos less

/-- A turn at a header. -/
theorem walk_header {off : Nat} (header : Header full totlen off) (foundNet : Bool) :
    walk full totlen off foundNet = (do
      let _blen ← u8 full off
      let _dtype ← u8 full (off + 1)
      let foundNet ← inspect full off (full off) (full (off + 1)) foundNet
      if Complete full totlen off then walk full totlen (off + (full off).toNat) foundNet
      else pure foundNet) := by
  rw [walk, dif_pos header.inside]
  refine bind_congr_val _ (bind_congr_val _ ?_)
  have more : ¬ full off < 2 := fun less =>
    absurd header.length (Nat.not_le.mpr (UInt8.lt_iff_toNat_lt.mp less))
  refine (dif_neg more).trans (bind_congr_val _ ?_)
  rw [val_u8]
  by_cases complete : Complete full totlen off
  · rw [if_pos complete]
    split
    · rw [walk_end (by omega)]
    · rfl
  · have behind : off + (full off).toNat ≥ totlen := by
      by_contra before
      exact complete ⟨header, by omega⟩
    simp only [if_neg complete, if_pos behind]

theorem interface_iff (off : Nat) :
    full (off + 1) = 0x04 ∧ full off ≥ 9 ↔ Interface full off :=
  ⟨fun both => ⟨both.1, UInt8.le_iff_toNat_le.mp both.2⟩,
    fun i => ⟨i.type, UInt8.le_iff_toNat_le.mpr i.length⟩⟩

theorem inspect_within {P : Nat → Prop} (off : Nat) (foundNet : Bool) :
    Within P (inspect full off (full off) (full (off + 1)) foundNet) ↔
      (Interface full off → P (off + 5) ∧ P (off + 6) ∧ P (off + 7)) := by
  simp only [inspect, interface_iff]
  split
  · rename_i interface
    simp [interface]
  · rename_i other
    exact iff_of_true (within_pure _ _) fun interface => absurd interface other

theorem inspect_found (off : Nat) (foundNet : Bool) :
    (inspect full off (full off) (full (off + 1)) foundNet).val = true ↔
      foundNet = true ∨ NetworkInterface full off := by
  simp only [inspect, interface_iff]
  split
  · rename_i interface
    change (if NetworkClass (full (off + 5)) then true else foundNet) = true ↔ _
    split
    · rename_i cls
      exact iff_of_true rfl (.inr ⟨interface, cls⟩)
    · rename_i other
      exact ⟨.inl, fun found => found.elim id fun net => absurd net.cls other⟩
  · rename_i other
    exact ⟨.inl, fun found => found.elim id fun net => absurd net.toInterface other⟩

/-! ## The walk goes along the chain -/

theorem chain_iff (off x : Nat) : Chain full totlen off x ↔
    x = off ∨ Complete full totlen off ∧ Chain full totlen (off + (full off).toNat) x := by
  constructor
  · rintro (_ | ⟨complete, later⟩)
    · exact .inl rfl
    · exact .inr ⟨complete, later⟩
  · rintro (rfl | ⟨complete, later⟩)
    · exact .here x
    · exact .next complete later

/-- A chain that does not go on is its first link. -/
theorem chain_last {off : Nat} (last : ¬ Complete full totlen off) (x : Nat) :
    Chain full totlen off x ↔ x = off := by
  rw [chain_iff]
  exact or_iff_left fun more => last more.1

theorem forall_chain {off : Nat} (complete : Complete full totlen off) (Q : Nat → Prop) :
    (∀ x, Chain full totlen off x → Q x) ↔
      Q off ∧ ∀ x, Chain full totlen (off + (full off).toNat) x → Q x := by
  simp only [chain_iff off, complete, true_and, or_imp, forall_and, forall_eq]

theorem exists_chain {off : Nat} (complete : Complete full totlen off) (Q : Nat → Prop) :
    (∃ x, Chain full totlen off x ∧ Q x) ↔
      Q off ∨ ∃ x, Chain full totlen (off + (full off).toNat) x ∧ Q x := by
  simp only [chain_iff off, complete, true_and, or_and_right, exists_or, exists_eq_left]

/-- What is read at a link of the chain: the header, and the body of an interface. -/
def LinkIn (full : Mem) (totlen : Nat) (P : Nat → Prop) (x : Nat) : Prop :=
  x + 2 ≤ totlen → P x ∧ P (x + 1) ∧
    (Header full totlen x → Interface full x → P (x + 5) ∧ P (x + 6) ∧ P (x + 7))

theorem linkIn_header {P : Nat → Prop} {x : Nat} (header : Header full totlen x) :
    LinkIn full totlen P x ↔ P x ∧ P (x + 1) ∧
      (Interface full x → P (x + 5) ∧ P (x + 6) ∧ P (x + 7)) := by
  simp only [LinkIn, header.inside, header, forall_const]

/-- The walk reads what there is at each link. -/
theorem walk_within {P : Nat → Prop} (off : Nat) (foundNet : Bool) :
    Within P (walk full totlen off foundNet) ↔
      ∀ x, Chain full totlen off x → LinkIn full totlen P x := by
  by_cases inside : off + 2 ≤ totlen
  swap
  · rw [walk_end inside]
    refine iff_of_true (within_pure _ _) fun x chain bytes => ?_
    rw [chain_last fun complete => inside complete.inside] at chain
    exact absurd (chain ▸ bytes) inside
  by_cases length : 2 ≤ (full off).toNat
  swap
  · have none : ¬ Header full totlen off := fun header => length header.length
    simp only [walk_stop inside length, within_bind, within_u8, within_pure,
      chain_last fun complete => length complete.length, forall_eq, LinkIn, inside, none,
      forall_const, false_imp_iff]
  have header : Header full totlen off := ⟨inside, length⟩
  rw [walk_header header, within_bind, within_bind, within_bind, within_u8, within_u8,
    inspect_within]
  by_cases complete : Complete full totlen off
  · have later := walk_within (P := P) (off + (full off).toNat)
      (inspect full off (full off) (full (off + 1)) foundNet).val
    rw [if_pos complete, later, forall_chain complete, linkIn_header header, and_assoc, and_assoc]
  · simp only [if_neg complete, within_pure, chain_last complete, forall_eq, and_true,
      linkIn_header header]
termination_by totlen - off
decreasing_by omega

/-- It finds the network interfaces among the links. -/
theorem walk_found (off : Nat) (foundNet : Bool) :
    (walk full totlen off foundNet).val = true ↔ foundNet = true ∨
      ∃ x, Chain full totlen off x ∧ Header full totlen x ∧ NetworkInterface full x := by
  by_cases header : Header full totlen off
  swap
  · have same : (walk full totlen off foundNet).val = foundNet := by
      by_cases inside : off + 2 ≤ totlen
      · simp only [walk_stop inside fun length => header ⟨inside, length⟩]
        rfl
      · rw [walk_end inside]
        rfl
    rw [same, or_iff_left]
    rintro ⟨x, chain, here, -⟩
    rw [chain_last fun complete => header complete.toHeader] at chain
    exact header (chain ▸ here)
  have length := header.length
  simp only [walk_header header, val_bind, val_bind, val_bind]
  by_cases complete : Complete full totlen off
  · have inside := header.inside
    have later := walk_found (off + (full off).toNat)
      (inspect full off (full off) (full (off + 1)) foundNet).val
    simp only [if_pos complete, later, inspect_found, exists_chain complete, or_assoc]
    simp only [header, true_and]
  · simp only [if_neg complete, val_pure, inspect_found]
    simp only [chain_last complete, exists_eq_left, header, true_and]
termination_by totlen - off
decreasing_by omega

/-! ## The walk as a whole -/

/-- The walk is right if and only if a descriptor cut off at the end does no harm. -/
theorem walk_right_iff (full : Mem) (totlen : Nat) :
    Right full totlen ↔ CutOffHarmless full totlen := by
  constructor
  · rintro ⟨inside, found⟩
    rw [walk_within] at inside
    rw [walk_found] at found
    refine ⟨fun x chain header interface _ => ?_, fun x chain header net _ => ?_⟩
    · exact (((linkIn_header header).mp (inside x chain)).2.2 interface).2.2
    · exact found.mp (.inr ⟨x, chain, header, net⟩)
  · rintro ⟨body, cls⟩
    refine ⟨(walk_within 0 false).mpr fun x chain => ?_, (walk_found 0 false).trans ?_⟩
    · intro bytes
      refine ⟨by omega, by omega, fun header interface => ?_⟩
      by_cases fits : x + (full x).toNat ≤ totlen
      · have nine := interface.length
        omega
      · have eight := body x chain header interface (by omega)
        omega
    · constructor
      · rintro (start | ⟨x, chain, header, net⟩)
        · cases start
        · by_cases fits : x + (full x).toNat ≤ totlen
          · exact ⟨x, chain, ⟨header, fits⟩, net⟩
          · exact cls x chain header net (by omega)
      · rintro ⟨x, chain, complete, net⟩
        exact .inr ⟨x, chain, complete.toHeader, net⟩

end

/-- A configuration descriptor of total length 11, with the header of an interface
behind it. -/
def cutOff : List UInt8 := [9, 2, 11, 0, 1, 1, 0, 0x80, 50, 9, 4]

/-- The body of the interface is read behind the buffer. -/
theorem cutOff_outside : ¬ Right (.ofList cutOff) 11 := by
  intro right
  have chain : Chain (.ofList cutOff) 11 0 9 := .next (by decide +kernel) (.here 9)
  have header : Header (.ofList cutOff) 11 9 := by decide +kernel
  have interface : Interface (.ofList cutOff) 9 := by decide +kernel
  have links := (walk_within 0 false).mp right.inside
  have last := (((linkIn_header header).mp (links 9 chain)).2.2 interface).2.2
  exact absurd last (by decide)

end MyOS.Descriptors
