import MyOS.Base.Traced
import MyOS.Dns.Table

/-!
# What the walk over a response reads

`dns_on_response` once more, with the offsets it reads. Its loops over labels run
for as long as their condition holds: each turn moves the offset, and an offset
past the end of the message ends them.
-/

namespace MyOS.Reads

open Traced

variable (data : Mem) (len : Int)

/-- `while (off < len && data[off] != 0) off += 1 + data[off];` -/
def skipLabels (off : Nat) : Traced Nat :=
  if _inside : (off : Int) < len then do
    let more ← u8 data off
    if more ≠ 0 then do
      let lab ← u8 data off
      skipLabels (off + (1 + lab.toNat))
    else pure off
  else pure off
termination_by (len - off).toNat

def word (off : Nat) : Traced UInt16 := read off 2 (be16 data off)

def skipQuestions : Nat → Nat → Traced (Option Nat)
  | 0, off => pure (some off)
  | qdcount + 1, off => do
    let name ← skipLabels data len off
    let off := name + 1
    if (off : Int) + 4 > len then pure none else skipQuestions qdcount (off + 4)

/-- The name of an answer, a pointer or labels. -/
def skipOwner (off : Nat) : Traced Nat := do
  let first ← u8 data off
  if first &&& 0xC0 = 0xC0 then pure (off + 2)
  else do
    let name ← skipLabels data len off
    pure (name + 1)

/-- Without a queried name no address is read. -/
def walkAnswers (queried : Bool) : Nat → Nat → Traced DnsAnswers
  | 0, _ => pure ⟨[], true⟩
  | ancount + 1, off =>
    if (off : Int) + 12 > len then pure ⟨[], false⟩
    else do
      let off ← skipOwner data len off
      if (off : Int) + 10 > len then pure ⟨[], false⟩
      else do
        let atype ← word data off
        let aclass ← word data (off + 2)
        let rdlen ← word data (off + 8)
        let off := off + 10
        if (off : Int) + rdlen.toNat > len then pure ⟨[], false⟩
        else if atype = 1 ∧ aclass = 1 ∧ rdlen = 4 ∧ queried then do
          let a ← read off 4 (be32 data off)
          let rest ← walkAnswers queried ancount (off + rdlen.toNat)
          pure { rest with addresses := a :: rest.addresses }
        else walkAnswers queried ancount (off + rdlen.toNat)

def dnsOnResponse (d : Dns) (_srcIp : UInt32) : Traced Dns :=
  if len < 12 then pure d
  else do
    let id ← word data 0
    let qdcount ← word data 4
    let ancount ← word data 6
    let queriedName := qtrackGetname d id
    match ← skipQuestions data len qdcount.toNat 12 with
    | none => pure d
    | some off => do
      let answers ← walkAnswers data len queriedName.isSome ancount.toNat off
      let stored := match queriedName with
        | some name => answers.addresses.foldl (dnsCacheStore name) d
        | none => d
      pure (if answers.finished then qtrackClear stored id else stored)

/-! ## One turn -/

section
variable {data : Mem} {len : Int} {P : Nat → Prop}

theorem skipLabels_past {off : Nat} (past : ¬ (off : Int) < len) :
    skipLabels data len off = pure off := by
  rw [skipLabels, dif_neg past]

theorem skipLabels_inside {off : Nat} (inside : (off : Int) < len) :
    skipLabels data len off = (do
      let more ← u8 data off
      if more ≠ 0 then do
        let lab ← u8 data off
        skipLabels data len (off + (1 + lab.toNat))
      else pure off) := by
  rw [skipLabels, dif_pos inside]

theorem skipLabels_val {fuel off : Nat} (enough : len ≤ fuel + off) :
    (skipLabels data len off).val = MyOS.skipLabels data len fuel off := by
  induction fuel generalizing off with
  | zero =>
    rw [skipLabels_past (by omega)]
    rfl
  | succ fuel ih =>
    rw [MyOS.skipLabels]
    by_cases inside : (off : Int) < len
    · rw [skipLabels_inside inside, val_bind, val_u8, val_ite]
      by_cases more : data off ≠ 0
      · rw [if_pos more, if_pos ⟨inside, more⟩, val_bind, val_u8, ih (by omega)]
      · rw [if_neg more, if_neg (fun both => more both.2), val_pure]
    · rw [skipLabels_past inside, if_neg (fun both => inside both.1), val_pure]

theorem skipLabels_within (within : ∀ i : Nat, (i : Int) < len → P i) (off : Nat) :
    Within P (skipLabels data len off) := by
  by_cases inside : (off : Int) < len
  · have here := within off inside
    have next (lab : UInt8) := skipLabels_within within (off + (1 + lab.toNat))
    rw [skipLabels_inside inside, within_bind, within_u8, within_ite]
    refine ⟨here, fun _ => ?_, fun _ => within_pure P off⟩
    rw [within_bind, within_u8]
    exact ⟨here, next _⟩
  · rw [skipLabels_past inside]
    exact within_pure P off
termination_by (len - off).toNat

theorem skipName_val (off : Nat) : (skipLabels data len off).val = skipName data len off :=
  skipLabels_val (by omega)

@[simp] theorem val_word (off : Nat) : (word data off).val = be16 data off := rfl

theorem within_word {off : Nat} : Within P (word data off) ↔ P off ∧ P (off + 1) := by
  rw [word, within_read]
  constructor
  · intro all
    exact ⟨all 0 (by omega), all 1 (by omega)⟩
  · rintro ⟨first, second⟩ i below
    rcases i with _ | _ | i
    · exact first
    · exact second
    · omega

/-! ## The loops over the records -/

theorem skipQuestions_val (qdcount off : Nat) :
    (skipQuestions data len qdcount off).val = MyOS.skipQuestions data len qdcount off := by
  induction qdcount generalizing off with
  | zero => rfl
  | succ qdcount ih =>
    rw [skipQuestions, MyOS.skipQuestions, val_bind, skipName_val, val_ite, ih, val_pure]

theorem skipQuestions_within (within : ∀ i : Nat, (i : Int) < len → P i) (qdcount off : Nat) :
    Within P (skipQuestions data len qdcount off) := by
  induction qdcount generalizing off with
  | zero => exact within_pure P _
  | succ qdcount ih =>
    rw [skipQuestions, within_bind, within_ite]
    exact ⟨skipLabels_within within off, fun _ => within_pure P _, fun _ => ih _⟩

theorem skipOwner_val (off : Nat) : (skipOwner data len off).val =
    if data off &&& 0xC0 = 0xC0 then off + 2 else skipName data len off + 1 := by
  rw [skipOwner, val_bind, val_u8, val_ite, val_pure, val_bind, val_pure, skipName_val]

theorem skipOwner_within (within : ∀ i : Nat, (i : Int) < len → P i) {off : Nat}
    (inside : (off : Int) < len) : Within P (skipOwner data len off) := by
  rw [skipOwner, within_bind, within_u8, within_ite]
  refine ⟨within off inside, fun _ => within_pure P _, fun _ => ?_⟩
  rw [within_bind]
  exact ⟨skipLabels_within within off, within_pure P _⟩

/-- The addresses count only for a queried name. -/
def heard (queried : Bool) (a : DnsAnswers) : DnsAnswers :=
  if queried then a else { a with addresses := [] }

theorem walkAnswers_val (queried : Bool) (ancount off : Nat) :
    (walkAnswers data len queried ancount off).val =
      heard queried (MyOS.walkAnswers data len ancount off) := by
  induction ancount generalizing off with
  | zero => cases queried <;> rfl
  | succ ancount ih =>
    rw [walkAnswers, MyOS.walkAnswers]
    by_cases short : (off : Int) + 12 > len
    · rw [if_pos short, if_pos short]
      cases queried <;> rfl
    · rw [if_neg short, if_neg short, val_bind, skipOwner_val]
      generalize (if data off &&& 0xC0 = 0xC0 then off + 2 else skipName data len off + 1) = name
      by_cases fixed : (name : Int) + 10 > len
      · rw [if_pos fixed, if_pos fixed]
        cases queried <;> rfl
      · rw [if_neg fixed, if_neg fixed]
        change (if ((name + 10 : Nat) : Int) + (be16 data (name + 8)).toNat > len then
          (pure ⟨[], false⟩ : Traced DnsAnswers) else _).val = _
        by_cases long : ((name + 10 : Nat) : Int) + (be16 data (name + 8)).toNat > len
        · rw [if_pos long, if_pos long]
          cases queried <;> rfl
        · rw [if_neg long, if_neg long]
          change (if be16 data name = 1 ∧ be16 data (name + 2) = 1 ∧ be16 data (name + 8) = 4 ∧
            queried = true then (_ : Traced DnsAnswers) else _).val = _
          rw [val_ite, val_bind, val_bind, val_pure, ih, val_read]
          cases queried with
          | true => simp only [and_true, heard, if_true, val_word]
          | false =>
            simp only [Bool.false_eq_true, and_false, if_false, heard]
            split <;> rfl

theorem walkAnswers_within (within : ∀ i : Nat, (i : Int) < len → P i) (queried : Bool)
    (ancount off : Nat) : Within P (walkAnswers data len queried ancount off) := by
  induction ancount generalizing off with
  | zero => exact within_pure P _
  | succ ancount ih =>
    rw [walkAnswers, within_ite]
    refine ⟨fun _ => within_pure P _, fun long => ?_⟩
    rw [within_bind, within_ite]
    refine ⟨skipOwner_within within (by omega), fun _ => within_pure P _, fun fixed => ?_⟩
    generalize (skipOwner data len off).val = name at fixed ⊢
    have field (i : Nat) (below : i < 10) : P (name + i) := within _ (by omega)
    rw [within_bind, within_word, within_bind, within_word, within_bind, within_word, within_ite]
    refine ⟨⟨field 0 (by omega), field 1 (by omega)⟩, ⟨field 2 (by omega), field 3 (by omega)⟩,
      ⟨field 8 (by omega), field 9 (by omega)⟩, fun _ => within_pure P _, fun whole => ?_⟩
    rw [within_ite]
    refine ⟨fun address => ?_, fun _ => ih _⟩
    have four : (be16 data (name + 8)).toNat = 4 := by
      rw [show be16 data (name + 8) = 4 from address.2.2.1]
      rfl
    rw [within_bind, within_read, within_bind]
    refine ⟨fun i below => within _ ?_, ih _, within_pure P _⟩
    change ¬ ((name + 10 : Nat) : Int) + (be16 data (name + 8)).toNat > len at whole
    omega

end

/-- On every message `dns_on_response` comes to an end, and it reads no byte
outside the message. -/
theorem dnsOnResponse_within (data : Mem) (len : Int) (d : Dns) (srcIp : UInt32) :
    (dnsOnResponse data len d srcIp).val = MyOS.dnsOnResponse d srcIp data len ∧
      Within (fun i => (i : Int) < len) (dnsOnResponse data len d srcIp) := by
  unfold dnsOnResponse
  by_cases short : len < 12
  · rw [if_pos short, MyOS.dnsOnResponse, dnsAnswers, if_pos short]
    refine ⟨?_, within_pure _ d⟩
    cases qtrackGetname d (dnsId data) <;> rfl
  · have within : ∀ i : Nat, (i : Int) < len → (i : Int) < len := fun _ inside => inside
    have header (i : Nat) (below : i < 12) : (i : Int) < len := by omega
    rw [if_neg short]
    constructor
    · rw [val_bind, val_bind, val_bind, val_bind, val_word, val_word, val_word, skipQuestions_val,
        MyOS.dnsOnResponse, dnsAnswers, if_neg short]
      cases MyOS.skipQuestions data len (be16 data 4).toNat 12 with
      | none =>
        cases qtrackGetname d (dnsId data) <;> rfl
      | some off =>
        rw [val_bind, val_pure, walkAnswers_val]
        rw [show dnsId data = be16 data 0 from rfl]
        cases qtrackGetname d (be16 data 0) <;> rfl
    · rw [within_bind, within_word, within_bind, within_word, within_bind, within_word, within_bind]
      refine ⟨⟨header 0 (by omega), header 1 (by omega)⟩,
        ⟨header 4 (by omega), header 5 (by omega)⟩, ⟨header 6 (by omega), header 7 (by omega)⟩,
        skipQuestions_within within _ 12, ?_⟩
      split
      · exact within_pure _ d
      · rw [within_bind]
        exact ⟨walkAnswers_within within _ _ _, within_pure _ _⟩

end MyOS.Reads
