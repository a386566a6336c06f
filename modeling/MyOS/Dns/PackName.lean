import MyOS.Base.Prefixed
import MyOS.Base.Written
import MyOS.Dns.Message
import MyOS.StringC

/-!
# Packing a name

`pack_name` with its pointers and its writes. It takes a name if and only if the
labels between the dots are legal and all of them fit.
-/

namespace MyOS.PackName

open Prefixed

theorem strchr_tail_lt {p dot : List UInt8} {c : UInt8} (hit : strchr p c = some dot) :
    dot.tail.length < p.length := by
  induction p with
  | nil => cases hit
  | cons x p ih =>
    rw [strchr] at hit
    split at hit
    · cases hit
      exact Nat.lt_succ_self _
    · exact Nat.lt_succ_of_lt (ih hit)

/-- The loop of `pack_name`, with `w` at its end or `none` for an early `-1`. -/
def packLoop (out cap : Nat) (p : List UInt8) (o : Written) (w : Nat) : Written × Option Nat :=
  if p = [] ∨ cap ≤ w then (o, some w)
  else
    let len := match strchr p 46 with
      | some dot => p.length - dot.length
      | none => p.length
    if len = 0 ∨ len > 63 then (o, none)
    else
      let o := o.put (out + w) len.toUInt8
      let w := w + 1
      if w + len ≥ cap then (o, none)
      else
        let o := o.copy (out + w) (p.take len)
        let w := w + len
        match _hit : strchr p 46 with
        | none => (o, some w)
        | some dot => packLoop out cap dot.tail o w
termination_by p.length
decreasing_by exact strchr_tail_lt _hit

/-- `if (w >= out_cap) return -1; out[w++] = 0; return w;` -/
def packEnd (out cap : Nat) : Written × Option Nat → Written × Int
  | (o, none) => (o, -1)
  | (o, some w) => if w ≥ cap then (o, -1) else (o.put (out + w) 0, w + 1)

/-- `pack_name` with the buffer of `cap` bytes at `out`. -/
def packName (name : List UInt8) (o : Written) (out cap : Nat) : Written × Int :=
  packEnd out cap (packLoop out cap name o 0)

/-- The labels between the dots, without the empty one at the end. -/
def labels (name : List UInt8) : List (List UInt8) :=
  let ls := name.splitOn 46
  if ls.getLast? = some [] then ls.dropLast else ls

/-! ## A name label by label -/

/-- A name is empty, a last label, or a label, a dot and a name. -/
@[elab_as_elim]
theorem name_induction {motive : List UInt8 → Prop} (nil : motive [])
    (last : ∀ l, l ≠ [] → 46 ∉ l → motive l)
    (dot : ∀ l rest, 46 ∉ l → motive rest → motive (l ++ 46 :: rest)) (name : List UInt8) :
    motive name := by
  by_cases dotted : 46 ∈ name
  · obtain ⟨l, rest, parts, plain⟩ := List.eq_append_cons_of_mem dotted
    have shorter : rest.length < name.length := by
      rw [parts, List.length_append, List.length_cons]
      omega
    rw [parts]
    exact dot l rest plain (name_induction nil last dot rest)
  · by_cases empty : name = []
    · rw [empty]
      exact nil
    · exact last name empty dotted
termination_by name.length
decreasing_by exact shorter

theorem labels_last {l : List UInt8} (nonempty : l ≠ []) (plain : 46 ∉ l) : labels l = [l] := by
  rw [labels, List.splitOn_eq_singleton plain, List.getLast?_singleton, if_neg]
  intro empty
  exact nonempty (Option.some.inj empty)

theorem labels_dot {l : List UInt8} (plain : 46 ∉ l) (rest : List UInt8) :
    labels (l ++ 46 :: rest) = l :: labels rest := by
  have whole : rest.splitOn 46 ≠ [] := by simp
  have last : (l :: rest.splitOn 46).getLast? = (rest.splitOn 46).getLast? := by
    obtain ⟨s, ss, cons⟩ := List.exists_cons_of_ne_nil whole
    rw [cons, List.getLast?_cons_cons]
  rw [labels, List.splitOn_append_cons_self_of_not_mem plain, last, labels]
  split
  · exact List.dropLast_cons_of_ne_nil whole
  · rfl

/-! ## One turn -/

section
variable {out cap w : Nat} {o : Written} {l : List UInt8}

theorem packLoop_full (p : List UInt8) (o : Written) (full : cap ≤ w) :
    packLoop out cap p o w = (o, some w) := by
  rw [packLoop, if_pos (.inr full)]

theorem packLoop_last (nonempty : l ≠ []) (plain : 46 ∉ l) (room : w < cap) :
    packLoop out cap l o w =
      if l.length = 0 ∨ l.length > 63 then (o, none)
      else if w + 1 + l.length ≥ cap then (o.put (out + w) l.length.toUInt8, none)
      else ((o.put (out + w) l.length.toUInt8).copy (out + (w + 1)) l,
        some (w + 1 + l.length)) := by
  have go : ¬ (l = [] ∨ cap ≤ w) := by
    rintro (empty | full)
    · exact nonempty empty
    · omega
  rw [packLoop, if_neg go]
  simp only [strchr_absent plain, List.take_length]
  refine ite_congr rfl (fun _ => rfl) fun _ => ite_congr rfl (fun _ => rfl) fun _ => ?_
  split
  · rfl
  · rename_i hit
    rw [strchr_absent plain] at hit
    cases hit

theorem packLoop_dot (plain : 46 ∉ l) (rest : List UInt8) (room : w < cap) :
    packLoop out cap (l ++ 46 :: rest) o w =
      if l.length = 0 ∨ l.length > 63 then (o, none)
      else if w + 1 + l.length ≥ cap then (o.put (out + w) l.length.toUInt8, none)
      else packLoop out cap rest
        ((o.put (out + w) l.length.toUInt8).copy (out + (w + 1)) l) (w + 1 + l.length) := by
  have long : (l ++ 46 :: rest).length - (46 :: rest).length = l.length := by
    rw [List.length_append, Nat.add_sub_cancel]
  have go : ¬ (l ++ 46 :: rest = [] ∨ cap ≤ w) := by
    rintro (empty | full)
    · exact absurd empty (by simp)
    · omega
  rw [packLoop, if_neg go]
  simp only [strchr_append plain, long, List.take_left]
  refine ite_congr rfl (fun _ => rfl) fun _ => ite_congr rfl (fun _ => rfl) fun _ => ?_
  split
  · rename_i hit
    rw [strchr_append plain] at hit
    cases hit
  · rename_i hit
    rw [strchr_append plain] at hit
    cases hit
    rfl

/-! ## The result -/

/-- A label and what follows it are written in one piece. -/
theorem bytes_label (o : Written) (l : List UInt8) (ss : List (List UInt8)) :
    ((o.put (out + w) l.length.toUInt8).copy (out + (w + 1)) l).bytes.store
      (out + (w + 1 + l.length)) (encode ss) = o.bytes.store (out + w) (encode (l :: ss)) := by
  rw [encode, Mem.store_cons, (Mem.store_append _ (out + w + 1) l (encode ss)).1,
    show out + (w + 1 + l.length) = out + w + 1 + l.length by omega]
  rfl

/-- From a place in the buffer on: a name that fits is packed. -/
theorem packEnd_fits (p : List UInt8) : ∀ (o : Written) (w : Nat), Fits 63 (labels p) →
    w + size (labels p) ≤ cap →
    (packEnd out cap (packLoop out cap p o w)).2 = w + size (labels p) ∧
      (packEnd out cap (packLoop out cap p o w)).1.bytes =
        o.bytes.store (out + w) (encode (labels p)) := by
  induction p using name_induction with
  | nil =>
    intro o w _ room
    have open' : ¬ w ≥ cap := Nat.not_le.mpr room
    rw [packLoop, if_pos (.inl rfl), packEnd, if_neg open']
    exact ⟨rfl, (Mem.store_singleton ..).symm⟩
  | last l nonempty plain =>
    intro o w fits room
    rw [labels_last nonempty plain] at fits room ⊢
    rw [size_cons, size_nil] at room ⊢
    have legal := (fits_cons.mp fits).1
    rw [packLoop_last nonempty plain (by omega), if_neg (by omega), if_neg (by omega), packEnd,
      if_neg (by omega)]
    refine ⟨by push_cast; omega, ?_⟩
    rw [← bytes_label]
    exact (Mem.store_singleton ..).symm
  | dot l rest plain ih =>
    intro o w fits room
    rw [labels_dot plain] at fits room ⊢
    rw [size_cons] at room ⊢
    obtain ⟨legal, fits⟩ := fits_cons.mp fits
    have positive := size_pos (labels rest)
    rw [packLoop_dot plain rest (by omega), if_neg (by omega), if_neg (by omega)]
    obtain ⟨value, bytes⟩ := ih ((o.put (out + w) l.length.toUInt8).copy (out + (w + 1)) l)
      (w + 1 + l.length) fits (by omega)
    rw [value, bytes]
    exact ⟨by push_cast; omega, bytes_label o l (labels rest)⟩

/-- Any other name is refused. -/
theorem packEnd_unfit (p : List UInt8) : ∀ (o : Written) (w : Nat),
    ¬ (Fits 63 (labels p) ∧ w + size (labels p) ≤ cap) →
    (packEnd out cap (packLoop out cap p o w)).2 = -1 := by
  induction p using name_induction with
  | nil =>
    intro o w unfit
    have full : w ≥ cap := by
      by_contra room
      exact unfit ⟨fits_nil 63, Nat.not_le.mp room⟩
    rw [packLoop, if_pos (.inl rfl), packEnd, if_pos full]
  | last l nonempty plain =>
    intro o w unfit
    rw [labels_last nonempty plain, fits_cons, size_cons, size_nil] at unfit
    by_cases room : w < cap
    · rw [packLoop_last nonempty plain room]
      split
      · rfl
      · split
        · rfl
        · exact absurd ⟨⟨by omega, fits_nil 63⟩, by omega⟩ unfit
    · rw [packLoop_full l o (Nat.not_lt.mp room), packEnd, if_pos (Nat.not_lt.mp room)]
  | dot l rest plain ih =>
    intro o w unfit
    rw [labels_dot plain, fits_cons, size_cons] at unfit
    by_cases room : w < cap
    · rw [packLoop_dot plain rest room]
      split
      · rfl
      · split
        · rfl
        · apply ih
          rintro ⟨fits, inside⟩
          exact unfit ⟨⟨by omega, fits⟩, by omega⟩
    · rw [packLoop_full _ o (Nat.not_lt.mp room), packEnd, if_pos (Nat.not_lt.mp room)]

/-- No place outside the buffer is written. -/
theorem packEnd_within (p : List UInt8) : ∀ (o : Written) (w : Nat),
    Written.Within (fun i => out ≤ i ∧ i < out + cap) o
      (packEnd out cap (packLoop out cap p o w)).1 := by
  have ends (o : Written) (w : Nat) :
      Written.Within (fun i => out ≤ i ∧ i < out + cap) o (packEnd out cap (o, some w)).1 := by
    rw [packEnd]
    split
    · exact .refl _ o
    · exact (Written.Within.refl _ o).put (by omega)
  have label (o : Written) (w : Nat) (l : List UInt8) (room : w < cap)
      (inside : ¬ w + 1 + l.length ≥ cap) : Written.Within (fun i => out ≤ i ∧ i < out + cap) o
        ((o.put (out + w) l.length.toUInt8).copy (out + (w + 1)) l) := by
    have first := (Written.Within.refl (fun i => out ≤ i ∧ i < out + cap) o).put
      (i := out + w) (b := l.length.toUInt8) (by omega)
    exact first.copy (by intro j low high; omega)
  have length (o : Written) (w : Nat) (l : List UInt8) (room : w < cap) :
      Written.Within (fun i => out ≤ i ∧ i < out + cap) o (o.put (out + w) l.length.toUInt8) :=
    (Written.Within.refl _ o).put (by omega)
  induction p using name_induction with
  | nil =>
    intro o w
    rw [packLoop, if_pos (.inl rfl)]
    exact ends o w
  | last l nonempty plain =>
    intro o w
    by_cases room : w < cap
    · rw [packLoop_last nonempty plain room]
      split
      · exact .refl _ o
      · split
        · exact length o w l room
        · rename_i inside
          exact (label o w l room inside).trans (ends _ _)
    · rw [packLoop_full l o (Nat.not_lt.mp room)]
      exact ends o w
  | dot l rest plain ih =>
    intro o w
    by_cases room : w < cap
    · rw [packLoop_dot plain rest room]
      split
      · exact .refl _ o
      · split
        · exact length o w l room
        · rename_i inside
          exact (label o w l room inside).trans (ih _ _)
    · rw [packLoop_full _ o (Nat.not_lt.mp room)]
      exact ends o w

end

section
variable {name : List UInt8} {o : Written} {out cap : Nat}

theorem packName_fits (fits : Fits 63 (labels name)) (room : size (labels name) ≤ cap) :
    (packName name o out cap).2 = size (labels name) ∧
      (packName name o out cap).1.bytes = o.bytes.store out (encode (labels name)) := by
  obtain ⟨value, bytes⟩ : (packName name o out cap).2 = (0 : Nat) + size (labels name) ∧
      (packName name o out cap).1.bytes = o.bytes.store out (encode (labels name)) :=
    packEnd_fits name o 0 fits (by omega)
  exact ⟨by omega, bytes⟩

theorem packName_unfit (unfit : ¬ (Fits 63 (labels name) ∧ size (labels name) ≤ cap)) :
    (packName name o out cap).2 = -1 := by
  apply packEnd_unfit
  rwa [Nat.zero_add]

theorem packName_within : Written.Within (fun i => out ≤ i ∧ i < out + cap) o
    (packName name o out cap).1 := packEnd_within name o 0

end

/-- The bytes alone, as the query is built from them elsewhere. -/
theorem packLabels_eq (cap : Nat) (name : List UInt8) : ∀ out : List UInt8,
    packLabels cap (name.splitOn 46) out =
      if Fits 63 (labels name) ∧ out.length + size (labels name) ≤ cap then
        some (out ++ encode (labels name)) else none := by
  induction name using name_induction with
  | nil =>
    intro out
    rw [List.splitOn_nil, packLabels, if_pos (.inl ⟨rfl, rfl⟩)]
    by_cases full : cap ≤ out.length
    · rw [if_pos full, if_neg]
      rintro ⟨-, room⟩
      exact absurd room (Nat.not_le.mpr (Nat.lt_succ_of_le full))
    · rw [if_neg full, if_pos ⟨fits_nil 63, Nat.not_le.mp full⟩]
      rfl
  | last l nonempty plain =>
    intro out
    rw [List.splitOn_eq_singleton plain, labels_last nonempty plain, packLabels]
    simp only [fits_cons, size_cons, size_nil]
    split
    · rename_i full
      have none' : cap ≤ out.length := full.resolve_left fun both => nonempty both.1
      rw [if_pos none', if_neg (by omega)]
    · split
      · rw [if_neg (by omega)]
      · split
        · rw [if_neg (by omega)]
        · have longer : (out ++ l.length.toUInt8 :: l).length = out.length + 1 + l.length := by
            rw [List.length_append, List.length_cons]
            omega
          rw [packLabels, longer, if_neg (by omega), if_pos ⟨⟨by omega, fits_nil 63⟩, by omega⟩,
            List.append_assoc]
          rfl
  | dot l rest plain ih =>
    intro out
    have more : rest.splitOn 46 ≠ [] := by simp
    rw [List.splitOn_append_cons_self_of_not_mem plain, labels_dot plain, packLabels]
    simp only [fits_cons, size_cons]
    split
    · rename_i full
      have none' : cap ≤ out.length := full.resolve_left fun both => more both.2
      rw [if_pos none', if_neg (by omega)]
    · split
      · rw [if_neg (by omega)]
      · split
        · have := size_pos (labels rest)
          rw [if_neg (by omega)]
        · have longer : (out ++ l.length.toUInt8 :: l).length = out.length + 1 + l.length := by
            rw [List.length_append, List.length_cons]
            omega
          rw [ih, longer, List.append_assoc]
          refine if_congr ?_ rfl rfl
          constructor
          · rintro ⟨fits, room⟩
            exact ⟨⟨by omega, fits⟩, by omega⟩
          · rintro ⟨⟨-, fits⟩, room⟩
            exact ⟨fits, by omega⟩

theorem packName_eq (name : List UInt8) (cap : Nat) : MyOS.packName name cap =
    if Fits 63 (labels name) ∧ size (labels name) ≤ cap then some (encode (labels name))
      else none := by
  have whole := packLabels_eq cap name []
  rwa [List.length_nil, Nat.zero_add] at whole

/-- `pack_name` takes exactly the names whose labels are legal and fit; what it
writes decodes to them, and it stays inside its buffer. -/
theorem packName_exact (name : List UInt8) (m : Mem) (out cap : Nat) :
    let r := packName name ⟨m, []⟩ out cap
    (0 ≤ r.2 ↔ Fits 63 (labels name) ∧ size (labels name) ≤ cap) ∧
      (0 ≤ r.2 → r.2 = size (labels name) ∧
        decode (r.1.bytes.load out r.2.toNat) = some (labels name, [])) ∧
      (∀ i ∈ r.1.places, out ≤ i ∧ i < out + cap) ∧
      ∀ i, ¬ (out ≤ i ∧ i < out + cap) → r.1.bytes i = m i := by
  intro r
  have within : Written.Within (fun i => out ≤ i ∧ i < out + cap) ⟨m, []⟩ r.1 := packName_within
  have exact_ : 0 ≤ r.2 ↔ Fits 63 (labels name) ∧ size (labels name) ≤ cap := by
    constructor
    · intro taken
      by_contra unfit
      have refused : r.2 = -1 := packName_unfit unfit
      omega
    · rintro ⟨fits, room⟩
      have value : r.2 = size (labels name) := (packName_fits fits room).1
      omega
  refine ⟨exact_, ?_, ?_, within.kept⟩
  · intro taken
    obtain ⟨fits, room⟩ := exact_.mp taken
    have value : r.2 = size (labels name) := (packName_fits fits room).1
    have bytes : r.1.bytes = m.store out (encode (labels name)) := (packName_fits fits room).2
    refine ⟨value, ?_⟩
    rw [value, bytes, Int.toNat_natCast, ← length_encode, Mem.load_store]
    have whole := decode_encode (by decide) fits []
    rwa [List.append_nil] at whole
  · intro i mem
    rcases within.places i mem with before | here
    · cases before
    · exact here

theorem packName_exact_dot :
    (packName [97, 46] ⟨fun _ => 0, []⟩ 12 3).2 = 3 ∧
      decode ((packName [97, 46] ⟨fun _ => 0, []⟩ 12 3).1.bytes.load 12
        (packName [97, 46] ⟨fun _ => 0, []⟩ 12 3).2.toNat) = some ([[97]], []) := by
  have whole := packName_exact [97, 46] (fun _ => 0) 12 3
  exact whole.2.1 (whole.1.mpr (by decide))

end MyOS.PackName
