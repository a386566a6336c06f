import MyOS.Dns.Resolution

/-!
# The boundaries in a response

RFC 1035 writes a name as labels, as a pointer, or as labels that end in one. The
walk of `dns_on_response` knows the first form everywhere and the second one in
the answers; the third sends it past the end of the record.
-/

namespace MyOS.Boundaries

open NameCache Outstanding Resolution Runs

/-- The offset in a pointer of two bytes. -/
def pointerAt (data : Mem) (off : Nat) : Nat := (be16 data off &&& (0x3FFF : UInt16)).toNat

/-- A name of any form stands from `off` on and ends before `stop`. A pointer
leads back to a name. -/
inductive NameAt (data : Mem) : Nat → Nat → Prop
  | root {off : Nat} (zero : data off = 0) : NameAt data off (off + 1)
  | pointer {off last : Nat} (high : data off &&& 0xC0 = 0xC0) (back : pointerAt data off < off)
      (target : NameAt data (pointerAt data off) last) : NameAt data off (off + 2)
  | label {off stop : Nat} (some : data off ≠ 0) (plain : data off ≤ 63)
      (rest : NameAt data (off + (1 + (data off).toNat)) stop) : NameAt data off stop

/-- Type A, class IN, in the record whose name ends before `stop`. -/
def IsAddress (data : Mem) (stop : Nat) : Prop := be16 data stop = 1 ∧ be16 data (stop + 2) = 1

instance (data : Mem) : DecidablePred (IsAddress data) :=
  fun _ => inferInstanceAs (Decidable (_ ∧ _))

/-- The questions from `off` on, listed by the ends of their names, up to `last`. -/
inductive QuestionsAt (Named : Nat → Nat → Prop) (len : Int) : Nat → List Nat → Nat → Prop
  | nil {off : Nat} : QuestionsAt Named len off [] off
  | cons {off stop last : Nat} {stops : List Nat} (name : Named off stop)
      (inside : (stop : Int) + 4 ≤ len) (rest : QuestionsAt Named len (stop + 4) stops last) :
      QuestionsAt Named len off (stop :: stops) last

/-- The records from `off` on, listed by the ends of their names. -/
inductive RecordsAt (Named : Nat → Nat → Prop) (data : Mem) (len : Int) : Nat → List Nat → Prop
  | nil {off : Nat} : RecordsAt Named data len off []
  | cons {off stop : Nat} {stops : List Nat} (name : Named off stop)
      (inside : (stop : Int) + 10 + (be16 data (stop + 8)).toNat ≤ len)
      (address : IsAddress data stop → be16 data (stop + 8) = 4)
      (rest : RecordsAt Named data len (stop + 10 + (be16 data (stop + 8)).toNat) stops) :
      RecordsAt Named data len off (stop :: stops)

structure WellFormed (data : Mem) (len : Int) (questions answers : List Nat) : Prop where
  header : 12 ≤ len
  qdcount : questions.length = (be16 data 4).toNat
  ancount : answers.length = (be16 data 6).toNat
  sections : ∃ mid, QuestionsAt (NameAt data) len 12 questions mid ∧
    RecordsAt (NameAt data) data len mid answers

/-- The first IN A address of the answers. -/
def firstAddress (data : Mem) (answers : List Nat) : Option UInt32 :=
  (answers.find? fun stop => IsAddress data stop).map fun stop => be32 data (stop + 10)

/-! ## The steps of the walk -/

/-- The ends of names at which the loop over the questions arrives, for those it
steps over. -/
def questionSteps (data : Mem) (len : Int) : Nat → Nat → List Nat
  | 0, _ => []
  | qdcount + 1, off =>
    let off := skipName data len off + 1
    if (off : Int) + 4 > len then [] else off :: questionSteps data len qdcount (off + 4)

def skipOwner (data : Mem) (len : Int) (off : Nat) : Nat :=
  if data off &&& 0xC0 = 0xC0 then off + 2 else skipName data len off + 1

/-- The same for the answers. -/
def answerSteps (data : Mem) (len : Int) : Nat → Nat → List Nat
  | 0, _ => []
  | ancount + 1, off =>
    if (off : Int) + 12 > len then []
    else
      let off := skipOwner data len off
      if (off : Int) + 10 > len then []
      else
        let rdlen := be16 data (off + 8)
        if (off : Int) + 10 + rdlen.toNat > len then []
        else off :: answerSteps data len ancount (off + 10 + rdlen.toNat)

def dnsSteps (data : Mem) (len : Int) : List Nat × List Nat :=
  if len < 12 then ([], [])
  else
    (questionSteps data len (be16 data 4).toNat 12,
      match skipQuestions data len (be16 data 4).toNat 12 with
      | none => []
      | some off => answerSteps data len (be16 data 6).toNat off)

/-- The walk steps over every question and answer where they end, and the first
address is cached under the queried name. -/
structure Handled (d : Dns) (data : Mem) (len : Int) (questions answers : List Nat) : Prop where
  steps : dnsSteps data len = (questions, answers)
  finished : (dnsAnswers data len).finished = true
  cached : ∀ queriedName, qtrackGetname d (dnsId data) = some queriedName →
    dnsGetCached d queriedName = none → ∀ a, firstAddress data answers = some a → a ≠ 0 →
      ∀ srcIp, dnsGetCached (dnsOnResponse d srcIp data len) queriedName = some a

/-- An owner name of labels or a pointer alone, with 12 bytes of the message left. -/
def Simple (data : Mem) (len : Int) (off stop : Nat) : Prop :=
  (off : Int) + 12 ≤ len ∧
    (LabelsAt data off stop ∨ (data off &&& 0xC0 = 0xC0 ∧ stop = off + 2))

def Plain (data : Mem) (len : Int) (questions answers : List Nat) : Prop :=
  ∃ mid, QuestionsAt (LabelsAt data) len 12 questions mid ∧
    RecordsAt (Simple data len) data len mid answers

/-! ## One name -/

variable {data : Mem} {len : Int}

theorem le_skipLabels (data : Mem) (len : Int) (fuel off : Nat) :
    off ≤ skipLabels data len fuel off := by
  induction fuel generalizing off with
  | zero => exact Nat.le_refl off
  | succ fuel ih =>
    rw [skipLabels]
    split
    · have := ih (off + (1 + (data off).toNat))
      omega
    · exact Nat.le_refl off

theorem pointer_high {b : UInt8} (high : b &&& 0xC0 = 0xC0) : 192 ≤ b.toNat := by
  have below : b.toNat &&& 192 ≤ b.toNat := Nat.and_le_left
  have value := congrArg UInt8.toNat high
  rw [UInt8.toNat_and] at value
  change b.toNat &&& 192 = 192 at value
  omega

theorem label_low {b : UInt8} (plain : b ≤ 63) : b &&& 0xC0 ≠ 0xC0 := by
  intro high
  have large := pointer_high high
  have small : b.toNat ≤ 63 := plain
  omega

/-- The loop over labels ends behind a name if and only if it is made of labels. -/
theorem skipLabels_iff {off stop : Nat} (name : NameAt data off stop) (inside : (stop : Int) ≤ len)
    {fuel : Nat} (enough : stop ≤ fuel + off) :
    skipLabels data len fuel off + 1 = stop ↔ LabelsAt data off stop := by
  refine ⟨?_, fun labels => skipLabels_labels labels inside enough⟩
  induction name generalizing fuel with
  | root zero => exact fun _ => .root zero
  | @pointer off last high back target ih =>
    intro ends
    have large := pointer_high high
    have some : data off ≠ 0 := by
      intro zero
      rw [zero] at large
      cases large
    cases fuel with
    | zero => omega
    | succ fuel =>
      rw [skipLabels, if_pos ⟨by omega, some⟩] at ends
      have := le_skipLabels data len fuel (off + (1 + (data off).toNat))
      omega
  | @label off stop some plain rest ih =>
    intro ends
    have before : off < stop := by
      have := le_skipLabels data len fuel off
      omega
    cases fuel with
    | zero => omega
    | succ fuel =>
      rw [skipLabels, if_pos ⟨by omega, some⟩] at ends
      exact .label some plain (ih inside (by omega) ends)

theorem skipName_iff {off stop : Nat} (name : NameAt data off stop) (inside : (stop : Int) ≤ len) :
    skipName data len off + 1 = stop ↔ LabelsAt data off stop :=
  skipLabels_iff name inside (by omega)

theorem skipOwner_iff {off stop : Nat} (name : NameAt data off stop) (inside : (stop : Int) ≤ len) :
    skipOwner data len off = stop ↔
      LabelsAt data off stop ∨ (data off &&& 0xC0 = 0xC0 ∧ stop = off + 2) := by
  unfold skipOwner
  by_cases high : data off &&& 0xC0 = 0xC0
  · rw [if_pos high]
    cases name with
    | root zero => rw [zero] at high; cases high
    | pointer => exact iff_of_true rfl (.inr ⟨high, rfl⟩)
    | label some plain => exact absurd high (label_low plain)
  · rw [if_neg high, skipName_iff name inside]
    constructor
    · exact .inl
    · rintro (labels | pointer)
      · exact labels
      · exact absurd pointer.1 high

/-! ## The sections -/

/-- The walk finds the questions if and only if their names are made of labels. -/
theorem questionSteps_iff {off last : Nat} {stops : List Nat}
    (questions : QuestionsAt (NameAt data) len off stops last) :
    questionSteps data len stops.length off = stops ↔
      QuestionsAt (LabelsAt data) len off stops last := by
  induction questions with
  | nil => exact iff_of_true rfl .nil
  | @cons off stop last stops name inside rest ih =>
    have first := skipName_iff name (by omega : (stop : Int) ≤ len)
    rw [List.length_cons, questionSteps]
    constructor
    · intro steps
      split at steps
      · cases steps
      · obtain ⟨same, more⟩ := List.cons.inj steps
        rw [same] at more
        exact .cons (first.mp same) inside (ih.mp more)
    · intro plain
      cases plain with
      | cons labels _ more => rw [first.mpr labels, if_neg (by omega), ih.mpr more]

theorem skipQuestions_labels {off last : Nat} {stops : List Nat}
    (questions : QuestionsAt (LabelsAt data) len off stops last) :
    skipQuestions data len stops.length off = some last := by
  induction questions with
  | nil => rfl
  | @cons off stop last stops labels inside rest ih =>
    have first : skipName data len off + 1 = stop := skipLabels_labels labels (by omega) (by omega)
    rw [List.length_cons, skipQuestions, first, if_neg (by omega)]
    exact ih

/-- It finds the answers if and only if their owner names are simple. -/
theorem answerSteps_iff {off : Nat} {stops : List Nat}
    (answers : RecordsAt (NameAt data) data len off stops) :
    answerSteps data len stops.length off = stops ↔
      RecordsAt (Simple data len) data len off stops := by
  induction answers with
  | nil => exact iff_of_true rfl .nil
  | @cons off stop stops name inside address rest ih =>
    have owner := skipOwner_iff name (by omega : (stop : Int) ≤ len)
    rw [List.length_cons, answerSteps]
    constructor
    · intro steps
      split at steps
      · cases steps
      · rename_i room
        dsimp only at steps
        split at steps
        · cases steps
        · split at steps
          · cases steps
          · obtain ⟨same, more⟩ := List.cons.inj steps
            rw [same] at more
            exact .cons ⟨by omega, owner.mp same⟩ inside address (ih.mp more)
    · intro plain
      cases plain with
      | cons simple _ _ more =>
        rw [if_neg (by have := simple.1; omega), owner.mpr simple.2, if_neg (by omega),
          if_neg (by omega), ih.mpr more]

/-- The addresses are then the ones of the section. -/
theorem walkAnswers_simple {off : Nat} {stops : List Nat}
    (answers : RecordsAt (Simple data len) data len off stops)
    (named : RecordsAt (NameAt data) data len off stops) :
    walkAnswers data len stops.length off =
      ⟨(stops.filter fun stop => IsAddress data stop).map fun stop => be32 data (stop + 10),
        true⟩ := by
  induction answers with
  | nil => rfl
  | @cons off stop stops simple inside address rest ih =>
    cases named with
    | cons name _ _ rest' =>
      have owner := (skipOwner_iff name (by omega : (stop : Int) ≤ len)).mpr simple.2
      have room := simple.1
      unfold skipOwner at owner
      rw [List.length_cons, walkAnswers, if_neg (by omega), owner, if_neg (by omega)]
      dsimp only
      rw [if_neg (by omega), ih rest']
      by_cases found : IsAddress data stop
      · rw [if_pos ⟨found.1, found.2, address found⟩,
          List.filter_cons_of_pos (by simpa using found)]
        rfl
      · rw [if_neg (fun all => found ⟨all.1, all.2.1⟩),
          List.filter_cons_of_neg (by simpa using found)]

/-! ## A response -/

variable {questions answers : List Nat}

theorem dnsAnswers_plain (form : WellFormed data len questions answers)
    {mid : Nat} (named : QuestionsAt (LabelsAt data) len 12 questions mid)
    (owned : RecordsAt (NameAt data) data len mid answers)
    (simple : RecordsAt (Simple data len) data len mid answers) :
    dnsAnswers data len =
      ⟨(answers.filter fun stop => IsAddress data stop).map fun stop => be32 data (stop + 10),
        true⟩ := by
  have header := form.header
  rw [dnsAnswers, if_neg (by omega), ← form.qdcount, skipQuestions_labels named, ← form.ancount]
  exact walkAnswers_simple simple owned

/-- Two lists of questions with the same ends have the same end. -/
theorem QuestionsAt.last_unique {Named Named' : Nat → Nat → Prop} {off last last' : Nat}
    {stops : List Nat} (h : QuestionsAt Named len off stops last)
    (h' : QuestionsAt Named' len off stops last') : last = last' := by
  induction h with
  | nil => cases h'; rfl
  | cons _ _ _ ih =>
    cases h' with
    | cons _ _ rest => exact ih rest

/-- The name under the id is stored with the first address. -/
theorem first_cached {d : Dns} (inv : Inv d) {queriedName : Name}
    (found : qtrackGetname d (dnsId data) = some queriedName)
    (uncached : dnsGetCached d queriedName = none) {a : UInt32} (nonzero : a ≠ 0)
    (addresses : (dnsAnswers data len).addresses.head? = some a) (srcIp : UInt32) :
    dnsGetCached (dnsOnResponse d srcIp data len) queriedName = some a := by
  have absent : dnsCached d queriedName = none := Option.map_eq_none_iff.mp uncached
  have short : Short queriedName := qtrackGetname_short inv found
  obtain ⟨more, whole⟩ := List.head?_eq_some_iff.mp addresses
  have cache := dnsOnResponse_cache d srcIp data len
  rw [found, whole] at cache
  have stored := foldl_dnsCacheStore_new inv.distinct short absent nonzero more
  rw [dnsGetCached, dnsCached] at stored ⊢
  rw [cache]
  exact stored

/-- In every state the calls reach: a well-formed response is handled as it should
be if and only if its names have the simple forms. -/
theorem handled_iff {k₀ : Kernel} (boot : k₀.dns = .boot) (es : List DnsEvent)
    (form : WellFormed data len questions answers) :
    Handled (es.foldl dnsStep k₀).dns data len questions answers ↔
      Plain data len questions answers := by
  have inv : Inv (es.foldl dnsStep k₀).dns := foldl_dnsStep_inv boot es
  have header := form.header
  obtain ⟨mid, named, owned⟩ := form.sections
  constructor
  · intro handled
    have steps := handled.steps
    rw [dnsSteps, if_neg (by omega), Prod.mk.injEq, ← form.qdcount, ← form.ancount] at steps
    have labels := (questionSteps_iff named).mp steps.1
    have walked := steps.2
    rw [skipQuestions_labels labels] at walked
    exact ⟨mid, labels, (answerSteps_iff owned).mp walked⟩
  · rintro ⟨mid', labels, simple⟩
    obtain rfl : mid' = mid := labels.last_unique named
    have walk := dnsAnswers_plain form labels owned simple
    refine ⟨?_, by rw [walk], ?_⟩
    · rw [dnsSteps, if_neg (by omega), ← form.qdcount, ← form.ancount,
        (questionSteps_iff named).mpr labels, skipQuestions_labels labels]
      exact congrArg _ ((answerSteps_iff owned).mpr simple)
    · intro queriedName found uncached a first nonzero srcIp
      apply first_cached inv found uncached nonzero
      rw [walk, List.head?_map, List.head?_filter]
      exact first

/-! ## Two responses -/

theorem named_of_labels {off stop : Nat} (labels : LabelsAt data off stop) :
    NameAt data off stop := by
  induction labels with
  | root zero => exact .root zero
  | label some plain _ ih => exact .label some plain ih

/-- A query for "a.b" is out under 0x4001. -/
def asked : Dns := ([DnsEvent.query [97, 46, 98]].foldl dnsStep .boot).dns

/-- The answer 1.2.3.4 with the owner name given. -/
def answerFor (owner : List UInt8) : Mem :=
  .ofList ([0x40, 0x01, 0x81, 0x80, 0, 1, 0, 1, 0, 0, 0, 0, 1, 97, 1, 98, 0, 0, 1, 0, 1] ++ owner ++
    [0, 1, 0, 1, 0, 0, 0, 60, 0, 4, 1, 2, 3, 4])

theorem handled_iff_pointer : Handled asked (answerFor [0xC0, 12]) 37 [17] [23] := by
  have question : LabelsAt (answerFor [0xC0, 12]) 12 17 :=
    .label (by decide) (by decide) (.label (by decide) (by decide) (.root (by decide)))
  have owner : NameAt (answerFor [0xC0, 12]) 21 23 :=
    .pointer (by decide) (by decide) (named_of_labels question)
  have form : WellFormed (answerFor [0xC0, 12]) 37 [17] [23] :=
    { header := by decide
      qdcount := by decide
      ancount := by decide
      sections := ⟨21, .cons (named_of_labels question) (by decide) .nil,
        .cons owner (by decide) (by decide) .nil⟩ }
  apply (handled_iff rfl [.query [97, 46, 98]] form).mpr
  exact ⟨21, .cons question (by decide) .nil,
    .cons ⟨by decide, .inr (by decide)⟩ (by decide) (by decide) .nil⟩

/-- With the label "a" and a pointer to "b" for its owner the answer is lost. -/
theorem labelled_pointer_unhandled :
    WellFormed (answerFor [1, 97, 0xC0, 14]) 39 [17] [25] ∧
      qtrackGetname asked (dnsId (answerFor [1, 97, 0xC0, 14])) = some [97, 46, 98] ∧
      ¬ Handled asked (answerFor [1, 97, 0xC0, 14]) 39 [17] [25] := by
  have last : LabelsAt (answerFor [1, 97, 0xC0, 14]) 14 17 :=
    .label (by decide) (by decide) (.root (by decide))
  have question : LabelsAt (answerFor [1, 97, 0xC0, 14]) 12 17 :=
    .label (by decide) (by decide) last
  have owner : NameAt (answerFor [1, 97, 0xC0, 14]) 21 25 :=
    .label (by decide) (by decide) (.pointer (by decide) (by decide) (named_of_labels last))
  have found : qtrackGetname asked (dnsId (answerFor [1, 97, 0xC0, 14])) = some [97, 46, 98] := by
    decide +kernel
  refine ⟨?_, found, ?_⟩
  · exact
      { header := by decide
        qdcount := by decide
        ancount := by decide
        sections := ⟨21, .cons (named_of_labels question) (by decide) .nil,
          .cons owner (by decide) (by decide) .nil⟩ }
  · intro handled
    have cached := handled.cached [97, 46, 98] found (by decide +kernel) 0x01020304
      (by decide +kernel) (by decide) 0x0A000203
    exact absurd cached (by decide +kernel)

end MyOS.Boundaries
