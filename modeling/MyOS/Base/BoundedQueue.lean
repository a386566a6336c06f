import Mathlib.Data.List.Basic
import MyOS.Base.Runs

/-!
# A queue of bounded length

Chunks go in at the back as far as there is room, and any number of items comes
out at the front. `added` and `taken` are all items that went in and out so far.
-/

namespace MyOS.BoundedQueue

universe u
variable {α : Type u}

/-- The longest prefix of `chunk` that has room. -/
structure Longest (room : Nat) (chunk p : List α) : Prop where
  front : p <+: chunk
  fits : p.length ≤ room
  longest : ∀ p', p' <+: chunk → p'.length ≤ room → p'.length ≤ p.length

theorem longest_take (room : Nat) (chunk : List α) : Longest room chunk (chunk.take room) := by
  refine ⟨List.take_prefix .., List.length_take_le .., fun p' front fits => ?_⟩
  have inside := front.length_le
  rw [List.length_take]
  omega

inductive Op (α : Type u)
  | push (chunk : List α)
  | pop (n : Nat)

structure Queue (α : Type u) where
  content : List α
  added : List α
  taken : List α

namespace Queue

def empty : Queue α := ⟨[], [], []⟩

def step (cap : Nat) (q : Queue α) : Op α → Queue α
  | .push chunk =>
    let p := chunk.take (cap - q.content.length)
    { q with content := q.content ++ p, added := q.added ++ p }
  | .pop n => { q with content := q.content.drop n, taken := q.taken ++ q.content.take n }

/-- Within the bound, and nothing lost, doubled or out of order. -/
structure Sound (cap : Nat) (q : Queue α) : Prop where
  bounded : q.content.length ≤ cap
  conserved : q.taken ++ q.content = q.added

variable {cap : Nat} {q : Queue α}

theorem sound_empty (cap : Nat) : Sound cap (empty : Queue α) := ⟨Nat.zero_le cap, rfl⟩

theorem Sound.step (sound : Sound cap q) (op : Op α) : Sound cap (q.step cap op) := by
  have bounded := sound.bounded
  cases op with
  | push chunk =>
    constructor
    · simp only [Queue.step, List.length_append, List.length_take]
      omega
    · simp only [Queue.step]
      rw [← List.append_assoc, sound.conserved]
  | pop n =>
    constructor
    · simp only [Queue.step, List.length_drop]
      omega
    · simp only [Queue.step]
      rw [List.append_assoc, List.take_append_drop, sound.conserved]

/-- A system whose every call is one operation of the queue `view` shows is sound
throughout each of its runs. -/
theorem along_sound {σ ε : Type*} {step : σ → ε → σ} {I : σ → Prop} {view : σ → Queue α}
    {op : ε → Op α} (keep : ∀ s e, I s → I (step s e))
    (simulates : ∀ s e, I s → view (step s e) = (view s).step cap (op e)) {s : σ} (start : I s)
    (sound : Sound cap (view s)) (es : List ε) :
    Runs.Along step (fun s => I s ∧ Sound cap (view s)) s es :=
  Runs.along_keep (fun s e both => ⟨keep s e both.1, simulates s e both.1 ▸ both.2.step (op e)⟩)
    ⟨start, sound⟩

end Queue

end MyOS.BoundedQueue
