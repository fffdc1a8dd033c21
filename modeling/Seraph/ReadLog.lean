import Seraph.ByteMemory

/-!
# Logged reads

`Memory.bytes` is the list of the bytes of an interval. A computation that reads a memory is `Logged` : its value and the regions it read, in order.
`All P m` says that `P` holds of every region read, and goes through `bind` and branches
(`all_bind`, `all_ite`).
-/

namespace ByteMem.Memory

/-- The `n` bytes at `a`. -/
def bytes (m : Memory) (a n : ℕ) : List UInt8 :=
  (List.range n).map fun i => m (a + i)

@[simp] theorem length_bytes (m : Memory) (a n : ℕ) : (m.bytes a n).length = n := by
  simp [bytes]

theorem bytes_congr {m m' : Memory} {a b n : ℕ} (h : ∀ i < n, m' (b + i) = m (a + i)) :
    m'.bytes b n = m.bytes a n :=
  List.map_congr_left fun i hi => h i (List.mem_range.1 hi)

end ByteMem.Memory

namespace ReadLog

open ByteMem

/-- A value and the regions read on the way to it. -/
structure Logged (α : Type) where
  value : α
  reads : List Region

namespace Logged

variable {α β : Type}

instance : Monad Logged where
  pure a := ⟨a, []⟩
  bind m f := ⟨(f m.value).value, m.reads ++ (f m.value).reads⟩

@[simp] theorem value_pure (a : α) : (pure a : Logged α).value = a :=
  rfl

@[simp] theorem value_bind (m : Logged α) (f : α → Logged β) :
    (m >>= f).value = (f m.value).value :=
  rfl

/-- `P` holds of every region read. -/
def All (P : Region → Prop) (m : Logged α) : Prop :=
  ∀ r ∈ m.reads, P r

variable {P : Region → Prop}

@[simp] theorem all_pure (a : α) : All P (pure a) :=
  fun _ hr => absurd hr List.not_mem_nil

@[simp] theorem all_bind {m : Logged α} {f : α → Logged β} :
    All P (m >>= f) ↔ All P m ∧ All P (f m.value) :=
  List.forall_mem_append

theorem all_ite {c : Prop} [Decidable c] {m n : Logged α} (hm : c → All P m) (hn : ¬c → All P n) :
    All P (if c then m else n) := by
  by_cases h : c
  · rw [if_pos h]
    exact hm h
  · rw [if_neg h]
    exact hn h

theorem all_ite_iff {c : Prop} [Decidable c] {m n : Logged α} :
    All P (if c then m else n) ↔ (c → All P m) ∧ (¬c → All P n) := by
  by_cases h : c
  · rw [if_pos h]
    exact ⟨fun hm => ⟨fun _ => hm, fun hn => absurd h hn⟩, fun hall => hall.1 h⟩
  · rw [if_neg h]
    exact ⟨fun hn => ⟨fun hc => absurd hc h, fun _ => hn⟩, fun hall => hall.2 h⟩

/-- A loop whose rounds read what is theirs to read, whatever the rounds before them did. -/
theorem all_foldlM_iff {γ : Type} {f : β → γ → Logged β} {Q : γ → Prop} (cs : List γ)
    (hf : ∀ b, ∀ c ∈ cs, (All P (f b c) ↔ Q c)) (b : β) :
    All P (cs.foldlM f b) ↔ ∀ c ∈ cs, Q c := by
  induction cs generalizing b with
  | nil => exact ⟨fun _ _ hc => absurd hc List.not_mem_nil, fun _ => all_pure b⟩
  | cons c cs ih =>
    rw [List.foldlM_cons, all_bind, hf b c List.mem_cons_self,
      ih fun b d hd => hf b d (List.mem_cons_of_mem _ hd), List.forall_mem_cons]

/-- The value of a loop is the loop of the values. -/
theorem value_foldlM {γ : Type} (f : β → γ → Logged β) (cs : List γ) (b : β) :
    (cs.foldlM f b).value = cs.foldl (fun b c => (f b c).value) b := by
  induction cs generalizing b with
  | nil => rfl
  | cons c cs ih => rw [List.foldlM_cons, value_bind, ih, List.foldl_cons]

/-- A loop whose rounds read only what `P` allows. -/
theorem all_foldlM {γ : Type} {f : β → γ → Logged β} (cs : List γ)
    (hf : ∀ b, ∀ c ∈ cs, All P (f b c)) (b : β) : All P (cs.foldlM f b) := by
  induction cs generalizing b with
  | nil => exact all_pure b
  | cons c cs ih =>
    rw [List.foldlM_cons, all_bind]
    exact ⟨hf b c List.mem_cons_self,
      ih (fun b d hd => hf b d (List.mem_cons_of_mem _ hd)) _⟩

end Logged

end ReadLog
