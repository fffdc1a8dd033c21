import Seraph.VectorClock

/-!
# Merges of vector clocks that fail

`seraph_vclock_merge` stores each maximum before it looks at the next components, so it has changed
the clock when it meets a VOID. `seraph_vclock_receive` looks for a VOID in the message first, but
not in the clock that it merges into. `KeepsFailed` tells when a call that fails changes nothing
all the same (`atomic_iff`).
-/

namespace Seraph

namespace VClock

/-- `vclock->timestamps[i] = value`. -/
def setTimestamp (c : VClock) (i value : ℕ) : VClock :=
  { c with timestamps := Function.update c.timestamps i value }

/-- The loop of `seraph_vclock_merge`, from component `i` on. -/
def mergeFrom (other : ℕ → ℕ) : (i left : ℕ) → VClock → VClock × Vbit
  | _, 0, c => (c, .true)
  | i, left + 1, c =>
    let merged := chrononMax (c.timestamps i) (other i)
    if merged = voidU64 then (c, .void)
    else mergeFrom other (i + 1) left (c.setTimestamp i merged)

/-- `seraph_vclock_merge`. -/
def merge (c other : VClock) : VClock × Vbit :=
  if c.nodeCount ≠ other.nodeCount then (c, .false)
  else mergeFrom other.timestamps 0 c.nodeCount c

/-- A call that has returned FALSE, or VOID for a VOID in its input, has left the clock alone. -/
def AtomicCall (c : VClock) (voidInput : Prop) (call : VClock × Vbit) : Prop :=
  call.2 = .false ∨ (call.2 = .void ∧ voidInput) → call.1 = c

/-- Component `i` is VOID in the clock or in what is merged into it. -/
def VoidAt (c : VClock) (other : ℕ → ℕ) (i : ℕ) : Prop :=
  c.timestamps i = voidU64 ∨ other i = voidU64

/-- What a received message finds VOID : one of its components, or the owner's. A VOID that the
clock has for another node stays in it. -/
def VoidReceived (c : VClock) (received : ℕ → ℕ) (count : ℕ) : Prop :=
  (∃ i < count, received i = voidU64) ∨ c.timestamps c.selfId = voidU64

/-- Failed merges are atomic. -/
def Atomic (c other : VClock) (received : ℕ → ℕ) (count : ℕ) : Prop :=
  AtomicCall c (∃ i < c.nodeCount, c.VoidAt other.timestamps i) (c.merge other) ∧
    AtomicCall c (c.VoidReceived received count) (c.receive received count)

/-- No component before the first VOID is greater in the other clock, and no component of a message
without VOID is greater than in a clock whose owner's component is VOID. -/
def KeepsFailed (c other : VClock) (received : ℕ → ℕ) (count : ℕ) : Prop :=
  (c.nodeCount = other.nodeCount → (∃ i < c.nodeCount, c.VoidAt other.timestamps i) →
    ∀ i < c.nodeCount, (∀ j ≤ i, ¬c.VoidAt other.timestamps j) →
      other.timestamps i ≤ c.timestamps i) ∧
  (count = c.nodeCount → c.timestamps c.selfId = voidU64 → (∀ i < count, received i ≠ voidU64) →
    ∀ i < count, c.timestamps i = voidU64 ∨ received i ≤ c.timestamps i)

variable {c d : VClock} {other received : ℕ → ℕ} {count i left : ℕ}

theorem chrononMax_eq_void {a b : ℕ} :
    chrononMax a b = voidU64 ↔ a = voidU64 ∨ b = voidU64 := by
  unfold chrononMax
  split_ifs with h h'
  · exact iff_of_true rfl h
  · exact ⟨.inl, fun h'' => absurd h'' h⟩
  · exact ⟨.inr, fun h'' => absurd h'' h⟩

/-- A component stays if the other one is not greater. -/
theorem chrononMax_eq_left {a b : ℕ} (ha : a ≠ voidU64) (hb : b ≠ voidU64) :
    chrononMax a b = a ↔ b ≤ a := by
  rw [chrononMax, if_neg (by simp [ha, hb])]
  split_ifs with h
  · exact iff_of_true rfl h
  · exact ⟨fun heq => heq.le, fun hle => absurd hle h⟩

theorem timestamps_set_self (c : VClock) (i value : ℕ) :
    (c.setTimestamp i value).timestamps i = value :=
  Function.update_self _ _ _

theorem timestamps_set_of_ne (c : VClock) {i k : ℕ} (value : ℕ) (h : k ≠ i) :
    (c.setTimestamp i value).timestamps k = c.timestamps k :=
  Function.update_of_ne h _ _

theorem voidAt_set_of_ne (c : VClock) {i k : ℕ} (value : ℕ) (h : k ≠ i) :
    (c.setTimestamp i value).VoidAt other k ↔ c.VoidAt other k := by
  rw [VoidAt, VoidAt, timestamps_set_of_ne c value h]

/-- Component `k` is merged if the loop reaches it without a VOID, and stays otherwise. -/
theorem timestamps_mergeFrom (other : ℕ → ℕ) (i left : ℕ) (c : VClock) (k : ℕ) :
    (i ≤ k → k < i + left → (∀ j, i ≤ j → j ≤ k → ¬c.VoidAt other j) →
        (mergeFrom other i left c).1.timestamps k = chrononMax (c.timestamps k) (other k)) ∧
      (k < i ∨ i + left ≤ k ∨ (∃ j, i ≤ j ∧ j ≤ k ∧ c.VoidAt other j) →
        (mergeFrom other i left c).1.timestamps k = c.timestamps k) := by
  induction left generalizing i c with
  | zero => exact ⟨fun h1 h2 => absurd h2 (by omega), fun _ => rfl⟩
  | succ left ih =>
    rw [mergeFrom]
    by_cases hvoid : c.VoidAt other i
    · rw [if_pos (chrononMax_eq_void.2 hvoid)]
      exact ⟨fun h1 _ h3 => absurd hvoid (h3 i le_rfl h1), fun _ => rfl⟩
    rw [if_neg fun h => hvoid (chrononMax_eq_void.1 h)]
    obtain ⟨hmerged, hkept⟩ := ih (i + 1)
      (c.setTimestamp i (chrononMax (c.timestamps i) (other i)))
    constructor
    · intro hik hlt hnone
      rcases eq_or_lt_of_le hik with rfl | hlt'
      · rw [hkept (.inl (Nat.lt_succ_self i)), timestamps_set_self]
      · rw [hmerged hlt' (by omega) fun j hj hjk hv => ?_, timestamps_set_of_ne _ _ (by omega)]
        exact hnone j (by omega) hjk ((voidAt_set_of_ne c _ (by omega)).1 hv)
    · intro hout
      have hki : k ≠ i := by
        rintro rfl
        rcases hout with h | h | ⟨j, h1, h2, hv⟩
        · omega
        · omega
        · exact hvoid (le_antisymm h1 h2 ▸ hv)
      rw [hkept ?_, timestamps_set_of_ne _ _ hki]
      rcases hout with h | h | ⟨j, h1, h2, hv⟩
      · exact .inl (by omega)
      · exact .inr (.inl (by omega))
      · have hji : j ≠ i := fun h => hvoid (h ▸ hv)
        exact .inr (.inr ⟨j, by omega, h2, (voidAt_set_of_ne c _ hji).2 hv⟩)

/-- The loop changes the timestamps only. -/
theorem mergeFrom_owner (other : ℕ → ℕ) (i left : ℕ) (c : VClock) :
    (mergeFrom other i left c).1.nodeCount = c.nodeCount ∧
      (mergeFrom other i left c).1.selfId = c.selfId := by
  induction left generalizing i c with
  | zero => exact ⟨rfl, rfl⟩
  | succ left ih =>
    rw [mergeFrom]
    split_ifs
    · exact ⟨rfl, rfl⟩
    · exact ih (i + 1) _

/-- The loop returns VOID just where there is one, and never FALSE. -/
theorem result_mergeFrom (other : ℕ → ℕ) (i left : ℕ) (c : VClock) :
    (mergeFrom other i left c).2 ≠ .false ∧
      ((mergeFrom other i left c).2 = .void ↔
        ∃ k, i ≤ k ∧ k < i + left ∧ c.VoidAt other k) := by
  induction left generalizing i c with
  | zero =>
    refine ⟨by simp [mergeFrom], iff_of_false (by simp [mergeFrom]) ?_⟩
    rintro ⟨k, h1, h2, -⟩
    omega
  | succ left ih =>
    rw [mergeFrom]
    by_cases hvoid : c.VoidAt other i
    · rw [if_pos (chrononMax_eq_void.2 hvoid)]
      exact ⟨by simp, iff_of_true rfl ⟨i, le_rfl, by omega, hvoid⟩⟩
    rw [if_neg fun h => hvoid (chrononMax_eq_void.1 h)]
    obtain ⟨hfalse, hresult⟩ := ih (i + 1)
      (c.setTimestamp i (chrononMax (c.timestamps i) (other i)))
    refine ⟨hfalse, hresult.trans (exists_congr fun k => ?_)⟩
    rcases eq_or_ne k i with rfl | hne
    · exact iff_of_false (by omega) fun h => hvoid h.2.2
    · rw [voidAt_set_of_ne c _ hne]
      exact and_congr ⟨fun h => by omega, fun h => by omega⟩
        (and_congr_left fun _ => ⟨fun h => by omega, fun h => by omega⟩)

theorem ext_timestamps (hcount : c.nodeCount = d.nodeCount) (hself : c.selfId = d.selfId)
    (h : ∀ k, c.timestamps k = d.timestamps k) : c = d := by
  cases c
  cases d
  simp only [mk.injEq]
  exact ⟨funext h, hcount, hself⟩

/-- A merge that meets a VOID leaves the clock alone just where it had nothing to merge before. -/
theorem atomic_merge_iff (c other : VClock) :
    AtomicCall c (∃ i < c.nodeCount, c.VoidAt other.timestamps i) (c.merge other) ↔
      (c.nodeCount = other.nodeCount → (∃ i < c.nodeCount, c.VoidAt other.timestamps i) →
        ∀ i < c.nodeCount, (∀ j ≤ i, ¬c.VoidAt other.timestamps j) →
          other.timestamps i ≤ c.timestamps i) := by
  unfold AtomicCall merge
  by_cases hcount : c.nodeCount = other.nodeCount
  swap
  · rw [if_pos hcount]
    exact iff_of_true (fun _ => rfl) fun h => absurd h hcount
  rw [if_neg (not_not.2 hcount), iff_true_intro hcount, true_imp_iff]
  obtain ⟨hfalse, hresult⟩ := result_mergeFrom other.timestamps 0 c.nodeCount c
  obtain ⟨hnodes, hself⟩ := mergeFrom_owner other.timestamps 0 c.nodeCount c
  simp only [Nat.zero_le, true_and, Nat.zero_add] at hresult
  rw [or_iff_right hfalse, hresult, and_self]
  refine imp_congr_right fun _ => ⟨fun heq i hi hnone => ?_, fun hkept => ?_⟩
  · have hmerged := (timestamps_mergeFrom other.timestamps 0 c.nodeCount c i).1 (Nat.zero_le i)
      (by omega) fun j _ hj => hnone j hj
    rw [heq] at hmerged
    have hi' := hnone i le_rfl
    rw [VoidAt, not_or] at hi'
    exact (chrononMax_eq_left hi'.1 hi'.2).1 hmerged.symm
  · refine ext_timestamps hnodes hself fun k => ?_
    by_cases hk : k < c.nodeCount ∧ ∀ j ≤ k, ¬c.VoidAt other.timestamps j
    · rw [(timestamps_mergeFrom other.timestamps 0 c.nodeCount c k).1 (Nat.zero_le k)
        (by omega) fun j _ hj => hk.2 j hj]
      have hk' := hk.2 k le_rfl
      rw [VoidAt, not_or] at hk'
      exact (chrononMax_eq_left hk'.1 hk'.2).2 (hkept k hk.1 hk.2)
    · refine (timestamps_mergeFrom other.timestamps 0 c.nodeCount c k).2 ?_
      by_cases hlt : k < c.nodeCount
      · obtain ⟨j, hj⟩ := not_forall.1 (not_and.1 hk hlt)
        obtain ⟨hj, hv⟩ := Classical.not_imp.1 hj
        exact .inr (.inr ⟨j, Nat.zero_le j, hj, not_not.1 hv⟩)
      · exact .inr (.inl (by omega))

/-- A message of the right length without VOID is refused for the owner's component only, and has
been merged by then. -/
theorem receive_void (hself : c.selfId < c.nodeCount) (hvoid : c.timestamps c.selfId = voidU64)
    (hnone : ∀ i < c.nodeCount, received i ≠ voidU64) :
    c.receive received c.nodeCount = (c.mergeReceived received, .void) := by
  have hany : ((List.range c.nodeCount).any fun i => received i = voidU64) = false := by
    rw [List.any_eq_false]
    intro i hi
    simpa using hnone i (List.mem_range.1 hi)
  have hmerged : (c.mergeReceived received).timestamps c.selfId = voidU64 := by
    rw [mergeReceived]
    dsimp only
    rw [if_pos hself, chrononMax_eq_void]
    exact .inl hvoid
  have htick : (c.mergeReceived received).tick = (c.mergeReceived received, voidU64) := by
    rw [tick]
    change (if c.selfId ≥ c.nodeCount then _ else _) = _
    rw [if_neg (not_le.2 hself)]
    change (if (c.mergeReceived received).timestamps c.selfId ≥ maxChronon then _ else _) = _
    rw [hmerged, if_pos (by decide)]
  rw [receive, if_neg (not_not.2 rfl), hany, if_neg Bool.false_ne_true, htick]
  dsimp only
  rw [if_pos rfl]
  refine Prod.ext (ext_timestamps rfl rfl fun k => ?_) rfl
  rcases eq_or_ne k c.selfId with rfl | hne
  · exact (Function.update_self _ _ _).trans hmerged.symm
  · exact Function.update_of_ne hne _ _

/-- A message that is refused leaves the clock alone unless the owner's component is VOID and a
component of the message greater. -/
theorem atomic_receive_iff (hself : c.selfId < c.nodeCount) (received : ℕ → ℕ) (count : ℕ) :
    AtomicCall c (c.VoidReceived received count) (c.receive received count) ↔
      (count = c.nodeCount → c.timestamps c.selfId = voidU64 → (∀ i < count, received i ≠ voidU64) →
        ∀ i < count, c.timestamps i = voidU64 ∨ received i ≤ c.timestamps i) := by
  by_cases hcount : count = c.nodeCount
  swap
  · refine iff_of_true (fun _ => ?_) fun h => absurd h hcount
    rw [receive, if_pos hcount]
  subst hcount
  rw [iff_true_intro (rfl : c.nodeCount = c.nodeCount), true_imp_iff]
  by_cases hnone : ∀ i < c.nodeCount, received i ≠ voidU64
  swap
  · refine iff_of_true (fun _ => ?_) fun _ h => absurd h hnone
    obtain ⟨i, hi⟩ := not_forall.1 hnone
    obtain ⟨hi, hv⟩ := Classical.not_imp.1 hi
    have hany : ((List.range c.nodeCount).any fun i => received i = voidU64) = true :=
      List.any_eq_true.2 ⟨i, List.mem_range.2 hi, decide_eq_true (not_not.1 hv)⟩
    rw [receive, if_neg (not_not.2 rfl), if_pos hany]
  by_cases hvoid : c.timestamps c.selfId = voidU64
  swap
  · refine iff_of_true (fun hcall => ?_) fun h => absurd h hvoid
    rcases hcall with hfalse | ⟨-, ⟨i, hi, hv⟩ | hv⟩
    · refine absurd hfalse ?_
      rw [receive, if_neg (not_not.2 rfl)]
      split_ifs
      · simp
      · dsimp only
        split_ifs <;> simp
    · exact absurd hv (hnone i hi)
    · exact absurd hv hvoid
  rw [AtomicCall, receive_void hself hvoid hnone]
  simp only [hvoid, true_imp_iff, iff_true_intro hnone]
  constructor
  · intro hcall i hi
    have heq : (c.mergeReceived received).timestamps i = c.timestamps i :=
      congrFun (congrArg timestamps (hcall (.inr ⟨trivial, .inr hvoid⟩))) i
    rw [mergeReceived] at heq
    dsimp only at heq
    rw [if_pos hi] at heq
    rcases eq_or_ne (c.timestamps i) voidU64 with hv | hv
    · exact .inl hv
    · exact .inr ((chrononMax_eq_left hv (hnone i hi)).1 heq)
  · intro hkept _
    refine ext_timestamps rfl rfl fun k => ?_
    rw [mergeReceived]
    dsimp only
    split_ifs with hk
    · rcases hkept k hk with hv | hle
      · rw [hv, chrononMax_eq_void]
        exact .inl rfl
      · rcases eq_or_ne (c.timestamps k) voidU64 with hv | hv
        · rw [hv, chrononMax_eq_void]
          exact .inl rfl
        · exact (chrononMax_eq_left hv (hnone k hk)).2 hle
    · rfl

/-- Failed merges are atomic just where there is nothing to merge. -/
theorem atomic_iff (c other : VClock) (received : ℕ → ℕ) (count : ℕ)
    (hself : c.selfId < c.nodeCount) :
    c.Atomic other received count ↔ c.KeepsFailed other received count :=
  and_congr (atomic_merge_iff c other) (atomic_receive_iff hself received count)

/-- Two nodes, with the given timestamps. -/
def twoNodes (first second : ℕ) : VClock :=
  ⟨fun i => if i = 0 then first else second, 2, 0⟩

/-- A merge that fails at the second component, and one that succeeds. -/
theorem atomic_iff_twoNodes : (twoNodes 5 7).Atomic (twoNodes 3 voidU64) (fun _ => 4) 2 ∧
    (twoNodes 0 5).Atomic (twoNodes 3 9) (fun _ => 7) 2 ∧
      ((twoNodes 0 5).merge (twoNodes 3 9)).1.timestamps 1 = 9 := by
  refine ⟨(atomic_iff (twoNodes 5 7) (twoNodes 3 voidU64) (fun _ => 4) 2 (by decide)).2
    ⟨fun _ _ i hi hnone => ?_, fun _ h => absurd h (by decide)⟩,
    (atomic_iff (twoNodes 0 5) (twoNodes 3 9) (fun _ => 7) 2 (by decide)).2
      ⟨fun _ ⟨i, hi, hvoid⟩ => ?_, fun _ h => absurd h (by decide)⟩, by decide⟩
  · obtain rfl | rfl : i = 0 ∨ i = 1 := by
      change i < 2 at hi
      omega
    · decide
    · exact absurd (.inr rfl) (hnone 1 le_rfl)
  · obtain rfl | rfl : i = 0 ∨ i = 1 := by
      change i < 2 at hi
      omega
    · exact absurd hvoid (by unfold VoidAt; decide)
    · exact absurd hvoid (by unfold VoidAt; decide)

/-- The first component has been merged when the second one is found VOID. -/
theorem not_atomic_second : ¬(twoNodes 0 0).Atomic (twoNodes 5 voidU64) (fun _ => 0) 2 := by
  intro h
  have hcall := h.1 (.inr ⟨by decide, 1, by decide, .inr rfl⟩)
  exact absurd (congrFun (congrArg timestamps hcall) 0) (by decide)

end VClock

end Seraph
