import Seraph.AtlasInvariants
import Seraph.TortoiseHare

/-!
# The check of a linked structure for cycles, and its repair

The nodes behind a pointer field are the iterates of the next pointer. `walk_cases` says how the
loop of the two functions ends, in terms of the nodes alone. So the check accepts a chain just
where it reaches NULL in time (`validate_ok_iff`), and reports a cycle just where no node in reach
is outside of Atlas (`validate_cycle_iff`). Where the loop meets, the repair settles on the memory
with NULL in the next pointer of the cycle's last node (`settles_recover`).

That node can be the structure whose field is checked. Then the field itself becomes NULL, and the
other nodes are no longer on the chain (`handled_iff`).
-/

namespace Seraph

open ByteMem Memory Function TortoiseHare Fuel

namespace Checkpoint

variable (A : Mapping) (mem : Memory) (data fieldOffset nextOffset : ℕ)

/-- The next pointer of a node. -/
def next (x : ℕ) : ℕ :=
  readPtrField mem x nextOffset

/-- The nodes behind the field. -/
def node (i : ℕ) : ℕ :=
  (next mem nextOffset)^[i] (readPtrField mem data fieldOffset)

/-- The first `e` nodes lie in Atlas. -/
def Inside (e : ℕ) : Prop :=
  ∀ i < e, A.contains (node mem data fieldOffset nextOffset i) = true

variable {A mem data fieldOffset nextOffset} {e k : ℕ}

theorem two_lt_maxCycleDepth : 2 < maxCycleDepth := by
  rw [maxCycleDepth]
  norm_num

theorem Mapping.not_contains_null (A : Mapping) : A.contains 0 = false := by
  simp [Mapping.contains]

theorem Mapping.ne_null {x : ℕ} (h : A.contains x = true) : x ≠ 0 := by
  rintro rfl
  rw [A.not_contains_null] at h
  cases h

theorem node_succ (i : ℕ) : node mem data fieldOffset nextOffset (i + 1) =
    readPtrField mem (node mem data fieldOffset nextOffset i) nextOffset :=
  iterate_succ_apply' _ _ _

theorem Inside.succ (h : Inside A mem data fieldOffset nextOffset e)
    (hin : A.contains (node mem data fieldOffset nextOffset e) = true) :
    Inside A mem data fieldOffset nextOffset (e + 1) := by
  intro i hi
  rcases Nat.lt_succ_iff_lt_or_eq.1 hi with hlt | rfl
  · exact h i hlt
  · exact hin

/-! ## The loop -/

/-- What the end of the loop says about the nodes, where it has come through `k` iterations of at
most `limit`. -/
def WalkEnd.Means (A : Mapping) (mem : Memory) (data fieldOffset nextOffset k limit : ℕ) :
    WalkEnd → Prop
  | .null => ∃ e < 2 * limit, node mem data fieldOffset nextOffset e = 0 ∧
      Inside A mem data fieldOffset nextOffset e
  | .outside => ∃ e < 2 * limit, node mem data fieldOffset nextOffset e ≠ 0 ∧
      A.contains (node mem data fieldOffset nextOffset e) = false ∧
        Inside A mem data fieldOffset nextOffset e
  | .meet ptr => ∃ j, 0 < j ∧ j ≤ limit ∧ ptr = node mem data fieldOffset nextOffset j ∧
      node mem data fieldOffset nextOffset j = node mem data fieldOffset nextOffset (2 * j) ∧
        Inside A mem data fieldOffset nextOffset (2 * j)
  | .deep => Inside A mem data fieldOffset nextOffset (2 * limit) ∧ ∀ j, k < j → j ≤ limit →
      node mem data fieldOffset nextOffset j ≠ node mem data fieldOffset nextOffset (2 * j)

/-- The loop reads the nodes one and two steps at a time. -/
theorem walk_cases (rounds : ℕ) (hk : Inside A mem data fieldOffset nextOffset (2 * k)) :
    (cycleWalk A mem nextOffset rounds (node mem data fieldOffset nextOffset k)
      (node mem data fieldOffset nextOffset (2 * k))).Means A mem data fieldOffset nextOffset k
        (k + rounds) := by
  induction rounds generalizing k with
  | zero => exact ⟨hk, fun j hkj hjk => absurd hjk (by omega)⟩
  | succ rounds ih =>
    rw [cycleWalk]
    by_cases hnull : node mem data fieldOffset nextOffset (2 * k) = 0
    · rw [if_pos hnull]
      exact ⟨2 * k, by omega, hnull, hk⟩
    rw [if_neg hnull]
    by_cases hfast : A.contains (node mem data fieldOffset nextOffset (2 * k)) = true
    swap
    · -- the slower pointer is at the same node or at one that was passed
      rw [Bool.not_eq_true] at hfast
      have hmeans : WalkEnd.outside.Means A mem data fieldOffset nextOffset k
          (k + (rounds + 1)) := ⟨2 * k, by omega, hnull, hfast, hk⟩
      rw [hfast]
      simpa using hmeans
    have hslow : A.contains (node mem data fieldOffset nextOffset k) = true := by
      rcases Nat.eq_zero_or_pos k with rfl | hpos
      · exact hfast
      · exact hk k (by omega)
    have hk1 := hk.succ hfast
    rw [hslow, hfast]
    simp only [Bool.not_true, Bool.false_eq_true, if_false, ← node_succ]
    by_cases hnull1 : node mem data fieldOffset nextOffset (2 * k + 1) = 0
    · rw [if_pos hnull1]
      exact ⟨2 * k + 1, by omega, hnull1, hk1⟩
    rw [if_neg hnull1]
    by_cases hfast1 : A.contains (node mem data fieldOffset nextOffset (2 * k + 1)) = true
    swap
    · rw [Bool.not_eq_true] at hfast1
      have hmeans : WalkEnd.outside.Means A mem data fieldOffset nextOffset k
          (k + (rounds + 1)) := ⟨2 * k + 1, by omega, hnull1, hfast1, hk1⟩
      rw [hfast1]
      simpa using hmeans
    have hk2 : Inside A mem data fieldOffset nextOffset (2 * (k + 1)) := hk1.succ hfast1
    have hnonnull := Mapping.ne_null (hk2 (k + 1) (by omega))
    rw [hfast1]
    simp only [Bool.not_true, Bool.false_eq_true, if_false, hnonnull, ne_eq, not_false_eq_true,
      and_true]
    by_cases hmeet : node mem data fieldOffset nextOffset (k + 1) =
        node mem data fieldOffset nextOffset (2 * k + 1 + 1)
    · rw [if_pos hmeet]
      exact ⟨k + 1, by omega, by omega, hmeet.symm, hmeet, hk2⟩
    · rw [if_neg hmeet]
      have hround := ih hk2
      have hlimit : k + 1 + rounds = k + (rounds + 1) := by omega
      rw [hlimit] at hround
      change (cycleWalk A mem nextOffset rounds (node mem data fieldOffset nextOffset (k + 1))
        (node mem data fieldOffset nextOffset (2 * (k + 1)))).Means A mem data fieldOffset
          nextOffset k (k + (rounds + 1))
      revert hround
      cases cycleWalk A mem nextOffset rounds (node mem data fieldOffset nextOffset (k + 1))
        (node mem data fieldOffset nextOffset (2 * (k + 1))) with
      | null => exact id
      | outside => exact id
      | meet ptr => exact id
      | deep =>
        rintro ⟨hin, hnone⟩
        refine ⟨hin, fun j hkj hj => ?_⟩
        rcases Nat.eq_or_lt_of_le (Nat.succ_le_of_lt hkj) with rfl | hlt
        · exact hmeet
        · exact hnone j hlt hj

/-- Only one node is the first that is not in Atlas. -/
theorem Inside.not_lt {e e' : ℕ} (h : Inside A mem data fieldOffset nextOffset e')
    (hout : A.contains (node mem data fieldOffset nextOffset e) = false) : e' ≤ e := by
  by_contra hlt
  rw [h e (not_le.1 hlt)] at hout
  cases hout

/-- Where the pointers meet, every node has been looked at. -/
theorem inside_of_meet {j : ℕ} (hj : 0 < j)
    (hmeet : node mem data fieldOffset nextOffset j = node mem data fieldOffset nextOffset (2 * j))
    (hin : Inside A mem data fieldOffset nextOffset (2 * j)) (e : ℕ) :
    Inside A mem data fieldOffset nextOffset e := by
  obtain ⟨tail, period, hrho, hle⟩ := exists_rho (show j < 2 * j by omega) hmeet
  intro i _
  rcases Nat.lt_or_ge i tail with hi | hi
  · exact hin i (by omega)
  · have hround := Nat.mod_lt (i - tail) hrho.pos
    rw [node, hrho.iterate_mod hi]
    exact hin _ (by omega)

/-- How the loop ends that starts at the field. -/
theorem walk_start (A : Mapping) (mem : Memory) (data fieldOffset nextOffset : ℕ) :
    (cycleWalk A mem nextOffset maxCycleDepth (readPtrField mem data fieldOffset)
      (readPtrField mem data fieldOffset)).Means A mem data fieldOffset nextOffset 0
        maxCycleDepth := by
  have hin : Inside A mem data fieldOffset nextOffset (2 * 0) :=
    fun i hi => absurd hi (Nat.not_lt_zero i)
  have hmeans := walk_cases maxCycleDepth hin
  rwa [Nat.zero_add] at hmeans

/-- What the check answers, in terms of the nodes. -/
theorem validate_cases (A : Mapping) (mem : Memory) (data fieldOffset nextOffset : ℕ) :
    (validateNoCycle A mem data fieldOffset nextOffset = .ok ∧
      ∃ e < 2 * maxCycleDepth, node mem data fieldOffset nextOffset e = 0 ∧
        Inside A mem data fieldOffset nextOffset e) ∨
    (validateNoCycle A mem data fieldOffset nextOffset = .invalidPtr ∧
      ∃ e < 2 * maxCycleDepth, node mem data fieldOffset nextOffset e ≠ 0 ∧
        A.contains (node mem data fieldOffset nextOffset e) = false ∧
          Inside A mem data fieldOffset nextOffset e) ∨
    (validateNoCycle A mem data fieldOffset nextOffset = .cycleDetected ∧
      Inside A mem data fieldOffset nextOffset (2 * maxCycleDepth)) := by
  have hmeans := walk_start A mem data fieldOffset nextOffset
  unfold validateNoCycle
  by_cases hnull : readPtrField mem data fieldOffset = 0
  · have hdepth := two_lt_maxCycleDepth
    exact .inl ⟨if_pos hnull, 0, by omega, hnull,
      fun i hi => absurd hi (Nat.not_lt_zero i)⟩
  dsimp only
  rw [if_neg hnull]
  revert hmeans
  cases cycleWalk A mem nextOffset maxCycleDepth (readPtrField mem data fieldOffset)
    (readPtrField mem data fieldOffset) with
  | null => exact fun h => .inl ⟨rfl, h⟩
  | outside => exact fun h => .inr (.inl ⟨rfl, h⟩)
  | meet ptr =>
    rintro ⟨j, hj, -, -, hmeet, hin⟩
    exact .inr (.inr ⟨rfl, inside_of_meet hj hmeet hin _⟩)
  | deep => exact fun h => .inr (.inr ⟨rfl, h.1⟩)

/-- A chain passes the check where it reaches NULL in time. -/
theorem validate_ok_iff : validateNoCycle A mem data fieldOffset nextOffset = .ok ↔
    ∃ e < 2 * maxCycleDepth, node mem data fieldOffset nextOffset e = 0 ∧
      Inside A mem data fieldOffset nextOffset e := by
  constructor
  · intro hok
    rcases validate_cases A mem data fieldOffset nextOffset with ⟨-, h⟩ | ⟨h, -⟩ | ⟨h, -⟩
    · exact h
    · cases hok.symm.trans h
    · cases hok.symm.trans h
  · rintro ⟨e, he, hnull, hin⟩
    have hout : A.contains (node mem data fieldOffset nextOffset e) = false := by
      rw [hnull, A.not_contains_null]
    rcases validate_cases A mem data fieldOffset nextOffset with
      ⟨h, -⟩ | ⟨-, e', -, hne, hout', hin'⟩ | ⟨-, hall⟩
    · exact h
    · have heq : e' = e := le_antisymm (hin'.not_lt hout) (hin.not_lt hout')
      exact absurd (heq ▸ hnull) hne
    · exact absurd (hall.not_lt hout) (not_le.2 he)

/-- A cycle is reported where no node in reach is outside of Atlas. -/
theorem validate_cycle_iff : validateNoCycle A mem data fieldOffset nextOffset = .cycleDetected ↔
    Inside A mem data fieldOffset nextOffset (2 * maxCycleDepth) := by
  rcases validate_cases A mem data fieldOffset nextOffset with
    ⟨h, e, he, hnull, -⟩ | ⟨h, e, he, -, hout, -⟩ | ⟨h, hall⟩
  · rw [h]
    refine ⟨fun heq => absurd heq (by decide), fun hall => ?_⟩
    have hout : A.contains (node mem data fieldOffset nextOffset e) = false := by
      rw [hnull, A.not_contains_null]
    exact absurd (hall.not_lt hout) (not_le.2 he)
  · rw [h]
    exact ⟨fun heq => absurd heq (by decide), fun hall => absurd (hall.not_lt hout) (not_le.2 he)⟩
  · exact ⟨fun _ => hall, fun _ => h⟩

/-! ## The repair -/

/-- The field leads into a cycle of `period` nodes, behind `tail` others. -/
abbrev Cyclic (mem : Memory) (data fieldOffset nextOffset tail period : ℕ) : Prop :=
  Rho (next mem nextOffset) (readPtrField mem data fieldOffset) tail period

section

variable {tail period j : ℕ}

/-- From a meeting point and from the field, the search comes to the start of the cycle. -/
theorem findEntry_eq (h : Cyclic mem data fieldOffset nextOffset tail period) (hj : 0 < j)
    (hdvd : period ∣ j) (hin : ∀ e, Inside A mem data fieldOffset nextOffset e) :
    ∀ {fuel i : ℕ}, i ≤ tail → tail < i + fuel →
      findEntry A mem nextOffset fuel (node mem data fieldOffset nextOffset i)
        (node mem data fieldOffset nextOffset (i + j)) =
          some (some (node mem data fieldOffset nextOffset tail))
  | 0, i, hi, hfuel => absurd hfuel (by omega)
  | fuel + 1, i, hi, hfuel => by
    rw [findEntry]
    have hentry : node mem data fieldOffset nextOffset i =
        node mem data fieldOffset nextOffset (i + j) ↔ tail ≤ i := h.entry_iff hj hdvd
    rcases Nat.eq_or_lt_of_le hi with rfl | hlt
    · rw [if_pos (hentry.2 le_rfl)]
    · have hround := findEntry_eq h hj hdvd hin (show i + 1 ≤ tail from hlt)
        (show tail < i + 1 + fuel by omega)
      rw [if_neg fun heq => absurd (hentry.1 heq) (not_le.2 hlt), hin (i + 1) i (by omega),
        hin (i + j + 1) (i + j) (by omega), ← node_succ, ← node_succ, Nat.add_right_comm]
      exact hround

/-- Round the cycle, the last node before its start is found. -/
theorem findLast_eq (h : Cyclic mem data fieldOffset nextOffset tail period)
    (hin : ∀ e, Inside A mem data fieldOffset nextOffset e) :
    ∀ {rounds i : ℕ}, i < period → period ≤ i + 1 + rounds →
      findLast A mem nextOffset (node mem data fieldOffset nextOffset tail) rounds
        (node mem data fieldOffset nextOffset (tail + i))
        (node mem data fieldOffset nextOffset (tail + (i + 1))) =
          node mem data fieldOffset nextOffset (tail + (period - 1))
  | 0, i, hi, hrounds => by
    have heq : i = period - 1 := by omega
    rw [findLast, heq]
  | rounds + 1, i, hi, hrounds => by
    rw [findLast]
    have hreturn : node mem data fieldOffset nextOffset (tail + (i + 1)) =
        node mem data fieldOffset nextOffset tail ↔ period ∣ i + 1 := h.return_iff
    rcases Nat.eq_or_lt_of_le (Nat.succ_le_of_lt hi) with hlast | hlt
    · have heq : i = period - 1 := by omega
      rw [if_pos (hreturn.2 (dvd_of_eq hlast.symm)), heq]
    · have hne : ¬period ∣ i + 1 := fun hdvd =>
        absurd (Nat.le_of_dvd (Nat.succ_pos i) hdvd) (not_le.2 hlt)
      have hround := findLast_eq h hin hlt (show period ≤ i + 1 + 1 + rounds by omega)
      rw [if_neg fun heq => hne (hreturn.1 heq), hin (tail + (i + 1) + 1) _ (Nat.lt_succ_self _),
        ← node_succ]
      exact hround

/-- The last node of a cycle. -/
def lastNode (mem : Memory) (data fieldOffset nextOffset tail period : ℕ) : ℕ :=
  node mem data fieldOffset nextOffset (tail + (period - 1))

/-- Where the loop does not meet, nothing is repaired. -/
theorem recover_of_not_meet (fuel : ℕ)
    (hnot : ∀ ptr, cycleWalk A mem nextOffset maxCycleDepth (readPtrField mem data fieldOffset)
      (readPtrField mem data fieldOffset) ≠ .meet ptr) :
    recoverNoCycle A mem data fieldOffset nextOffset fuel = some (true, mem) := by
  unfold recoverNoCycle
  by_cases hnull : readPtrField mem data fieldOffset = 0
  · exact if_pos hnull
  dsimp only
  rw [if_neg hnull]
  revert hnot
  cases cycleWalk A mem nextOffset maxCycleDepth (readPtrField mem data fieldOffset)
    (readPtrField mem data fieldOffset) with
  | meet ptr => exact fun hnot => absurd rfl (hnot ptr)
  | null => exact fun _ => rfl
  | outside => exact fun _ => rfl
  | deep => exact fun _ => rfl

/-- Where the loop meets, the repair sets the next pointer of the cycle's last node to NULL. -/
theorem settles_recover (h : Cyclic mem data fieldOffset nextOffset tail period) (hj : 0 < j)
    (hdepth : j ≤ maxCycleDepth) (hdvd : period ∣ j)
    (hin : ∀ e, Inside A mem data fieldOffset nextOffset e)
    (hmeet : cycleWalk A mem nextOffset maxCycleDepth (readPtrField mem data fieldOffset)
      (readPtrField mem data fieldOffset) = .meet (node mem data fieldOffset nextOffset j)) :
    Settles (recoverNoCycle A mem data fieldOffset nextOffset)
      (true, writePtrField mem (lastNode mem data fieldOffset nextOffset tail period)
        nextOffset 0) := by
  refine ⟨tail + 1, fun fuel hfuel => ?_⟩
  have hstart : readPtrField mem data fieldOffset ≠ 0 := Mapping.ne_null (hin 1 0 Nat.one_pos)
  have hentry := findEntry_eq h hj hdvd hin (Nat.zero_le tail) (show tail < 0 + fuel by omega)
  rw [Nat.zero_add] at hentry
  have hperiod := Nat.le_of_dvd hj hdvd
  have hlast := findLast_eq h hin h.pos (show period ≤ 0 + 1 + maxCycleDepth by omega)
  rw [Nat.zero_add, Nat.add_zero, node_succ] at hlast
  have hcontains : A.contains (lastNode mem data fieldOffset nextOffset tail period) = true :=
    hin _ _ (Nat.lt_succ_self _)
  have hbreak : breakCycle A mem nextOffset (node mem data fieldOffset nextOffset tail) =
      (true, writePtrField mem (lastNode mem data fieldOffset nextOffset tail period)
        nextOffset 0) := by
    unfold breakCycle
    dsimp only
    rw [hlast]
    exact if_pos ⟨Mapping.ne_null hcontains, hcontains⟩
  unfold recoverNoCycle
  dsimp only
  rw [if_neg hstart, hmeet]
  dsimp only
  have hnode : readPtrField mem data fieldOffset = node mem data fieldOffset nextOffset 0 := rfl
  rw [hnode, hentry, Option.map_some]
  exact congrArg some hbreak

end

/-! ## Chains -/

/-- `n` different nodes in Atlas, linked from the field on. The next pointers of two nodes share no
byte, nor does the field with one of them, unless it is one of them. -/
structure Chain (A : Mapping) (mem : Memory) (data fieldOffset nextOffset n : ℕ) : Prop where
  inside : Inside A mem data fieldOffset nextOffset n
  inj : ∀ i j, i < j → j < n → node mem data fieldOffset nextOffset i ≠
    node mem data fieldOffset nextOffset j
  ends : node mem data fieldOffset nextOffset n = 0 ∨
    ∃ m < n, node mem data fieldOffset nextOffset m = node mem data fieldOffset nextOffset n
  apart : ∀ i j, i < j → j < n →
    (Region.mk (node mem data fieldOffset nextOffset i + nextOffset) 8).Disjoint
      ⟨node mem data fieldOffset nextOffset j + nextOffset, 8⟩
  field : ∀ i < n, data + fieldOffset = node mem data fieldOffset nextOffset i + nextOffset ∨
    (Region.mk (data + fieldOffset) 8).Disjoint
      ⟨node mem data fieldOffset nextOffset i + nextOffset, 8⟩

/-- The chain of `n` nodes goes back to one of them. -/
def GoesBack (mem : Memory) (data fieldOffset nextOffset n : ℕ) : Prop :=
  ∃ m < n, node mem data fieldOffset nextOffset m = node mem data fieldOffset nextOffset n

/-- What a repair of the chain leaves : one next pointer is another, and the chain is the same list
of nodes, which ends at NULL and passes the check. -/
structure Repaired (A : Mapping) (mem mem' : Memory) (data fieldOffset nextOffset n : ℕ) :
    Prop where
  changes : ∃ k < n, ChangesOnly [⟨node mem data fieldOffset nextOffset k + nextOffset, 8⟩] mem mem' ∧
    ∀ i < n, readPtrField mem' (node mem data fieldOffset nextOffset i) nextOffset ≠
      readPtrField mem (node mem data fieldOffset nextOffset i) nextOffset ↔ i = k
  same : ∀ i < n, node mem' data fieldOffset nextOffset i = node mem data fieldOffset nextOffset i
  ends : node mem' data fieldOffset nextOffset n = 0
  passes : validateNoCycle A mem' data fieldOffset nextOffset = .ok

/-- What the two functions must do for a chain of `n` nodes. -/
structure Handled (A : Mapping) (mem : Memory) (data fieldOffset nextOffset n : ℕ) : Prop where
  detects : validateNoCycle A mem data fieldOffset nextOffset = .cycleDetected ↔
    GoesBack mem data fieldOffset nextOffset n
  accepts : validateNoCycle A mem data fieldOffset nextOffset = .ok ↔
    node mem data fieldOffset nextOffset n = 0
  repairs : GoesBack mem data fieldOffset nextOffset n →
    ∃ mem', Settles (recoverNoCycle A mem data fieldOffset nextOffset) (true, mem') ∧
      Repaired A mem mem' data fieldOffset nextOffset n

section

variable {n tail period : ℕ}

/-- A chain that goes back has a cycle that its last node closes. -/
theorem Chain.cyclic (h : Chain A mem data fieldOffset nextOffset n)
    (hback : GoesBack mem data fieldOffset nextOffset n) :
    ∃ tail period, Cyclic mem data fieldOffset nextOffset tail period ∧ tail + period = n := by
  obtain ⟨m, hm, heq⟩ := hback
  obtain ⟨tail, period, hrho, hle⟩ := exists_rho hm heq
  refine ⟨tail, period, hrho, le_antisymm hle (not_lt.1 fun hlt => ?_)⟩
  have hpos := hrho.pos
  have hreturn : node mem data fieldOffset nextOffset (tail + period) =
      node mem data fieldOffset nextOffset tail := hrho.return_iff.2 dvd_rfl
  exact h.inj tail (tail + period) (by omega) hlt hreturn.symm

/-- On a cycle in Atlas no node is outside. -/
theorem inside_of_cyclic (h : Cyclic mem data fieldOffset nextOffset tail period)
    (hin : Inside A mem data fieldOffset nextOffset (tail + period)) (e : ℕ) :
    Inside A mem data fieldOffset nextOffset e := by
  intro i _
  rcases Nat.lt_or_ge i tail with hi | hi
  · exact hin i (by omega)
  · have hround := Nat.mod_lt (i - tail) h.pos
    rw [node, h.iterate_mod hi]
    exact hin _ (by omega)

/-- In time, the loop meets on a cycle in Atlas. -/
theorem walk_of_cyclic (h : Cyclic mem data fieldOffset nextOffset tail period)
    (hin : ∀ e, Inside A mem data fieldOffset nextOffset e) {j : ℕ} (hj : 0 < j)
    (hdepth : j ≤ maxCycleDepth) (htail : tail ≤ j) (hdvd : period ∣ j) :
    ∃ j, 0 < j ∧ j ≤ maxCycleDepth ∧ tail ≤ j ∧ period ∣ j ∧
      cycleWalk A mem nextOffset maxCycleDepth (readPtrField mem data fieldOffset)
        (readPtrField mem data fieldOffset) = .meet (node mem data fieldOffset nextOffset j) := by
  have hmeans := walk_start A mem data fieldOffset nextOffset
  revert hmeans
  cases cycleWalk A mem nextOffset maxCycleDepth (readPtrField mem data fieldOffset)
    (readPtrField mem data fieldOffset) with
  | null =>
    rintro ⟨e, -, hnull, -⟩
    exact absurd hnull (Mapping.ne_null (hin (e + 1) e (Nat.lt_succ_self e)))
  | outside =>
    rintro ⟨e, -, -, hout, -⟩
    rw [hin (e + 1) e (Nat.lt_succ_self e)] at hout
    cases hout
  | meet ptr =>
    rintro ⟨j', hj', hdepth', rfl, hmeet, -⟩
    obtain ⟨htail', hdvd'⟩ := (h.meet_iff hj').1 hmeet
    exact ⟨j', hj', hdepth', htail', hdvd', rfl⟩
  | deep =>
    rintro ⟨-, hnone⟩
    exact absurd ((h.meet_iff hj).2 ⟨htail, hdvd⟩) (hnone j hj hdepth)

/-- NULL in the next pointer of the last node leaves the nodes as they are, where the field is not
that pointer. -/
theorem Chain.node_cut (h : Chain A mem data fieldOffset nextOffset n) (hn : 0 < n)
    (hfield : data + fieldOffset ≠
      node mem data fieldOffset nextOffset (n - 1) + nextOffset) {i : ℕ} (hi : i < n) :
    node (writePtrField mem (node mem data fieldOffset nextOffset (n - 1)) nextOffset 0) data
      fieldOffset nextOffset i = node mem data fieldOffset nextOffset i := by
  induction i with
  | zero =>
    have hdisjoint := (h.field (n - 1) (by omega)).resolve_left hfield
    exact load_store_of_disjoint mem hdisjoint
  | succ i ih =>
    have hdisjoint := h.apart i (n - 1) (by omega) (by omega)
    rw [node_succ, node_succ, ih (by omega)]
    exact load_store_of_disjoint mem hdisjoint

/-- The pointer that is set to NULL reads so. -/
theorem readPtrField_cut (mem : Memory) (x nextOffset : ℕ) :
    readPtrField (writePtrField mem x nextOffset 0) x nextOffset = 0 := by
  rw [readPtrField, writePtrField, load_store_same, Nat.zero_mod]

/-- The repair of a chain that goes back cuts the link of its last node. -/
theorem Chain.settles (h : Chain A mem data fieldOffset nextOffset n) (hn : n < maxCycleDepth)
    (hback : GoesBack mem data fieldOffset nextOffset n) :
    Settles (recoverNoCycle A mem data fieldOffset nextOffset)
      (true, writePtrField mem (node mem data fieldOffset nextOffset (n - 1)) nextOffset 0) := by
  obtain ⟨tail, period, hcyclic, rfl⟩ := h.cyclic hback
  have hin := inside_of_cyclic hcyclic h.inside
  obtain ⟨j, hj, hle, htail, hdvd⟩ := hcyclic.exists_meet
  obtain ⟨j, hj, hdepth, -, hdvd, hmeet⟩ :=
    walk_of_cyclic hcyclic hin hj (hle.trans hn.le) htail hdvd
  have hlast : tail + period - 1 = tail + (period - 1) := Nat.add_sub_assoc hcyclic.pos tail
  rw [hlast]
  exact settles_recover hcyclic hj hdepth hdvd hin hmeet

/-- A cut that leaves the nodes as they are is a repair. -/
theorem Chain.repaired (h : Chain A mem data fieldOffset nextOffset n)
    (hn : n < 2 * maxCycleDepth)
    (hback : GoesBack mem data fieldOffset nextOffset n)
    (hfield : data + fieldOffset ≠ node mem data fieldOffset nextOffset (n - 1) + nextOffset) :
    Repaired A mem (writePtrField mem (node mem data fieldOffset nextOffset (n - 1)) nextOffset 0)
      data fieldOffset nextOffset n := by
  obtain ⟨m, hm, heq⟩ := hback
  have hpos : 0 < n := by omega
  have hsame := fun i (hi : i < n) => h.node_cut hpos hfield hi
  have hends : node (writePtrField mem (node mem data fieldOffset nextOffset (n - 1)) nextOffset 0)
      data fieldOffset nextOffset n = 0 := by
    have hsucc : n - 1 + 1 = n := Nat.sub_add_cancel hpos
    rw [← hsucc, node_succ, hsucc, hsame (n - 1) (by omega), readPtrField_cut]
  refine ⟨⟨n - 1, by omega, changesOnly_store _ _ _ _, fun i hi => ?_⟩, hsame, hends, ?_⟩
  · constructor
    · intro hne
      by_contra hlast
      exact hne (load_store_of_disjoint mem (h.apart i (n - 1) (by omega) (by omega)))
    · rintro rfl
      have hsucc : n - 1 + 1 = n := Nat.sub_add_cancel hpos
      rw [readPtrField_cut, ← node_succ, hsucc, ← heq]
      exact (Mapping.ne_null (h.inside m hm)).symm
  · refine validate_ok_iff.2 ⟨n, hn, hends, fun i hi => ?_⟩
    rw [hsame i hi]
    exact h.inside i hi

/-- A field that is the next pointer of the last node reads NULL after the repair. -/
theorem Chain.not_handled (h : Chain A mem data fieldOffset nextOffset n)
    (hn : n < maxCycleDepth) (hback : GoesBack mem data fieldOffset nextOffset n)
    (hfield : data + fieldOffset = node mem data fieldOffset nextOffset (n - 1) + nextOffset) :
    ¬Handled A mem data fieldOffset nextOffset n := by
  intro hhandled
  obtain ⟨mem', hsettles, hrepaired⟩ := hhandled.repairs hback
  have hmem : mem' =
      writePtrField mem (node mem data fieldOffset nextOffset (n - 1)) nextOffset 0 :=
    congrArg Prod.snd (hsettles.unique (h.settles hn hback))
  obtain ⟨m, hm, -⟩ := hback
  have hstart := hrepaired.same 0 (by omega)
  have hnull : node mem' data fieldOffset nextOffset 0 = 0 := by
    change readPtrField mem' data fieldOffset = 0
    rw [hmem, readPtrField, hfield]
    exact readPtrField_cut mem _ nextOffset
  exact Mapping.ne_null (h.inside 0 (by omega)) (hstart.symm.trans hnull)

/-- A chain is checked and repaired as it must be, except where it goes back and the field is the
next pointer of its last node. -/
theorem handled_iff (h : Chain A mem data fieldOffset nextOffset n) (hn : n < maxCycleDepth) :
    Handled A mem data fieldOffset nextOffset n ↔
      ¬(GoesBack mem data fieldOffset nextOffset n ∧
        data + fieldOffset = node mem data fieldOffset nextOffset (n - 1) + nextOffset) := by
  constructor
  · rintro hhandled ⟨hback, hfield⟩
    exact h.not_handled hn hback hfield hhandled
  · intro hnot
    have hout : node mem data fieldOffset nextOffset n = 0 →
        ¬Inside A mem data fieldOffset nextOffset (2 * maxCycleDepth) := by
      intro hnull hin
      exact Mapping.ne_null (hin n (by omega)) hnull
    have hall : GoesBack mem data fieldOffset nextOffset n →
        ∀ e, Inside A mem data fieldOffset nextOffset e := by
      intro hback
      obtain ⟨tail, period, hcyclic, rfl⟩ := h.cyclic hback
      exact inside_of_cyclic hcyclic h.inside
    refine ⟨validate_cycle_iff.trans ⟨fun hin => ?_, fun hback => hall hback _⟩,
      validate_ok_iff.trans ⟨?_, fun hnull => ⟨n, by omega, hnull, h.inside⟩⟩, fun hback => ?_⟩
    · exact h.ends.resolve_left fun hnull => hout hnull hin
    · rintro ⟨e, -, hnull, -⟩
      exact h.ends.resolve_right fun hback =>
        Mapping.ne_null (hall hback (e + 1) e (Nat.lt_succ_self e)) hnull
    · exact ⟨_, h.settles hn hback, h.repaired (by omega) hback fun hfield => hnot ⟨hback, hfield⟩⟩

/-- Two nodes that are linked to each other are a chain. -/
theorem chain_ring {a b : ℕ} (hstart : readPtrField mem data 0 = a)
    (ha : readPtrField mem a 0 = b) (hb : readPtrField mem b 0 = a)
    (hina : A.contains a = true) (hinb : A.contains b = true)
    (hapart : (Region.mk a 8).Disjoint ⟨b, 8⟩)
    (hfield : ∀ x, x = a ∨ x = b → data = x ∨ (Region.mk data 8).Disjoint ⟨x, 8⟩) :
    Chain A mem data 0 0 2 := by
  have hnode0 : node mem data 0 0 0 = a := hstart
  have hnode1 : node mem data 0 0 1 = b := by rw [node_succ, hnode0, ha]
  have hnode2 : node mem data 0 0 2 = a := by rw [node_succ, hnode1, hb]
  have hcases : ∀ i < 2, i = 0 ∨ i = 1 := fun i hi => by omega
  refine ⟨fun i hi => ?_, fun i j hij hj => ?_, .inr ⟨0, Nat.two_pos, hnode0.trans hnode2.symm⟩,
    fun i j hij hj => ?_, fun i hi => ?_⟩
  · rcases hcases i hi with rfl | rfl
    · exact hnode0.symm ▸ hina
    · exact hnode1.symm ▸ hinb
  · have hi : i = 0 := by omega
    have hj : j = 1 := by omega
    rw [hi, hj, hnode0, hnode1]
    rintro rfl
    simp [Region.Disjoint] at hapart
  · have hi : i = 0 := by omega
    have hj : j = 1 := by omega
    rw [hi, hj, hnode0, hnode1]
    exact hapart
  · rcases hcases i hi with rfl | rfl
    · rw [hnode0]
      exact hfield a (.inl rfl)
    · rw [hnode1]
      exact hfield b (.inr rfl)

end

/-- A page of Atlas, at the address 4096. -/
def onePage : Mapping :=
  ⟨4096, 4096, by norm_num⟩

/-- Nodes at 4104 and 4112 that are linked to each other, and a pointer to the first at 4096. -/
def twoNodes : Memory :=
  store (store (store (fun _ => 0) 4096 8 4104) 4104 8 4112) 4112 8 4104

theorem handled_iff_twoNodes : Handled onePage twoNodes 4096 0 0 2 := by
  have hchain : Chain onePage twoNodes 4096 0 0 2 := by
    refine chain_ring (a := 4104) (b := 4112) (by decide) (by decide) (by decide) (by decide)
      (by decide) (by decide) ?_
    rintro x (rfl | rfl)
    · exact .inr (by decide)
    · exact .inr (by decide)
  exact (handled_iff hchain two_lt_maxCycleDepth).2 fun h => absurd h.2 (by decide)

/-- Checked from the first node, the second is lost. -/
theorem not_handled_node : Chain onePage twoNodes 4104 0 0 2 ∧
    ¬Handled onePage twoNodes 4104 0 0 2 := by
  have hchain : Chain onePage twoNodes 4104 0 0 2 := by
    refine chain_ring (a := 4112) (b := 4104) (by decide) (by decide) (by decide) (by decide)
      (by decide) (by decide) ?_
    rintro x (rfl | rfl)
    · exact .inr (by decide)
    · exact .inl rfl
  refine ⟨hchain, hchain.not_handled two_lt_maxCycleDepth ⟨0, by decide, by decide⟩ (by decide)⟩

end Checkpoint

end Seraph
