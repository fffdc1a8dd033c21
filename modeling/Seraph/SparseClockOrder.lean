import Mathlib.Data.Set.Basic
import Seraph.CausalOrder
import Seraph.SparseClockMerge

/-!
# Comparing sparse vector clocks

`compare` goes through both clocks with one position in each. At each point of the loop its
flags say whether a timestamp was greater among the nodes seen so far (`Comparing`). A clock
that has been read to its end counts as being at node `UINT16_MAX`, which is also a node : if
only the other clock has an entry for it, the loop takes the two for the same node and reads
past the end (`Overruns`). So the result is the relation of the maps, and every read lies below
`count`, exactly for the pairs where this entry is in both clocks or in none, or where the
clocks are found concurrent before it (`compares_iff`).
-/

namespace Seraph

open SortedTable Loops CausalOrder
open MergeState (part part_succ)

/-- `UINT16_MAX`. -/
def uint16Max : ℕ :=
  2 ^ 16 - 1

/-- The variables of the loop, and the slots whose timestamps it has read. -/
structure CompareState where
  i : ℕ
  j : ℕ
  aHasGreater : Bool
  bHasGreater : Bool
  readA : List ℕ
  readB : List ℕ
deriving DecidableEq

namespace CompareState

/-- Before the first entry of either clock. -/
def start : CompareState :=
  ⟨0, 0, false, false, [], []⟩

variable (a b : SparseClock) (s : CompareState)

/-- The node at a position, `UINT16_MAX` past the end. -/
def nodeAt (c : SparseClock) (i : ℕ) : ℕ :=
  if i < c.count then (c.entries i).nodeId else uint16Max

/-- The flags after two timestamps have been compared. -/
def note (tsA tsB : ℕ) : CompareState :=
  { s with
    aHasGreater := s.aHasGreater || decide (tsA > tsB)
    bHasGreater := s.bHasGreater || decide (tsB > tsA) }

/-- A node of `a` only. -/
def seeA : CompareState :=
  { s.note (a.entries s.i).timestamp 0 with i := s.i + 1, readA := s.i :: s.readA }

/-- A node of `b` only. -/
def seeB : CompareState :=
  { s.note 0 (b.entries s.j).timestamp with j := s.j + 1, readB := s.j :: s.readB }

/-- The same node in both. -/
def seeBoth : CompareState :=
  { s.note (a.entries s.i).timestamp (b.entries s.j).timestamp with
    i := s.i + 1
    j := s.j + 1
    readA := s.i :: s.readA
    readB := s.j :: s.readB }

/-- A round of the loop. The exit for concurrent clocks is taken before the next round. -/
def compareRound : Option CompareState :=
  if s.aHasGreater && s.bHasGreater then none
  else if s.i < a.count ∨ s.j < b.count then
    if nodeAt a s.i < nodeAt b s.j then some (s.seeA a)
    else if nodeAt b s.j < nodeAt a s.i then some (s.seeB b)
    else some (s.seeBoth a b)
  else none

/-- The loop of `seraph_sparse_vclock_compare`. -/
def compareLoop : CompareState :=
  loop (compareRound a b) (a.count + b.count + 1) start

/-- The loop on exchanged clocks. -/
def swap : CompareState :=
  ⟨s.j, s.i, s.bHasGreater, s.aHasGreater, s.readB, s.readA⟩

end CompareState

namespace SparseClock

/-- `seraph_sparse_vclock_compare`. -/
def compare (a b : SparseClock) : CausalOrder :=
  if a.count = 0 ∧ b.count = 0 then .equal
  else
    ofFlags (CompareState.compareLoop a b).aHasGreater (CompareState.compareLoop a b).bHasGreater

/-- The slots of both clocks whose timestamps `seraph_sparse_vclock_compare` reads. -/
def compareReads (a b : SparseClock) : List ℕ × List ℕ :=
  if a.count = 0 ∧ b.count = 0 then ([], [])
  else ((CompareState.compareLoop a b).readA, (CompareState.compareLoop a b).readB)

end SparseClock

namespace CompareState

variable {a b : SparseClock} {s t : CompareState}

/-- The flags compare what has been read, all of it below the counts. -/
structure Comparing (a b : SparseClock) (s : CompareState) : Prop where
  cut : Cut VClockEntry.nodeId a.entries b.entries a.count b.count s.i s.j
  greater : s.aHasGreater = true ↔ ∃ k, part b.entries s.j k < part a.entries s.i k
  less : s.bHasGreater = true ↔ ∃ k, part a.entries s.i k < part b.entries s.j k
  readA : ∀ r ∈ s.readA, r < a.count
  readB : ∀ r ∈ s.readB, r < b.count

theorem comparing_start (a b : SparseClock) : Comparing a b start := by
  refine ⟨.start _ _ _ _ _, ?_, ?_, fun r hr => ?_, fun r hr => ?_⟩
  · simp [start, part, SortedTable.get]
  · simp [start, part, SortedTable.get]
  · cases hr
  · cases hr

theorem Comparing.swap (h : Comparing a b s) : Comparing b a s.swap :=
  ⟨h.cut.symm, h.less, h.greater, h.readB, h.readA⟩

/-- A round on exchanged clocks. -/
theorem compareRound_swap (a b : SparseClock) (s : CompareState) :
    compareRound b a s.swap = (compareRound a b s).map swap := by
  rcases s with ⟨i, j, aHasGreater, bHasGreater, readA, readB⟩
  simp only [compareRound, swap, Bool.and_comm bHasGreater, or_comm (a := j < b.count)]
  split
  · rfl
  split
  · rcases Nat.lt_trichotomy (nodeAt a i) (nodeAt b j) with h | h | h
    · simp only [h, Nat.lt_asymm h, if_true, if_false]
      rfl
    · simp only [h, Nat.lt_irrefl, if_false]
      rfl
    · simp only [h, Nat.lt_asymm h, if_true, if_false]
      rfl
  · rfl

theorem compareLoop_swap (a b : SparseClock) : compareLoop b a = (compareLoop a b).swap := by
  unfold compareLoop
  rw [Nat.add_comm b.count]
  exact loop_map (compareRound_swap a b) _ start

/-- Two timestamps of a node that has not been seen. -/
theorem Comparing.note (h : Comparing a b s) {i j node tsA tsB : ℕ} {readA readB : List ℕ}
    (hcut : Cut VClockEntry.nodeId a.entries b.entries a.count b.count i j)
    (hnew : part a.entries s.i node = part b.entries s.j node)
    (hA : part a.entries i = Function.update (part a.entries s.i) node tsA)
    (hB : part b.entries j = Function.update (part b.entries s.j) node tsB)
    (hreadA : ∀ r ∈ readA, r < a.count) (hreadB : ∀ r ∈ readB, r < b.count) :
    Comparing a b ⟨i, j, (s.note tsA tsB).aHasGreater, (s.note tsA tsB).bHasGreater, readA,
      readB⟩ := by
  refine ⟨hcut, ?_, ?_, hreadA, hreadB⟩
  · rw [hA, hB, exists_lt_update hnew, ← h.greater]
    simp [CompareState.note]
  · rw [hA, hB, exists_lt_update hnew.symm, ← h.less]
    simp [CompareState.note]

/-- The next node of the first clock is not in the second. -/
theorem Comparing.seeA (h : Comparing a b s) (ha : a.WellFormed) (hb : b.WellFormed)
    (hi : s.i < a.count)
    (hlt : s.j < b.count → (a.entries s.i).nodeId < (b.entries s.j).nodeId) :
    Comparing a b (s.seeA a) := by
  have hnext : part a.entries s.i (a.entries s.i).nodeId = 0 ∧
      part b.entries s.j (a.entries s.i).nodeId = 0 := h.cut.get_next ha.sorted hi
  refine h.note (h.cut.step_left hb.sorted hi hlt) (hnext.1.trans hnext.2.symm)
    (part_succ a.entries s.i) ?_ (fun r hr => ?_) h.readB
  · rw [← hnext.2, Function.update_eq_self]
    rfl
  · rcases List.mem_cons.1 hr with rfl | hr
    · exact hi
    · exact h.readA r hr

theorem Comparing.seeB (h : Comparing a b s) (ha : a.WellFormed) (hb : b.WellFormed)
    (hj : s.j < b.count)
    (hlt : s.i < a.count → (b.entries s.j).nodeId < (a.entries s.i).nodeId) :
    Comparing a b (s.seeB b) :=
  (h.swap.seeA hb ha hj hlt).swap

/-- The next node is the same in both clocks. -/
theorem Comparing.seeBoth (h : Comparing a b s) (ha : a.WellFormed) (hb : b.WellFormed)
    (hi : s.i < a.count) (hj : s.j < b.count)
    (heq : (a.entries s.i).nodeId = (b.entries s.j).nodeId) : Comparing a b (s.seeBoth a b) := by
  have hnext : part a.entries s.i (a.entries s.i).nodeId = 0 ∧
      part b.entries s.j (a.entries s.i).nodeId = 0 := h.cut.get_next ha.sorted hi
  refine h.note (h.cut.step_both ha.sorted hb.sorted hi hj heq) (hnext.1.trans hnext.2.symm)
    (part_succ a.entries s.i) ?_ (fun r hr => ?_) fun r hr => ?_
  · rw [heq]
    exact part_succ b.entries s.j
  · rcases List.mem_cons.1 hr with rfl | hr
    · exact hi
    · exact h.readA r hr
  · rcases List.mem_cons.1 hr with rfl | hr
    · exact hj
    · exact h.readB r hr

/-! ## Reading past the end -/

/-- The first clock is at its entry for `UINT16_MAX`, and the second has been read to its
end. -/
def Overruns (a b : SparseClock) (s : CompareState) : Prop :=
  s.i < a.count ∧ (a.entries s.i).nodeId = uint16Max ∧ b.count ≤ s.j

theorem nodeAt_of_lt {c : SparseClock} {i : ℕ} (h : i < c.count) :
    nodeAt c i = (c.entries i).nodeId :=
  if_pos h

theorem nodeAt_of_le {c : SparseClock} {i : ℕ} (h : c.count ≤ i) : nodeAt c i = uint16Max :=
  if_neg (Nat.not_lt.2 h)

theorem nodeAt_le {c : SparseClock} (hc : c.WellFormed) (i : ℕ) : nodeAt c i ≤ uint16Max := by
  unfold nodeAt
  split
  · next h =>
    have := hc.nodeId i h
    unfold uint16Max
    omega
  · exact le_rfl

/-- What a round does : it sees the next node of one clock or of both, or runs past an end. -/
theorem compareRound_cases (ha : a.WellFormed) (hb : b.WellFormed)
    (hround : compareRound a b s = some t) :
    ((s.aHasGreater && s.bHasGreater) = false) ∧
      ((s.i < a.count ∧ (s.j < b.count → (a.entries s.i).nodeId < (b.entries s.j).nodeId) ∧
            (a.entries s.i).nodeId ≠ uint16Max ∧ t = s.seeA a) ∨
        (s.j < b.count ∧ (s.i < a.count → (b.entries s.j).nodeId < (a.entries s.i).nodeId) ∧
            (b.entries s.j).nodeId ≠ uint16Max ∧ t = s.seeB b) ∨
        (s.i < a.count ∧ s.j < b.count ∧ (a.entries s.i).nodeId = (b.entries s.j).nodeId ∧
            t = s.seeBoth a b) ∨
        (Overruns a b s ∨ Overruns b a s.swap) ∧ t = s.seeBoth a b) := by
  have hmaxA := nodeAt_le ha s.i
  have hmaxB := nodeAt_le hb s.j
  unfold compareRound at hround
  split at hround
  · cases hround
  split at hround
  · next hflags hleft =>
    refine ⟨by simpa using hflags, ?_⟩
    split at hround
    · next hlt =>
      obtain rfl := Option.some.inj hround
      have hi : s.i < a.count := by
        by_contra hi
        rw [nodeAt_of_le (Nat.not_lt.1 hi)] at hlt
        omega
      rw [nodeAt_of_lt hi] at hlt
      refine .inl ⟨hi, fun hj => ?_, by omega, rfl⟩
      rwa [nodeAt_of_lt hj] at hlt
    split at hround
    · next hlt =>
      obtain rfl := Option.some.inj hround
      have hj : s.j < b.count := by
        by_contra hj
        rw [nodeAt_of_le (Nat.not_lt.1 hj)] at hlt
        omega
      rw [nodeAt_of_lt hj] at hlt
      refine .inr (.inl ⟨hj, fun hi => ?_, by omega, rfl⟩)
      rwa [nodeAt_of_lt hi] at hlt
    · next hge hle =>
      obtain rfl := Option.some.inj hround
      have heq : nodeAt a s.i = nodeAt b s.j := by omega
      refine .inr (.inr ?_)
      rcases Nat.lt_or_ge s.i a.count with hi | hi
      · rcases Nat.lt_or_ge s.j b.count with hj | hj
        · rw [nodeAt_of_lt hi, nodeAt_of_lt hj] at heq
          exact .inl ⟨hi, hj, heq, rfl⟩
        · rw [nodeAt_of_lt hi, nodeAt_of_le hj] at heq
          exact .inr ⟨.inl ⟨hi, heq, hj⟩, rfl⟩
      · have hj : s.j < b.count := hleft.resolve_left (Nat.not_lt.2 hi)
        rw [nodeAt_of_le hi, nodeAt_of_lt hj] at heq
        exact .inr ⟨.inr ⟨hj, heq.symm, hi⟩, rfl⟩
  · cases hround

/-- Positions that the loop has not passed. -/
def remaining (a b : SparseClock) (s : CompareState) : ℕ :=
  (a.count - s.i) + (b.count - s.j)

theorem remaining_lt (ha : a.WellFormed) (hb : b.WellFormed)
    (hround : compareRound a b s = some t) : remaining a b t < remaining a b s := by
  rcases (compareRound_cases ha hb hround).2 with ⟨hi, -, -, rfl⟩ | ⟨hj, -, -, rfl⟩ |
    ⟨hi, hj, -, rfl⟩ | ⟨hover | hover, rfl⟩
  · simp only [remaining, CompareState.seeA, CompareState.note]
    omega
  · simp only [remaining, CompareState.seeB, CompareState.note]
    omega
  · simp only [remaining, CompareState.seeBoth]
    omega
  · have := hover.1
    simp only [remaining, CompareState.seeBoth]
    omega
  · have hj : s.j < b.count := hover.1
    simp only [remaining, CompareState.seeBoth]
    omega

/-- A greater timestamp that has been noted belongs to a node seen in the first clock. -/
theorem Comparing.exists_greater (h : Comparing a b s) (ha : a.WellFormed)
    (hgreater : s.aHasGreater = true) : ∃ p < s.i,
      b.value (a.entries p).nodeId < a.value (a.entries p).nodeId := by
  obtain ⟨k, hk⟩ := h.greater.1 hgreater
  obtain ⟨p, hp, rfl⟩ := exists_of_get_ne (Nat.ne_of_gt ((Nat.zero_le _).trans_lt hk))
  obtain ⟨hA, hB⟩ := h.cut.get_seen VClockEntry.timestamp 0 ha.sorted hp
  refine ⟨p, hp, ?_⟩
  rw [SparseClock.value, SparseClock.value, hA, hB]
  exact hk

end CompareState

namespace SparseClock

open CompareState

variable {a b : SparseClock}

/-- The clocks are concurrent on the nodes below `UINT16_MAX`. -/
def ConcurrentBelow (a b : SparseClock) : Prop :=
  (∃ k < uint16Max, b.value k < a.value k) ∧ ∃ k < uint16Max, a.value k < b.value k

/-- Both clocks have an entry for `UINT16_MAX`, or neither has, or they are concurrent before
it. -/
def SafePair (a b : SparseClock) : Prop :=
  (uint16Max ∈ a.nodes ↔ uint16Max ∈ b.nodes) ∨ ConcurrentBelow a b

theorem SafePair.symm (h : SafePair a b) : SafePair b a :=
  h.imp Iff.symm And.symm

/-- The result is the relation of the maps, and all reads lie below the counts. -/
structure Compares (a b : SparseClock) : Prop where
  tells : (a.compare b).Tells a.value b.value
  readA : ∀ r ∈ (a.compareReads b).1, r < a.count
  readB : ∀ r ∈ (a.compareReads b).2, r < b.count

/-- On a safe pair the loop does not run past an end. -/
theorem not_overruns {s : CompareState} (ha : a.WellFormed) (h : Comparing a b s)
    (hflags : (s.aHasGreater && s.bHasGreater) = false) (hsafe : SafePair a b) :
    ¬ Overruns a b s := by
  rintro ⟨hi, hnode, hj⟩
  have hjeq : s.j = b.count := Nat.le_antisymm h.cut.right_le hj
  rcases hsafe with hsame | ⟨⟨k, hk, hgreater⟩, l, hl, hless⟩
  · obtain ⟨q, hq, hqnode⟩ := mem_nodes.1 (hsame.1 (mem_nodes.2 ⟨s.i, hi, hnode⟩))
    have hlt := h.cut.right q (hq.trans_le hj) s.i le_rfl hi
    exact absurd (hqnode.trans hnode.symm) hlt.ne
  · -- All nodes below `UINT16_MAX` have been seen, so both flags are set.
    have hseen : ∀ n < uint16Max, part a.entries s.i n = a.value n ∧
        part b.entries s.j n = b.value n := by
      intro n hn
      refine ⟨(get_eq_part h.cut.left_le fun p hip hp => ?_).symm, by rw [hjeq]; rfl⟩
      rcases Nat.eq_or_lt_of_le hip with rfl | hlt
      · omega
      · have := ha.sorted s.i p hlt hp
        omega
    have hA : s.aHasGreater = true :=
      h.greater.2 ⟨k, by rwa [(hseen k hk).1, (hseen k hk).2]⟩
    have hB : s.bHasGreater = true :=
      h.less.2 ⟨l, by rwa [(hseen l hl).1, (hseen l hl).2]⟩
    rw [hA, hB] at hflags
    exact Bool.noConfusion hflags

theorem comparing_round {s t : CompareState} (ha : a.WellFormed) (hb : b.WellFormed)
    (hsafe : SafePair a b) (h : Comparing a b s) (hround : compareRound a b s = some t) :
    Comparing a b t ∧ remaining a b t < remaining a b s := by
  refine ⟨?_, remaining_lt ha hb hround⟩
  obtain ⟨hflags, hcases⟩ := compareRound_cases ha hb hround
  rcases hcases with ⟨hi, hlt, -, rfl⟩ | ⟨hj, hlt, -, rfl⟩ | ⟨hi, hj, heq, rfl⟩ |
    ⟨hover | hover, -⟩
  · exact h.seeA ha hb hi hlt
  · exact h.seeB ha hb hj hlt
  · exact h.seeBoth ha hb hi hj heq
  · exact absurd hover (not_overruns ha h hflags hsafe)
  · refine absurd hover (not_overruns hb h.swap ?_ hsafe.symm)
    rw [← hflags]
    exact Bool.and_comm _ _

theorem comparing_compareLoop (ha : a.WellFormed) (hb : b.WellFormed) (hsafe : SafePair a b) :
    Comparing a b (compareLoop a b) ∧ compareRound a b (compareLoop a b) = none := by
  have hfuel : remaining a b start < a.count + b.count + 1 := by
    simp only [remaining, start]
    omega
  obtain ⟨h, -, hdone⟩ := loop_spec (I := Comparing a b) (f := remaining a b)
    (fun s t h hround => comparing_round (s := s) (t := t) ha hb hsafe h hround)
    (comparing_start a b) hfuel
  exact ⟨h, hdone⟩

/-- The loop ends with both flags set, or with both clocks read. -/
theorem compareRound_eq_none {s : CompareState} (h : compareRound a b s = none) :
    s.aHasGreater = true ∧ s.bHasGreater = true ∨ a.count ≤ s.i ∧ b.count ≤ s.j := by
  unfold compareRound at h
  split at h
  · next hflags => exact .inl (by simpa using hflags)
  split at h
  · split at h
    · cases h
    split at h <;> cases h
  · next hleft => exact .inr (by omega)

/-- At the end of the loop the flags compare the whole clocks. -/
theorem flags_whole {s : CompareState} (ha : a.WellFormed) (hb : b.WellFormed)
    (h : Comparing a b s) (hdone : compareRound a b s = none) :
    (s.aHasGreater = true ↔ ∃ k, b.value k < a.value k) ∧
      (s.bHasGreater = true ↔ ∃ k, a.value k < b.value k) := by
  rcases compareRound_eq_none hdone with ⟨hA, hB⟩ | ⟨hi, hj⟩
  · obtain ⟨p, -, hp⟩ := h.exists_greater ha hA
    obtain ⟨q, -, hq⟩ := h.swap.exists_greater hb hB
    exact ⟨iff_of_true hA ⟨_, hp⟩, iff_of_true hB ⟨_, hq⟩⟩
  · have hgreater := h.greater
    have hless := h.less
    rw [Nat.le_antisymm h.cut.left_le hi, Nat.le_antisymm h.cut.right_le hj] at hgreater hless
    exact ⟨hgreater, hless⟩

theorem compares_of_safePair (ha : a.WellFormed) (hb : b.WellFormed) (hsafe : SafePair a b) :
    Compares a b := by
  obtain ⟨h, hdone⟩ := comparing_compareLoop ha hb hsafe
  obtain ⟨hgreater, hless⟩ := flags_whole ha hb h hdone
  by_cases hempty : a.count = 0 ∧ b.count = 0
  · have hequal : a.compare b = ofFlags false false := by
      rw [compare, if_pos hempty]
      rfl
    refine ⟨?_, ?_, ?_⟩
    · rw [hequal]
      rw [value_of_empty hempty.1, value_of_empty hempty.2]
      exact tells_ofFlags (by simp) (by simp)
    · simp [compareReads, hempty]
    · simp [compareReads, hempty]
  · refine ⟨?_, ?_, ?_⟩
    · rw [compare, if_neg hempty]
      exact tells_ofFlags hgreater hless
    · rw [compareReads, if_neg hempty]
      exact h.readA
    · rw [compareReads, if_neg hempty]
      exact h.readB

/-! ## Pairs that are not safe -/

/-- The entry for `UINT16_MAX` is the last one. -/
theorem node_lt_of_last (ha : a.WellFormed) (hmax : uint16Max ∈ a.nodes) {i : ℕ}
    (hi : i < a.count) (hne : (a.entries i).nodeId ≠ uint16Max) : i + 1 < a.count := by
  obtain ⟨p, hp, hnode⟩ := mem_nodes.1 hmax
  have hip := ha.nodeId i hi
  rcases Nat.lt_trichotomy i p with hlt | rfl | hlt
  · omega
  · exact absurd hnode hne
  · have := ha.sorted p i hlt hi
    unfold uint16Max at hnode
    omega

/-- The loop has not passed the entry for `UINT16_MAX`, or has read past the end of the other
clock. -/
def Pending (a b : SparseClock) (s : CompareState) : Prop :=
  Comparing a b s ∧ s.i < a.count ∨ b.count ∈ s.readB

theorem pending_round {s t : CompareState} (ha : a.WellFormed) (hb : b.WellFormed)
    (hmaxA : uint16Max ∈ a.nodes) (hmaxB : uint16Max ∉ b.nodes) (h : Pending a b s)
    (hround : compareRound a b s = some t) :
    Pending a b t ∧ remaining a b t < remaining a b s := by
  refine ⟨?_, remaining_lt ha hb hround⟩
  rcases (compareRound_cases ha hb hround).2 with ⟨hi, hlt, hne, rfl⟩ | ⟨hj, hlt, -, rfl⟩ |
    ⟨hi, hj, heq, rfl⟩ | ⟨hover, rfl⟩
  · exact h.imp (fun h => ⟨h.1.seeA ha hb hi hlt, node_lt_of_last ha hmaxA hi hne⟩) id
  · exact h.imp (fun h => ⟨h.1.seeB ha hb hj hlt, h.2⟩) fun h => List.mem_cons_of_mem _ h
  · have hne : (a.entries s.i).nodeId ≠ uint16Max :=
      fun hnode => hmaxB (mem_nodes.2 ⟨s.j, hj, heq ▸ hnode⟩)
    exact h.imp (fun h => ⟨h.1.seeBoth ha hb hi hj heq, node_lt_of_last ha hmaxA hi hne⟩)
      fun h => List.mem_cons_of_mem _ h
  · rcases h with ⟨h, hi⟩ | h
    · refine .inr (List.mem_cons.2 (.inl ?_))
      rcases hover with hover | hover
      · exact Nat.le_antisymm hover.2.2 h.cut.right_le
      · have hle : a.count ≤ s.i := hover.2.2
        omega
    · exact .inr (List.mem_cons_of_mem _ h)

/-- If only the first clock has an entry for `UINT16_MAX` and the clocks are not concurrent
before it, the slot past the end of the second clock is read. -/
theorem overread (ha : a.WellFormed) (hb : b.WellFormed) (hmaxA : uint16Max ∈ a.nodes)
    (hmaxB : uint16Max ∉ b.nodes) (hbelow : ¬ ConcurrentBelow a b) :
    b.count ∈ (compareLoop a b).readB := by
  obtain ⟨p, hp, hnode⟩ := mem_nodes.1 hmaxA
  have hfuel : remaining a b start < a.count + b.count + 1 := by
    simp only [remaining, start]
    omega
  obtain ⟨h, -, hdone⟩ := loop_spec (I := Pending a b) (f := remaining a b)
    (fun s t h hround => pending_round (s := s) (t := t) ha hb hmaxA hmaxB h hround)
    (.inl ⟨comparing_start a b, Nat.zero_lt_of_lt hp⟩) hfuel
  refine h.resolve_left ?_
  rintro ⟨h, hi⟩
  rcases compareRound_eq_none hdone with ⟨hA, hB⟩ | ⟨hle, -⟩
  · refine hbelow ⟨?_, ?_⟩
    · obtain ⟨q, hq, hgreater⟩ := h.exists_greater ha hA
      have := ha.sorted q (q + 1) (Nat.lt_succ_self q) (by omega)
      have := ha.nodeId (q + 1) (by omega)
      exact ⟨_, by unfold uint16Max; omega, hgreater⟩
    · obtain ⟨q, hq, hless⟩ := h.swap.exists_greater hb hB
      have hqb : q < b.count := Nat.lt_of_lt_of_le hq h.cut.right_le
      have hne : (b.entries q).nodeId ≠ uint16Max :=
        fun heq => hmaxB (mem_nodes.2 ⟨q, hqb, heq⟩)
      have := hb.nodeId q hqb
      exact ⟨_, by unfold uint16Max at *; omega, hless⟩
  · exact absurd hi (Nat.not_lt.2 hle)

/-- The result of `compare` is right and its reads are inside the clocks exactly for the safe
pairs. -/
theorem compares_iff (ha : a.WellFormed) (hb : b.WellFormed) : Compares a b ↔ SafePair a b := by
  refine ⟨fun h => ?_, compares_of_safePair ha hb⟩
  by_contra hsafe
  obtain ⟨hdiff, hbelow⟩ := not_or.1 hsafe
  have hempty : ¬ (a.count = 0 ∧ b.count = 0) := by
    rintro ⟨hA, hB⟩
    exact hdiff (by simp [nodes, hA, hB])
  have hreadA := h.readA
  have hreadB := h.readB
  rw [compareReads, if_neg hempty] at hreadA hreadB
  by_cases hmaxA : uint16Max ∈ a.nodes
  · have hmaxB : uint16Max ∉ b.nodes := fun hmaxB => hdiff (iff_of_true hmaxA hmaxB)
    exact absurd (hreadB _ (overread ha hb hmaxA hmaxB hbelow)) (Nat.lt_irrefl _)
  · have hmaxB : uint16Max ∈ b.nodes := by
      by_contra hmaxB
      exact hdiff (iff_of_false hmaxA hmaxB)
    have hread := overread hb ha hmaxB hmaxA fun hbelow' => hbelow hbelow'.symm
    rw [compareLoop_swap] at hread
    exact absurd (hreadA _ hread) (Nat.lt_irrefl _)

/-- On the clocks of a set, `compare` is the order of the maps, reads inside the clocks, and is
antisymmetric and transitive on BEFORE. -/
structure Orders (S : Set SparseClock) : Prop where
  compares : ∀ a ∈ S, ∀ b ∈ S, Compares a b
  antisymm : ∀ a ∈ S, ∀ b ∈ S, a.compare b = .before → b.compare a = .after
  trans : ∀ a ∈ S, ∀ b ∈ S, ∀ c ∈ S,
    a.compare b = .before → b.compare c = .before → a.compare c = .before

/-- **Order.** `compare` orders a set of well-formed clocks exactly where every pair of them is
safe. -/
theorem orders_iff {S : Set SparseClock} (hS : ∀ c ∈ S, c.WellFormed) :
    Orders S ↔ ∀ a ∈ S, ∀ b ∈ S, SafePair a b := by
  constructor
  · exact fun h a ha b hb => (compares_iff (hS a ha) (hS b hb)).1 (h.compares a ha b hb)
  · intro h
    have hcompares : ∀ a ∈ S, ∀ b ∈ S, Compares a b :=
      fun a ha b hb => (compares_iff (hS a ha) (hS b hb)).2 (h a ha b hb)
    refine ⟨hcompares, fun a ha b hb hbefore => ?_, fun a ha b hb c hc hab hbc => ?_⟩
    · rw [(hcompares b hb a ha).tells.after]
      exact (hcompares a ha b hb).tells.before.1 hbefore
    · rw [(hcompares a ha c hc).tells.before]
      exact ((hcompares a ha b hb).tells.before.1 hab).trans
        ((hcompares b hb c hc).tells.before.1 hbc)

/-- The clocks of the nodes 3 and 65534 after one event each. -/
theorem orders_iff_ticked : Orders {ticked 3, ticked 65534} := by
  refine (orders_iff fun c hc => ?_).2 fun a ha b hb => .inl (iff_of_false ?_ ?_)
  · rcases hc with rfl | rfl
    · exact wellFormed_ticked (by decide)
    · exact wellFormed_ticked (by decide)
  · rcases ha with rfl | rfl <;> decide
  · rcases hb with rfl | rfl <;> decide

/-- A clock that has been reset holds the old entry of node 0 past its end, with the timestamp
of node 65535 in the other clock : the two are found equal. -/
theorem not_orders_stale :
    (ticked 65535).WellFormed ∧ (ticked 0).reset.WellFormed ∧
      (ticked 65535).compare (ticked 0).reset = .equal ∧
      (ticked 0).reset.count ∈ ((ticked 65535).compareReads (ticked 0).reset).2 ∧
      (ticked 65535).value 65535 = 1 ∧ (ticked 0).reset.value 65535 = 0 ∧
      ¬ Orders {ticked 65535, (ticked 0).reset} := by
  refine ⟨wellFormed_ticked (by decide), wellFormed_reset (wellFormed_ticked (by decide)),
    by decide, by decide, by decide, by decide, fun h => ?_⟩
  have hcompares := h.compares (ticked 65535) (.inl rfl) (ticked 0).reset (.inr rfl)
  have hvalue := congrFun (hcompares.tells.equal.1 (by decide)) 65535
  exact absurd hvalue (by decide)

end SparseClock

end Seraph
