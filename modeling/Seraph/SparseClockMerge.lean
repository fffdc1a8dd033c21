import Seraph.SparseClock

/-!
# Merging sparse vector clocks

`merge` goes through both clocks with one position in each and writes the merged entries to a
new array, at most `maxClockEntries` of them. At each point of its loops the array holds the
join of the parts that have been read (`Merging`). Where the nodes of both clocks fit together
nothing is left over, so the result stands for the join of both maps (`joins_merge`), and merge
inherits the laws of a join (`merge_join`).
-/

namespace Seraph

open SortedTable Loops

/-- The positions in both clocks and in the merged array. -/
structure MergeState where
  i : ℕ
  j : ℕ
  k : ℕ
  merged : ℕ → VClockEntry

namespace MergeState

/-- Nothing read, and a merged array that `calloc` has cleared. -/
def start : MergeState :=
  ⟨0, 0, 0, fun _ => ⟨0, 0⟩⟩

variable (a b : SparseClock) (maxCount : ℕ) (s : MergeState)

/-- `merged[k++] = vclock->entries[i++]`. -/
def takeA : MergeState :=
  { s with i := s.i + 1, k := s.k + 1, merged := Function.update s.merged s.k (a.entries s.i) }

/-- `merged[k++] = other->entries[j++]`. -/
def takeB : MergeState :=
  { s with j := s.j + 1, k := s.k + 1, merged := Function.update s.merged s.k (b.entries s.j) }

/-- The entry for a node of both clocks. -/
def joined : VClockEntry :=
  ⟨(a.entries s.i).nodeId,
    if (a.entries s.i).timestamp > (b.entries s.j).timestamp then (a.entries s.i).timestamp
    else (b.entries s.j).timestamp⟩

/-- One entry for the same node of both clocks. -/
def takeBoth : MergeState :=
  ⟨s.i + 1, s.j + 1, s.k + 1, Function.update s.merged s.k (s.joined a b)⟩

/-- A round of the loop over both clocks. -/
def mergeRound : Option MergeState :=
  if s.i < a.count ∧ s.j < b.count ∧ s.k < maxCount then
    if (a.entries s.i).nodeId < (b.entries s.j).nodeId then some (s.takeA a)
    else if (b.entries s.j).nodeId < (a.entries s.i).nodeId then some (s.takeB b)
    else some (s.takeBoth a b)
  else none

/-- A round of the loop that copies the rest of `vclock`. -/
def restARound : Option MergeState :=
  if s.i < a.count ∧ s.k < maxCount then some (s.takeA a) else none

/-- A round of the loop that copies the rest of `other`. -/
def restBRound : Option MergeState :=
  if s.j < b.count ∧ s.k < maxCount then some (s.takeB b) else none

/-- The three loops of `seraph_sparse_vclock_merge`. -/
def mergeLoops : MergeState :=
  let fuel := a.count + b.count + 1
  loop (restBRound b maxCount) fuel
    (loop (restARound a maxCount) fuel (loop (mergeRound a b maxCount) fuel start))

end MergeState

namespace SparseClock

/-- Number of entries that `seraph_sparse_vclock_merge` allocates. -/
def maxCount (c other : SparseClock) : ℕ :=
  let sum := u16 (c.count + other.count)
  if sum > maxClockEntries then maxClockEntries else sum

/-- `seraph_sparse_vclock_merge`. -/
def merge (c : SparseClock) (memory : Bool) (other : SparseClock) : SparseClock × Vbit :=
  if other.count = 0 then (c, .true)
  else if !memory then (c, .false)
  else
    let s := MergeState.mergeLoops c other (c.maxCount other)
    let leftOver := decide (s.i < c.count ∨ s.j < other.count)
    ({ c with
        entries := s.merged
        count := s.k
        capacity := c.maxCount other
        borrowed := false
        saturated := c.saturated || leftOver }, .true)

end SparseClock

namespace MergeState

variable {a b : SparseClock} {maxCount : ℕ} {s t : MergeState}

/-- The map of the first entries of an array. -/
def part (entries : ℕ → VClockEntry) (n : ℕ) : ℕ → ℕ :=
  SortedTable.get VClockEntry.nodeId VClockEntry.timestamp 0 entries n

/-- The merged array holds the join of what has been read. -/
structure Merging (a b : SparseClock) (s : MergeState) : Prop where
  cut : Cut VClockEntry.nodeId a.entries b.entries a.count b.count s.i s.j
  sorted : Sorted VClockEntry.nodeId s.merged s.k
  belowA : ∀ p < s.k, ∀ q, s.i ≤ q → q < a.count → (s.merged p).nodeId < (a.entries q).nodeId
  belowB : ∀ p < s.k, ∀ q, s.j ≤ q → q < b.count → (s.merged p).nodeId < (b.entries q).nodeId
  nodes : ∀ p < s.k, (s.merged p).nodeId ∈ a.nodes ∪ b.nodes
  timestamp : ∀ p < s.k, (s.merged p).timestamp < voidU64
  value : part s.merged s.k = part a.entries s.i ⊔ part b.entries s.j

theorem merging_start (a b : SparseClock) : Merging a b start := by
  refine ⟨.start _ _ _ _ _, ?_, ?_, ?_, ?_, ?_, ?_⟩
  · exact fun p q _ hq => absurd hq (Nat.not_lt_zero q)
  · exact fun p hp => absurd hp (Nat.not_lt_zero p)
  · exact fun p hp => absurd hp (Nat.not_lt_zero p)
  · exact fun p hp => absurd hp (Nat.not_lt_zero p)
  · exact fun p hp => absurd hp (Nat.not_lt_zero p)
  · rfl

/-- Both clocks exchanged. -/
theorem Merging.symm (h : Merging a b s) :
    Merging b a ⟨s.j, s.i, s.k, s.merged⟩ :=
  ⟨h.cut.symm, h.sorted, h.belowB, h.belowA,
    fun p hp => by
      rw [Finset.union_comm]
      exact h.nodes p hp,
    h.timestamp, by rw [h.value, sup_comm]⟩

/-- Appending the entry `e`, where the positions move to `i` and `j`. -/
theorem Merging.push (h : Merging a b s) {i j : ℕ} {e : VClockEntry}
    (hcut : Cut VClockEntry.nodeId a.entries b.entries a.count b.count i j)
    (hi : s.i ≤ i) (hj : s.j ≤ j)
    (hkey : ∀ p < s.k, (s.merged p).nodeId < e.nodeId)
    (heA : ∀ q, i ≤ q → q < a.count → e.nodeId < (a.entries q).nodeId)
    (heB : ∀ q, j ≤ q → q < b.count → e.nodeId < (b.entries q).nodeId)
    (hnode : e.nodeId ∈ a.nodes ∪ b.nodes) (hstamp : e.timestamp < voidU64)
    (hvalue : part a.entries i ⊔ part b.entries j =
      Function.update (part a.entries s.i ⊔ part b.entries s.j) e.nodeId e.timestamp) :
    Merging a b ⟨i, j, s.k + 1, Function.update s.merged s.k e⟩ := by
  have hentry : ∀ p < s.k + 1, p < s.k ∧ Function.update s.merged s.k e p = s.merged p ∨
      Function.update s.merged s.k e p = e := by
    intro p hp
    rcases Nat.lt_succ_iff_lt_or_eq.1 hp with hp | rfl
    · exact .inl ⟨hp, Function.update_of_ne hp.ne _ _⟩
    · exact .inr (Function.update_self _ _ _)
  refine ⟨hcut, h.sorted.push hkey, fun p hp q hq hqn => ?_, fun p hp q hq hqn => ?_,
    fun p hp => ?_, fun p hp => ?_, ?_⟩
  · rcases hentry p hp with ⟨hps, he⟩ | he
    · simp only [he]
      exact h.belowA p hps q (hi.trans hq) hqn
    · simp only [he]
      exact heA q hq hqn
  · rcases hentry p hp with ⟨hps, he⟩ | he
    · simp only [he]
      exact h.belowB p hps q (hj.trans hq) hqn
    · simp only [he]
      exact heB q hq hqn
  · rcases hentry p hp with ⟨hps, he⟩ | he
    · simp only [he]
      exact h.nodes p hps
    · simpa only [he] using hnode
  · rcases hentry p hp with ⟨hps, he⟩ | he
    · simp only [he]
      exact h.timestamp p hps
    · simpa only [he] using hstamp
  · rw [hvalue, ← h.value]
    funext k
    rw [part, get_push, Function.update_apply]
    simp only [eq_comm, part]

theorem part_succ (entries : ℕ → VClockEntry) (n : ℕ) : part entries (n + 1) =
    Function.update (part entries n) (entries n).nodeId (entries n).timestamp :=
  get_succ entries n

/-- The next entry of the first clock goes before the rest of the second. -/
theorem Merging.takeA (h : Merging a b s) (ha : a.WellFormed) (hb : b.WellFormed)
    (hi : s.i < a.count)
    (hlt : s.j < b.count → (a.entries s.i).nodeId < (b.entries s.j).nodeId) :
    Merging a b (s.takeA a) := by
  have hcut := h.cut.step_left hb.sorted hi hlt
  refine h.push hcut (Nat.le_succ s.i) le_rfl (fun p hp => h.belowA p hp s.i le_rfl hi)
    (fun q hq hqn => ha.sorted s.i q hq hqn)
    (fun q hq hqn => hcut.left s.i (Nat.lt_succ_self _) q hq hqn)
    (Finset.mem_union_left _ (SparseClock.mem_nodes.2 ⟨s.i, hi, rfl⟩)) (ha.timestamp s.i hi) ?_
  have hother : part b.entries s.j (a.entries s.i).nodeId = 0 :=
    (h.cut.get_next ha.sorted hi).2
  have hsame : part b.entries s.j =
      Function.update (part b.entries s.j) (a.entries s.i).nodeId 0 := by
    rw [← hother, Function.update_eq_self]
  rw [part_succ, hsame, sup_update, sup_of_le_left (Nat.zero_le _), ← hsame]

/-- The next entry of the second clock goes before the rest of the first. -/
theorem Merging.takeB (h : Merging a b s) (ha : a.WellFormed) (hb : b.WellFormed)
    (hj : s.j < b.count)
    (hlt : s.i < a.count → (b.entries s.j).nodeId < (a.entries s.i).nodeId) :
    Merging a b (s.takeB b) :=
  (h.symm.takeA hb ha hj hlt).symm

/-- The next entries are for the same node. -/
theorem Merging.takeBoth (h : Merging a b s) (ha : a.WellFormed) (hb : b.WellFormed)
    (hi : s.i < a.count) (hj : s.j < b.count)
    (heq : (a.entries s.i).nodeId = (b.entries s.j).nodeId) :
    Merging a b (s.takeBoth a b) := by
  have hcut := h.cut.step_both ha.sorted hb.sorted hi hj heq
  have hmax : (s.joined a b).timestamp =
      (a.entries s.i).timestamp ⊔ (b.entries s.j).timestamp := by
    unfold joined
    simp only
    split <;> omega
  refine h.push hcut (Nat.le_succ s.i) (Nat.le_succ s.j)
    (fun p hp => h.belowA p hp s.i le_rfl hi) (fun q hq hqn => ha.sorted s.i q hq hqn)
    (fun q hq hqn => ?_) (Finset.mem_union_left _ (SparseClock.mem_nodes.2 ⟨s.i, hi, rfl⟩)) ?_ ?_
  · simp only [joined, heq]
    exact hb.sorted s.j q hq hqn
  · rw [hmax]
    exact max_lt (ha.timestamp s.i hi) (hb.timestamp s.j hj)
  · rw [part_succ, part_succ, ← heq, sup_update, hmax]
    rfl

/-! ## The loops -/

/-- The nodes in the merged array. -/
def mergedNodes (s : MergeState) : Finset ℕ :=
  (Finset.range s.k).image fun p => (s.merged p).nodeId

theorem Merging.card_mergedNodes (h : Merging a b s) : s.mergedNodes.card = s.k := by
  rw [mergedNodes, Finset.card_image_of_injOn, Finset.card_range]
  intro p hp q hq heq
  exact h.sorted.injective (Finset.mem_range.1 hp) (Finset.mem_range.1 hq) heq

theorem Merging.mergedNodes_subset (h : Merging a b s) : s.mergedNodes ⊆ a.nodes ∪ b.nodes := by
  intro n hn
  obtain ⟨p, hp, rfl⟩ := Finset.mem_image.1 hn
  exact h.nodes p (Finset.mem_range.1 hp)

/-- While an entry is left, the merged array is not full, if the nodes of both clocks fit. -/
theorem Merging.lt_max (h : Merging a b s) (hcard : (a.nodes ∪ b.nodes).card ≤ maxCount)
    (hleft : s.i < a.count ∨ s.j < b.count) : s.k < maxCount := by
  obtain ⟨node, hnode, hbelow⟩ : ∃ node ∈ a.nodes ∪ b.nodes,
      ∀ p < s.k, (s.merged p).nodeId < node := by
    rcases hleft with hi | hj
    · exact ⟨_, Finset.mem_union_left _ (SparseClock.mem_nodes.2 ⟨s.i, hi, rfl⟩),
        fun p hp => h.belowA p hp s.i le_rfl hi⟩
    · exact ⟨_, Finset.mem_union_right _ (SparseClock.mem_nodes.2 ⟨s.j, hj, rfl⟩),
        fun p hp => h.belowB p hp s.j le_rfl hj⟩
  rw [← h.card_mergedNodes]
  refine (Finset.card_lt_card ?_).trans_le hcard
  refine Finset.ssubset_iff_subset_ne.2 ⟨h.mergedNodes_subset, fun heq => ?_⟩
  rw [← heq] at hnode
  obtain ⟨p, hp, hpn⟩ := Finset.mem_image.1 hnode
  exact absurd hpn (hbelow p (Finset.mem_range.1 hp)).ne

/-- Entries that are left in both clocks. -/
def left (a b : SparseClock) (s : MergeState) : ℕ :=
  (a.count - s.i) + (b.count - s.j)

theorem left_start (a b : SparseClock) : left a b start < a.count + b.count + 1 := by
  simp only [left, start]
  omega

theorem mergeRound_spec (ha : a.WellFormed) (hb : b.WellFormed) (h : Merging a b s)
    (hround : mergeRound a b maxCount s = some t) :
    Merging a b t ∧ left a b t < left a b s := by
  unfold mergeRound at hround
  split at hround
  · next hcond =>
    obtain ⟨hi, hj, -⟩ := hcond
    split at hround
    · next hlt =>
      obtain rfl := Option.some.inj hround
      exact ⟨h.takeA ha hb hi fun _ => hlt, by simp only [left, MergeState.takeA]; omega⟩
    split at hround
    · next hlt =>
      obtain rfl := Option.some.inj hround
      exact ⟨h.takeB ha hb hj fun _ => hlt, by simp only [left, MergeState.takeB]; omega⟩
    · next hge hle =>
      obtain rfl := Option.some.inj hround
      exact ⟨h.takeBoth ha hb hi hj (by omega), by simp only [left, MergeState.takeBoth]; omega⟩
  · cases hround

/-- Copying the rest of the first clock, after the second one has been read. -/
theorem restARound_spec (ha : a.WellFormed) (hb : b.WellFormed)
    (h : Merging a b s ∧ (s.i < a.count → b.count ≤ s.j))
    (hround : restARound a maxCount s = some t) :
    (Merging a b t ∧ (t.i < a.count → b.count ≤ t.j)) ∧ left a b t < left a b s := by
  unfold restARound at hround
  split at hround
  · next hcond =>
    obtain rfl := Option.some.inj hround
    have hj := h.2 hcond.1
    refine ⟨⟨h.1.takeA ha hb hcond.1 fun hlt => absurd hlt (by omega), fun _ => hj⟩, ?_⟩
    simp only [left, MergeState.takeA]
    omega
  · cases hround

/-- Copying the rest of the second clock, after the first one has been read. -/
theorem restBRound_spec (ha : a.WellFormed) (hb : b.WellFormed)
    (h : Merging a b s ∧ a.count ≤ s.i) (hround : restBRound b maxCount s = some t) :
    (Merging a b t ∧ a.count ≤ t.i) ∧ left a b t < left a b s := by
  unfold restBRound at hround
  split at hround
  · next hcond =>
    obtain rfl := Option.some.inj hround
    refine ⟨⟨h.1.takeB ha hb hcond.1 fun hlt => absurd hlt (by omega), h.2⟩, ?_⟩
    simp only [left, MergeState.takeB]
    omega
  · cases hround

/-- After the loops both clocks have been read. -/
theorem mergeLoops_spec (ha : a.WellFormed) (hb : b.WellFormed)
    (hcard : (a.nodes ∪ b.nodes).card ≤ maxCount) :
    Merging a b (mergeLoops a b maxCount) ∧ a.count ≤ (mergeLoops a b maxCount).i ∧
      b.count ≤ (mergeLoops a b maxCount).j := by
  have hfuel := left_start a b
  unfold mergeLoops
  dsimp only
  generalize a.count + b.count + 1 = fuel at hfuel
  -- The loop over both clocks ends where one of them has been read.
  obtain ⟨hboth, hleft, hdone⟩ := loop_spec (I := Merging a b) (f := left a b)
    (fun s t h hround => mergeRound_spec (s := s) (t := t) ha hb h hround) (merging_start a b)
    hfuel
  generalize loop (mergeRound a b maxCount) fuel start = s at hboth hleft hdone
  have hread : s.i < a.count → b.count ≤ s.j := by
    intro hi
    by_contra hj
    rw [mergeRound, if_pos ⟨hi, Nat.not_le.1 hj, hboth.lt_max hcard (.inl hi)⟩] at hdone
    split at hdone
    · cases hdone
    split at hdone <;> cases hdone
  obtain ⟨⟨hrestA, -⟩, hleftA, hdoneA⟩ := loop_spec
    (I := fun s => Merging a b s ∧ (s.i < a.count → b.count ≤ s.j)) (f := left a b)
    (fun s t h hround => restARound_spec (s := s) (t := t) ha hb h hround) ⟨hboth, hread⟩
    (hleft.trans_lt hfuel)
  generalize loop (restARound a maxCount) fuel s = s' at hrestA hleftA hdoneA
  have hreadA : a.count ≤ s'.i := by
    by_contra hi
    rw [restARound, if_pos ⟨Nat.not_le.1 hi, hrestA.lt_max hcard (.inl (Nat.not_le.1 hi))⟩]
      at hdoneA
    cases hdoneA
  obtain ⟨⟨hrestB, hkeptA⟩, -, hdoneB⟩ := loop_spec
    (I := fun s => Merging a b s ∧ a.count ≤ s.i) (f := left a b)
    (fun s t h hround => restBRound_spec (s := s) (t := t) ha hb h hround) ⟨hrestA, hreadA⟩
    ((hleftA.trans hleft).trans_lt hfuel)
  refine ⟨hrestB, hkeptA, ?_⟩
  by_contra hj
  rw [restBRound, if_pos ⟨Nat.not_le.1 hj, hrestB.lt_max hcard (.inr (Nat.not_le.1 hj))⟩]
    at hdoneB
  cases hdoneB

end MergeState

namespace SparseClock

variable {a b c : SparseClock}

/-- The merged array is large enough for the nodes of both clocks. -/
theorem card_le_maxCount (ha : a.WellFormed) (hb : b.WellFormed)
    (hcard : (a.nodes ∪ b.nodes).card ≤ maxClockEntries) :
    (a.nodes ∪ b.nodes).card ≤ a.maxCount b := by
  have hA := (Finset.card_le_card Finset.subset_union_left).trans hcard
  have hB := (Finset.card_le_card Finset.subset_union_right).trans hcard
  have hsum := Finset.card_union_le a.nodes b.nodes
  rw [ha.card_nodes] at hA hsum
  rw [hb.card_nodes] at hB hsum
  unfold maxCount
  unfold maxClockEntries at *
  rw [u16_of_lt (by omega)]
  dsimp only
  split <;> omega

theorem maxCount_le (a b : SparseClock) : a.maxCount b ≤ maxClockEntries := by
  unfold maxCount
  dsimp only
  split <;> omega

/-- `m` is the join of `a` and `b`. -/
structure Joins (a b m : SparseClock) : Prop where
  wellFormed : m.WellFormed
  value : m.value = a.value ⊔ b.value
  nodes : m.nodes ⊆ a.nodes ∪ b.nodes
  owner : m.ownerNode = a.ownerNode
  saturated : m.saturated = a.saturated

/-- Where the nodes of both clocks fit together, `merge` computes their join. -/
theorem joins_merge (ha : a.WellFormed) (hb : b.WellFormed)
    (hcard : (a.nodes ∪ b.nodes).card ≤ maxClockEntries) :
    (a.merge true b).2 = .true ∧ Joins a b (a.merge true b).1 := by
  unfold merge
  split
  · next hempty =>
    refine ⟨rfl, ha, ?_, Finset.subset_union_left, rfl, rfl⟩
    rw [value_of_empty hempty]
    exact (sup_of_le_left fun k => Nat.zero_le _).symm
  · have hfits := card_le_maxCount ha hb hcard
    obtain ⟨hmerging, hi, hj⟩ := MergeState.mergeLoops_spec ha hb hfits
    simp only [Bool.not_true, Bool.false_eq_true, if_false]
    generalize MergeState.mergeLoops a b (a.maxCount b) = s at hmerging hi hj
    have hleft : ¬ (s.i < a.count ∨ s.j < b.count) := by omega
    have hvalue := hmerging.value
    rw [Nat.le_antisymm hmerging.cut.left_le hi, Nat.le_antisymm hmerging.cut.right_le hj]
      at hvalue
    refine ⟨trivial, ⟨hmerging.sorted, fun p hp => ?_, hmerging.timestamp, ?_, ?_, ha.owner⟩,
      hvalue, hmerging.mergedNodes_subset, rfl, ?_⟩
    · rcases Finset.mem_union.1 (hmerging.nodes p hp) with hn | hn
      · obtain ⟨i, hi, heq⟩ := mem_nodes.1 hn
        rw [← heq]
        exact ha.nodeId i hi
      · obtain ⟨j, hj, heq⟩ := mem_nodes.1 hn
        rw [← heq]
        exact hb.nodeId j hj
    · simp only
      rw [← hmerging.card_mergedNodes]
      exact (Finset.card_le_card hmerging.mergedNodes_subset).trans hfits
    · exact (maxCount_le a b).trans_lt (by decide)
    · simp [hleft]

theorem merge_without_memory (a b : SparseClock) : (a.merge false b).1 = a := by
  unfold merge
  split <;> rfl

/-- A join is seen through `get`. -/
theorem Joins.get_eq {m : SparseClock} (h : Joins a b m) (ha : a.WellFormed) (hb : b.WellFormed)
    (n : ℕ) : m.get n = max (a.get n) (b.get n) := by
  rw [get_eq_value h.wellFormed, get_eq_value ha, get_eq_value hb, h.value]
  rfl

theorem merge_comm (ha : a.WellFormed) (hb : b.WellFormed)
    (hcard : (a.nodes ∪ b.nodes).card ≤ maxClockEntries) (n : ℕ) :
    (a.merge true b).1.get n = (b.merge true a).1.get n := by
  rw [(joins_merge ha hb hcard).2.get_eq ha hb,
    (joins_merge hb ha (by rwa [Finset.union_comm])).2.get_eq hb ha, max_comm]

theorem merge_assoc (ha : a.WellFormed) (hb : b.WellFormed) (hc : c.WellFormed)
    (hcard : (a.nodes ∪ b.nodes ∪ c.nodes).card ≤ maxClockEntries) (n : ℕ) :
    ((a.merge true b).1.merge true c).1.get n = (a.merge true (b.merge true c).1).1.get n := by
  have hab := (joins_merge ha hb
    ((Finset.card_le_card Finset.subset_union_left).trans hcard)).2
  have hbc := (joins_merge hb hc ((Finset.card_le_card (Finset.union_subset_union_left
    Finset.subset_union_right)).trans hcard)).2
  have hleft := (joins_merge hab.wellFormed hc
    ((Finset.card_le_card (Finset.union_subset_union_left hab.nodes)).trans hcard)).2
  rw [Finset.union_assoc] at hcard
  have hright := (joins_merge ha hbc.wellFormed
    ((Finset.card_le_card (Finset.union_subset_union_right hbc.nodes)).trans hcard)).2
  rw [hleft.get_eq hab.wellFormed hc, hab.get_eq ha hb, hright.get_eq ha hbc.wellFormed,
    hbc.get_eq hb hc, max_assoc]

theorem merge_self (ha : a.WellFormed) (hcard : a.nodes.card ≤ maxClockEntries) (n : ℕ) :
    (a.merge true a).1.get n = a.get n := by
  rw [(joins_merge ha ha (by rwa [Finset.union_self])).2.get_eq ha ha, max_self]

/-- `c'` is a well-formed clock with the timestamps of `c` for all nodes but one. -/
def ChangesAt (c c' : SparseClock) (nodeId : ℕ) : Prop :=
  c'.WellFormed ∧ ∀ n, n ≠ nodeId → c'.get n = c.get n

theorem Writes.changesAt {c' : SparseClock} {nodeId timestamp : ℕ}
    (h : c.Writes c' nodeId timestamp) (hc : c.WellFormed) :
    c.ChangesAt c' nodeId ∧ c'.get nodeId = timestamp := by
  refine ⟨⟨h.wellFormed, fun n hn => ?_⟩, ?_⟩
  · rw [get_eq_value h.wellFormed, get_eq_value hc, h.value, Function.update_of_ne hn]
  · rw [get_eq_value h.wellFormed, h.value, Function.update_self]

theorem Refuses.changesAt {c' : SparseClock} (h : c.Refuses c') (hc : c.WellFormed)
    (nodeId : ℕ) : c.ChangesAt c' nodeId := by
  obtain ⟨hc', hvalue, -⟩ := h.wellFormed hc
  refine ⟨hc', fun n _ => ?_⟩
  rw [get_eq_value hc', get_eq_value hc, hvalue]

theorem changesAt_increment (hc : c.WellFormed) (memory : Bool) :
    c.ChangesAt (c.increment memory).1 c.ownerNode ∧
      ((c.increment memory).2 ≠ voidU64 →
        (c.increment memory).1.get c.ownerNode = c.get c.ownerNode + 1) := by
  rcases increment_cases hc memory with ⟨-, hvoid, hsame⟩ | ⟨-, -, -, hwrites⟩
  · exact ⟨hsame.changesAt hc _, fun h => absurd hvoid h⟩
  · obtain ⟨hchanges, hget⟩ := hwrites.changesAt hc
    refine ⟨hchanges, fun _ => ?_⟩
    rw [hget, get_eq_value hc]

theorem changesAt_set (hc : c.WellFormed) (memory : Bool) {nodeId timestamp : ℕ}
    (hnode : nodeId < 2 ^ 16) (hstamp : timestamp < 2 ^ 64) :
    c.ChangesAt (c.set memory nodeId timestamp).1 nodeId ∧
      ((c.set memory nodeId timestamp).2 = .true →
        (c.set memory nodeId timestamp).1.get nodeId = timestamp) := by
  rcases eq_or_ne timestamp voidU64 with rfl | hne
  · rw [set_void]
    exact ⟨⟨hc, fun _ _ => rfl⟩, fun h => absurd h (by simp)⟩
  · have hlt : timestamp < voidU64 := by
      unfold voidU64 at *
      omega
    rcases set_cases hc memory hnode hlt with ⟨-, hfalse, hsame⟩ | ⟨-, -, hwrites⟩
    · exact ⟨hsame.changesAt hc _, fun h => absurd (hfalse.symm.trans h) (by simp)⟩
    · obtain ⟨hchanges, hget⟩ := hwrites.changesAt hc
      exact ⟨hchanges, fun _ => hget⟩

/-- **Join.** Where the nodes of two clocks fit together, `merge` returns a well-formed clock
with the larger timestamp of each node, and is commutative, associative and idempotent on the
timestamps; without memory it leaves the clock alone. `increment` and `set` change the
timestamp of one node. -/
theorem merge_join (ha : a.WellFormed) (hb : b.WellFormed)
    (hcard : (a.nodes ∪ b.nodes).card ≤ maxClockEntries) :
    ((a.merge true b).2 = .true ∧ (a.merge true b).1.WellFormed ∧
      (∀ n, (a.merge true b).1.get n = max (a.get n) (b.get n)) ∧
      ((a.merge true b).1.saturated = true → a.saturated = true)) ∧
    (a.merge false b).1 = a ∧
    (∀ n, (a.merge true b).1.get n = (b.merge true a).1.get n) ∧
    (∀ c : SparseClock, c.WellFormed → (a.nodes ∪ b.nodes ∪ c.nodes).card ≤ maxClockEntries →
      ∀ n, ((a.merge true b).1.merge true c).1.get n =
        (a.merge true (b.merge true c).1).1.get n) ∧
    (∀ n, (a.merge true a).1.get n = a.get n) ∧
    (∀ memory, a.ChangesAt (a.increment memory).1 a.ownerNode ∧
      ((a.increment memory).2 ≠ voidU64 →
        (a.increment memory).1.get a.ownerNode = a.get a.ownerNode + 1)) ∧
    ∀ memory nodeId timestamp, nodeId < 2 ^ 16 → timestamp < 2 ^ 64 →
      a.ChangesAt (a.set memory nodeId timestamp).1 nodeId ∧
        ((a.set memory nodeId timestamp).2 = .true →
          (a.set memory nodeId timestamp).1.get nodeId = timestamp) := by
  obtain ⟨hres, hjoins⟩ := joins_merge ha hb hcard
  have hcardA := (Finset.card_le_card Finset.subset_union_left).trans hcard
  exact ⟨⟨hres, hjoins.wellFormed, hjoins.get_eq ha hb, fun h => hjoins.saturated ▸ h⟩,
    merge_without_memory a b, merge_comm ha hb hcard,
    fun _ hc hall => merge_assoc ha hb hc hall, merge_self ha hcardA, changesAt_increment ha,
    fun memory _ _ => changesAt_set ha memory⟩

/-- The clocks of the nodes 3 and 65535 after one event each. -/
theorem merge_join_ticked : ((ticked 3).merge true (ticked 65535)).1.get 65535 = 1 ∧
    ∀ n, ((ticked 3).merge true (ticked 65535)).1.get n =
      max ((ticked 3).get n) ((ticked 65535).get n) :=
  ⟨by decide, (merge_join (wellFormed_ticked (by decide)) (wellFormed_ticked (by decide))
    (by decide)).1.2.2.1⟩

end SparseClock

end Seraph
