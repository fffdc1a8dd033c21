import Mathlib.Data.Finset.Card
import Mathlib.Data.Finset.Range
import Mathlib.Data.Finset.Image
import Seraph.Loops
import Seraph.SortedTable
import Seraph.Words

/-!
# Sparse vector clocks

A sparse vector clock is an array of entries, each the timestamp of one node, sorted by node;
a node without an entry has the timestamp 0. `WellFormed` is the documented invariant. The
map that a clock stands for is `value`; on a well-formed clock the binary search of `get`
finds it (`get_eq_value`), and `increment` and `set` change it on one node only. What lies in
the array past `count` is left over from earlier entries or from the allocator.
-/

namespace Seraph

open SortedTable

/-- `SERAPH_SPARSE_VCLOCK_INITIAL_CAPACITY`. -/
def initialClockCapacity : ℕ :=
  8

/-- `SERAPH_SPARSE_VCLOCK_MAX_ENTRIES`. -/
def maxClockEntries : ℕ :=
  256

/-- `Seraph_VClock_Entry`. -/
structure VClockEntry where
  nodeId : ℕ
  timestamp : ℕ
deriving DecidableEq, Repr

/-- `Seraph_Sparse_VClock`. -/
structure SparseClock where
  entries : ℕ → VClockEntry
  count : ℕ
  capacity : ℕ
  ownerNode : ℕ
  /-- `SERAPH_SPARSE_VCLOCK_FLAG_SATURATED` in `flags`. -/
  saturated : Bool
  /-- `SERAPH_SPARSE_VCLOCK_FLAG_BORROWED` in `flags`. -/
  borrowed : Bool

/-! ## Binary search -/

/-- The loop of `vclock_binary_search`. -/
def searchLoop (entries : ℕ → VClockEntry) (nodeId : ℕ) : ℕ → ℤ → ℤ → ℤ
  | 0, low, _ => -(low + 1)
  | fuel + 1, low, high =>
    if low ≤ high then
      let mid := low + (high - low) / 2
      let midNode := (entries mid.toNat).nodeId
      if midNode = nodeId then mid
      else if midNode < nodeId then searchLoop entries nodeId fuel (mid + 1) high
      else searchLoop entries nodeId fuel low (mid - 1)
    else -(low + 1)

/-- `vclock_binary_search` : the index of the node, or `-(index + 1)` for where it belongs. -/
def binarySearch (entries : ℕ → VClockEntry) (count nodeId : ℕ) : ℤ :=
  if count = 0 then -1
  else searchLoop entries nodeId count 0 (count - 1)

/-- The search finds the slot of the node, or the gap where it belongs. -/
def Searched (entries : ℕ → VClockEntry) (count nodeId : ℕ) (index : ℤ) : Prop :=
  (∃ i < count, index = i ∧ (entries i).nodeId = nodeId) ∨
    ∃ i : ℕ, index = -(i + 1) ∧ Gap VClockEntry.nodeId entries count nodeId i

theorem searchLoop_spec {entries : ℕ → VClockEntry} {count nodeId : ℕ}
    (hs : Sorted VClockEntry.nodeId entries count) : ∀ (fuel low high : ℕ), low ≤ high →
      high ≤ count → high - low ≤ fuel → (∀ i < low, (entries i).nodeId < nodeId) →
      (∀ i, high ≤ i → i < count → nodeId < (entries i).nodeId) →
      Searched entries count nodeId (searchLoop entries nodeId fuel low (high - 1)) := by
  intro fuel
  induction fuel with
  | zero =>
    intro low high hle hcount hfuel hbelow habove
    obtain rfl : high = low := by omega
    exact .inr ⟨high, rfl, hcount, hbelow, habove⟩
  | succ fuel ih =>
    intro low high hle hcount hfuel hbelow habove
    unfold searchLoop
    split
    · next hlow =>
      obtain ⟨mid, hmid⟩ : ∃ mid : ℕ, (low : ℤ) + ((high : ℤ) - 1 - low) / 2 = mid :=
        ⟨low + (high - 1 - low) / 2, by omega⟩
      have hmidlow : low ≤ mid := by omega
      have hmidhigh : mid < high := by omega
      simp only [hmid, Int.toNat_natCast]
      split
      · next hfound => exact .inl ⟨mid, by omega, rfl, hfound⟩
      split
      · next hne hlt =>
        have := ih (mid + 1) high (by omega) hcount (by omega) (fun i hi => ?_) habove
        · exact_mod_cast this
        · rcases Nat.lt_or_ge i mid with him | him
          · exact (hs i mid him (by omega)).trans hlt
          · obtain rfl : i = mid := by omega
            exact hlt
      · next hne hge =>
        refine ih low mid hmidlow (by omega) (by omega) hbelow fun i hi hic => ?_
        have hmidnode : nodeId < (entries mid).nodeId := by omega
        rcases Nat.eq_or_lt_of_le hi with rfl | hlt
        · exact hmidnode
        · exact hmidnode.trans (hs mid i hlt hic)
    · next hlow =>
      obtain rfl : high = low := by omega
      exact .inr ⟨high, rfl, hcount, hbelow, habove⟩

theorem binarySearch_spec {entries : ℕ → VClockEntry} {count : ℕ}
    (hs : Sorted VClockEntry.nodeId entries count) (nodeId : ℕ) :
    Searched entries count nodeId (binarySearch entries count nodeId) := by
  unfold binarySearch
  split
  · next hcount =>
    subst hcount
    exact .inr ⟨0, rfl, le_rfl, fun i hi => absurd hi (Nat.not_lt_zero i),
      fun i _ hi => absurd hi (Nat.not_lt_zero i)⟩
  · exact searchLoop_spec hs count 0 count (Nat.zero_le _) le_rfl (by omega)
      (fun i hi => absurd hi (Nat.not_lt_zero i)) fun i hi hic => absurd hic (by omega)

namespace SparseClock

/-! ## Operations

An operation that may allocate is told by `memory` whether the allocator grants the request. -/

/-- `seraph_sparse_vclock_init`, with memory for the entries. -/
def init (ownerNode : ℕ) : SparseClock :=
  ⟨fun _ => ⟨0, 0⟩, 0, initialClockCapacity, ownerNode, false, false⟩

/-- `seraph_sparse_vclock_init_with_buffer`. -/
def initWithBuffer (ownerNode : ℕ) (buffer : ℕ → VClockEntry) (capacity : ℕ) : SparseClock :=
  ⟨buffer, 0, capacity, ownerNode, false, true⟩

variable (c : SparseClock) (memory : Bool)

/-- `seraph_sparse_vclock_reset`. -/
def reset : SparseClock :=
  { c with count := 0, saturated := false }

/-- The capacity that `vclock_ensure_capacity` asks for. -/
def grownCapacity : ℕ :=
  let grown := c.capacity * 3 / 2
  let grown := if grown < c.capacity + 1 then c.capacity + 1 else grown
  if grown > maxClockEntries then maxClockEntries else grown

/-- `vclock_ensure_capacity`. -/
def ensureCapacity : SparseClock × Bool :=
  if c.count < c.capacity then (c, true)
  else if c.borrowed then (c, false)
  else if c.capacity ≥ maxClockEntries then ({ c with saturated := true }, false)
  else if memory then ({ c with capacity := u16 c.grownCapacity }, true)
  else (c, false)

/-- `vclock_insert_at`. -/
def insertEntry (index nodeId timestamp : ℕ) : SparseClock × Bool :=
  let grown := c.ensureCapacity memory
  if !grown.2 then (grown.1, false)
  else
    ({ grown.1 with
        entries := insertAt grown.1.entries grown.1.count index ⟨nodeId, timestamp⟩
        count := u16 (grown.1.count + 1) }, true)

/-- Write the timestamp of the entry in a slot. -/
def putTimestamp (index timestamp : ℕ) : SparseClock :=
  { c with entries :=
      Function.update c.entries index ⟨(c.entries index).nodeId, timestamp⟩ }

/-- `seraph_sparse_vclock_get`. -/
def get (nodeId : ℕ) : ℕ :=
  if c.count = 0 then 0
  else
    let index := binarySearch c.entries c.count nodeId
    if 0 ≤ index then (c.entries index.toNat).timestamp else 0

/-- `seraph_sparse_vclock_increment`. -/
def increment : SparseClock × ℕ :=
  let index := binarySearch c.entries c.count c.ownerNode
  if 0 ≤ index then
    let timestamp := (c.entries index.toNat).timestamp
    let newTs := u64 (timestamp + 1)
    if newTs = voidU64 ∨ newTs < timestamp then (c, voidU64)
    else (c.putTimestamp index.toNat newTs, newTs)
  else
    let inserted := c.insertEntry memory (u16 (-(index + 1)).toNat) c.ownerNode 1
    if !inserted.2 then (inserted.1, voidU64) else (inserted.1, 1)

/-- `seraph_sparse_vclock_set`. -/
def set (nodeId timestamp : ℕ) : SparseClock × Vbit :=
  if timestamp = voidU64 then (c, .false)
  else
    let index := binarySearch c.entries c.count nodeId
    if 0 ≤ index then (c.putTimestamp index.toNat timestamp, .true)
    else
      let inserted := c.insertEntry memory (u16 (-(index + 1)).toNat) nodeId timestamp
      if !inserted.2 then (inserted.1, .false) else (inserted.1, .true)

/-! ## The invariant and the map of a clock -/

/-- The documented invariants, and the ranges of the fields. -/
structure WellFormed : Prop where
  sorted : Sorted VClockEntry.nodeId c.entries c.count
  nodeId : ∀ i < c.count, (c.entries i).nodeId < 2 ^ 16
  timestamp : ∀ i < c.count, (c.entries i).timestamp < voidU64
  count : c.count ≤ c.capacity
  capacity : c.capacity < 2 ^ 16
  owner : c.ownerNode < 2 ^ 16

/-- The timestamp of a node, 0 without an entry. -/
def value : ℕ → ℕ :=
  SortedTable.get VClockEntry.nodeId VClockEntry.timestamp 0 c.entries c.count

/-- The nodes that have an entry. -/
def nodes : Finset ℕ :=
  (Finset.range c.count).image fun i => (c.entries i).nodeId

variable {c} {memory}

theorem mem_nodes {nodeId : ℕ} :
    nodeId ∈ c.nodes ↔ ∃ i < c.count, (c.entries i).nodeId = nodeId := by
  simp [nodes]

theorem value_of_not_mem {nodeId : ℕ} (h : nodeId ∉ c.nodes) : c.value nodeId = 0 := by
  refine get_eq_zero fun i hi heq => h (mem_nodes.2 ⟨i, hi, heq⟩)

theorem value_of_empty (h : c.count = 0) : c.value = 0 := by
  funext k
  rw [value, h]
  rfl

/-- Without entries, only the capacity and the owner have to be in range. -/
theorem wellFormed_of_empty (h : c.count = 0) (hcapacity : c.capacity < 2 ^ 16)
    (howner : c.ownerNode < 2 ^ 16) : c.WellFormed := by
  have hnone : ∀ i, ¬ i < c.count := fun i => h ▸ Nat.not_lt_zero i
  exact ⟨fun _ j _ hj => absurd hj (hnone j), fun i hi => absurd hi (hnone i),
    fun i hi => absurd hi (hnone i), h ▸ Nat.zero_le _, hcapacity, howner⟩

theorem WellFormed.card_nodes (h : c.WellFormed) : c.nodes.card = c.count := by
  rw [nodes, Finset.card_image_of_injOn, Finset.card_range]
  intro i hi j hj heq
  exact h.sorted.injective (Finset.mem_range.1 hi) (Finset.mem_range.1 hj) heq

/-- `get` returns the timestamp of the node. -/
theorem get_eq_value (h : c.WellFormed) (nodeId : ℕ) : c.get nodeId = c.value nodeId := by
  unfold get
  split
  · next hcount =>
    rw [value, hcount]
    rfl
  · rcases binarySearch_spec h.sorted nodeId with ⟨i, hi, hindex, rfl⟩ | ⟨i, hindex, hgap⟩
    · simp only [hindex, Nat.cast_nonneg, if_true, Int.toNat_natCast]
      exact (h.sorted.get_eq _ _ hi).symm
    · have hneg : ¬ (0 : ℤ) ≤ -(i + 1) := by omega
      simp only [hindex, hneg, if_false]
      exact (get_eq_zero fun j hj => hgap.key_ne hj).symm

/-! ## Writing an entry -/

/-- `c'` is `c` with a timestamp written to one node. -/
structure Writes (c c' : SparseClock) (nodeId timestamp : ℕ) : Prop where
  wellFormed : c'.WellFormed
  value : c'.value = Function.update c.value nodeId timestamp
  owner : c'.ownerNode = c.ownerNode
  saturated : c'.saturated = c.saturated

/-- `c'` has the entries of `c`; its SATURATED flag may be set. -/
def Refuses (c c' : SparseClock) : Prop :=
  c' = c ∨ c' = { c with saturated := true }

/-- One more entry fits, in the array or in a larger one. -/
def HasRoom (c : SparseClock) (memory : Bool) : Prop :=
  c.count < c.capacity ∨ c.borrowed = false ∧ c.capacity < maxClockEntries ∧ memory = true

/-- A timestamp for the node can be written. -/
def Accepts (c : SparseClock) (memory : Bool) (nodeId : ℕ) : Prop :=
  nodeId ∈ c.nodes ∨ c.HasRoom memory

theorem Refuses.wellFormed {c' : SparseClock} (h : c.Refuses c') (hc : c.WellFormed) :
    c'.WellFormed ∧ c'.value = c.value ∧ c'.ownerNode = c.ownerNode := by
  rcases h with rfl | rfl
  · exact ⟨hc, rfl, rfl⟩
  · exact ⟨⟨hc.sorted, hc.nodeId, hc.timestamp, hc.count, hc.capacity, hc.owner⟩, rfl, rfl⟩

/-- Overwriting the timestamp of a slot. -/
theorem writes_putTimestamp (h : c.WellFormed) {index timestamp : ℕ} (hindex : index < c.count)
    (hstamp : timestamp < voidU64) :
    c.Writes (c.putTimestamp index timestamp) (c.entries index).nodeId timestamp := by
  have hentry : ∀ i, (c.putTimestamp index timestamp).entries i = c.entries i ∨
      i = index ∧ (c.putTimestamp index timestamp).entries i =
        ⟨(c.entries index).nodeId, timestamp⟩ := by
    intro i
    rcases eq_or_ne i index with rfl | hi
    · exact .inr ⟨rfl, Function.update_self _ _ _⟩
    · exact .inl (Function.update_of_ne hi _ _)
  refine ⟨⟨h.sorted.overwrite rfl, fun i hi => ?_, fun i hi => ?_, h.count, h.capacity, h.owner⟩,
    ?_, rfl, rfl⟩
  · rcases hentry i with he | ⟨-, he⟩
    · rw [he]
      exact h.nodeId i hi
    · rw [he]
      exact h.nodeId index hindex
  · rcases hentry i with he | ⟨-, he⟩
    · rw [he]
      exact h.timestamp i hi
    · rwa [he]
  · funext k
    rw [value, putTimestamp, get_overwrite (e := ⟨(c.entries index).nodeId, timestamp⟩) h.sorted
      hindex rfl, Function.update_apply]
    simp only [eq_comm, value]

/-- Making room leaves the entries alone. -/
theorem ensureCapacity_cases (c : SparseClock) (memory : Bool) :
    ¬ c.HasRoom memory ∧ (c.ensureCapacity memory).2 = false ∧
        c.Refuses (c.ensureCapacity memory).1 ∨
      c.HasRoom memory ∧ ∃ capacity, c.ensureCapacity memory = ({ c with capacity }, true) ∧
        (c.capacity < 2 ^ 16 → c.count ≤ c.capacity → c.count < capacity ∧ capacity < 2 ^ 16) := by
  unfold ensureCapacity HasRoom
  split
  · next hroom => exact .inr ⟨.inl hroom, c.capacity, rfl, fun hcap _ => ⟨hroom, hcap⟩⟩
  split
  · next hfull hborrowed => exact .inl ⟨by simp [hfull, hborrowed], rfl, .inl rfl⟩
  split
  · next hfull _ hmax => exact .inl ⟨by simp [hfull, Nat.not_lt.2 hmax], rfl, .inr rfl⟩
  split
  · next hfull hborrowed hmax hmemory =>
    refine .inr ⟨.inr ⟨by simpa using hborrowed, by omega, hmemory⟩, _, rfl,
      fun hcap hcount => ?_⟩
    have hgrown : c.capacity < c.grownCapacity ∧ c.grownCapacity ≤ maxClockEntries := by
      simp only [grownCapacity, maxClockEntries] at *
      split
      · split <;> omega
      · split <;> omega
    have hmaxlt : maxClockEntries < 2 ^ 16 := by decide
    rw [u16_of_lt (by omega)]
    omega
  · next hfull _ _ hmemory => exact .inl ⟨by simp [hfull, hmemory], rfl, .inl rfl⟩

/-- Inserting an entry in the gap of its node. -/
theorem writes_insertAt (h : c.WellFormed) {nodeId timestamp index capacity : ℕ}
    (hgap : Gap VClockEntry.nodeId c.entries c.count nodeId index) (hnode : nodeId < 2 ^ 16)
    (hstamp : timestamp < voidU64) (hlt : c.count < capacity) (hcap : capacity < 2 ^ 16) :
    c.Writes { c with
      entries := insertAt c.entries c.count index ⟨nodeId, timestamp⟩
      count := c.count + 1
      capacity } nodeId timestamp := by
  have hentry : ∀ i < c.count + 1,
      (∃ j < c.count, insertAt c.entries c.count index ⟨nodeId, timestamp⟩ i = c.entries j) ∨
        insertAt c.entries c.count index ⟨nodeId, timestamp⟩ i = ⟨nodeId, timestamp⟩ := by
    intro i hi
    rcases insertAt_cases (i := index) c.entries ⟨nodeId, timestamp⟩ (Nat.lt_succ_iff.1 hi)
      with ⟨hj, he⟩ | ⟨-, he⟩ | ⟨hj, he⟩
    · exact .inl ⟨i, hj.trans_le hgap.le, he⟩
    · exact .inr he
    · exact .inl ⟨i - 1, by omega, he⟩
  refine ⟨⟨h.sorted.insertAt hgap, fun i hi => ?_, fun i hi => ?_, hlt, hcap, h.owner⟩, ?_, rfl,
    rfl⟩
  · rcases hentry i hi with ⟨j, hj, he⟩ | he
    · simp only [he]
      exact h.nodeId j hj
    · simp only [he]
      exact hnode
  · rcases hentry i hi with ⟨j, hj, he⟩ | he
    · simp only [he]
      exact h.timestamp j hj
    · simp only [he]
      exact hstamp
  · funext k
    rw [value, get_insertAt (e := ⟨nodeId, timestamp⟩) h.sorted hgap, Function.update_apply]
    simp only [eq_comm, value]

/-- An insertion is refused where there is no room, and writes the entry otherwise. -/
theorem insertEntry_cases (h : c.WellFormed) (memory : Bool) {nodeId timestamp index : ℕ}
    (hgap : Gap VClockEntry.nodeId c.entries c.count nodeId index) (hnode : nodeId < 2 ^ 16)
    (hstamp : timestamp < voidU64) :
    ¬ c.HasRoom memory ∧ (c.insertEntry memory index nodeId timestamp).2 = false ∧
        c.Refuses (c.insertEntry memory index nodeId timestamp).1 ∨
      c.HasRoom memory ∧ (c.insertEntry memory index nodeId timestamp).2 = true ∧
        c.Writes (c.insertEntry memory index nodeId timestamp).1 nodeId timestamp := by
  unfold insertEntry
  rcases ensureCapacity_cases c memory with ⟨hroom, hfail, hsame⟩ | ⟨hroom, capacity, heq, hlt⟩
  · simp only [hfail]
    exact .inl ⟨hroom, rfl, hsame⟩
  · obtain ⟨hlt, hcap⟩ := hlt h.capacity h.count
    have hcount : u16 (c.count + 1) = c.count + 1 := u16_of_lt (by omega)
    simp only [heq, hcount, Bool.not_true, Bool.false_eq_true, if_false]
    exact .inr ⟨hroom, trivial, writes_insertAt h hgap hnode hstamp hlt hcap⟩

/-! ## Increment and set -/

/-- What is searched for is found in its slot or in its gap. -/
theorem searched_cases (h : c.WellFormed) (nodeId : ℕ) :
    (∃ i < c.count, binarySearch c.entries c.count nodeId = i ∧ (c.entries i).nodeId = nodeId ∧
        c.value nodeId = (c.entries i).timestamp) ∨
      nodeId ∉ c.nodes ∧ c.value nodeId = 0 ∧
        ¬ 0 ≤ binarySearch c.entries c.count nodeId ∧
        Gap VClockEntry.nodeId c.entries c.count nodeId
          (u16 (-(binarySearch c.entries c.count nodeId + 1)).toNat) := by
  rcases binarySearch_spec h.sorted nodeId with ⟨i, hi, hindex, rfl⟩ | ⟨i, hindex, hgap⟩
  · exact .inl ⟨i, hi, hindex, rfl, h.sorted.get_eq _ _ hi⟩
  · have hnot : nodeId ∉ c.nodes := by
      rw [mem_nodes]
      rintro ⟨j, hj, heq⟩
      exact hgap.key_ne hj heq
    have hnat : (-(-((i : ℤ) + 1) + 1)).toNat = i := by omega
    have hle := hgap.le
    have hcount := h.count
    have hcap := h.capacity
    refine .inr ⟨hnot, value_of_not_mem hnot, by omega, ?_⟩
    rw [hindex, hnat, u16_of_lt (by omega)]
    exact hgap

/-- `set` refuses a VOID timestamp. -/
theorem set_void (c : SparseClock) (memory : Bool) (nodeId : ℕ) :
    c.set memory nodeId voidU64 = (c, .false) :=
  if_pos rfl

/-- `set` is refused where the node has no entry and there is no room for one, and writes the
timestamp otherwise. -/
theorem set_cases (h : c.WellFormed) (memory : Bool) {nodeId timestamp : ℕ}
    (hnode : nodeId < 2 ^ 16) (hstamp : timestamp < voidU64) :
    ¬ c.Accepts memory nodeId ∧ (c.set memory nodeId timestamp).2 = .false ∧
        c.Refuses (c.set memory nodeId timestamp).1 ∨
      c.Accepts memory nodeId ∧ (c.set memory nodeId timestamp).2 = .true ∧
        c.Writes (c.set memory nodeId timestamp).1 nodeId timestamp := by
  rw [set, if_neg hstamp.ne]
  rcases searched_cases h nodeId with ⟨i, hi, hindex, hnode', -⟩ | ⟨hnot, -, hindex, hgap⟩
  · simp only [hindex, Nat.cast_nonneg, if_true, Int.toNat_natCast]
    subst hnode'
    exact .inr ⟨.inl (mem_nodes.2 ⟨i, hi, rfl⟩), trivial, writes_putTimestamp h hi hstamp⟩
  · simp only [hindex, if_false]
    rcases insertEntry_cases h memory hgap hnode hstamp with ⟨hroom, hres, hsame⟩ |
      ⟨hroom, hres, hwrites⟩
    · simp only [hres]
      exact .inl ⟨fun hacc => hacc.elim hnot hroom, rfl, hsame⟩
    · simp only [hres, Bool.not_true, Bool.false_eq_true, if_false]
      exact .inr ⟨.inr hroom, trivial, hwrites⟩

/-- `increment` is refused where the timestamp of the owner is at its maximum, or the owner has
no entry and there is no room for one; otherwise it writes the next timestamp and returns
it. -/
theorem increment_cases (h : c.WellFormed) (memory : Bool) :
    (voidU64 ≤ c.value c.ownerNode + 1 ∨ ¬ c.Accepts memory c.ownerNode) ∧
        (c.increment memory).2 = voidU64 ∧ c.Refuses (c.increment memory).1 ∨
      c.value c.ownerNode + 1 < voidU64 ∧ c.Accepts memory c.ownerNode ∧
        (c.increment memory).2 = c.value c.ownerNode + 1 ∧
        c.Writes (c.increment memory).1 c.ownerNode (c.value c.ownerNode + 1) := by
  unfold increment
  rcases searched_cases h c.ownerNode with ⟨i, hi, hindex, hnode, hvalue⟩ |
    ⟨hnot, hvalue, hindex, hgap⟩
  · have hstamp := h.timestamp i hi
    have hu64 : u64 ((c.entries i).timestamp + 1) = (c.entries i).timestamp + 1 := by
      refine u64_of_lt ?_
      unfold voidU64 at hstamp
      omega
    simp only [hindex, Nat.cast_nonneg, if_true, Int.toNat_natCast, hu64, hvalue]
    split
    · next hmax => exact .inl ⟨.inl (by omega), rfl, .inl rfl⟩
    · next hmax =>
      refine .inr ⟨by omega, .inl (mem_nodes.2 ⟨i, hi, hnode⟩), rfl, ?_⟩
      have hwrites := writes_putTimestamp h hi
        (by omega : (c.entries i).timestamp + 1 < voidU64)
      rwa [hnode] at hwrites
  · simp only [hindex, if_false, hvalue]
    have hone : 1 < voidU64 := by decide
    rcases insertEntry_cases h memory hgap h.owner hone with ⟨hroom, hres, hsame⟩ |
      ⟨hroom, hres, hwrites⟩
    · simp only [hres]
      exact .inl ⟨.inr fun hacc => hacc.elim hnot hroom, rfl, hsame⟩
    · simp only [hres, Bool.not_true, Bool.false_eq_true, if_false]
      exact .inr ⟨hone, .inr hroom, trivial, hwrites⟩

/-! ## New clocks -/

theorem wellFormed_init {ownerNode : ℕ} (h : ownerNode < 2 ^ 16) : (init ownerNode).WellFormed :=
  wellFormed_of_empty rfl (by decide : initialClockCapacity < 2 ^ 16) h

theorem wellFormed_reset (h : c.WellFormed) : c.reset.WellFormed :=
  wellFormed_of_empty rfl h.capacity h.owner

/-- A new clock after one `increment`. -/
def ticked (ownerNode : ℕ) : SparseClock :=
  ((init ownerNode).increment true).1

theorem wellFormed_ticked {ownerNode : ℕ} (h : ownerNode < 2 ^ 16) :
    (ticked ownerNode).WellFormed := by
  have hinit := wellFormed_init h
  rcases increment_cases hinit true with ⟨-, -, hsame⟩ | ⟨-, -, -, hwrites⟩
  · exact (hsame.wellFormed hinit).1
  · exact hwrites.wellFormed

end SparseClock

end Seraph
