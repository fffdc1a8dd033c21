import Seraph.ByteMemory
import Seraph.SparseClock

/-!
# Sparse clocks on the wire

`serialize` writes the count and then each entry, `deserialize` reads them back, both with the
stride of the C struct, which ends in four bytes of padding. A clock of at most
`maxClockEntries` entries comes back as it was sent (`roundTrips_iff`). But the padding is
skipped, not written, so those bytes are what the buffer held before (`determined_iff`), and what
is read is stored without a check, so that a buffer gives a well-formed clock only where its
entries happen to be sorted and not VOID (`validates_iff`).
-/

namespace Seraph

open ByteMem SortedTable

/-- `sizeof(Seraph_VClock_Entry)` : the timestamp has alignment 8. -/
def entrySize : ℕ :=
  16

/-- Offset of an entry in the buffer. -/
def entryAt (i : ℕ) : ℕ :=
  2 + i * entrySize

/-- `node_id`, `reserved` and `timestamp` of an entry, least significant bytes first. -/
def writeEntry (m : Memory) (ptr : ℕ) (e : VClockEntry) : Memory :=
  ((m.store ptr 2 e.nodeId).store (ptr + 2) 2 0).store (ptr + 4) 8 e.timestamp

/-- The loop of `seraph_sparse_vclock_serialize`. -/
def writeEntries (m : Memory) (entries : ℕ → VClockEntry) : ℕ → Memory
  | 0 => m
  | i + 1 => writeEntry (writeEntries m entries i) (entryAt i) (entries i)

/-- `node_id` and `timestamp` of an entry. -/
def readEntry (m : Memory) (ptr : ℕ) : VClockEntry :=
  ⟨m.load ptr 2, m.load (ptr + 4) 8⟩

/-- The loop of `seraph_sparse_vclock_deserialize`, on entries that `calloc` has cleared. -/
def readEntries (m : Memory) : ℕ → ℕ → VClockEntry
  | 0 => fun _ => ⟨0, 0⟩
  | i + 1 => Function.update (readEntries m i) i (readEntry m (entryAt i))

namespace SparseClock

variable (c : SparseClock)

/-- `seraph_sparse_vclock_serialized_size`. -/
def serializedSize : ℕ :=
  2 + c.count * entrySize

/-- `seraph_sparse_vclock_serialize` into a buffer of `size` bytes : the buffer and the number
of bytes. -/
def serialize (buffer : Memory) (size : ℕ) : Memory × ℕ :=
  if size < c.serializedSize then (buffer, 0)
  else (writeEntries (buffer.store 0 2 c.count) c.entries c.count, c.serializedSize)

/-- The clock after `memset` to 0. -/
def cleared : SparseClock :=
  ⟨fun _ => ⟨0, 0⟩, 0, 0, 0, false, false⟩

/-- `seraph_sparse_vclock_deserialize` into the clock `c` : the clock and the number of bytes
read, 0 for a failure. -/
def deserialize (memory : Bool) (ownerNode : ℕ) (buffer : Memory) (size : ℕ) : SparseClock × ℕ :=
  if size < 2 then (c, 0)
  else
    let count := buffer.load 0 2
    let needed := 2 + count * entrySize
    if size < needed then (c, 0)
    else if count > maxClockEntries then (c, 0)
    else if !memory then (cleared, 0)
    else
      (⟨readEntries buffer count, count, if count > 0 then count else initialClockCapacity,
        ownerNode, false, false⟩, needed)

end SparseClock

/-! ## Entries in a buffer -/

variable {m : Memory} {entries : ℕ → VClockEntry}

theorem readEntries_of_lt (m : Memory) {n i : ℕ} (h : i < n) :
    readEntries m n i = readEntry m (entryAt i) := by
  induction n with
  | zero => exact absurd h (Nat.not_lt_zero i)
  | succ n ih =>
    rcases Nat.lt_succ_iff_lt_or_eq.1 h with hlt | rfl
    · rw [readEntries, Function.update_of_ne hlt.ne, ih hlt]
    · rw [readEntries, Function.update_self]

theorem load_writeEntry_of_disjoint (m : Memory) (e : VClockEntry) {ptr b k : ℕ}
    (h : b + k ≤ ptr ∨ ptr + 12 ≤ b) : (writeEntry m ptr e).load b k = m.load b k := by
  rw [writeEntry, Memory.load_store_of_disjoint _ (by omega),
    Memory.load_store_of_disjoint _ (by omega), Memory.load_store_of_disjoint _ (by omega)]

/-- An entry that has been written is read back. -/
theorem readEntry_writeEntry (m : Memory) (ptr : ℕ) {e : VClockEntry} (hnode : e.nodeId < 2 ^ 16)
    (hstamp : e.timestamp < 2 ^ 64) : readEntry (writeEntry m ptr e) ptr = e := by
  have hread : (writeEntry m ptr e).load ptr 2 = e.nodeId := by
    rw [writeEntry, Memory.load_store_of_disjoint _ (by omega),
      Memory.load_store_of_disjoint _ (by omega), Memory.load_store_of_lt _ hnode]
  have hread' : (writeEntry m ptr e).load (ptr + 4) 8 = e.timestamp :=
    Memory.load_store_of_lt _ hstamp
  rw [readEntry, hread, hread']

theorem readEntry_writeEntries {n : ℕ} (hnode : ∀ i < n, (entries i).nodeId < 2 ^ 16)
    (hstamp : ∀ i < n, (entries i).timestamp < 2 ^ 64) {i : ℕ} (hi : i < n) :
    readEntry (writeEntries m entries n) (entryAt i) = entries i := by
  induction n with
  | zero => exact absurd hi (Nat.not_lt_zero i)
  | succ n ih =>
    rcases Nat.lt_succ_iff_lt_or_eq.1 hi with hlt | rfl
    · have hbefore : entryAt i + 12 ≤ entryAt n := by
        unfold entryAt entrySize
        omega
      rw [writeEntries, readEntry, load_writeEntry_of_disjoint _ _ (by omega),
        load_writeEntry_of_disjoint _ _ (by omega)]
      exact ih (fun j hj => hnode j (by omega)) (fun j hj => hstamp j (by omega)) hlt
    · exact readEntry_writeEntry _ _ (hnode i hi) (hstamp i hi)

/-- The entries come after the count. -/
theorem load_count_writeEntries (m : Memory) (entries : ℕ → VClockEntry) (n : ℕ) :
    (writeEntries m entries n).load 0 2 = m.load 0 2 := by
  induction n with
  | zero => rfl
  | succ n ih =>
    rw [writeEntries, load_writeEntry_of_disjoint _ _ (.inl (by unfold entryAt; omega)), ih]

/-- The padding of an entry is not written. -/
theorem writeEntries_padding (m : Memory) (entries : ℕ → VClockEntry) (n i : ℕ) {k : ℕ}
    (hk : 12 ≤ k ∧ k < entrySize) :
    writeEntries m entries n (entryAt i + k) = m (entryAt i + k) := by
  induction n with
  | zero => rfl
  | succ n ih =>
    have hout : entryAt i + k < entryAt n ∨ entryAt n + 12 ≤ entryAt i + k := by
      unfold entryAt entrySize at *
      omega
    rw [← ih, writeEntries, writeEntry, Memory.store, if_neg (by omega), Memory.store,
      if_neg (by omega), Memory.store, if_neg (by omega)]

namespace SparseClock

variable {c : SparseClock}

/-- The buffer has no count, is too short for it, or has more entries than a clock can take. -/
def Rejects (buffer : Memory) (size : ℕ) : Prop :=
  size < 2 ∨ size < 2 + buffer.load 0 2 * entrySize ∨ maxClockEntries < buffer.load 0 2

/-- The clock that is read from a buffer. -/
def received (ownerNode : ℕ) (buffer : Memory) : SparseClock :=
  ⟨readEntries buffer (buffer.load 0 2), buffer.load 0 2,
    if buffer.load 0 2 > 0 then buffer.load 0 2 else initialClockCapacity, ownerNode, false, false⟩

/-- A buffer is rejected, or read whole where there is memory. -/
theorem deserialize_cases (c : SparseClock) (memory : Bool) (ownerNode : ℕ) (buffer : Memory)
    (size : ℕ) :
    (Rejects buffer size ∨ memory = false) ∧
        (c.deserialize memory ownerNode buffer size).2 = 0 ∨
      ¬ Rejects buffer size ∧ memory = true ∧ c.deserialize memory ownerNode buffer size =
        (received ownerNode buffer, 2 + buffer.load 0 2 * entrySize) := by
  unfold deserialize
  split
  · next hsize => exact .inl ⟨.inl (.inl hsize), rfl⟩
  dsimp only
  split
  · next hshort => exact .inl ⟨.inl (.inr (.inl hshort)), rfl⟩
  split
  · next hmany => exact .inl ⟨.inl (.inr (.inr hmany)), rfl⟩
  split
  · next hmemory => exact .inl ⟨.inr (by simpa using hmemory), rfl⟩
  · next hsize hshort hmany hmemory =>
    refine .inr ⟨?_, by simpa using hmemory, rfl⟩
    rintro (h | h | h)
    · exact hsize h
    · exact hshort h
    · exact hmany h

/-- The count of a clock that has been serialized. -/
theorem load_count_serialize (hc : c.WellFormed) (buffer : Memory) {size : ℕ}
    (hsize : c.serializedSize ≤ size) :
    c.serialize buffer size =
        (writeEntries (buffer.store 0 2 c.count) c.entries c.count, c.serializedSize) ∧
      (c.serialize buffer size).1.load 0 2 = c.count := by
  have hcount : c.count < 256 ^ 2 := hc.count.trans_lt hc.capacity
  rw [serialize, if_neg (Nat.not_lt.2 hsize)]
  exact ⟨rfl, by rw [load_count_writeEntries, Memory.load_store_of_lt _ hcount]⟩

/-! ## Round trip -/

/-- A clock that has been serialized is read back with its entries, over all its bytes. -/
def RoundTrips (c : SparseClock) : Prop :=
  ∀ (buffer : Memory) (size : ℕ) (previous : SparseClock) (ownerNode : ℕ),
    c.serializedSize ≤ size →
      let sent := c.serialize buffer size
      let read := previous.deserialize true ownerNode sent.1 sent.2
      read.2 = c.serializedSize ∧ read.1.count = c.count ∧
        ∀ i < c.count, read.1.entries i = c.entries i

/-- A well-formed clock comes back exactly if it has no more than `maxClockEntries` entries. -/
theorem roundTrips_iff (hc : c.WellFormed) : c.RoundTrips ↔ c.count ≤ maxClockEntries := by
  constructor
  · intro h
    obtain ⟨heq, hload⟩ := load_count_serialize hc (fun _ => 0) le_rfl
    have hread := (h (fun _ => 0) c.serializedSize cleared 0 le_rfl).1
    rcases deserialize_cases cleared true 0 (c.serialize (fun _ => 0) c.serializedSize).1
      (c.serialize (fun _ => 0) c.serializedSize).2 with ⟨-, hzero⟩ | ⟨haccept, -, -⟩
    · rw [hzero] at hread
      exact absurd hread (Nat.ne_of_lt (Nat.lt_add_right _ Nat.two_pos))
    · rw [Rejects, hload] at haccept
      omega
  · intro h buffer size previous ownerNode hsize
    obtain ⟨heq, hload⟩ := load_count_serialize hc buffer hsize
    dsimp only
    have haccept : ¬ Rejects (c.serialize buffer size).1 (c.serialize buffer size).2 := by
      rw [Rejects, hload, heq]
      dsimp only [serializedSize]
      omega
    rcases deserialize_cases previous true ownerNode (c.serialize buffer size).1
      (c.serialize buffer size).2 with ⟨hreject, -⟩ | ⟨-, -, hread⟩
    · exact absurd (hreject.resolve_right (by decide)) haccept
    · rw [hread, received, hload]
      refine ⟨rfl, rfl, fun i hi => ?_⟩
      dsimp only
      rw [readEntries_of_lt _ hi, heq]
      exact readEntry_writeEntries hc.nodeId
        (fun j hj => (hc.timestamp j hj).trans (by decide)) hi

/-! ## The bytes of a clock -/

/-- The bytes reported by `serialize` do not depend on what the buffer held. -/
def Determined (c : SparseClock) : Prop :=
  ∀ (buffer buffer' : Memory) (size x : ℕ), x < (c.serialize buffer size).2 →
    (c.serialize buffer size).1 x = (c.serialize buffer' size).1 x

/-- Only the bytes of an empty clock do not depend on the buffer. -/
theorem determined_iff (c : SparseClock) : c.Determined ↔ c.count = 0 := by
  constructor
  · intro h
    by_contra hcount
    -- The first padding byte of the first entry.
    have hpad : ∀ buffer : Memory,
        (c.serialize buffer c.serializedSize).1 (entryAt 0 + 12) = buffer (entryAt 0 + 12) := by
      intro buffer
      rw [serialize, if_neg (Nat.lt_irrefl _)]
      refine (writeEntries_padding _ _ _ 0 (by decide)).trans ?_
      exact if_neg (by decide)
    have hin : entryAt 0 + 12 < (c.serialize (fun _ => 0) c.serializedSize).2 := by
      rw [serialize, if_neg (Nat.lt_irrefl _)]
      simp only [entryAt, serializedSize, entrySize]
      omega
    have hsame := h (fun _ => 0) (fun _ => 1) c.serializedSize _ hin
    rw [hpad, hpad] at hsame
    exact absurd hsame (by decide)
  · intro hcount buffer buffer' size x hx
    unfold serialize at hx ⊢
    split at hx
    · exact absurd hx (Nat.not_lt_zero x)
    · next hsize =>
      have hx' : x < 2 := by simpa [serializedSize, hcount] using hx
      rw [if_neg hsize, if_neg hsize, hcount]
      simp only [writeEntries, Memory.store, Nat.zero_le, true_and, Nat.zero_add, hx', if_true]

/-! ## Buffers -/

/-- `deserialize` returns 0 or gives a well-formed clock. -/
def Validates (buffer : Memory) (size : ℕ) : Prop :=
  ∀ (previous : SparseClock) (memory : Bool), ∀ ownerNode < 2 ^ 16,
    (previous.deserialize memory ownerNode buffer size).2 = 0 ∨
      (previous.deserialize memory ownerNode buffer size).1.WellFormed

/-- The node ids in the buffer increase, and no timestamp has all bits set. -/
structure Ordered (buffer : Memory) : Prop where
  nodeId : ∀ i j, i < j → j < buffer.load 0 2 →
    buffer.load (entryAt i) 2 < buffer.load (entryAt j) 2
  timestamp : ∀ i < buffer.load 0 2, buffer.load (entryAt i + 4) 8 ≠ voidU64

theorem received_entry (ownerNode : ℕ) (buffer : Memory) {i : ℕ} (hi : i < buffer.load 0 2) :
    (received ownerNode buffer).entries i =
      ⟨buffer.load (entryAt i) 2, buffer.load (entryAt i + 4) 8⟩ :=
  readEntries_of_lt _ hi

/-- The clock that is read is well-formed exactly if the buffer is ordered. -/
theorem wellFormed_received {ownerNode : ℕ} (howner : ownerNode < 2 ^ 16) (buffer : Memory) :
    (received ownerNode buffer).WellFormed ↔ Ordered buffer := by
  have hentry := fun i => received_entry ownerNode buffer (i := i)
  constructor
  · intro h
    refine ⟨fun i j hij hj => ?_, fun i hi => ?_⟩
    · have := h.sorted i j hij hj
      rwa [hentry i (hij.trans hj), hentry j hj] at this
    · have := h.timestamp i hi
      rw [hentry i hi] at this
      exact this.ne
  · intro h
    have hcount : buffer.load 0 2 < 2 ^ 16 := Memory.load_lt buffer 0 2
    refine ⟨fun i j hij hj => ?_, fun i hi => ?_, fun i hi => ?_, ?_, ?_, howner⟩
    · rw [hentry i (hij.trans hj), hentry j hj]
      exact h.nodeId i j hij hj
    · rw [hentry i hi]
      exact Memory.load_lt buffer _ 2
    · rw [hentry i hi]
      have hlt : buffer.load (entryAt i + 4) 8 < 256 ^ 8 := Memory.load_lt buffer _ 8
      have hne := h.timestamp i hi
      dsimp only
      unfold voidU64 at *
      omega
    · simp only [received]
      split <;> omega
    · simp only [received, initialClockCapacity]
      split <;> omega

/-- `deserialize` validates exactly the buffers that it rejects and those that are ordered. -/
theorem validates_iff (buffer : Memory) (size : ℕ) :
    Validates buffer size ↔ Rejects buffer size ∨ Ordered buffer := by
  constructor
  · intro h
    rcases deserialize_cases cleared true 0 buffer size with ⟨hreject, -⟩ | ⟨-, -, hread⟩
    · exact .inl (hreject.resolve_right (by decide))
    · have hresult := h cleared true 0 (by decide)
      rw [hread] at hresult
      rcases hresult with hzero | hwf
      · dsimp only at hzero
        omega
      · exact .inr ((wellFormed_received (by decide) buffer).1 hwf)
  · intro h previous memory ownerNode howner
    rcases deserialize_cases previous memory ownerNode buffer size with ⟨-, hzero⟩ |
      ⟨haccept, -, hread⟩
    · exact .inl hzero
    · rw [hread]
      exact .inr ((wellFormed_received howner buffer).2 (h.resolve_left haccept))

/-- **Wire format.** A well-formed clock makes the round trip exactly if it has at most
`maxClockEntries` entries, its bytes are its own exactly if it has none, and a buffer is
validated exactly if it is rejected or ordered. -/
theorem wire_iff (hc : c.WellFormed) (buffer : Memory) (size : ℕ) :
    (c.RoundTrips ↔ c.count ≤ maxClockEntries) ∧ (c.Determined ↔ c.count = 0) ∧
      (Validates buffer size ↔ Rejects buffer size ∨ Ordered buffer) :=
  ⟨roundTrips_iff hc, determined_iff c, validates_iff buffer size⟩

/-- Two entries for node 0. -/
def duplicates : Memory :=
  fun x => if x = 0 then 2 else 0

/-- A new clock with an event of node 3, sent and read back. -/
theorem wire_iff_ticked : (ticked 3).RoundTrips ∧ ¬ Validates duplicates 34 := by
  obtain ⟨hround, -, hvalid⟩ := wire_iff (wellFormed_ticked (by decide : 3 < 2 ^ 16)) duplicates 34
  refine ⟨hround.2 (by decide), fun h => ?_⟩
  rcases hvalid.1 h with hreject | hordered
  · exact absurd hreject (by unfold Rejects; decide)
  · exact absurd (hordered.nodeId 0 1 (by decide) (by decide)) (by decide)

/-- A byte of the message is the byte that the buffer held before, and two entries for one node
are read without complaint. -/
theorem not_wire_ticked : (ticked 3).WellFormed ∧
    ((ticked 3).serialize (fun _ => 0) 18).2 = 18 ∧
    ((ticked 3).serialize (fun _ => 0) 18).1 14 = 0 ∧
    ((ticked 3).serialize (fun _ => 255) 18).1 14 = 255 ∧ ¬ (ticked 3).Determined ∧
    ((init 3).deserialize true 3 duplicates 34).2 = 34 ∧
    ((init 3).deserialize true 3 duplicates 34).1.count = 2 ∧
    (((init 3).deserialize true 3 duplicates 34).1.entries 0).nodeId =
      (((init 3).deserialize true 3 duplicates 34).1.entries 1).nodeId ∧
    ¬ Validates duplicates 34 := by
  refine ⟨wellFormed_ticked (by decide), by decide, by decide, by decide, fun h => ?_, by decide,
    by decide, by decide, fun h => ?_⟩
  · exact absurd (h (fun _ => 0) (fun _ => 255) 18 14 (by decide)) (by decide)
  · rcases h (init 3) true 3 (by decide) with hzero | hwf
    · exact absurd hzero (by decide)
    · exact absurd (hwf.sorted 0 1 (by decide) (by decide)) (by decide)

end SparseClock

end Seraph
