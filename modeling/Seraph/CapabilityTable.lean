import Mathlib.Data.Finset.Card
import Mathlib.Data.Finset.Range
import Mathlib.Logic.Function.Basic
import Seraph.Capability
import Seraph.FreeList
import Seraph.Runs

/-!
# The capability descriptor table

A descriptor table stores capabilities in entries with reference counts. A compact
capability names an entry by its index. The free list is threaded through the `flags` of the
entries, from `freeHead`. `Valid` is the invariant of the table : the free list has no cycle
and holds exactly the entries without references, and `count` counts the others. Every
operation keeps it for any handle, forged or not, as long as no reference count wraps
(`valid_step`, `table_valid`).
-/

namespace Seraph

open Runs FreeList

/-- `SERAPH_CDT_MAX_ENTRIES`. -/
def maxEntries : ℕ :=
  65536

/-- `Seraph_CapCompact`. -/
structure CapCompact where
  cdtIndex : ℕ
  offset : ℕ
  perms : ℕ
deriving DecidableEq, Repr

namespace CapCompact

/-- `SERAPH_CAP_COMPACT_VOID`. -/
def void : CapCompact :=
  ⟨voidU32, 0xFFFFFF, 0xFF⟩

/-- `seraph_cap_compact_is_void`. -/
def isVoid (compact : CapCompact) : Bool :=
  compact.cdtIndex = voidU32

end CapCompact

/-- `Seraph_CDT_Entry`. -/
structure CdtEntry where
  cap : Capability
  refcount : ℕ
  /-- In a free entry, the index of the next one. -/
  flags : ℕ
deriving DecidableEq, Repr

/-- `Seraph_CDT`. -/
structure Cdt where
  entries : ℕ → CdtEntry
  capacity : ℕ
  count : ℕ
  freeHead : ℕ

namespace Cdt

/-- `cdt_init_entries`, on entries that `calloc` has cleared. -/
def initEntries (capacity : ℕ) : Cdt where
  entries i :=
    { cap := .zero
      refcount := 0
      flags :=
        if i + 1 < capacity then i + 1
        else if i + 1 = capacity then voidU32
        else 0 }
  capacity
  count := 0
  freeHead := 0

/-- `seraph_cdt_init` and `seraph_cdt_init_arena` with memory for the entries : the table, or
`none` for the result FALSE. -/
def init (capacity : ℕ) : Option Cdt :=
  if capacity = 0 ∨ capacity > maxEntries then none else some (initEntries capacity)

variable (t : Cdt)

/-- `seraph_cdt_alloc`. -/
def alloc (cap : Capability) : Cdt × CapCompact :=
  if cap.isVoid then (t, .void)
  else if t.freeHead = voidU32 then (t, .void)
  else
    ({ t with
        freeHead := (t.entries t.freeHead).flags
        entries := Function.update t.entries t.freeHead ⟨cap, 1, 0⟩
        count := u32 (t.count + 1) },
      ⟨t.freeHead, 0, cap.permissions⟩)

/-- `seraph_cdt_lookup`. -/
def lookup (compact : CapCompact) : Capability :=
  let entry := t.entries compact.cdtIndex
  if compact.isVoid then .void
  else if compact.cdtIndex ≥ t.capacity then .void
  else if entry.refcount = 0 then .void
  else if compact.offset > 0 then
    if compact.offset > entry.cap.length then .void
    else
      { entry.cap with
        base := u64 (entry.cap.base + compact.offset)
        length := entry.cap.length - compact.offset
        permissions := entry.cap.permissions &&& compact.perms }
  else { entry.cap with permissions := entry.cap.permissions &&& compact.perms }

/-- `seraph_cdt_addref`. -/
def addref (compact : CapCompact) : Cdt × Vbit :=
  let entry := t.entries compact.cdtIndex
  if compact.isVoid then (t, .void)
  else if compact.cdtIndex ≥ t.capacity then (t, .false)
  else if entry.refcount = 0 then (t, .false)
  else
    ({ t with
        entries := Function.update t.entries compact.cdtIndex
          { entry with refcount := u32 (entry.refcount + 1) } }, .true)

/-- `seraph_cdt_release`. -/
def release (compact : CapCompact) : Cdt × Vbit :=
  let entry := t.entries compact.cdtIndex
  if compact.isVoid then (t, .void)
  else if compact.cdtIndex ≥ t.capacity then (t, .false)
  else if entry.refcount = 0 then (t, .false)
  else if entry.refcount - 1 = 0 then
    ({ t with
        entries := Function.update t.entries compact.cdtIndex ⟨.void, 0, t.freeHead⟩
        freeHead := compact.cdtIndex
        count := u32 (t.count + 2 ^ 32 - 1) }, .true)
  else
    ({ t with
        entries := Function.update t.entries compact.cdtIndex
          { entry with refcount := entry.refcount - 1 } }, .true)

end Cdt

/-- An operation on a descriptor table. -/
inductive CdtOp where
  | alloc (cap : Capability)
  | lookup (compact : CapCompact)
  | addref (compact : CapCompact)
  | release (compact : CapCompact)
deriving DecidableEq, Repr

/-- What an operation on a descriptor table returns. -/
inductive CdtResult where
  | compact (compact : CapCompact)
  | capability (cap : Capability)
  | vbit (result : Vbit)
deriving DecidableEq, Repr

namespace Cdt

/-- One operation. -/
def step (t : Cdt) : CdtOp → Cdt × CdtResult
  | .alloc cap => ((t.alloc cap).1, .compact (t.alloc cap).2)
  | .lookup compact => (t, .capability (t.lookup compact))
  | .addref compact => ((t.addref compact).1, .vbit (t.addref compact).2)
  | .release compact => ((t.release compact).1, .vbit (t.release compact).2)

variable {t : Cdt} {compact : CapCompact} {cap : Capability}

/-! ## What an operation can do -/

/-- The handle names an entry in use. -/
structure InUse (t : Cdt) (compact : CapCompact) : Prop where
  notVoid : compact.isVoid = false
  index : compact.cdtIndex < t.capacity
  refcount : (t.entries compact.cdtIndex).refcount ≠ 0

/-- Write an entry. -/
def put (t : Cdt) (index : ℕ) (entry : CdtEntry) : Cdt :=
  { t with entries := Function.update t.entries index entry }

/-- Where the link of an entry leads. -/
def next (t : Cdt) (i : ℕ) : ℕ :=
  (t.entries i).flags

/-- `alloc` returns VOID, or takes the first free entry. -/
theorem alloc_cases (t : Cdt) (cap : Capability) :
    (cap.isVoid = true ∨ t.freeHead = voidU32) ∧ t.alloc cap = (t, .void) ∨
      cap.isVoid = false ∧ t.freeHead ≠ voidU32 ∧ t.alloc cap =
        (⟨(t.put t.freeHead ⟨cap, 1, 0⟩).entries, t.capacity, u32 (t.count + 1),
            t.next t.freeHead⟩,
          ⟨t.freeHead, 0, cap.permissions⟩) := by
  unfold alloc
  split
  · next h => exact .inl ⟨.inl h, rfl⟩
  split
  · next h => exact .inl ⟨.inr h, rfl⟩
  · next hcap hhead => exact .inr ⟨by simpa using hcap, hhead, rfl⟩

/-- `addref` fails, or adds one reference. -/
theorem addref_cases (t : Cdt) (compact : CapCompact) :
    ¬ t.InUse compact ∧ (t.addref compact).1 = t ∧ (t.addref compact).2 ≠ .true ∨
      t.InUse compact ∧ t.addref compact =
        (t.put compact.cdtIndex { t.entries compact.cdtIndex with
          refcount := u32 ((t.entries compact.cdtIndex).refcount + 1) }, .true) := by
  unfold addref
  dsimp only
  split
  · next h => exact .inl ⟨fun huse => by simp [huse.notVoid] at h, rfl, by simp⟩
  split
  · next h => exact .inl ⟨fun huse => absurd huse.index (by omega), rfl, by simp⟩
  split
  · next h => exact .inl ⟨fun huse => huse.refcount h, rfl, by simp⟩
  · next hvoid hindex href =>
    exact .inr ⟨⟨by simpa using hvoid, by omega, href⟩, rfl⟩

/-- `release` fails, takes one reference of several, or frees the entry. -/
theorem release_cases (t : Cdt) (compact : CapCompact) :
    ¬ t.InUse compact ∧ (t.release compact).1 = t ∧ (t.release compact).2 ≠ .true ∨
      t.InUse compact ∧ (t.entries compact.cdtIndex).refcount = 1 ∧ t.release compact =
        (⟨(t.put compact.cdtIndex ⟨.void, 0, t.freeHead⟩).entries, t.capacity,
          u32 (t.count + 2 ^ 32 - 1), compact.cdtIndex⟩, .true) ∨
      t.InUse compact ∧ 1 < (t.entries compact.cdtIndex).refcount ∧ t.release compact =
        (t.put compact.cdtIndex { t.entries compact.cdtIndex with
          refcount := (t.entries compact.cdtIndex).refcount - 1 }, .true) := by
  unfold release
  dsimp only
  split
  · next h => exact .inl ⟨fun huse => by simp [huse.notVoid] at h, rfl, by simp⟩
  split
  · next h => exact .inl ⟨fun huse => absurd huse.index (by omega), rfl, by simp⟩
  split
  · next h => exact .inl ⟨fun huse => huse.refcount h, rfl, by simp⟩
  · next hvoid hindex href =>
    have huse : t.InUse compact := ⟨by simpa using hvoid, by omega, href⟩
    split
    · next hone => exact .inr (.inl ⟨huse, by omega, rfl⟩)
    · next hmore => exact .inr (.inr ⟨huse, by omega, rfl⟩)

/-! ## The invariant -/

/-- The entry belongs on the free list. -/
def Free (t : Cdt) (i : ℕ) : Prop :=
  i < t.capacity ∧ (t.entries i).refcount = 0

/-- Number of entries with references. -/
def used (t : Cdt) : ℕ :=
  ((Finset.range t.capacity).filter fun i => 0 < (t.entries i).refcount).card

/-- The slots of the free list are entries without references. -/
structure Listed (t : Cdt) (slots : List ℕ) : Prop where
  threads : Threads t.next voidU32 t.freeHead slots
  free : ∀ i ∈ slots, t.Free i

/-- The free list holds the entries without references, and the table counts the others. -/
structure Valid (t : Cdt) : Prop where
  capacity : t.capacity ≤ maxEntries
  slots : ∃ slots, t.Listed slots ∧ (∀ i, t.Free i → i ∈ slots) ∧
    t.count + slots.length = t.capacity

theorem Listed.free_freeHead {slots : List ℕ} (h : t.Listed slots) (hhead : t.freeHead ≠ voidU32) :
    t.Free t.freeHead :=
  h.free _ (h.threads.head_mem hhead)

/-- The end mark of the free list is no entry. -/
theorem Valid.not_free_void (h : t.Valid) : ¬ t.Free voidU32 := by
  rintro ⟨hlt, -⟩
  have hcap := h.capacity
  unfold maxEntries voidU32 at *
  omega

theorem Valid.count_le (h : t.Valid) : t.count ≤ t.capacity := by
  obtain ⟨slots, -, -, hcount⟩ := h.slots
  omega

theorem Valid.count_lt (h : t.Valid) : t.count + 1 < 2 ^ 32 := by
  have hcap := h.capacity
  have := h.count_le
  unfold maxEntries at hcap
  omega

/-- The count is the number of entries with references. -/
theorem Valid.count_eq (h : t.Valid) : t.count = t.used := by
  obtain ⟨slots, hslots, hall, hcount⟩ := h.slots
  have hfree : ((Finset.range t.capacity).filter fun i => ¬ 0 < (t.entries i).refcount).card =
      slots.length := by
    rw [← List.toFinset_card_of_nodup hslots.threads.nodup]
    congr 1
    ext i
    rw [Finset.mem_filter, Finset.mem_range, List.mem_toFinset, Nat.pos_iff_ne_zero, not_not]
    exact ⟨hall i, hslots.free i⟩
  have hsplit := Finset.card_filter_add_card_filter_not (s := Finset.range t.capacity)
    fun i => 0 < (t.entries i).refcount
  rw [Finset.card_range, hfree] at hsplit
  unfold used
  omega

/-- The list is empty where all entries have references. -/
theorem Valid.freeHead_eq_void (h : t.Valid) : t.freeHead = voidU32 ↔ t.count = t.capacity := by
  obtain ⟨slots, hslots, -, hcount⟩ := h.slots
  rw [← hslots.threads.eq_nil_iff fun hmem => h.not_free_void (hslots.free _ hmem),
    ← List.length_eq_zero_iff]
  omega

theorem InUse.not_free (h : t.InUse compact) : ¬ t.Free compact.cdtIndex :=
  fun hfree => h.refcount hfree.2

theorem Valid.count_pos (h : t.Valid) (huse : t.InUse compact) : 0 < t.count := by
  rw [h.count_eq]
  exact Finset.card_pos.2 ⟨compact.cdtIndex, Finset.mem_filter.2
    ⟨Finset.mem_range.2 huse.index, Nat.pos_of_ne_zero huse.refcount⟩⟩

/-! ## The free list after an operation -/

variable {t' : Cdt} {slots : List ℕ}

@[simp] theorem put_capacity (t : Cdt) (index : ℕ) (entry : CdtEntry) :
    (t.put index entry).capacity = t.capacity :=
  rfl

@[simp] theorem put_self (t : Cdt) (index : ℕ) (entry : CdtEntry) :
    (t.put index entry).entries index = entry := by
  simp only [put, Function.update_self]

theorem put_of_ne (t : Cdt) {index i : ℕ} (h : i ≠ index) (entry : CdtEntry) :
    (t.put index entry).entries i = t.entries i := by
  simp only [put, Function.update_of_ne h]

/-- Taking the first free entry into use. -/
theorem Listed.take (h : t.Listed slots) (entry : CdtEntry) (hhead : t.freeHead ≠ voidU32)
    (hentries : t'.entries = (t.put t.freeHead entry).entries)
    (hcapacity : t'.capacity = t.capacity) (hnext : t'.freeHead = t.next t.freeHead) :
    ∃ rest, slots = t.freeHead :: rest ∧ t'.Listed rest := by
  obtain ⟨rest, rfl, hmem, hrest⟩ := h.threads.pop t'.next hhead
    fun i hi => by simp only [next, hentries, put_of_ne t hi]
  refine ⟨rest, rfl, by rwa [hnext], fun i hi => ?_⟩
  have hne : i ≠ t.freeHead := by
    rintro rfl
    exact hmem hi
  have hfree := h.free i (List.mem_cons_of_mem _ hi)
  rwa [Free, hentries, hcapacity, put_of_ne t hne]

/-- Freeing an entry. -/
theorem Listed.give (h : t.Listed slots) (huse : t.InUse compact)
    (hentries : t'.entries = (t.put compact.cdtIndex ⟨.void, 0, t.freeHead⟩).entries)
    (hcapacity : t'.capacity = t.capacity) (hhead : t'.freeHead = compact.cdtIndex) :
    t'.Listed (compact.cdtIndex :: slots) := by
  have hpush := h.threads.push t'.next (fun hmem => huse.not_free (h.free _ hmem))
    (by simp only [next, hentries, put_self])
    fun i hi => by simp only [next, hentries, put_of_ne t hi]
  refine ⟨by rwa [hhead], fun i hi => ?_⟩
  rcases eq_or_ne i compact.cdtIndex with rfl | hne
  · simp [Free, hentries, hcapacity, huse.index]
  · have hfree := h.free i ((List.mem_cons.1 hi).resolve_left hne)
    rwa [Free, hentries, hcapacity, put_of_ne t hne]

/-- An entry in use is on no free list, so its count may change. -/
theorem Listed.put_refcount (h : t.Listed slots) (huse : t.InUse compact) (refcount : ℕ) :
    (t.put compact.cdtIndex { t.entries compact.cdtIndex with refcount }).Listed slots := by
  have hne : ∀ i ∈ slots, i ≠ compact.cdtIndex := by
    rintro i hi rfl
    exact huse.not_free (h.free _ hi)
  refine ⟨h.threads.congr fun i hi => ?_, fun i hi => ?_⟩
  · simp only [next, put_of_ne t (hne i hi)]
  · have hfree := h.free i hi
    rwa [Free, put_capacity, put_of_ne t (hne i hi)]

/-! ## Every operation keeps the invariant -/

/-- The last entry ends the list that a new table starts with. -/
theorem chain_initEntries (capacity : ℕ) : ∀ n i : ℕ, i + (n + 1) = capacity →
    Chain (initEntries capacity).next voidU32 i (List.range' i (n + 1))
  | 0, i, h => by
    refine ⟨rfl, ?_⟩
    simp only [List.range'_zero, Chain, next, initEntries]
    rw [if_neg (by omega), if_pos (by omega)]
  | n + 1, i, h => by
    rw [List.range'_succ]
    refine ⟨rfl, ?_⟩
    have hnext : (initEntries capacity).next i = i + 1 := by
      simp only [next, initEntries]
      rw [if_pos (by omega)]
    rw [hnext]
    exact chain_initEntries capacity n (i + 1) (by omega)

theorem valid_init {capacity : ℕ} (h : init capacity = some t) : t.Valid := by
  unfold init at h
  split at h
  · cases h
  · next hcap =>
    obtain rfl := Option.some.inj h
    obtain ⟨n, rfl⟩ : ∃ n, capacity = n + 1 := ⟨capacity - 1, by omega⟩
    refine ⟨by simp only [initEntries]; omega, List.range' 0 (n + 1),
      ⟨⟨chain_initEntries (n + 1) n 0 (Nat.zero_add _), List.nodup_range'⟩, fun i hi => ?_⟩,
      fun i hi => ?_, ?_⟩
    · rw [List.mem_range'_1] at hi
      exact ⟨by simpa [initEntries] using hi.2, rfl⟩
    · rw [List.mem_range'_1]
      exact ⟨Nat.zero_le _, by simpa [initEntries] using hi.1⟩
    · simp [initEntries]

theorem valid_alloc (h : t.Valid) (cap : Capability) : (t.alloc cap).1.Valid := by
  rcases alloc_cases t cap with ⟨-, heq⟩ | ⟨-, hhead, heq⟩
  · rw [heq]
    exact h
  · have hentries : (t.alloc cap).1.entries = (t.put t.freeHead ⟨cap, 1, 0⟩).entries := by rw [heq]
    have hcapacity : (t.alloc cap).1.capacity = t.capacity := by rw [heq]
    have hcount : (t.alloc cap).1.count = t.count + 1 := by
      rw [heq]
      exact u32_of_lt h.count_lt
    obtain ⟨slots, hslots, hall, hlength⟩ := h.slots
    obtain ⟨rest, rfl, hrest⟩ := hslots.take _ hhead hentries hcapacity (by rw [heq])
    refine ⟨hcapacity.le.trans h.capacity, rest, hrest, fun i hi => ?_, ?_⟩
    · rcases eq_or_ne i t.freeHead with rfl | hne
      · simp [Free, hentries] at hi
      · rw [Free, hentries, hcapacity, put_of_ne t hne] at hi
        exact (List.mem_cons.1 (hall i hi)).resolve_left hne
    · rw [List.length_cons] at hlength
      omega

/-- A reference count may change while it is not zero. -/
theorem Valid.put_refcount (h : t.Valid) (huse : t.InUse compact) {refcount : ℕ}
    (href : refcount ≠ 0) :
    (t.put compact.cdtIndex { t.entries compact.cdtIndex with refcount }).Valid := by
  obtain ⟨slots, hslots, hall, hlength⟩ := h.slots
  refine ⟨h.capacity, slots, hslots.put_refcount huse refcount, fun i hi => hall i ?_, hlength⟩
  rcases eq_or_ne i compact.cdtIndex with rfl | hne
  · simp [Free, href] at hi
  · rwa [Free, put_capacity, put_of_ne t hne] at hi

theorem valid_release (h : t.Valid) (compact : CapCompact) : (t.release compact).1.Valid := by
  rcases release_cases t compact with ⟨-, heq, -⟩ | ⟨huse, -, heq⟩ | ⟨huse, hmore, heq⟩
  · rw [heq]
    exact h
  · have hentries : (t.release compact).1.entries =
        (t.put compact.cdtIndex ⟨.void, 0, t.freeHead⟩).entries := by rw [heq]
    have hcapacity : (t.release compact).1.capacity = t.capacity := by rw [heq]
    have hcount : (t.release compact).1.count = t.count - 1 := by
      rw [heq]
      exact u32_pred (h.count_pos huse) (Nat.lt_of_succ_lt h.count_lt)
    have hpos := h.count_pos huse
    obtain ⟨slots, hslots, hall, hlength⟩ := h.slots
    refine ⟨hcapacity.le.trans h.capacity, _,
      hslots.give huse hentries hcapacity (by rw [heq]), fun i hi => ?_, ?_⟩
    · rcases eq_or_ne i compact.cdtIndex with rfl | hne
      · exact List.mem_cons_self
      · rw [Free, hentries, hcapacity, put_of_ne t hne] at hi
        exact List.mem_cons_of_mem _ (hall i hi)
    · rw [List.length_cons]
      omega
  · rw [heq]
    exact h.put_refcount huse (by omega)

/-- The operation wraps no reference count. -/
def CountsRefs (t : Cdt) : CdtOp → Prop
  | .addref compact => t.InUse compact → (t.entries compact.cdtIndex).refcount + 1 < 2 ^ 32
  | _ => True

theorem valid_step (h : t.Valid) (op : CdtOp) (hrefs : t.CountsRefs op) :
    (t.step op).1.Valid := by
  cases op with
  | alloc cap => exact valid_alloc h cap
  | lookup compact => exact h
  | addref compact =>
    rcases addref_cases t compact with ⟨-, heq, -⟩ | ⟨huse, heq⟩
    · rw [step, heq]
      exact h
    · rw [step, heq]
      refine h.put_refcount huse ?_
      rw [u32_of_lt (hrefs huse)]
      omega
  | release compact => exact valid_release h compact

/-- **The table invariant.** After any operations on a new table, with any handles, the free
list is a list without repetition of the entries that have no references, `count` is the
number of the others, `alloc` returns an index that is not in use, and it fails for a
capability that is not VOID exactly where the table is full. -/
theorem table_valid {capacity : ℕ} (hinit : init capacity = some t) (ops : List CdtOp)
    (hrefs : Guarded step CountsRefs t ops) :
    (∃ slots, Threads (run step t ops).next voidU32 (run step t ops).freeHead slots ∧
        ∀ i, i ∈ slots ↔ (run step t ops).Free i) ∧
      (run step t ops).count = (run step t ops).used ∧
      ∀ cap, cap.isVoid = false →
        (((run step t ops).alloc cap).2.isVoid = false →
          (run step t ops).Free ((run step t ops).alloc cap).2.cdtIndex) ∧
        (((run step t ops).alloc cap).2.isVoid = true ↔
          (run step t ops).count = (run step t ops).capacity) := by
  have hvalid : (run step t ops).Valid :=
    guarded_invariant (I := Valid) (fun _ op h hok => valid_step h op hok) (valid_init hinit) hrefs
  generalize run step t ops = t' at hvalid
  obtain ⟨slots, hslots, hall, -⟩ := hvalid.slots
  refine ⟨⟨slots, hslots.threads, fun i => ⟨hslots.free i, hall i⟩⟩, hvalid.count_eq,
    fun cap hcap => ?_⟩
  rw [← hvalid.freeHead_eq_void]
  rcases alloc_cases t' cap with ⟨hfull, heq⟩ | ⟨-, hhead, heq⟩
  · rw [heq]
    refine ⟨fun h => absurd h (by simp [CapCompact.isVoid, CapCompact.void]),
      iff_of_true rfl (hfull.resolve_left ?_)⟩
    simp [hcap]
  · rw [heq]
    refine ⟨fun _ => hslots.free_freeHead hhead, iff_of_false ?_ hhead⟩
    simp [CapCompact.isVoid, hhead]

/-- Filling a table of two entries, with references taken and a forged handle released. -/
def fillOps : List CdtOp :=
  [.alloc (.create 4096 64 1 0xFF), .addref ⟨0, 8, 0x01⟩, .release ⟨7, 0, 0⟩,
    .alloc (.create 8192 64 1 0xFF), .release ⟨0, 0, 0⟩]

theorem table_valid_fill :
    (run step (initEntries 2) fillOps).count = 2 ∧
      (run step (initEntries 2) fillOps).count = (run step (initEntries 2) fillOps).used := by
  have hinit : init 2 = some (initEntries 2) := rfl
  have hrefs : Guarded step CountsRefs (initEntries 2) fillOps :=
    ⟨trivial, fun _ => by decide, trivial, trivial, trivial, trivial⟩
  exact ⟨by decide, (table_valid hinit fillOps hrefs).2.1⟩

end Cdt

end Seraph
