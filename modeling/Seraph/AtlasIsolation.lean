import Seraph.AtlasActivation

/-!
# Snapshot isolation

Activation freezes the bytes of the included pages (`Frozen`). Afterwards the snapshot is
`Isolated` : each entry holds a copy in the reserved storage, a copy of an included page has
the bytes of the activation, and so has an included page that has no copy. Then
`snapshotReadPage` reads the bytes of the activation (`Isolated.readPage`).

`cowPage` does not compare the number of copies with the size of the storage, and nothing
makes the allocator or another snapshot copy a page before writing it. So a step keeps the
snapshot isolated where it is `Undisturbed` : a copy of this snapshot goes to its own
storage, no other call writes the struct or the storage, and no included page is written
before it is copied. Along a run of such steps every read is the read of the activation
(`snapshot_isolated`).
-/

namespace Seraph

open ByteMem Memory Runs Atlas

/-- What the activation of a snapshot fixes. -/
structure Frozen where
  /-- The slot of the snapshot. -/
  slot : Fin maxSnapshots
  /-- Its struct. -/
  base : ℕ
  /-- Its COW storage. -/
  storage : Region
  /-- The included pages. -/
  pages : ℕ → Prop
  /-- The bytes at activation. -/
  mem : Memory

/-- The snapshot at `s` in slot `k`, as it is in `σ`. -/
def Atlas.frozen (σ : Atlas) (k : Fin maxSnapshots) (s : ℕ) (pages : ℕ → Prop) : Frozen where
  slot := k
  base := s
  storage := σ.storageOf s
  pages := pages
  mem := σ.mem

namespace Frozen

variable (v : Frozen)

/-- The page of storage for copy `i`. -/
def copyRegion (i : ℕ) : Region :=
  ⟨v.storage.start + i * pageSize, pageSize⟩

/-- The words of the struct that list the copies : entries, count and storage offset. -/
def cowRegion : Region :=
  ⟨v.base + Snapshot.cowPages 0, 32784⟩

/-- Entry `i` records a copy in the storage, with the bytes of the activation if the page is
included. -/
structure Holds (σ : Atlas) (i : ℕ) : Prop where
  valid : σ.mem.get (cowEntry v.base i) CowPage.flags &&& CowPage.valid ≠ 0
  one : σ.mem.get (cowEntry v.base i) CowPage.pageCount = 1
  copy : σ.mem.get (cowEntry v.base i) CowPage.copyOffset = v.storage.start + i * pageSize
  inside : v.storage.start + i * pageSize < σ.size
  off : (v.copyRegion i).Disjoint (snapRegion v.base)
  aligned : σ.cowPageAt v.base i % pageSize = 0
  same : v.pages (σ.cowPageAt v.base i) →
    SameBytes v.mem (σ.cowPageAt v.base i) σ.mem (v.storage.start + i * pageSize) pageSize

end Frozen

/-- The copies of the snapshot, and the included pages without a copy, have the bytes of the
activation. -/
structure Isolated (v : Frozen) (σ : Atlas) : Prop where
  init : σ.initialized = true
  size : σ.size < 2 ^ 64
  slot : σ.snapshots v.slot = some v.base
  started : σ.snapState v.base ≠ SnapState.preparing.code
  offset : σ.mem.get v.base Snapshot.cowStorageOffset = v.storage.start
  count : σ.cowCount v.base ≤ snapshotMaxPages
  room : σ.cowCount v.base * pageSize ≤ v.storage.len
  holds : ∀ i < σ.cowCount v.base, v.Holds σ i
  distinct : ∀ i j, i < j → j < σ.cowCount v.base →
    σ.cowPageAt v.base i ≠ σ.cowPageAt v.base j
  pages : ∀ p, v.pages p → (∀ i < σ.cowCount v.base, σ.cowPageAt v.base i ≠ p) →
    SameBytes v.mem p σ.mem p pageSize

/-- The operation is a call on the snapshot of slot `k` that may write its struct. -/
def Op.on (k : Fin maxSnapshots) : Op → Bool
  | .snap (.includePages j _ _) => j = k
  | .snap (.includeAll j) => j = k
  | .snap (.activate j) => j = k
  | .snap (.commit j) => j = k
  | .snap (.cowPage j _) => j = k
  | _ => false

/-- The operation does not disturb the snapshot : a copy it makes goes to the snapshot's own
storage, another call writes neither the struct nor the storage, and no included page is
written that has no copy, other than by the call that makes it. -/
structure Undisturbed (v : Frozen) (σ : Atlas) (op : Op) : Prop where
  room : ∀ page, op = .snap (.cowPage v.slot page) → σ.Copies v.base page →
    (Region.mk (σ.cowSlot v.base) pageSize).Within v.storage ∧
      (Region.mk (σ.cowSlot v.base) pageSize).Disjoint (snapRegion v.base)
  others : op.on v.slot = false → ∀ r ∈ op.writes σ,
    r.Disjoint (snapRegion v.base) ∧ r.Disjoint v.storage
  pages : ∀ p, v.pages p → snapshotFindCowPage σ.mem v.base p = none →
    (∀ page, op = .snap (.cowPage v.slot page) → σ.Copies v.base page → σ.pageOf page ≠ p) →
    ∀ r ∈ op.writes σ, r.Disjoint ⟨p, pageSize⟩

namespace Isolated

variable {v : Frozen} {σ τ : Atlas}

theorem entry_within {i : ℕ} (hi : i < snapshotMaxPages) :
    (Region.mk (cowEntry v.base i) CowPage.size).Within v.cowRegion := by
  simp only [Region.Within, Frozen.cowRegion, cowEntry, Snapshot.cowPages, CowPage.size,
    snapshotMaxPages] at hi ⊢
  omega

theorem cowRegion_within : v.cowRegion.Within (snapRegion v.base) := by
  simp only [Region.Within, Frozen.cowRegion, snapRegion, Snapshot.cowPages, CowPage.size,
    Snapshot.size]
  omega

theorem copyRegion_within (h : Isolated v σ) {i : ℕ} (hi : i < σ.cowCount v.base) :
    (v.copyRegion i).Within v.storage := by
  have hroom := h.room
  simp only [Region.Within, Frozen.copyRegion]
  have : (i + 1) * pageSize ≤ σ.cowCount v.base * pageSize := Nat.mul_le_mul_right _ hi
  rw [Nat.succ_mul] at this
  omega

/-- Every entry is valid, so a page has no copy when no entry is for it. -/
theorem find_none_iff (h : Isolated v σ) {p : ℕ} :
    snapshotFindCowPage σ.mem v.base p = none ↔
      ∀ i < σ.cowCount v.base, σ.cowPageAt v.base i ≠ p :=
  find_none.trans ⟨fun hf i hi => hf i hi (h.holds i hi).valid, fun hf i hi _ => hf i hi⟩

/-- A step that leaves the list of copies, the copies and the uncopied included pages alone. -/
theorem frame (h : Isolated v σ) (hk : Keeps σ τ) {rs : List Region}
    (hc : ChangesOnly rs σ.mem τ.mem) (hcow : ∀ r ∈ rs, r.Disjoint v.cowRegion)
    (hcopies : ∀ i < σ.cowCount v.base, ∀ r ∈ rs, r.Disjoint (v.copyRegion i))
    (hpages : ∀ p, v.pages p → (∀ i < σ.cowCount v.base, σ.cowPageAt v.base i ≠ p) →
      ∀ r ∈ rs, r.Disjoint ⟨p, pageSize⟩)
    (hstate : τ.snapState v.base ≠ SnapState.preparing.code) : Isolated v τ := by
  have hentry : ∀ i < snapshotMaxPages, ∀ f : StructField, f.Inside CowPage.size →
      τ.mem.get (cowEntry v.base i) f = σ.mem.get (cowEntry v.base i) f :=
    fun i hi f hf => hc.get hf fun r hr => ((hcow r hr).mono (entry_within hi)).symm
  have hword : ∀ f : StructField, (Region.mk (v.base + f.off) f.width).Within v.cowRegion →
      τ.mem.get v.base f = σ.mem.get v.base f :=
    fun f hf => hc.load fun r hr => ((hcow r hr).mono hf).symm
  have hcount : τ.cowCount v.base = σ.cowCount v.base := by
    refine hword Snapshot.cowPageCount ?_
    simp only [Region.Within, Frozen.cowRegion, Snapshot.cowPages, Snapshot.cowPageCount,
      CowPage.size]
    omega
  have hat : ∀ i < σ.cowCount v.base, τ.cowPageAt v.base i = σ.cowPageAt v.base i :=
    fun i hi => hentry i (hi.trans_le h.count) _ (by decide)
  refine ⟨hk.init.trans h.init, hk.size.trans_lt h.size, hk.snapshots _ _ h.slot,
    hstate, ?_, hcount.trans_le h.count, ?_, fun i hi => ?_, fun i j hij hj => ?_,
    fun p hp hno => ?_⟩
  · refine (hword Snapshot.cowStorageOffset ?_).trans h.offset
    simp only [Region.Within, Frozen.cowRegion, Snapshot.cowPages, Snapshot.cowStorageOffset,
      CowPage.size]
    omega
  · rw [hcount]
    exact h.room
  · rw [hcount] at hi
    have hmax := hi.trans_le h.count
    have hold := h.holds i hi
    refine ⟨?_, ?_, ?_, hold.inside.trans_eq hk.size.symm, hold.off, ?_, ?_⟩
    · rw [hentry i hmax _ (by decide)]
      exact hold.valid
    · rw [hentry i hmax _ (by decide)]
      exact hold.one
    · rw [hentry i hmax _ (by decide)]
      exact hold.copy
    · rw [hat i hi]
      exact hold.aligned
    · rw [hat i hi]
      exact fun hp => (hold.same hp).frame hc fun r hr => (hcopies i hi r hr).symm
  · rw [hcount] at hj
    rw [hat i (hij.trans hj), hat j hj]
    exact h.distinct i j hij hj
  · rw [hcount] at hno
    have hno' : ∀ i < σ.cowCount v.base, σ.cowPageAt v.base i ≠ p := fun i hi => by
      rw [← hat i hi]
      exact hno i hi
    exact (h.pages p hp hno').frame hc fun r hr => (hpages p hp hno' r hr).symm

/-! ## Copying a page -/

/-- A slot inside the storage is the next page of it : the sum does not wrap. -/
theorem cowSlot_eq (h : Isolated v σ)
    (hin : (Region.mk (σ.cowSlot v.base) pageSize).Within v.storage)
    (hcount : σ.cowCount v.base < snapshotMaxPages) :
    σ.cowSlot v.base = v.storage.start + σ.cowCount v.base * pageSize := by
  have hslot : σ.cowSlot v.base = u64 (v.storage.start + σ.cowCount v.base * pageSize) := by
    rw [← h.offset]
    rfl
  have hstart := get_lt σ.mem v.base Snapshot.cowStorageOffset
  rw [h.offset] at hstart
  simp only [Region.Within, hslot, u64, snapshotMaxPages, pageSize,
    Snapshot.cowStorageOffset] at hin hstart hcount ⊢
  omega

theorem pageOf_aligned (page : Ptr) : σ.pageOf page % pageSize = 0 :=
  Nat.mul_mod_left _ _

/-- A page offset in the region is a 64-bit number. -/
theorem lt_of_offsetToPtr {n : ℕ} (hsize : σ.size < 2 ^ 64) (h : σ.offsetToPtr n = some n) :
    n < σ.size ∧ n < 2 ^ 64 := by
  unfold offsetToPtr at h
  split_ifs at h with h1 h2
  have : n < σ.size := not_le.1 fun hle => h2 (Or.inl hle)
  exact ⟨this, this.trans hsize⟩

/-- `m` is the memory of `σ` with one more copy, of the page at `page`. -/
structure Recorded (v : Frozen) (σ : Atlas) (page : ℕ) (m : Memory) : Prop where
  count : m.get v.base Snapshot.cowPageCount = σ.cowCount v.base + 1
  pageOffset : m.get (cowEntry v.base (σ.cowCount v.base)) CowPage.pageOffset = page
  copyOffset : m.get (cowEntry v.base (σ.cowCount v.base)) CowPage.copyOffset =
    v.storage.start + σ.cowCount v.base * pageSize
  one : m.get (cowEntry v.base (σ.cowCount v.base)) CowPage.pageCount = 1
  valid : m.get (cowEntry v.base (σ.cowCount v.base)) CowPage.flags &&& CowPage.valid ≠ 0
  same : SameBytes σ.mem page m (v.storage.start + σ.cowCount v.base * pageSize) pageSize
  entries : ∀ i < σ.cowCount v.base, ∀ f : StructField, f.Inside CowPage.size →
    m.get (cowEntry v.base i) f = σ.mem.get (cowEntry v.base i) f
  fields : ∀ f : StructField, f.Apart ⟨592, 32772⟩ → f.Inside Snapshot.size →
    m.get v.base f = σ.mem.get v.base f
  copies : ∀ i < σ.cowCount v.base, SameBytes σ.mem (v.storage.start + i * pageSize) m
    (v.storage.start + i * pageSize) pageSize

/-- What `recordCow` writes, where the slot is off the struct. -/
theorem cowWrites_eq {page : Ptr} (hc : σ.Copies v.base page)
    (hoff : (Region.mk (σ.cowSlot v.base) pageSize).Disjoint (snapRegion v.base)) :
    σ.cowWrites v.base page = [⟨σ.cowSlot v.base, pageSize⟩,
      ⟨cowEntry v.base (σ.cowCount v.base), CowPage.size⟩,
      ⟨v.base + Snapshot.cowPageCount.off, 4⟩] := by
  rw [cowWrites, if_pos hc, cowIndex_eq hoff]
  rfl

theorem recorded (h : Isolated v σ) {page : Ptr} (hc : σ.Copies v.base page)
    (hin : (Region.mk (σ.cowSlot v.base) pageSize).Within v.storage)
    (hoff : (Region.mk (σ.cowSlot v.base) pageSize).Disjoint (snapRegion v.base)) :
    Recorded v σ (σ.pageOf page) (σ.recordCow v.base (σ.pageOf page) (σ.cowSlot v.base)
      (σ.cowSlot v.base) (σ.pageOf page)) := by
  obtain ⟨-, hcount, -, hslotptr, hpageptr⟩ := id hc
  have hslot := h.cowSlot_eq hin hcount
  have hspec := recordCow_spec (σ.pageOf page) hcount hoff
  have hw := changesOnly_recordCow (σ := σ) v.base (σ.pageOf page) (σ.cowSlot v.base)
    (σ.cowSlot v.base) (σ.pageOf page)
  have hindex : (σ.mem.copy (σ.cowSlot v.base) (σ.pageOf page) pageSize).get v.base
      Snapshot.cowPageCount = σ.cowCount v.base := cowIndex_eq hoff
  rw [hindex] at hw
  generalize σ.recordCow v.base (σ.pageOf page) (σ.cowSlot v.base) (σ.cowSlot v.base)
    (σ.pageOf page) = m at hspec hw
  obtain ⟨hm, hpage, hcopy, hone, hvalid, hsame⟩ := hspec
  change σ.cowCount v.base < snapshotMaxPages at hcount
  rw [u64_of_lt (lt_of_offsetToPtr h.size hpageptr).2] at hpage
  rw [u64_of_lt (lt_of_offsetToPtr h.size hslotptr).2, hslot] at hcopy
  rw [hslot] at hsame
  -- a region disjoint from the slot, the new entry and the count is as before
  have hdisjoint : ∀ R : Region, R.Disjoint ⟨σ.cowSlot v.base, pageSize⟩ →
      R.Disjoint ⟨cowEntry v.base (σ.cowCount v.base), CowPage.size⟩ →
      R.Disjoint ⟨v.base + Snapshot.cowPageCount.off, 4⟩ →
      ∀ r ∈ [Region.mk (σ.cowSlot v.base) pageSize,
        ⟨cowEntry v.base (σ.cowCount v.base), CowPage.size⟩,
        ⟨v.base + Snapshot.cowPageCount.off, 4⟩], R.Disjoint r := by
    intro R h1 h2 h3
    simp only [List.forall_mem_cons]
    exact ⟨h1, h2, h3, by simp⟩
  refine ⟨hm, hpage, hcopy, hone, hvalid, hsame, fun i hi f hf => ?_, fun f hf hin => ?_,
    fun i hi => ?_⟩
  · refine hw.get hf (hdisjoint _ (hoff.mono ?_).symm ?_ ?_)
    · exact (entry_within (hi.trans hcount)).trans cowRegion_within
    · simp only [Region.Disjoint, cowEntry, Snapshot.cowPages, CowPage.size]
      omega
    · simp only [Region.Disjoint, cowEntry, Snapshot.cowPages, CowPage.size,
        Snapshot.cowPageCount, snapshotMaxPages] at hcount ⊢
      omega
  · refine hw.load (hdisjoint _ (hoff.mono ?_).symm ?_ ?_)
    · simp only [Region.Within, snapRegion, StructField.Inside] at hin ⊢
      omega
    · simp only [Region.Disjoint, StructField.Apart, cowEntry, Snapshot.cowPages, CowPage.size,
        snapshotMaxPages] at hf hcount ⊢
      omega
    · simp only [Region.Disjoint, StructField.Apart, Snapshot.cowPageCount] at hf ⊢
      omega
  · have hstruct := (h.holds i hi).off
    refine (SameBytes.refl _ _ _).frame hw (hdisjoint (v.copyRegion i) ?_ (hstruct.mono ?_)
      (hstruct.mono ?_))
    · have : (i + 1) * pageSize ≤ σ.cowCount v.base * pageSize := Nat.mul_le_mul_right _ hi
      rw [Nat.succ_mul] at this
      rw [hslot]
      exact Or.inl (by simp only [Frozen.copyRegion]; omega)
    · exact (entry_within hcount).trans cowRegion_within
    · simp only [Region.Within, snapRegion, Snapshot.cowPageCount, Snapshot.size]
      omega

/-- Copying a page keeps the snapshot isolated. -/
theorem copy (h : Isolated v σ) {page : Ptr} (hc : σ.Copies v.base page)
    (hin : (Region.mk (σ.cowSlot v.base) pageSize).Within v.storage)
    (hoff : (Region.mk (σ.cowSlot v.base) pageSize).Disjoint (snapRegion v.base))
    (hpages : ∀ p, v.pages p → snapshotFindCowPage σ.mem v.base p = none → σ.pageOf page ≠ p →
      ∀ r ∈ σ.cowWrites v.base page, r.Disjoint ⟨p, pageSize⟩) {τ : Atlas}
    (hk : Keeps σ τ) (hτ : τ.mem = σ.recordCow v.base (σ.pageOf page) (σ.cowSlot v.base)
      (σ.cowSlot v.base) (σ.pageOf page)) : Isolated v τ := by
  have hr := h.recorded hc hin hoff
  have hw := changesOnly_recordCow (σ := σ) v.base (σ.pageOf page) (σ.cowSlot v.base)
    (σ.cowSlot v.base) (σ.pageOf page)
  obtain ⟨⟨-, -, hfind⟩, hcount, -, hslotptr, hpageptr⟩ := id hc
  have hslot := h.cowSlot_eq hin hcount
  have hfresh := h.find_none_iff.1 hfind
  have hnew : τ.cowCount v.base = σ.cowCount v.base + 1 := by
    rw [cowCount, hτ]
    exact hr.count
  have hat : ∀ i < σ.cowCount v.base, τ.cowPageAt v.base i = σ.cowPageAt v.base i :=
    fun i hi => by
      rw [cowPageAt, hτ]
      exact hr.entries i hi _ (by decide)
  have hlast : τ.cowPageAt v.base (σ.cowCount v.base) = σ.pageOf page := by
    rw [cowPageAt, hτ]
    exact hr.pageOffset
  refine ⟨hk.init.trans h.init, hk.size.trans_lt h.size, hk.snapshots _ _ h.slot, ?_, ?_,
    hnew.trans_le hcount, ?_, fun i hi => ?_, fun i j hij hj => ?_, fun p hp hno => ?_⟩
  · rw [snapState, hτ, hr.fields _ (by decide) (by decide)]
    exact h.started
  · rw [hτ, hr.fields _ (by decide) (by decide)]
    exact h.offset
  · rw [hnew, Nat.succ_mul]
    have := hin.2
    simp only [hslot] at this
    omega
  · rw [hnew] at hi
    rcases Nat.lt_succ_iff_lt_or_eq.1 hi with hi | rfl
    · have hold := h.holds i hi
      refine ⟨?_, ?_, ?_, hold.inside.trans_eq hk.size.symm, hold.off, ?_, ?_⟩
      · rw [hτ, hr.entries i hi _ (by decide)]
        exact hold.valid
      · rw [hτ, hr.entries i hi _ (by decide)]
        exact hold.one
      · rw [hτ, hr.entries i hi _ (by decide)]
        exact hold.copy
      · rw [hat i hi]
        exact hold.aligned
      · rw [hat i hi, hτ]
        exact fun hp => (hold.same hp).trans (hr.copies i hi)
    · refine ⟨?_, ?_, ?_, ?_, ?_, ?_, ?_⟩
      · rw [hτ]
        exact hr.valid
      · rw [hτ]
        exact hr.one
      · rw [hτ]
        exact hr.copyOffset
      · rw [← hslot, hk.size]
        exact (lt_of_offsetToPtr h.size hslotptr).1
      · rw [hslot] at hoff
        exact hoff
      · rw [hlast]
        exact pageOf_aligned page
      · rw [hlast, hτ]
        exact fun hp => (h.pages _ hp hfresh).trans hr.same
  · rw [hnew] at hj
    rcases Nat.lt_succ_iff_lt_or_eq.1 hj with hj | rfl
    · rw [hat i (hij.trans hj), hat j hj]
      exact h.distinct i j hij hj
    · rw [hat i hij, hlast]
      exact hfresh i hij
  · have hne : σ.pageOf page ≠ p := fun heq =>
      hno (σ.cowCount v.base) (by rw [hnew]; exact Nat.lt_succ_self _) (hlast.trans heq)
    have hno' : ∀ i < σ.cowCount v.base, σ.cowPageAt v.base i ≠ p := fun i hi => by
      rw [← hat i hi]
      exact hno i (by rw [hnew]; exact Nat.lt_succ_of_lt hi)
    have hdis := hpages p hp (h.find_none_iff.2 hno') hne
    rw [cowWrites, if_pos hc] at hdis
    rw [hτ]
    exact (h.pages p hp hno').frame hw fun r hr => (hdis r hr).symm

/-! ## One step -/

/-- A call that only writes the state or the commit time. -/
theorem states (h : Isolated v σ) (hk : Keeps σ τ) {rs : List Region}
    (hc : ChangesOnly rs σ.mem τ.mem)
    (hrs : ∀ r ∈ rs, r.Within (snapRegion v.base) ∧ r.Disjoint v.cowRegion)
    (hpages : ∀ p, v.pages p → snapshotFindCowPage σ.mem v.base p = none →
      ∀ r ∈ rs, r.Disjoint ⟨p, pageSize⟩)
    (hstate : τ.snapState v.base ≠ SnapState.preparing.code) : Isolated v τ :=
  h.frame hk hc (fun r hr => (hrs r hr).2)
    (fun i hi r hr => ((h.holds i hi).off.mono (hrs r hr).1).symm)
    (fun p hp hno => hpages p hp (h.find_none_iff.2 hno)) hstate

/-- An undisturbed call on the snapshot itself. -/
theorem step_own (h : Isolated v σ) {op : Op} (hop : Undisturbed v σ op)
    (hon : op.on v.slot = true) : Isolated v (Op.step σ op).1 := by
  have hk := Op.keeps h.init op
  have hc := Op.changesOnly h.init op
  have hword : ∀ off n : ℕ, off + n ≤ 592 ∨ 33376 ≤ off ∧ off + n ≤ Snapshot.size →
      (Region.mk (v.base + off) n).Within (snapRegion v.base) ∧
        (Region.mk (v.base + off) n).Disjoint v.cowRegion := by
    intro off n hoff
    simp only [Region.Within, Region.Disjoint, snapRegion, Frozen.cowRegion, Snapshot.cowPages,
      Snapshot.size] at hoff ⊢
    omega
  cases op with
  | alloc op => cases hon
  | work op => cases hon
  | snap op =>
    cases op with
    | begin vclock => cases hon
    | restore j => cases hon
    | includePages j ptr size =>
      obtain rfl : j = v.slot := of_decide_eq_true hon
      rcases snapshotInclude_cases (σ := σ) v.base ptr size with hs | ⟨-, hprep, -⟩
      · simp only [Op.step, SnapOp.step, h.slot, hs]
        exact h
      · exact absurd hprep h.started
    | includeAll j =>
      obtain rfl : j = v.slot := of_decide_eq_true hon
      rcases snapshotIncludeAll_cases (σ := σ) v.base with hs | ⟨-, hprep, -⟩
      · simp only [Op.step, SnapOp.step, h.slot, hs]
        exact h
      · exact absurd hprep h.started
    | activate j =>
      obtain rfl : j = v.slot := of_decide_eq_true hon
      rcases snapshotActivate_cases h.init v.base with ⟨b, hs, -⟩ | ⟨hprep, -⟩ | ⟨-, -, hprep, -⟩
      · simp only [Op.step, SnapOp.step, h.slot, hs]
        exact h
      · exact absurd hprep h.started
      · exact absurd hprep h.started
    | commit j =>
      obtain rfl : j = v.slot := of_decide_eq_true hon
      rcases snapshotCommit_cases (σ := σ) v.base with hs | ⟨hstate, hs⟩
      · simp only [Op.step, SnapOp.step, h.slot, hs]
        exact h
      · have hpages := fun p hp hno => hop.pages p hp hno fun page hpage => by cases hpage
        simp only [Op.writes, SnapOp.writes, h.slot, if_pos hstate] at hpages hc
        refine h.states hk hc ?_ hpages ?_
        · simp only [List.forall_mem_cons]
          exact ⟨hword _ _ (by decide), hword _ _ (by decide), by simp⟩
        · simp only [Op.step, SnapOp.step, h.slot, hs, snapState, tickVclock_mem]
          simp (disch := decide) only [assign, get_set_same]
          decide
    | cowPage j page =>
      obtain rfl : j = v.slot := of_decide_eq_true hon
      rcases snapshotCowPage_cases h.init v.base page with ⟨b, -, hs, -⟩ | ⟨hmust, hno, hs⟩ |
        ⟨hcopies, hs⟩
      · simp only [Op.step, SnapOp.step, h.slot, hs]
        exact h
      · have hpages := fun p hp hnone => hop.pages p hp hnone fun page' hpage hcopies => by
          obtain rfl : page = page' := by
            injection hpage with hpage
            injection hpage
          exact absurd hcopies hno
        simp only [Op.writes, SnapOp.writes, h.slot, cowWrites, if_neg hno, if_pos hmust]
          at hpages hc
        refine h.states hk hc ?_ hpages ?_
        · simp only [List.forall_mem_cons]
          exact ⟨hword _ _ (by decide), by simp⟩
        · simp only [Op.step, SnapOp.step, h.slot, hs, snapState, failSnapshot, get_set_same]
          decide
      · obtain ⟨hin, hoff⟩ := hop.room page rfl hcopies
        refine h.copy hcopies hin hoff (fun p hp hnone hne => ?_) hk ?_
        · have hpages := hop.pages p hp hnone fun page' hpage _ => by
            obtain rfl : page = page' := by
              injection hpage with hpage
              injection hpage
            exact hne
          simpa only [Op.writes, SnapOp.writes, h.slot] using hpages
        · simp only [Op.step, SnapOp.step, h.slot, hs]

/-- An undisturbed step keeps the snapshot isolated. -/
theorem step (h : Isolated v σ) {op : Op} (hop : Undisturbed v σ op) :
    Isolated v (Op.step σ op).1 := by
  cases hon : op.on v.slot with
  | true => exact h.step_own hop hon
  | false =>
    have hothers := hop.others hon
    have hc := Op.changesOnly h.init op
    refine h.frame (Op.keeps h.init op) hc
      (fun r hr => (hothers r hr).1.mono cowRegion_within)
      (fun i hi r hr => (hothers r hr).2.mono (h.copyRegion_within hi))
      (fun p hp hno => hop.pages p hp (h.find_none_iff.2 hno) fun page hpage => ?_) ?_
    · rw [hpage] at hon
      simp [Op.on] at hon
    · have hkeep : (Op.step σ op).1.snapState v.base = σ.snapState v.base :=
        hc.get (n := Snapshot.size) (by decide) fun r hr => (hothers r hr).1.symm
      rw [hkeep]
      exact h.started

/-- An undisturbed run keeps the snapshot isolated. -/
theorem run (h : Isolated v σ) {ops : List Op} (hg : Guarded Op.step (Undisturbed v) σ ops) :
    Isolated v (Runs.run Op.step σ ops) :=
  guarded_invariant (fun _ _ hs hop => hs.step hop) h hg

/-! ## Reading -/

theorem offsetToPtr (h : Isolated v σ) {n : ℕ} (hn : n < σ.size) :
    σ.offsetToPtr n = some n := by
  have hsize := h.size
  have hvoid : ¬(σ.size ≤ n ∨ n = voidU64) := by
    unfold voidU64
    omega
  simp only [Atlas.offsetToPtr, h.init, Bool.not_true, Bool.false_eq_true, if_false,
    if_neg hvoid]

/-- A read of an included page finds the bytes of the activation. -/
theorem readPage (h : Isolated v σ) {p a : ℕ} (hp : v.pages p) (halign : p % pageSize = 0)
    (hpa : p ≤ a) (hap : a < p + pageSize) (ha : a < σ.size) :
    ∃ q, σ.snapshotReadPage (some v.base) (some a) = some q ∧
      SameBytes v.mem p σ.mem q pageSize := by
  have hsize := h.size
  have hptr : ∀ n < σ.size, σ.offsetToPtr n = some n := fun n hn => h.offsetToPtr hn
  have hoff : σ.ptrToOffset (some a) = a := by
    simp [ptrToOffset, contains, ha]
  have hvoid : a ≠ voidU64 := by
    unfold voidU64
    omega
  have hpage : a / pageSize * pageSize = p := by
    simp only [pageSize] at halign hap ⊢
    omega
  simp only [snapshotReadPage, h.init, Bool.not_true, Bool.false_eq_true, if_false, hoff,
    if_neg hvoid, hpage]
  cases hfind : snapshotFindCowPage σ.mem v.base p with
  | none =>
    exact ⟨p, hptr p (hpa.trans_lt ha), h.pages p hp (h.find_none_iff.1 hfind)⟩
  | some i =>
    obtain ⟨hi, -, hat⟩ := find_some hfind
    have hcopy := h.holds i hi
    have hsame := hcopy.same (by rw [cowPageAt, hat]; exact hp)
    rw [cowPageAt, hat] at hsame
    refine ⟨_, ?_, hsame⟩
    simp only [hcopy.copy]
    exact hptr _ hcopy.inside

/-- An undisturbed copy changes the storage and the struct only. -/
theorem changesOnly_cowPage (h : Isolated v σ) {page : Ptr}
    (hop : Undisturbed v σ (.snap (.cowPage v.slot page))) :
    ChangesOnly [v.storage, snapRegion v.base] σ.mem
      (σ.snapshotCowPage (some v.base) page).1.mem := by
  have hstruct : snapRegion v.base ∈ [v.storage, snapRegion v.base] :=
    List.mem_cons_of_mem _ List.mem_cons_self
  rcases snapshotCowPage_cases h.init v.base page with ⟨b, -, hs, -⟩ | ⟨-, -, hs⟩ | ⟨hc, hs⟩
  · rw [hs]
    exact ChangesOnly.refl _ _
  · rw [hs]
    refine (changesOnly_set σ.mem v.base (n := Snapshot.size) (by decide) _).mono
      fun r hr => ⟨_, hstruct, ?_⟩
    rw [List.mem_singleton.1 hr]
    exact ⟨le_refl _, le_refl _⟩
  · obtain ⟨hin, hoff⟩ := hop.room page rfl hc
    have hw := Atlas.changesOnly_cowPage h.init v.base page
    rw [cowWrites_eq hc hoff] at hw
    refine hw.mono ?_
    simp only [List.forall_mem_cons]
    refine ⟨⟨_, List.mem_cons_self, hin⟩, ⟨_, hstruct, ?_⟩, ⟨_, hstruct, ?_⟩, by simp⟩
    · exact (entry_within hc.2.1).trans cowRegion_within
    · simp only [Region.Within, snapRegion, Snapshot.cowPageCount, Snapshot.size]
      omega

end Isolated

/-! ## From the activation on -/

/-- What the activation fixes. -/
def Atlas.frozenBy (σ : Atlas) (vclock : Option VectorClock) (between : List Op)
    (k : Fin maxSnapshots) (s : ℕ) : Frozen :=
  (run Op.step σ (prepare vclock between k)).frozen k s (σ.includedBy vclock between k)

/-- A snapshot that has just been activated is isolated, whichever pages it is about. -/
theorem Activated.isolated {σ : Atlas} (hinit : σ.initialized = true) (hsize : σ.size < 2 ^ 64)
    {vclock : Option VectorClock} {between : List Op} {k : Fin maxSnapshots} {s : ℕ}
    (h : Activated σ vclock between k s) (pages : ℕ → Prop) :
    Isolated ((run Op.step σ (prepare vclock between k)).frozen k s pages)
      (run Op.step σ (prepare vclock between k)) := by
  have hk := keeps_run hinit (prepare vclock between k)
  obtain ⟨hslot, hstate, hcount, -⟩ := h.spec hinit rfl
  generalize run Op.step σ (prepare vclock between k) = τ at hk hslot hstate hcount ⊢
  refine ⟨hk.init.trans hinit, hk.size.trans_lt hsize, hslot, ?_, rfl, ?_, ?_, fun i hi => ?_,
    fun i j _ hj => ?_, fun p _ _ => SameBytes.refl _ _ _⟩
  · change τ.snapState s ≠ _
    rw [hstate]
    decide
  · change τ.cowCount s ≤ _
    rw [hcount]
    exact Nat.zero_le _
  · change τ.cowCount s * _ ≤ _
    rw [hcount, Nat.zero_mul]
    exact Nat.zero_le _
  · change i < τ.cowCount s at hi
    rw [hcount] at hi
    exact absurd hi (Nat.not_lt_zero _)
  · change j < τ.cowCount s at hj
    rw [hcount] at hj
    exact absurd hj (Nat.not_lt_zero _)

/-- In a run of undisturbed steps after the activation, a read of an included page finds the
bytes of the activation, and `cowPage` changes the storage and the struct only. -/
theorem snapshot_isolated {mmap : ℕ → Bool} {mem : Memory} {request : ℕ} {σ : Atlas}
    (hnew : atlasInit mmap mem none request = some σ) (before : List Op)
    {vclock : Option VectorClock} {between : List Op} {k : Fin maxSnapshots} {s : ℕ}
    (hact : Activated (run Op.step σ before) vclock between k s) (later : List Op)
    (hg : Guarded Op.step (Undisturbed ((run Op.step σ before).frozenBy vclock between k s))
      (run Op.step σ (before ++ prepare vclock between k)) later) :
    let v := (run Op.step σ before).frozenBy vclock between k s
    let τ := run Op.step σ (before ++ prepare vclock between k ++ later)
    (∀ p a, v.pages p → p ≤ a → a < p + pageSize → a < τ.size →
      ∃ q, τ.snapshotReadPage (some s) (some a) = some q ∧
        SameBytes v.mem p τ.mem q pageSize) ∧
    ∀ page, Undisturbed v τ (.snap (.cowPage k page)) →
      ChangesOnly [v.storage, snapRegion s] τ.mem (τ.snapshotCowPage (some s) page).1.mem := by
  intro v τ
  obtain ⟨hinit, hsize⟩ := atlasInit_run hnew before
  have hiso : Isolated v τ := by
    have hτ : τ = run Op.step (run Op.step (run Op.step σ before) (prepare vclock between k))
        later := by
      simp only [τ, run_append]
    rw [run_append] at hg
    rw [hτ]
    exact (hact.isolated hinit hsize _).run hg
  refine ⟨fun p a hp hpa hap ha => hiso.readPage hp hp.aligned.1 hpa hap ha, fun page hop => ?_⟩
  exact hiso.changesOnly_cowPage hop

/-- Include the page at 131072 in the snapshot of slot 0. -/
def includePage : List Op :=
  [.snap (.includePages 0 (some 131072) 4096)]

/-- The snapshot at 16384 is brought to ACTIVE with one page, at 131072. -/
theorem activated_includePage : Activated smallAtlas none includePage 0 16384 :=
  ⟨by decide, by decide +kernel, ⟨Or.inl rfl, trivial⟩, by decide +kernel⟩

theorem eq_of_included {p : ℕ}
    (h : Included (calls Op.step (smallAtlas.begunWith none) includePage) 0 262144 p) :
    p = 131072 := by
  obtain ⟨c, hc, -, hcov⟩ := h
  rw [List.mem_singleton.1 hc] at hcov
  obtain ⟨-, halign, -, h1, h2⟩ := hcov
  simp only [pageSize] at halign h1
  omega

/-- On 256 KiB, the page at 131072 is written after its copy is made, and the read still
finds the bytes of the activation. -/
theorem snapshot_isolated_256k :
    let ops := prepare none includePage 0 ++
      [.snap (.cowPage 0 (some 131072)), .work (.write 131072 [1])]
    ∃ q, (run Op.step smallAtlas ops).snapshotReadPage (some 16384) (some 131072) = some q ∧
      SameBytes (run Op.step smallAtlas (prepare none includePage 0)).mem 131072
        (run Op.step smallAtlas ops).mem q pageSize := by
  refine (snapshot_isolated atlasInit_smallAtlas [] activated_includePage
    [.snap (.cowPage 0 (some 131072)), .work (.write 131072 [1])]
    ⟨⟨?_, ?_, ?_⟩, ⟨?_, ?_, ?_⟩, trivial⟩).1 131072 131072 ?_ (by decide) (by decide)
    (by decide)
  · intro page hpage _
    obtain rfl : page = some 131072 := by
      injection hpage with hpage
      injection hpage with _ hpage
      exact hpage.symm
    decide
  · intro hon
    cases hon
  · intro p hp _ hcopied
    rw [eq_of_included hp] at hcopied
    exact absurd (by decide) (hcopied (some 131072) rfl (by decide +kernel))
  · intro page hpage
    cases hpage
  · intro _
    decide
  · intro p hp hnone
    rw [eq_of_included hp] at hnone
    exact absurd hnone (by decide)
  · exact ⟨_, List.mem_singleton_self _, by decide,
      ⟨rfl, by decide, by decide, by decide, by decide⟩⟩

/-- On 256 KiB, one page of storage is reserved at 53248 for the page included. The copy of
another page, with a one at 135168, goes to 57344, outside the storage and the struct. -/
theorem not_isolated_second_page :
    let σ := run Op.step smallAtlas (.work (.write 135168 [1]) ::
      (prepare none includePage 0 ++ [.snap (.cowPage 0 (some 131072))]))
    (σ.snapshotCowPage (some 16384) (some 135168)).2 = .true ∧
      ¬ChangesOnly [σ.storageOf 16384, snapRegion 16384] σ.mem
        (σ.snapshotCowPage (some 16384) (some 135168)).1.mem := by
  intro σ
  refine ⟨by decide, fun h => ?_⟩
  have hbyte : (σ.snapshotCowPage (some 16384) (some 135168)).1.mem 57344 ≠ σ.mem 57344 := by
    decide
  refine hbyte (h 57344 fun r hr => ?_)
  simp only [List.mem_cons, List.not_mem_nil, or_false] at hr
  rcases hr with rfl | rfl <;> decide

end Seraph
