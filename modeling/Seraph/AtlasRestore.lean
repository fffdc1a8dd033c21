import Seraph.AtlasIsolation

/-!
# Restore

`snapshotRestore` copies each copy back to its page, from the first entry to the last. The
entries are for different pages, so a page that is back stays back (`Isolated.restorePages`),
and Genesis, which is written last, is not among the pages considered here. So a restore puts
every included page other than the Genesis page back where the snapshot is still isolated.

`cowPage` copies for an active snapshot only, so a page that is first written after the commit
has no copy, and the restore leaves the write in place. Along a run of undisturbed steps, in
which no included page is written before it is copied, a committed snapshot restores every
page (`pages_restored`).
-/

namespace Seraph

open ByteMem Memory Runs Atlas

namespace Isolated

variable {v : Frozen} {σ : Atlas}

/-- Two different pages share no byte. -/
theorem page_disjoint {p q : ℕ} (hp : p % pageSize = 0) (hq : q % pageSize = 0) (hne : p ≠ q) :
    (Region.mk p pageSize).Disjoint ⟨q, pageSize⟩ := by
  simp only [Region.Disjoint, pageSize] at hp hq ⊢
  omega

/-- The first `i` entries that are copies of included pages have been copied back. -/
def RestoredTo (v : Frozen) (σ : Atlas) (i : ℕ) : Prop :=
  ∀ j < i, j < σ.cowCount v.base → v.pages (σ.cowPageAt v.base j) →
    SameBytes v.mem (σ.cowPageAt v.base j) σ.mem (σ.cowPageAt v.base j) pageSize

/-- An entry for a page of the region is copied back. -/
theorem restorePage_eq (h : Isolated v σ) {i : ℕ} (hi : i < σ.cowCount v.base)
    (hpage : σ.cowPageAt v.base i < σ.size) :
    σ.restorePage v.base i = { σ with
      mem := σ.mem.copy (σ.cowPageAt v.base i) (v.storage.start + i * pageSize) pageSize } := by
  have hentry := h.holds i hi
  have hptr : ∀ n < σ.size, σ.offsetToPtr n = some n := fun n hn => h.offsetToPtr hn
  unfold Atlas.restorePage
  rw [if_neg hentry.valid, hentry.copy, hentry.one, hptr _ hentry.inside]
  rw [cowPageAt] at hpage ⊢
  rw [hptr _ hpage, Nat.one_mul]

/-- Restoring an entry changes its page only. -/
theorem changesOnly_restorePage (h : Isolated v σ) {i : ℕ} (hi : i < σ.cowCount v.base) :
    ChangesOnly [⟨σ.cowPageAt v.base i, pageSize⟩] σ.mem (σ.restorePage v.base i).mem := by
  have hw := Atlas.changesOnly_restorePage (σ := σ) v.base i
  rcases restorePage_cases (σ := σ) v.base i with ⟨hs, -⟩ | ⟨page, copy, hpage, -, -, -, -, -, hr⟩
  · rw [hs]
    exact ChangesOnly.refl _ _
  · rw [hr, hpage, (h.holds i hi).one, Nat.one_mul] at hw
    exact hw

variable {n : ℕ}

/-- One round of the restore loop. -/
theorem restorePage (h : Isolated v σ) (hsize : σ.size = n)
    (hpages : ∀ p, v.pages p → p % pageSize = 0 ∧ p < n) {i : ℕ}
    (hi : i < σ.cowCount v.base) (hback : RestoredTo v σ i)
    (hoff : ∀ r ∈ σ.restoredPage v.base i,
      r.Disjoint (snapRegion v.base) ∧ r.Disjoint v.storage) :
    Isolated v (σ.restorePage v.base i) ∧ RestoredTo v (σ.restorePage v.base i) (i + 1) ∧
      (σ.restorePage v.base i).cowCount v.base = σ.cowCount v.base := by
  have hc := Atlas.changesOnly_restorePage (σ := σ) v.base i
  have hw := h.changesOnly_restorePage hi
  have halign := fun j hj => (h.holds j hj).aligned
  have hcopied : v.pages (σ.cowPageAt v.base i) → SameBytes v.mem (σ.cowPageAt v.base i)
      (σ.restorePage v.base i).mem (σ.cowPageAt v.base i) pageSize := by
    intro hp
    have hcopy := ((h.holds i hi).same hp).copy (σ.cowPageAt v.base i)
    rw [h.restorePage_eq hi ((hpages _ hp).2.trans_eq hsize.symm)]
    dsimp only
    exact hcopy
  -- the struct is not written, so the list of copies reads as before
  have hfield : ∀ f : StructField, f.Inside Snapshot.size →
      (σ.restorePage v.base i).mem.get v.base f = σ.mem.get v.base f :=
    fun f hf => hc.get hf fun r hr => (hoff r hr).1.symm
  have hcount : (σ.restorePage v.base i).cowCount v.base = σ.cowCount v.base :=
    hfield _ (by decide)
  have hat : ∀ j < σ.cowCount v.base,
      (σ.restorePage v.base i).cowPageAt v.base j = σ.cowPageAt v.base j :=
    fun j hj => hc.get (n := CowPage.size) (by decide) fun r hr =>
      ((hoff r hr).1.mono ((entry_within (hj.trans_le h.count)).trans cowRegion_within)).symm
  refine ⟨h.frame (sameSlots_restorePage v.base i).keeps hc
    (fun r hr => (hoff r hr).1.mono cowRegion_within)
    (fun j hj r hr => (hoff r hr).2.mono (h.copyRegion_within hj)) (fun p hp hno => ?_) ?_,
    fun j hj hjc hp => ?_, hcount⟩
  · rcases restorePage_cases (σ := σ) v.base i with ⟨-, hr⟩ |
      ⟨page, copy, hpage, -, -, -, -, -, hr⟩ <;> rw [hr]
    · exact fun r hr => by cases hr
    · rw [hpage, (h.holds i hi).one, Nat.one_mul]
      simp only [List.mem_singleton, forall_eq]
      exact page_disjoint (halign i hi) (hpages p hp).1 (hno i hi)
  · rw [snapState, hfield _ (by decide)]
    exact h.started
  · rw [hcount] at hjc
    rw [hat j hjc] at hp ⊢
    rcases Nat.lt_succ_iff_lt_or_eq.1 hj with hj | rfl
    · refine (hback j hj hjc hp).frame hw ?_
      simp only [List.mem_singleton, forall_eq]
      exact page_disjoint (halign j hjc) (halign i hi) (h.distinct j i hj hi)
    · exact hcopied hp

/-- The restore loop copies every copy of an included page back, and leaves the included
pages without a copy alone. -/
theorem restorePages (hpages : ∀ p, v.pages p → p % pageSize = 0 ∧ p < n) :
    ∀ (rounds i : ℕ) (σ : Atlas), Isolated v σ → σ.size = n →
      σ.cowCount v.base ≤ i + rounds → RestoredTo v σ i →
      (∀ r ∈ restoredPages v.base rounds i σ,
        r.Disjoint (snapRegion v.base) ∧ r.Disjoint v.storage) →
      ∀ p, v.pages p →
        SameBytes v.mem p (Atlas.restorePages v.base rounds i σ).mem p pageSize
  | 0, i, σ, h, _, hrounds, hback, _, p, hp => by
    rw [Atlas.restorePages]
    by_cases hno : ∀ j < σ.cowCount v.base, σ.cowPageAt v.base j ≠ p
    · exact h.pages p hp hno
    · push Not at hno
      obtain ⟨j, hj, rfl⟩ := hno
      exact hback j (hj.trans_le hrounds) hj hp
  | rounds + 1, i, σ, h, hsize, hrounds, hback, hoff, p, hp => by
    rw [Atlas.restorePages]
    rw [restoredPages] at hoff
    split at hoff
    · rename_i hi
      rw [if_pos hi]
      obtain ⟨h', hback', hcount⟩ := h.restorePage hsize hpages hi hback
        fun r hr => hoff r (List.mem_append_left _ hr)
      refine restorePages hpages rounds (i + 1) _ h'
        ((sameSlots_restorePage v.base i).size.trans hsize) ?_ hback'
        (fun r hr => hoff r (List.mem_append_right _ hr)) p hp
      rw [hcount]
      omega
    · rename_i hi
      rw [if_neg hi]
      by_cases hno : ∀ j < σ.cowCount v.base, σ.cowPageAt v.base j ≠ p
      · exact h.pages p hp hno
      · push Not at hno
        obtain ⟨j, hj, rfl⟩ := hno
        exact hback j (hj.trans_le (not_lt.1 hi)) hj hp

/-- Restoring a committed snapshot that is isolated puts the pages past Genesis back. -/
theorem snapshotRestore (h : Isolated v σ)
    (hpages : ∀ p, v.pages p → p % pageSize = 0 ∧ p < σ.size ∧ p ≠ 0)
    (hstate : σ.snapState v.base = SnapState.committed.code)
    (hmagic : σ.mem.get v.base Snapshot.magic = Snapshot.magicValue)
    (hoff : ∀ r ∈ σ.restoreWrites v.base,
      r.Disjoint (snapRegion v.base) ∧ r.Disjoint v.storage) :
    (σ.snapshotRestore (some v.base)).2 = .true ∧ ∀ p, v.pages p →
      SameBytes v.mem p (σ.snapshotRestore (some v.base)).1.mem p pageSize := by
  rw [restoreWrites, if_pos ⟨hstate, hmagic⟩] at hoff
  have hgenesis := hoff _ List.mem_cons_self
  have hpast : ∀ p, v.pages p → (Region.mk 0 Genesis.size).Disjoint ⟨p, pageSize⟩ := by
    intro p hp
    obtain ⟨halign, -, h0⟩ := hpages p hp
    simp only [Region.Disjoint, Genesis.size, pageSize] at halign ⊢
    omega
  rcases snapshotRestore_cases h.init v.base with ⟨b, hs, hb⟩ | ⟨-, -, hs⟩
  · rw [Atlas.snapshotRestore] at hs
    simp only [h.init, hstate, hmagic, Bool.not_true, Bool.false_eq_true, if_false, ne_eq,
      not_true_eq_false, Prod.mk.injEq] at hs
    exact absurd hs.2.symm hb
  obtain ⟨hk, hw⟩ := abortAll_spec σ
  have hin : (Region.mk 104 8).Within ⟨0, Genesis.size⟩ := by decide
  have habort : Isolated v σ.abortAll := by
    refine h.frame hk.keeps hw ?_ (fun i hi => ?_) (fun p hp _ => ?_) ?_
    · simp only [List.mem_singleton, forall_eq]
      exact ((hgenesis.1.symm.mono hin).symm).mono cowRegion_within
    · simp only [List.mem_singleton, forall_eq]
      exact ((hgenesis.2.symm.mono hin).symm).mono (h.copyRegion_within hi)
    · simp only [List.mem_singleton, forall_eq]
      exact ((hpast p hp).symm.mono hin).symm
    · have hkeep : σ.abortAll.snapState v.base = σ.snapState v.base := by
        refine hw.get (n := Snapshot.size) (by decide) ?_
        simp only [List.mem_singleton, forall_eq]
        exact hgenesis.1.symm.mono hin
      rw [hkeep]
      exact h.started
  have hcount : σ.abortAll.cowCount v.base ≤ 0 + 2 ^ 32 := by
    have hlt := get_lt σ.abortAll.mem v.base Snapshot.cowPageCount
    simp only [Snapshot.cowPageCount] at hlt
    rw [cowCount, Snapshot.cowPageCount]
    omega
  have hback := restorePages (n := σ.size) (fun p hp => ⟨(hpages p hp).1, (hpages p hp).2.1⟩)
    (2 ^ 32) 0 σ.abortAll habort hk.size hcount (fun j hj => absurd hj (Nat.not_lt_zero j))
    fun r hr => hoff r (List.mem_cons_of_mem _ hr)
  rw [hs]
  refine ⟨rfl, fun p hp => ?_⟩
  dsimp only
  rw [genesisRestored_mem]
  refine (hback p hp).frame (changesOnly_restoreGenesis (σ.pagesRestored v.base) v.base) ?_
  simp only [List.mem_singleton, forall_eq]
  exact (hpast p hp).symm

/-! ## The magic -/

/-- An undisturbed step does not write the magic. -/
theorem writes_magic (h : Isolated v σ) {op : Op} (hop : Undisturbed v σ op) :
    ∀ r ∈ op.writes σ, (Region.mk v.base 8).Disjoint r := by
  have hstruct : (Region.mk v.base 8).Within (snapRegion v.base) := by
    simp only [Region.Within, snapRegion, Snapshot.size]
    omega
  have hword : ∀ off n : ℕ, 8 ≤ off → (Region.mk v.base 8).Disjoint ⟨v.base + off, n⟩ := by
    intro off n hoff
    simp only [Region.Disjoint]
    omega
  cases hon : op.on v.slot with
  | false => exact fun r hr => ((hop.others hon r hr).1.mono hstruct).symm
  | true =>
    unfold Op.on at hon
    split at hon
    · obtain rfl := of_decide_eq_true hon
      simp only [Op.writes, SnapOp.writes, h.slot, if_neg h.started, List.not_mem_nil,
        false_imp_iff, implies_true]
    · obtain rfl := of_decide_eq_true hon
      simp only [Op.writes, SnapOp.writes, h.slot, if_neg h.started, List.not_mem_nil,
        false_imp_iff, implies_true]
    · obtain rfl := of_decide_eq_true hon
      simp only [Op.writes, SnapOp.writes, h.slot, if_neg h.started, List.not_mem_nil,
        false_imp_iff, implies_true]
    · obtain rfl := of_decide_eq_true hon
      simp only [Op.writes, SnapOp.writes, h.slot]
      split
      · simp only [List.forall_mem_cons]
        exact ⟨hword _ _ (by decide), hword _ _ (by decide), by simp⟩
      · simp
    · rename_i j page
      obtain rfl := of_decide_eq_true hon
      simp only [Op.writes, SnapOp.writes, h.slot]
      by_cases hc : σ.Copies v.base page
      · rw [cowWrites_eq hc (hop.room page rfl hc).2]
        simp only [List.forall_mem_cons]
        refine ⟨((hop.room page rfl hc).2.mono hstruct).symm, ?_, hword _ _ (by decide),
          by simp⟩
        exact hword _ _ (Nat.le_add_right_of_le (by decide))
      · rw [cowWrites, if_neg hc]
        split
        · simp only [List.forall_mem_cons]
          exact ⟨hword _ _ (by decide), by simp⟩
        · simp
    · cases hon

/-- Undisturbed runs keep the snapshot isolated and its magic. -/
theorem run_magic (h : Isolated v σ)
    (hmagic : σ.mem.get v.base Snapshot.magic = Snapshot.magicValue) {ops : List Op}
    (hg : Guarded Op.step (Undisturbed v) σ ops) :
    Isolated v (Runs.run Op.step σ ops) ∧
      (Runs.run Op.step σ ops).mem.get v.base Snapshot.magic = Snapshot.magicValue := by
  refine guarded_invariant (I := fun τ => Isolated v τ ∧
    τ.mem.get v.base Snapshot.magic = Snapshot.magicValue) (fun τ op hτ hop => ?_)
    ⟨h, hmagic⟩ hg
  exact ⟨hτ.1.step hop,
    ((Op.changesOnly hτ.1.init op).load (hτ.1.writes_magic hop)).trans hτ.2⟩

end Isolated

/-! ## Runs -/

/-- The included pages other than the Genesis page. -/
def Atlas.includedPast (σ : Atlas) (vclock : Option VectorClock) (between : List Op)
    (k : Fin maxSnapshots) (p : ℕ) : Prop :=
  σ.includedBy vclock between k p ∧ p ≠ 0

/-- From the activation on, where every step is undisturbed up to the restore and including
it, a committed snapshot restores its pages. -/
theorem Activated.pages_back {σ : Atlas} (hinit : σ.initialized = true)
    (hsize : σ.size < 2 ^ 64) {vclock : Option VectorClock} {between : List Op}
    {k : Fin maxSnapshots} {s : ℕ} (hact : Activated σ vclock between k s)
    (hs : Genesis.size ≤ s) {active : Atlas}
    (hactive : active = run Op.step σ (prepare vclock between k)) {later : List Op}
    (hg : Guarded Op.step
      (Undisturbed (active.frozen k s (σ.includedPast vclock between k))) active
      (later ++ [.snap (.restore k)])) {τ : Atlas} (hτ : τ = run Op.step active later)
    (hcommitted : τ.snapState s = SnapState.committed.code) :
    (τ.snapshotRestore (some s)).2 = .true ∧ ∀ p, σ.includedPast vclock between k p →
      SameBytes active.mem p (τ.snapshotRestore (some s)).1.mem p pageSize := by
  obtain ⟨-, -, -, hmagic⟩ := hact.spec hinit hactive
  have hk : Keeps σ τ := by
    rw [hτ, hactive, ← run_append]
    exact keeps_run hinit _
  have hiso := hact.isolated hinit hsize (σ.includedPast vclock between k)
  rw [← hactive] at hiso
  obtain ⟨hg, hrestore⟩ := guarded_concat.1 hg
  obtain ⟨h, hm⟩ := hiso.run_magic (hmagic hs) hg
  rw [← hτ] at h hm hrestore
  have hslot : τ.snapshots k = some s := h.slot
  have hoff := hrestore.others rfl
  simp only [Op.writes, SnapOp.writes, hslot] at hoff
  refine h.snapshotRestore (fun p hp => ?_) hcommitted hm hoff
  obtain ⟨halign, hlt⟩ := hp.1.aligned
  exact ⟨halign, hlt.trans_eq hk.size.symm, hp.2⟩

/-- After a run of undisturbed steps, restoring the snapshot when it is committed puts every
included page other than the Genesis page back to the bytes of the activation. -/
theorem pages_restored {mmap : ℕ → Bool} {mem : Memory} {request : ℕ} {σ : Atlas}
    (hnew : atlasInit mmap mem none request = some σ) (before : List Op)
    {vclock : Option VectorClock} {between : List Op} {k : Fin maxSnapshots} {s : ℕ}
    (hact : Activated (run Op.step σ before) vclock between k s) (hs : Genesis.size ≤ s)
    (later : List Op)
    (hg : Guarded Op.step (Undisturbed
        ((run Op.step (run Op.step σ before) (prepare vclock between k)).frozen k s
          ((run Op.step σ before).includedPast vclock between k)))
      (run Op.step (run Op.step σ before) (prepare vclock between k))
      (later ++ [.snap (.restore k)]))
    (hcommitted : (run Op.step σ (before ++ prepare vclock between k ++ later)).snapState s =
      SnapState.committed.code) :
    ((run Op.step σ (before ++ prepare vclock between k ++ later)).snapshotRestore
        (some s)).2 = .true ∧
      ∀ p, (run Op.step σ before).includedPast vclock between k p →
        SameBytes (run Op.step σ (before ++ prepare vclock between k)).mem p
          ((run Op.step σ (before ++ prepare vclock between k ++ later)).snapshotRestore
            (some s)).1.mem p pageSize := by
  obtain ⟨hinit, hsize⟩ := atlasInit_run hnew before
  rw [run_append, run_append] at hcommitted ⊢
  exact hact.pages_back hinit hsize hs rfl hg rfl hcommitted

/-- On 256 KiB, the page at 131072 is copied and written, and the snapshot committed. -/
def copyWriteCommit : List Op :=
  [.snap (.cowPage 0 (some 131072)), .work (.write 131072 [1]), .snap (.commit 0)]

theorem pages_restored_256k :
    SameBytes (run Op.step smallAtlas (prepare none includePage 0)).mem 131072
      ((run Op.step smallAtlas (prepare none includePage 0 ++ copyWriteCommit)).snapshotRestore
        (some 16384)).1.mem 131072 pageSize := by
  refine (pages_restored atlasInit_smallAtlas [] activated_includePage (by decide)
    copyWriteCommit ⟨⟨?_, ?_, ?_⟩, ⟨?_, ?_, ?_⟩, ⟨?_, ?_, ?_⟩, ⟨?_, ?_, ?_⟩, trivial⟩
    (by decide)).2 131072 ⟨⟨_, List.mem_singleton_self _, by decide +kernel,
      ⟨rfl, by decide, by decide, by decide, by decide⟩⟩, by decide⟩
  · intro page hpage _
    obtain rfl : page = some 131072 := by
      injection hpage with hpage
      injection hpage with _ hpage
      exact hpage.symm
    decide
  · intro hon
    cases hon
  · intro p hp _ hcopied
    rw [eq_of_included hp.1] at hcopied
    exact absurd (by decide) (hcopied (some 131072) rfl (by decide +kernel))
  · intro page hpage
    cases hpage
  · intro _
    decide
  · intro p hp hnone
    rw [eq_of_included hp.1] at hnone
    exact absurd hnone (by decide)
  · intro page hpage
    cases hpage
  · intro hon
    cases hon
  · intro p hp hnone
    rw [eq_of_included hp.1] at hnone
    exact absurd hnone (by decide)
  · intro page hpage
    cases hpage
  · intro _
    decide
  · intro p hp hnone
    rw [eq_of_included hp.1] at hnone
    exact absurd hnone (by decide)

/-- The snapshot is committed before the page at 131072 is written. -/
def commitCopyWrite : List Op :=
  [.snap (.commit 0), .snap (.cowPage 0 (some 131072)), .work (.write 131072 [1])]

/-- On 256 KiB, `cowPage` returns VOID after the commit, and the write that follows survives
the restore. -/
theorem not_restored_after_commit :
    ((run Op.step smallAtlas (prepare none includePage 0 ++ commitCopyWrite)).snapshotRestore
        (some 16384)).2 = .true ∧
      ¬SameBytes (run Op.step smallAtlas (prepare none includePage 0)).mem 131072
        ((run Op.step smallAtlas (prepare none includePage 0 ++ commitCopyWrite)).snapshotRestore
          (some 16384)).1.mem 131072 pageSize := by
  refine ⟨by decide, fun h => ?_⟩
  have hbyte := h 0 (by decide)
  revert hbyte
  decide

end Seraph
