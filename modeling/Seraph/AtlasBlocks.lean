import Seraph.AtlasFootprint

/-!
# Blocks and live snapshots

A snapshot that is active or committed still uses its struct and its COW storage. As long as
both lie below the bump pointer (`LiveBelow`) a new block is off them. The bump pointer only
moves up, other than in `snapshotRestore`, which puts the pointer of the begin back : the
storage was reserved after that, so the pointer falls below it.

`KeepsBelow` says which operations keep everything below the bump pointer. Along a run of
such operations no block overlaps a live snapshot (`blocks_off_live`).
-/

namespace Seraph

open ByteMem Memory Runs Atlas

/-- The snapshot at `s` is ACTIVE or COMMITTED. -/
def Atlas.Live (σ : Atlas) (s : ℕ) : Prop :=
  σ.snapState s = SnapState.active.code ∨ σ.snapState s = SnapState.committed.code

/-- End of the COW storage of the snapshot at `s`. -/
def Atlas.storageEnd (σ : Atlas) (s : ℕ) : ℕ :=
  (σ.storageOf s).start + (σ.storageOf s).len

/-- The structs of the slots and the storage of live snapshots lie below the bump pointer. -/
structure LiveBelow (σ : Atlas) : Prop where
  init : σ.initialized = true
  next : Genesis.size ≤ σ.next
  struct : ∀ k s, σ.snapshots k = some s → Genesis.size ≤ s ∧ s + Snapshot.size ≤ σ.next
  apart : ∀ k l s t, σ.snapshots k = some s → σ.snapshots l = some t →
    s = t ∨ (snapRegion s).Disjoint (snapRegion t)
  fresh : ∀ k s, σ.snapshots k = some s → σ.snapState s = SnapState.preparing.code →
    σ.storageEnd s = 0
  storage : ∀ k s, σ.snapshots k = some s → σ.Live s → σ.storageEnd s ≤ σ.next

/-- The region holds neither the bump pointer nor a byte of a struct. -/
def Atlas.OffSnapshots (σ : Atlas) (r : Region) : Prop :=
  r.Disjoint ⟨48, 8⟩ ∧ ∀ k s, σ.snapshots k = some s → r.Disjoint (snapRegion s)

/-- The bump pointer in the copy of Genesis of the snapshot at `s`. -/
def Atlas.copiedNext (σ : Atlas) (s : ℕ) : ℕ :=
  σ.mem.get (s + Snapshot.genesisCopy) Genesis.nextAllocOffset

/-- The bump pointer that a restore of the snapshot at `s` puts back is above every struct
and the storage of every live snapshot, and no page that is copied back holds a struct. -/
structure RestoreKeeps (σ : Atlas) (s : ℕ) : Prop where
  struct : ∀ k t, σ.snapshots k = some t → t + Snapshot.size ≤ σ.copiedNext s
  storage : ∀ k t, σ.snapshots k = some t → σ.Live t → σ.storageEnd t ≤ σ.copiedNext s
  pages : ∀ r ∈ restoredPages s (2 ^ 32) 0 σ.abortAll, ∀ k t, σ.snapshots k = some t →
    r.Disjoint (snapRegion t)

/-- The operation keeps the live snapshots below the bump pointer : sums do not wrap, clients
and copies write neither the bump pointer nor a struct, and a restore puts back a bump pointer
that is high enough. -/
def KeepsBelow (σ : Atlas) : Op → Prop
  | .alloc op => op.NoWrap σ ∧ (op.request = none → ∀ r ∈ op.writes σ, σ.OffSnapshots r)
  | .work op => ∀ r ∈ op.writes, σ.OffSnapshots r
  | .snap (.begin _) => σ.next + Snapshot.size < 2 ^ 64
  | .snap (.activate k) => ∀ s, σ.snapshots k = some s →
    σ.next + pageSize + σ.mem.get s Snapshot.includedPageCount * pageSize < 2 ^ 64
  | .snap (.cowPage k page) => ∀ s, σ.snapshots k = some s → σ.Copies s page →
    σ.OffSnapshots ⟨σ.cowSlot s, pageSize⟩
  | .snap (.restore k) => ∀ s, σ.snapshots k = some s →
    σ.snapState s = SnapState.committed.code → RestoreKeeps σ s
  | .snap (.includePages _ _ _) => True
  | .snap (.includeAll _) => True
  | .snap (.commit _) => True

/-- Activating makes the snapshot active and records its storage. -/
theorem startCow_spec (σ : Atlas) (s size : ℕ) (p : Ptr) (place : ℕ) :
    (σ.startCow s size p).snapState s = SnapState.active.code ∧
      (σ.startCow s size none).storageOf s = ⟨0, 0⟩ ∧
      (σ.startCow s size (some place)).storageOf s =
        ⟨u64 (σ.ptrToOffset (some place)), u64 size⟩ := by
  unfold snapState storageOf startCow
  simp only [tickVclock_mem]
  simp (disch := decide) only [assign, get_set_same, get_set_apart]
  exact ⟨rfl, rfl, rfl⟩

namespace LiveBelow

variable {σ τ : Atlas}

/-- Fields of a struct that no region of the frame touches. -/
theorem kept {rs : List Region} (hc : ChangesOnly rs σ.mem τ.mem) {s : ℕ}
    (hs : ∀ r ∈ rs, r.Disjoint (snapRegion s)) :
    τ.snapState s = σ.snapState s ∧ τ.storageOf s = σ.storageOf s := by
  have hget : ∀ f : StructField, f.Inside Snapshot.size → τ.mem.get s f = σ.mem.get s f :=
    fun f hf => hc.get hf fun r hr => (hs r hr).symm
  refine ⟨hget _ (by decide), ?_⟩
  rw [storageOf, storageOf, hget _ (by decide), hget _ (by decide)]

/-- Nothing but the bump pointer changes, and it stays above everything. -/
theorem frame (h : LiveBelow σ) (hsame : SameSlots σ τ) {rs : List Region}
    (hc : ChangesOnly rs σ.mem τ.mem)
    (hrs : ∀ r ∈ rs, ∀ k s, σ.snapshots k = some s → r.Disjoint (snapRegion s))
    (hnext : Genesis.size ≤ τ.next)
    (hstruct : ∀ k s, σ.snapshots k = some s → s + Snapshot.size ≤ τ.next)
    (hstorage : ∀ k s, σ.snapshots k = some s → σ.Live s → σ.storageEnd s ≤ τ.next) :
    LiveBelow τ := by
  have hkept := fun k s hk => kept hc fun r hr => hrs r hr k s hk
  refine ⟨hsame.init.trans h.init, hnext, fun k s hk => ?_, fun k l s t hk hl => ?_,
    fun k s hk hprep => ?_, fun k s hk hlive => ?_⟩ <;> rw [hsame.snapshots] at hk
  · exact ⟨(h.struct k s hk).1, hstruct k s hk⟩
  · rw [hsame.snapshots] at hl
    exact h.apart k l s t hk hl
  · obtain ⟨hstate, hof⟩ := hkept k s hk
    rw [hstate] at hprep
    rw [storageEnd, hof]
    exact h.fresh k s hk hprep
  · obtain ⟨hstate, hof⟩ := hkept k s hk
    rw [Live, hstate] at hlive
    rw [storageEnd, hof]
    exact hstorage k s hk hlive

/-- The struct at `s` is written, and is new or that of a slot. -/
theorem update (h : LiveBelow σ) {s : ℕ} (hinit : τ.initialized = true)
    (hslots : ∀ l t, τ.snapshots l = some t → t = s ∨ ∃ k, σ.snapshots k = some t)
    (hnext : σ.next ≤ τ.next) (hs : Genesis.size ≤ s ∧ s + Snapshot.size ≤ τ.next)
    (hapart : ∀ k t, σ.snapshots k = some t →
      t = s ∨ (snapRegion t).Disjoint (snapRegion s)) {rs : List Region}
    (hc : ChangesOnly rs σ.mem τ.mem)
    (hrs : ∀ r ∈ rs, ∀ k t, σ.snapshots k = some t → t ≠ s → r.Disjoint (snapRegion t))
    (hfresh : τ.snapState s = SnapState.preparing.code → τ.storageEnd s = 0)
    (hstorage : τ.Live s → τ.storageEnd s ≤ τ.next) : LiveBelow τ := by
  have hkept := fun k t hk hne => kept hc fun r hr => hrs r hr k t hk hne
  refine ⟨hinit, h.next.trans hnext, fun l t hl => ?_, fun l l' t t' hl hl' => ?_,
    fun l t hl hprep => ?_, fun l t hl hlive => ?_⟩
  · rcases hslots l t hl with rfl | ⟨k, hk⟩
    · exact hs
    · exact ⟨(h.struct k t hk).1, (h.struct k t hk).2.trans hnext⟩
  · rcases hslots l t hl with rfl | ⟨k, hk⟩ <;> rcases hslots l' t' hl' with rfl | ⟨k', hk'⟩
    · exact Or.inl rfl
    · rcases hapart k' t' hk' with rfl | hd
      · exact Or.inl rfl
      · exact Or.inr hd.symm
    · exact hapart k t hk
    · exact h.apart k k' t t' hk hk'
  · rcases eq_or_ne t s with rfl | hne
    · exact hfresh hprep
    · obtain ⟨k, hk⟩ := (hslots l t hl).resolve_left hne
      obtain ⟨hstate, hof⟩ := hkept k t hk hne
      rw [hstate] at hprep
      rw [storageEnd, hof]
      exact h.fresh k t hk hprep
  · rcases eq_or_ne t s with rfl | hne
    · exact hstorage hlive
    · obtain ⟨k, hk⟩ := (hslots l t hl).resolve_left hne
      obtain ⟨hstate, hof⟩ := hkept k t hk hne
      rw [Live, hstate] at hlive
      rw [storageEnd, hof]
      exact (h.storage k t hk hlive).trans hnext

/-- The bump pointer's word is off the structs. -/
theorem bump_disjoint (h : LiveBelow σ) {k : Fin maxSnapshots} {s : ℕ}
    (hk : σ.snapshots k = some s) : ∀ r ∈ bumpWrites, r.Disjoint (snapRegion s) := by
  have hs := (h.struct k s hk).1
  simp only [bumpWrites, List.forall_mem_cons, Region.Disjoint, snapRegion, Genesis.size]
    at hs ⊢
  exact ⟨Or.inl (by omega), Or.inl (by omega), by simp⟩

/-- Writes off the bump pointer leave it alone. -/
theorem next_eq {rs : List Region} (hc : ChangesOnly rs σ.mem τ.mem)
    (hrs : ∀ r ∈ rs, r.Disjoint ⟨48, 8⟩) : τ.next = σ.next :=
  hc.load fun r hr => (hrs r hr).symm

theorem step_off (h : LiveBelow σ) (hsame : SameSlots σ τ) {rs : List Region}
    (hc : ChangesOnly rs σ.mem τ.mem) (hrs : ∀ r ∈ rs, σ.OffSnapshots r) : LiveBelow τ := by
  have hnext := next_eq hc fun r hr => (hrs r hr).1
  refine h.frame hsame hc (fun r hr => (hrs r hr).2) ?_ ?_ ?_ <;> rw [hnext]
  · exact h.next
  · exact fun k s hk => (h.struct k s hk).2
  · exact h.storage

/-- A block is handed out at the bump pointer. -/
theorem step_alloc (h : LiveBelow σ) {op : AllocOp} (hop : KeepsBelow σ (.alloc op)) :
    LiveBelow (AllocOp.step σ op).1 := by
  obtain ⟨hwrap, hoff⟩ := hop
  cases hr : op.request with
  | none =>
    exact h.step_off (AllocOp.sameSlots h.init op) (AllocOp.changesOnly h.init op) (hoff hr)
  | some r =>
    obtain ⟨-, hpage, hsum⟩ := hwrap r (Option.mem_def.2 hr)
    have hplace := le_place op hpage
    have hgenesis := h.next
    rcases AllocOp.step_request hr h.init with ⟨-, hs, -⟩ | ⟨m, m', -, -, hs, hm, hw, hw'⟩
    · rw [hs]
      exact h
    · rw [hs]
      have hnext : m'.get 0 Genesis.nextAllocOffset = op.place σ.next + r.2 := by
        rw [← u64_of_lt hsum, ← hm]
        refine hw'.get (n := Genesis.size) (by decide) fun x hx => ?_
        rw [List.mem_singleton.1 hx]
        exact Or.inl ((Nat.zero_add _).trans_le (hgenesis.trans hplace))
      have hle : σ.next ≤ op.place σ.next + r.2 := hplace.trans (Nat.le_add_right _ _)
      refine h.frame (sameSlots_mem σ m') (hw.trans hw') (fun x hx k s hk => ?_) ?_ ?_ ?_
      · rcases List.mem_append.1 hx with hx | hx
        · exact h.bump_disjoint hk x hx
        · rw [List.mem_singleton.1 hx]
          exact Or.inr ((h.struct k s hk).2.trans hplace)
      · exact (hgenesis.trans hle).trans_eq hnext.symm
      · exact fun k s hk => ((h.struct k s hk).2.trans hle).trans_eq hnext.symm
      · exact fun k s hk hlive => ((h.storage k s hk hlive).trans hle).trans_eq hnext.symm

theorem step_begin (h : LiveBelow σ) {vclock : Option VectorClock}
    (hop : KeepsBelow σ (.snap (.begin vclock))) : LiveBelow (σ.snapshotBegin vclock).1 := by
  change σ.next + Snapshot.size < 2 ^ 64 at hop
  rcases snapshotBegin_cases h.init vclock with hs | ⟨τ, s, hs, hb⟩ <;> simp only [hs]
  · exact h
  obtain ⟨i, hi⟩ := hb.slot
  have hslots : ∀ l t, τ.snapshots l = some t → t = s ∨ ∃ k, σ.snapshots k = some t := by
    intro l t hl
    rw [hi] at hl
    rcases eq_or_ne l i with rfl | hne
    · rw [Function.update_self] at hl
      exact Or.inl (Option.some.inj hl).symm
    · rw [Function.update_of_ne hne] at hl
      exact Or.inr ⟨l, hl⟩
  have hinit := hb.keeps.init.trans h.init
  have hend : τ.storageEnd s = 0 := by
    rw [storageEnd, hb.noStorage]
    rfl
  have hzero : τ.storageEnd s ≤ τ.next := hend.trans_le (Nat.zero_le _)
  rcases hb.place with ⟨hs, -, hnext⟩ | ⟨⟨j, hj⟩, -, hw⟩
  · -- a new struct at the bump pointer
    have hbegin : Genesis.size ≤ s := h.next.trans hs.ge
    have hnext' : τ.next = s + Snapshot.size := by
      rw [hnext hbegin, u64_of_lt hop, hs]
    have hle : σ.next ≤ τ.next := hs.ge.trans ((Nat.le_add_right _ _).trans hnext'.ge)
    have hbelow : ∀ k t, σ.snapshots k = some t → t + Snapshot.size ≤ s := fun k t hk =>
      (h.struct k t hk).2.trans hs.ge
    refine h.update hinit hslots hle ⟨hbegin, hnext'.ge⟩
      (fun k t hk => Or.inr (Or.inl (hbelow k t hk))) hb.writes
      (fun r hr k t hk _ => ?_) (fun _ => hend) fun _ => hzero
    rcases List.mem_append.1 hr with hr | hr
    · exact h.bump_disjoint hk r hr
    · rw [List.mem_singleton.1 hr]
      exact Or.inr (hbelow k t hk)
  · -- the struct of a void or failed snapshot
    have hsj := h.struct j s hj
    have hnext : τ.next = σ.next := by
      refine next_eq hw fun r hr => ?_
      rw [List.mem_singleton.1 hr]
      exact Or.inr ((by decide : 48 + 8 ≤ Genesis.size).trans hsj.1)
    refine h.update hinit hslots hnext.ge ⟨hsj.1, hsj.2.trans_eq hnext.symm⟩
      (fun k t hk => h.apart k j t s hk hj) hw (fun r hr k t hk hne => ?_) (fun _ => hend)
      fun _ => hzero
    rw [List.mem_singleton.1 hr]
    exact ((h.apart k j t s hk hj).resolve_left hne).symm

/-- A call on the snapshot at `s` that writes its struct and moves the bump pointer up. -/
theorem step_own (h : LiveBelow σ) {k : Fin maxSnapshots} {s : ℕ} (hk : σ.snapshots k = some s)
    (hsame : SameSlots σ τ) (hnext : σ.next ≤ τ.next) {rs : List Region}
    (hc : ChangesOnly rs σ.mem τ.mem)
    (hrs : ∀ r ∈ rs, r.Within (snapRegion s) ∨
      ∀ l t, σ.snapshots l = some t → r.Disjoint (snapRegion t))
    (hfresh : τ.snapState s = SnapState.preparing.code → τ.storageEnd s = 0)
    (hstorage : τ.Live s → τ.storageEnd s ≤ τ.next) : LiveBelow τ := by
  refine h.update (hsame.init.trans h.init) (fun l t hl => ?_) hnext
    ⟨(h.struct k s hk).1, (h.struct k s hk).2.trans hnext⟩
    (fun l t hl => h.apart l k t s hl hk) hc (fun r hr l t hl hne => ?_) hfresh hstorage
  · rw [hsame.snapshots] at hl
    exact Or.inr ⟨l, hl⟩
  · rcases hrs r hr with hin | hoff
    · exact (((h.apart l k t s hl hk).resolve_left hne).mono hin).symm
    · exact hoff l t hl

/-- A call on the snapshot at `s` that leaves its state and its storage as they are. -/
theorem step_kept (h : LiveBelow σ) {k : Fin maxSnapshots} {s : ℕ} (hk : σ.snapshots k = some s)
    (hsame : SameSlots σ τ) {rs : List Region} (hc : ChangesOnly rs σ.mem τ.mem)
    (hrs : ∀ r ∈ rs, r.Within (snapRegion s) ∨ σ.OffSnapshots r)
    (hstate : τ.snapState s = σ.snapState s) (hof : τ.storageOf s = σ.storageOf s) :
    LiveBelow τ := by
  have hnext : τ.next = σ.next := by
    refine next_eq hc fun r hr => ?_
    rcases hrs r hr with hin | hoff
    · have hs := (h.struct k s hk).1
      simp only [Region.Within, snapRegion, Genesis.size] at hin hs
      exact Or.inr (by simpa using (by omega : 56 ≤ r.start))
    · exact hoff.1
  refine h.step_own hk hsame hnext.ge hc (fun r hr => (hrs r hr).imp_right fun hoff => hoff.2)
    (fun hprep => ?_) fun hlive => ?_
  · rw [hstate] at hprep
    rw [storageEnd, hof]
    exact h.fresh k s hk hprep
  · rw [Live, hstate] at hlive
    rw [storageEnd, hof, hnext]
    exact h.storage k s hk hlive

/-- A word of the struct. -/
theorem word_within (s : ℕ) {f : StructField} (hf : f.Inside Snapshot.size) :
    (Region.mk (s + f.off) f.width).Within (snapRegion s) := by
  simp only [StructField.Inside, Region.Within, snapRegion] at hf ⊢
  omega

theorem step_include (h : LiveBelow σ) {k : Fin maxSnapshots} {s : ℕ}
    (hk : σ.snapshots k = some s) (ptr : Ptr) (size : ℕ) :
    LiveBelow (σ.snapshotInclude (some s) ptr size).1 := by
  rcases snapshotInclude_cases (σ := σ) s ptr size with hs | ⟨v, -, hs⟩ <;> rw [hs]
  · exact h
  · refine h.step_kept hk (sameSlots_mem σ _) (changesOnly_store _ _ _ _) ?_ ?_ ?_
    · simp only [List.mem_singleton, forall_eq]
      exact Or.inl (word_within s (by decide))
    · exact get_set_apart _ _ (by decide) _
    · unfold storageOf
      simp (disch := decide) only [get_set_apart]

theorem step_includeAll (h : LiveBelow σ) {k : Fin maxSnapshots} {s : ℕ}
    (hk : σ.snapshots k = some s) : LiveBelow (σ.snapshotIncludeAll (some s)).1 := by
  rcases snapshotIncludeAll_cases (σ := σ) s with hs | ⟨v, -, hs⟩ <;> rw [hs]
  · exact h
  · refine h.step_kept hk (sameSlots_mem σ _) (changesOnly_assign s (n := Snapshot.size) _ _ ?_)
      ?_ ?_ ?_
    · simp only [List.forall_mem_cons]
      decide
    · simp only [List.mem_singleton, forall_eq]
      exact Or.inl ⟨le_refl _, le_refl _⟩
    · unfold snapState
      simp (disch := decide) only [assign, get_set_apart]
    · unfold storageOf
      simp (disch := decide) only [assign, get_set_apart]

theorem step_commit (h : LiveBelow σ) {k : Fin maxSnapshots} {s : ℕ}
    (hk : σ.snapshots k = some s) : LiveBelow (σ.snapshotCommit (some s)).1 := by
  have hsame := sameSlots_commit (σ := σ) s
  rcases snapshotCommit_cases (σ := σ) s with hs | ⟨hstate, hs⟩ <;> rw [hs] at hsame ⊢
  · exact h
  have hw : ∀ fs : List (StructField × ℕ), (∀ p ∈ fs, p.1.Inside Snapshot.size) →
      ChangesOnly [snapRegion s] σ.mem (σ.mem.assign s fs) :=
    fun fs hfs => changesOnly_assign s fs σ.mem hfs
  have hc := hw [(Snapshot.commitTime, σ.currentEpoch),
    (Snapshot.state, SnapState.committed.code)] (by simp only [List.forall_mem_cons]; decide)
  have hcommitted : (σ.mem.assign s [(Snapshot.commitTime, σ.currentEpoch),
      (Snapshot.state, SnapState.committed.code)]).get s Snapshot.state =
        SnapState.committed.code := by
    simp only [assign, get_set_same]
    decide
  have hoffset : ∀ f : StructField, Snapshot.commitTime.Apart f → Snapshot.state.Apart f →
      (σ.mem.assign s [(Snapshot.commitTime, σ.currentEpoch),
        (Snapshot.state, SnapState.committed.code)]).get s f = σ.mem.get s f := by
    intro f h1 h2
    rw [assign, assign, assign, get_set_apart _ _ h2, get_set_apart _ _ h1]
  generalize σ.mem.assign s [(Snapshot.commitTime, σ.currentEpoch),
    (Snapshot.state, SnapState.committed.code)] = m at hsame hc hcommitted hoffset ⊢
  have hmem : (tickVclock { σ with mem := m }).mem = m := tickVclock_mem _
  rw [← hmem] at hc
  have hnext : (tickVclock { σ with mem := m }).next = σ.next := by
    refine next_eq hc ?_
    simp only [List.mem_singleton, forall_eq]
    exact Or.inr ((by decide : 48 + 8 ≤ Genesis.size).trans (h.struct k s hk).1)
  have hend : (tickVclock { σ with mem := m }).storageEnd s = σ.storageEnd s := by
    simp only [storageEnd, storageOf, hmem, hoffset Snapshot.cowStorageOffset (by decide)
      (by decide), hoffset Snapshot.cowStorageSize (by decide) (by decide)]
  refine h.step_own hk hsame hnext.ge hc ?_ (fun hprep => ?_) fun _ => ?_
  · simp only [List.mem_singleton, forall_eq]
    exact Or.inl ⟨le_refl _, le_refl _⟩
  · rw [snapState, hmem, hcommitted] at hprep
    exact absurd hprep (by decide)
  · rw [hend, hnext]
    rcases hstate with hstate | hstate
    · exact h.storage k s hk (Or.inl hstate)
    · exact (h.fresh k s hk hstate).trans_le (Nat.zero_le _)

/-- The storage of a new active snapshot ends at the bump pointer. -/
theorem step_activate (h : LiveBelow σ) {k : Fin maxSnapshots} {s : ℕ}
    (hk : σ.snapshots k = some s)
    (hop : σ.next + pageSize + σ.mem.get s Snapshot.includedPageCount * pageSize < 2 ^ 64) :
    LiveBelow (σ.snapshotActivate (some s)).1 := by
  have hgenesis := (h.struct k s hk).1
  have hwithin : ∀ r ∈ [Region.mk (s + Snapshot.state.off) 4,
      ⟨s + Snapshot.cowStorageOffset.off, 16⟩], r.Within (snapRegion s) := by
    simp only [List.forall_mem_cons]
    refine ⟨word_within s (f := Snapshot.state) (by decide), ?_, by simp⟩
    exact word_within s (f := ⟨33368, 16⟩) (by decide)
  have hoff : ∀ r ∈ [Region.mk (s + Snapshot.state.off) 4,
      ⟨s + Snapshot.cowStorageOffset.off, 16⟩], r.Disjoint ⟨48, 8⟩ := fun r hr =>
    (Region.Disjoint.mono (Or.inl ((by decide : 48 + 8 ≤ Genesis.size).trans hgenesis))
      (hwithin r hr)).symm
  rcases snapshotActivate_cases h.init s with ⟨b, hs, -⟩ | ⟨-, size, hs⟩ |
    ⟨m, size, -, hsize, hzero, hfit, hs, hm, hw⟩ <;> simp only [hs]
  · exact h
  · obtain ⟨hactive, hnone, -⟩ := startCow_spec σ s size none 0
    have hc := changesOnly_startCow σ s size none
    have hnext := next_eq hc hoff
    refine h.step_own hk (sameSlots_startCow _ _ _) hnext.ge hc
      (fun r hr => Or.inl (hwithin r hr)) (fun hprep => ?_) fun _ => ?_
    · rw [hactive] at hprep
      exact absurd hprep (by decide)
    · rw [storageEnd, hnone]
      exact Nat.zero_le _
  · obtain ⟨hactive, -, hsome⟩ := startCow_spec { σ with mem := m } s size
      (some (alignUp σ.next 4096)) (alignUp σ.next 4096)
    have hc := changesOnly_startCow { σ with mem := m } s size (some (alignUp σ.next 4096))
    have hsame : SameSlots σ (Atlas.startCow { σ with mem := m } s size
        (some (alignUp σ.next 4096))) :=
      (sameSlots_mem σ m).trans (sameSlots_startCow _ _ _)
    rw [← hsize] at hop
    -- the block fits and its end does not wrap
    have halign : σ.next ≤ alignUp σ.next 4096 ∧ alignUp σ.next 4096 + size < 2 ^ 64 := by
      rw [alignUp_page]
      simp only [pageSize] at hop
      omega
    rw [u64_of_lt halign.2] at hfit hm
    have hptr : σ.ptrToOffset (some (alignUp σ.next 4096)) = alignUp σ.next 4096 := by
      have hlt : alignUp σ.next 4096 < σ.size := by omega
      simp [ptrToOffset, contains, hlt]
    have hnext : (Atlas.startCow { σ with mem := m } s size (some (alignUp σ.next 4096))).next =
        alignUp σ.next 4096 + size := by
      refine Eq.trans ?_ hm
      exact hc.load fun r hr => (hoff r hr).symm
    refine h.step_own hk hsame ?_ (hw.trans hc) (fun r hr => ?_) (fun hprep => ?_) fun _ => ?_
    · rw [hnext]
      omega
    · rcases List.mem_append.1 hr with hr | hr
      · exact Or.inr fun l t hl => h.bump_disjoint hl r hr
      · exact Or.inl (hwithin r hr)
    · rw [hactive] at hprep
      exact absurd hprep (by decide)
    · have hplace : Atlas.ptrToOffset { σ with mem := m } (some (alignUp σ.next 4096)) =
          alignUp σ.next 4096 := hptr
      rw [storageEnd, hsome, hplace, hnext]
      simp only [u64]
      omega

/-- A copy is off every struct, its entry and the count are in the struct. -/
theorem step_cowPage (h : LiveBelow σ) {k : Fin maxSnapshots} {s : ℕ}
    (hk : σ.snapshots k = some s) {page : Ptr}
    (hop : σ.Copies s page → σ.OffSnapshots ⟨σ.cowSlot s, pageSize⟩) :
    LiveBelow (σ.snapshotCowPage (some s) page).1 := by
  have hsame := sameSlots_cowPage h.init s page
  have hc := changesOnly_cowPage h.init s page
  rcases snapshotCowPage_cases h.init s page with ⟨b, -, hs, -⟩ | ⟨hmust, hno, hs⟩ | ⟨hcopy, hs⟩
  · rw [hs]
    exact h
  · rw [hs]
    refine h.step_own hk (sameSlots_mem σ _) ?_ (changesOnly_store _ _ _ _) ?_ ?_ ?_
    · refine (next_eq (changesOnly_store _ _ _ _) ?_).ge
      simp only [List.mem_singleton, forall_eq]
      exact Or.inr ((by decide : 48 + 8 ≤ Genesis.size).trans
        ((h.struct k s hk).1.trans (Nat.le_add_right _ _)))
    · simp only [List.mem_singleton, forall_eq]
      exact Or.inl (word_within s (f := Snapshot.state) (by decide))
    · intro hprep
      simp only [snapState, failSnapshot, get_set_same] at hprep
      exact absurd hprep (by decide)
    · intro hlive
      simp only [Live, snapState, failSnapshot, get_set_same] at hlive
      exact absurd hlive (by decide)
  · have hslot := hop hcopy
    have hown := hslot.2 k s hk
    rw [cowWrites, if_pos hcopy, cowIndex_eq hown] at hc
    have hentry : (Region.mk (cowEntry s (σ.mem.get s Snapshot.cowPageCount))
        CowPage.size).Within ⟨s + 592, 32768⟩ := by
      have hcount := hcopy.2.1
      simp only [Region.Within, cowEntry, Snapshot.cowPages, CowPage.size, snapshotMaxPages]
        at hcount ⊢
      omega
    -- state and storage are outside the list of copies
    have hfield : ∀ f : StructField, f.Inside 592 ∨ 33364 ≤ f.off ∧ f.Inside Snapshot.size →
        (σ.snapshotCowPage (some s) page).1.mem.get s f = σ.mem.get s f := by
      intro f hf
      refine hc.load ?_
      have hin : (Region.mk (s + f.off) f.width).Within (snapRegion s) := by
        simp only [StructField.Inside, Region.Within, snapRegion, Snapshot.size] at hf ⊢
        omega
      have hlist : (Region.mk (s + f.off) f.width).Disjoint ⟨s + 592, 32768⟩ := by
        simp only [StructField.Inside, Region.Disjoint] at hf ⊢
        omega
      simp only [List.forall_mem_cons]
      refine ⟨(hown.mono hin).symm, hlist.mono hentry, ?_, by simp⟩
      simp only [StructField.Inside, Region.Disjoint, Snapshot.cowPageCount] at hf ⊢
      omega
    refine h.step_kept hk hsame hc ?_ (hfield _ (by decide)) ?_
    · simp only [List.forall_mem_cons]
      refine ⟨Or.inr hslot, Or.inl (hentry.trans ?_),
        Or.inl (word_within s (f := Snapshot.cowPageCount) (by decide)), by simp⟩
      exact word_within s (f := ⟨592, 32768⟩) (by decide)
    · rw [storageOf, storageOf, hfield _ (by decide), hfield _ (by decide)]

/-- A restore puts back a bump pointer that is high enough. -/
theorem step_restore (h : LiveBelow σ) {k : Fin maxSnapshots} {s : ℕ}
    (hk : σ.snapshots k = some s) (hop : RestoreKeeps σ s) :
    LiveBelow ((σ.pagesRestored s).genesisRestored s) := by
  have hsame := (sameSlots_pagesRestored σ s).trans (sameSlots_genesisRestored _ s)
  have hpages := changesOnly_pagesRestored σ s
  have hall := hpages.trans (changesOnly_restoreGenesis (σ.pagesRestored s) s)
  rw [← genesisRestored_mem] at hall
  have hrs : ∀ r ∈ [Region.mk 104 8] ++ restoredPages s (2 ^ 32) 0 σ.abortAll,
      ∀ l t, σ.snapshots l = some t → r.Disjoint (snapRegion t) := by
    intro r hr l t hl
    rcases List.mem_append.1 hr with hr | hr
    · rw [List.mem_singleton.1 hr]
      exact Or.inl ((by decide : 104 + 8 ≤ Genesis.size).trans (h.struct l t hl).1)
    · exact hop.pages r hr l t hl
  have hcopy : (Region.mk (s + Snapshot.genesisCopy) Genesis.size).Within (snapRegion s) :=
    word_within s (f := ⟨Snapshot.genesisCopy, Genesis.size⟩) (by decide)
  have hnext : ((σ.pagesRestored s).genesisRestored s).next = σ.copiedNext s := by
    rw [Atlas.next, genesis, genesisRestored_mem, restoreGenesis]
    simp (disch := decide) only [assign, get_set_apart]
    rw [get_copy _ 0 _ (by decide), copiedNext]
    exact hpages.get (n := Genesis.size) (by decide) fun r hr =>
      ((hrs r hr k s hk).mono hcopy).symm
  refine h.frame hsame hall (fun r hr => ?_) ?_ ?_ ?_
  · rcases List.mem_append.1 hr with hr | hr
    · exact hrs r hr
    · intro l t hl
      rw [List.mem_singleton.1 hr]
      exact Or.inl ((Nat.zero_add _).trans_le (h.struct l t hl).1)
  · rw [hnext]
    exact (h.struct k s hk).1.trans ((Nat.le_add_right _ _).trans (hop.struct k s hk))
  · rw [hnext]
    exact hop.struct
  · rw [hnext]
    exact hop.storage

/-- An operation that keeps the live snapshots below the bump pointer. -/
theorem step (h : LiveBelow σ) {op : Op} (hop : KeepsBelow σ op) :
    LiveBelow (Op.step σ op).1 := by
  cases op with
  | alloc op => exact h.step_alloc hop
  | work op => exact h.step_off (WorkOp.sameSlots op) (WorkOp.changesOnly op) hop
  | snap op =>
    cases op with
    | begin vclock => exact h.step_begin hop
    | includePages k ptr size =>
      cases hk : σ.snapshots k with
      | none =>
        simp only [Op.step, SnapOp.step, hk]
        exact h
      | some s => simpa only [Op.step, SnapOp.step, hk] using h.step_include hk ptr size
    | includeAll k =>
      cases hk : σ.snapshots k with
      | none =>
        simp only [Op.step, SnapOp.step, hk]
        exact h
      | some s => simpa only [Op.step, SnapOp.step, hk] using h.step_includeAll hk
    | activate k =>
      cases hk : σ.snapshots k with
      | none =>
        simp only [Op.step, SnapOp.step, hk]
        exact h
      | some s => simpa only [Op.step, SnapOp.step, hk] using h.step_activate hk (hop s hk)
    | commit k =>
      cases hk : σ.snapshots k with
      | none =>
        simp only [Op.step, SnapOp.step, hk]
        exact h
      | some s => simpa only [Op.step, SnapOp.step, hk] using h.step_commit hk
    | cowPage k page =>
      cases hk : σ.snapshots k with
      | none =>
        simp only [Op.step, SnapOp.step, hk]
        exact h
      | some s => simpa only [Op.step, SnapOp.step, hk] using h.step_cowPage hk (hop s hk)
    | restore k =>
      cases hk : σ.snapshots k with
      | none =>
        simp only [Op.step, SnapOp.step, hk]
        exact h
      | some s =>
        simp only [Op.step, SnapOp.step, hk]
        rcases snapshotRestore_cases h.init s with ⟨b, hs, -⟩ | ⟨hstate, -, hs⟩
        · simpa only [hs] using h
        · simpa only [hs] using h.step_restore hk (hop s hk hstate)

end LiveBelow

theorem liveBelow_format (size : ℕ) (mem : Memory) : LiveBelow (mapped size mem).format where
  init := rfl
  next := (by decide : Genesis.size ≤ headerSize).trans (format_next _).ge
  struct _ _ h := by cases h
  apart _ _ _ _ h := by cases h
  fresh _ _ h := by cases h
  storage _ _ h := by cases h

/-- The block that a call returns : where it starts and the bytes asked for. -/
def returnedBy (c : Call Atlas Op Result) : Option Region :=
  match c.op, c.result with
  | .alloc op, .alloc r => (handedOutBy ⟨c.before, op, r⟩).map fun b => ⟨b.start, b.requested⟩
  | _, _ => none

/-- The block that the call returns is off the structs and the storage of the snapshots that
are active or committed. -/
def OffLive (c : Call Atlas Op Result) : Prop :=
  ∀ block ∈ returnedBy c, ∀ k s, c.before.snapshots k = some s → c.before.Live s →
    block.Disjoint (snapRegion s) ∧ block.Disjoint (c.before.storageOf s)

theorem LiveBelow.offLive {σ : Atlas} (h : LiveBelow σ) {op : Op} (hop : KeepsBelow σ op) :
    OffLive ⟨σ, op, (Op.step σ op).2⟩ := by
  intro block hblock k s hk hlive
  cases op with
  | work op => cases hblock
  | snap op => cases hblock
  | alloc op =>
    have hstart : σ.next ≤ block.start := by
      cases hr : op.request with
      | none => simp [returnedBy, Op.step, handedOutBy, hr] at hblock
      | some r =>
        rcases AllocOp.step_request hr h.init with ⟨-, -, hs⟩ | ⟨m, m', -, -, hs, -⟩
        · simp [returnedBy, Op.step, handedOutBy, hr, hs] at hblock
        · simp only [returnedBy, Op.step, handedOutBy, hr, hs, Option.map_some,
            Option.mem_def, Option.some.injEq] at hblock
          rw [← hblock]
          exact le_place op (hop.1 r (Option.mem_def.2 hr)).2.1
    exact ⟨Or.inr ((h.struct k s hk).2.trans hstart),
      Or.inr ((h.storage k s hk hlive).trans hstart)⟩

/-- In a run of operations that keep the live snapshots below the bump pointer, no block
overlaps the struct or the storage of a snapshot that is active or committed. -/
theorem blocks_off_live {mmap : ℕ → Bool} {mem : Memory} {request : ℕ} {σ : Atlas}
    (hnew : atlasInit mmap mem none request = some σ) (ops : List Op)
    (hg : Guarded Op.step KeepsBelow σ ops) : ∀ c ∈ calls Op.step σ ops, OffLive c := by
  obtain ⟨size, -, rfl⟩ := atlasInit_new hnew
  exact guarded_calls (I := LiveBelow) (P := OffLive) (fun _ _ hs hop => hs.step hop)
    (fun _ _ hs hop => hs.offLive hop) (liveBelow_format size mem) hg

/-- Bring a snapshot of the page at 131072 to COMMITTED, with or without activating it. -/
def commitOne (activation : List Op) : List Op :=
  [.snap (.begin none), .snap (.includePages 0 (some 131072) 4096)] ++ activation ++
    [.snap (.commit 0), .snap (.restore 0)]

/-- On 256 KiB, a snapshot is committed and restored that was never active and has no storage,
and the block that follows is off its struct. -/
theorem blocks_off_live_256k :
    Guarded Op.step KeepsBelow smallAtlas (commitOne [] ++ [.alloc (.allocPages 4096)]) ∧
      ∀ c ∈ calls Op.step smallAtlas (commitOne [] ++ [.alloc (.allocPages 4096)]),
        OffLive c := by
  suffices hg : Guarded Op.step KeepsBelow smallAtlas
      (commitOne [] ++ [.alloc (.allocPages 4096)]) from
    ⟨hg, blocks_off_live atlasInit_smallAtlas _ hg⟩
  refine ⟨?_, trivial, trivial, ?_, ?_, trivial⟩
  · change _ < _
    decide
  · intro s hs _
    obtain rfl : 16384 = s := Option.some.inj (Eq.trans (by decide) hs)
    change RestoreKeeps (run Op.step smallAtlas [.snap (.begin none),
      .snap (.includePages 0 (some 131072) 4096), .snap (.commit 0)]) 16384
    generalize hτ : run Op.step smallAtlas [.snap (.begin none),
      .snap (.includePages 0 (some 131072) 4096), .snap (.commit 0)] = τ
    have hone : ∀ k, τ.snapshots k = none ∨ τ.snapshots k = some 16384 := by
      rw [← hτ]
      decide
    have hslot : ∀ k t, τ.snapshots k = some t → t = 16384 := by
      intro k t hk
      rcases hone k with h | h <;> rw [h] at hk <;> cases hk
      rfl
    have hnext : τ.copiedNext 16384 = 50432 ∧ τ.storageEnd 16384 = 0 := by
      rw [← hτ]
      decide
    have hpages : restoredPages 16384 (2 ^ 32) 0 τ.abortAll = [] := by
      rw [← hτ]
      decide
    refine ⟨fun k t hk => ?_, fun k t hk _ => ?_, fun r hr => ?_⟩
    · rw [hslot k t hk, hnext.1]
      decide
    · rw [hslot k t hk, hnext.1, hnext.2]
      decide
    · rw [hpages] at hr
      cases hr
  · refine ⟨fun r hr => ?_, fun hr => by cases hr⟩
    obtain rfl := Option.some.inj hr
    decide

/-- On 256 KiB, after the restore a block of one page is the storage of the snapshot, which is
still committed. -/
theorem not_offLive_after_restore :
    ¬∀ c ∈ calls Op.step smallAtlas
      (commitOne [.snap (.activate 0)] ++ [.alloc (.allocPages 4096)]), OffLive c := by
  intro h
  have hlast := h ⟨run Op.step smallAtlas (commitOne [.snap (.activate 0)]),
    .alloc (.allocPages 4096), .alloc (.ptr (some 53248))⟩ ?_ ⟨53248, 4096⟩ ?_ 0 16384 ?_ ?_
  · have hd := hlast.2
    revert hd
    decide
  · rw [calls_concat]
    refine List.mem_append_right _ (List.mem_singleton.2 ?_)
    congr 1
  · decide
  · decide
  · exact Or.inr (by decide)

end Seraph
