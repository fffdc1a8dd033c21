import Seraph.AtlasFootprint

/-!
# Revocation over runs

Generations in the table only grow as long as nothing but `allocGeneration` and `revoke`
writes the used part of the table : then a generation that is refused after it was accepted
is below the one in the table, and stays below (`Advances`).

`snapshotRestore` copies pages back before it reads the counters of Genesis, and a page that
was copied may hold Genesis or a part of the table. `SparesTable` says which operations
leave the table and the generation of Genesis alone. Along a run of such operations a revoked
generation is never accepted again, and every restore increases the generation of Genesis
(`revoked_forever`).
-/

namespace Seraph

open ByteMem Memory Runs Atlas

/-- The word of Genesis that locates the table. -/
def tableWord : Region :=
  ⟨40, 8⟩

/-- The generation of Genesis. -/
def generationWord : Region :=
  ⟨16, 8⟩

/-- Genesis as captured by the snapshot at `s`. -/
def genesisCopyRegion (s : ℕ) : Region :=
  ⟨s + Snapshot.genesisCopy, Genesis.size⟩

/-- Restoring the snapshot at `s` leaves the table alone : its copy of Genesis locates the
same table, and no page that is copied back holds the generation of Genesis, a used part of
the table or that copy. The generation does not wrap. -/
structure RestoreSpares (σ : Atlas) (s : ℕ) : Prop where
  generation : σ.genesis Genesis.generation + 1 < 2 ^ 64
  copy : σ.mem.get (s + Snapshot.genesisCopy) Genesis.genTableOffset = Genesis.size
  pages : ∀ r ∈ restoredPages s (2 ^ 32) 0 σ.abortAll, r.Disjoint generationWord ∧
    r.Disjoint (usedTable σ.entryCount) ∧ r.Disjoint (genesisCopyRegion s)

/-- The operation leaves the used part of the table alone, other than by revoking. A revoked
generation does not wrap. -/
def SparesTable (σ : Atlas) : Op → Prop
  | .alloc .allocGeneration => True
  | .alloc (.revoke id) => id < σ.entryCount → σ.generationOf id + 1 < 2 ^ 64
  | .snap (.restore k) =>
    ∀ s, σ.snapshots k = some s → σ.snapState s = SnapState.committed.code → RestoreSpares σ s
  | op => ∀ r ∈ op.writes σ, r.Disjoint tableWord ∧ r.Disjoint (usedTable σ.entryCount)

/-- The table follows Genesis and has at most all its slots in use. -/
structure TableSound (σ : Atlas) : Prop where
  init : σ.initialized = true
  table : σ.tableOffset = Genesis.size
  count : σ.entryCount ≤ genTableSize

/-- From `σ` to `τ` no slot gets unused and no generation smaller. -/
structure Advances (σ τ : Atlas) : Prop where
  count : σ.entryCount ≤ τ.entryCount
  generations : ∀ id < σ.entryCount, σ.generationOf id ≤ τ.generationOf id

namespace Advances

variable {σ τ υ : Atlas}

theorem refl (σ : Atlas) : Advances σ σ :=
  ⟨le_refl _, fun _ _ => le_refl _⟩

theorem trans (h : Advances σ τ) (h' : Advances τ υ) : Advances σ υ :=
  ⟨h.count.trans h'.count, fun id hid =>
    (h.generations id hid).trans (h'.generations id (hid.trans_le h.count))⟩

/-- A generation that is refused after it was accepted is not accepted later. -/
theorem never_again (h : Advances σ τ) (h' : Advances τ υ) {id g : ℕ}
    (haccepted : σ.checkGeneration id g = .true) (hrefused : τ.checkGeneration id g = .false) :
    υ.checkGeneration id g ≠ .true := by
  intro hagain
  obtain ⟨hid, hg⟩ := checkGeneration_eq_true haccepted
  obtain ⟨hid', hne⟩ := checkGeneration_eq_false hrefused
  obtain ⟨-, hg'⟩ := checkGeneration_eq_true hagain
  have h1 := h.generations id hid
  have h2 := h'.generations id hid'
  omega

end Advances

namespace TableSound

variable {σ τ : Atlas}

/-- A change outside the used part of the table. -/
theorem frame (h : TableSound σ) (hinit : τ.initialized = true)
    (htable : τ.tableOffset = Genesis.size) {rs : List Region}
    (hc : ChangesOnly rs σ.mem τ.mem)
    (hrs : ∀ r ∈ rs, r.Disjoint (usedTable σ.entryCount)) :
    TableSound τ ∧ Advances σ τ := by
  have hcount : τ.entryCount = σ.entryCount := by
    rw [entryCount, entryCount, htable, h.table]
    refine hc.load fun r hr => ((hrs r hr).mono ?_).symm
    simp only [Region.Within, usedTable, GenTable.entryCount]
    omega
  refine ⟨⟨hinit, htable, hcount.trans_le h.count⟩, hcount.ge, fun id hid => le_of_eq ?_⟩
  rw [generationOf, generationOf, htable, h.table]
  refine (hc.load fun r hr => ((hrs r hr).mono ?_).symm).symm
  simp only [Region.Within, usedTable, GenTable.generations]
  omega

theorem step_allocGeneration (h : TableSound σ) :
    TableSound (σ.allocGeneration).1 ∧ Advances σ (σ.allocGeneration).1 := by
  rcases allocGeneration_cases (σ := σ) with hs | ⟨m, -, hlt, hs, hcount, hgens, hw⟩ <;> rw [hs]
  · exact ⟨h, Advances.refl σ⟩
  · have htable : m.get 0 Genesis.genTableOffset = Genesis.size := by
      refine (hw.get (n := Genesis.size) (by decide) fun r hr => ?_).trans h.table
      rw [h.table] at hr
      simp only [entryWrites, List.mem_cons, List.not_mem_nil, or_false] at hr
      rcases hr with rfl | rfl <;> simp only [Region.Disjoint] <;> omega
    have hnew : Atlas.entryCount { σ with mem := m } = σ.entryCount + 1 := by
      rw [← hcount, h.table, entryCount, tableOffset, genesis, htable]
    refine ⟨⟨h.init, htable, hnew.trans_le hlt⟩, (Nat.le_succ _).trans_eq hnew.symm,
      fun id hid => le_of_eq ?_⟩
    rw [← hgens id hid, h.table, generationOf, tableOffset, genesis, htable]

theorem step_revoke (h : TableSound σ) {id : ℕ}
    (hid : id < σ.entryCount → σ.generationOf id + 1 < 2 ^ 64) :
    TableSound (σ.revoke id).1 ∧ Advances σ (σ.revoke id).1 := by
  rcases revoke_cases (σ := σ) id with hs | ⟨m, -, hlt, hs, hgen, hw⟩ <;> rw [hs]
  · exact ⟨h, Advances.refl σ⟩
  · rw [h.table] at hw hgen
    have hkeep : ∀ f : StructField, f.Apart (GenTable.generations id) →
        m.get Genesis.size f = σ.mem.get Genesis.size f := by
      intro f hf
      refine hw.load fun r hr => ?_
      rw [List.mem_singleton.1 hr]
      simp only [Region.Disjoint, StructField.Apart, GenTable.generations] at hf ⊢
      omega
    have htable : m.get 0 Genesis.genTableOffset = Genesis.size := by
      refine (hw.get (n := Genesis.size) (by decide) fun r hr => ?_).trans h.table
      rw [List.mem_singleton.1 hr]
      exact Or.inl (Nat.le_add_right_of_le (by decide))
    have hcount : Atlas.entryCount { σ with mem := m } = σ.entryCount := by
      rw [entryCount, entryCount, tableOffset, genesis, htable, h.table]
      refine hkeep _ ?_
      simp only [StructField.Apart, GenTable.entryCount, GenTable.generations]
      omega
    refine ⟨⟨h.init, htable, hcount.trans_le h.count⟩, hcount.ge, fun j hj => ?_⟩
    have hj' : Atlas.generationOf { σ with mem := m } j =
        m.get Genesis.size (GenTable.generations j) := by
      rw [generationOf, tableOffset, genesis, htable]
    rw [hj']
    rcases eq_or_ne j id with rfl | hne
    · rw [hgen, u64_of_lt (hid hlt)]
      exact Nat.le_succ _
    · rw [hkeep _ (generations_apart hne), generationOf, h.table]

/-- The two counters of a restore that leaves the table alone. -/
theorem step_restore (h : TableSound σ) {s : ℕ} (hs : RestoreSpares σ s) :
    TableSound ((σ.pagesRestored s).genesisRestored s) ∧
      Advances σ ((σ.pagesRestored s).genesisRestored s) ∧
      ((σ.pagesRestored s).genesisRestored s).genesis Genesis.generation =
        σ.genesis Genesis.generation + 1 := by
  have hpages := changesOnly_pagesRestored σ s
  have hk := (sameSlots_pagesRestored σ s).trans (sameSlots_genesisRestored _ s)
  have hall := hpages.trans (changesOnly_restoreGenesis (σ.pagesRestored s) s)
  have hmem := genesisRestored_mem (σ.pagesRestored s) s
  -- neither the abort count nor a page that is copied back is read again
  have hread : ∀ R : Region, R.Disjoint ⟨104, 8⟩ →
      (∀ r ∈ restoredPages s (2 ^ 32) 0 σ.abortAll, R.Disjoint r) →
      ∀ r ∈ [Region.mk 104 8] ++ restoredPages s (2 ^ 32) 0 σ.abortAll, R.Disjoint r := by
    intro R h104 hr r hmem
    rcases List.mem_append.1 hmem with hmem | hmem
    · rw [List.mem_singleton.1 hmem]
      exact h104
    · exact hr r hmem
  have hgen : (σ.pagesRestored s).genesis Genesis.generation = σ.genesis Genesis.generation :=
    hpages.load (hread _ (by decide) fun r hr => ((hs.pages r hr).1).symm)
  have hcopy : (σ.pagesRestored s).mem.get (s + Snapshot.genesisCopy) Genesis.genTableOffset =
      Genesis.size := by
    refine (hpages.get (n := Genesis.size) (by decide) (hread _ ?_ fun r hr =>
      (hs.pages r hr).2.2.symm)).trans hs.copy
    simp only [Region.Disjoint, Snapshot.genesisCopy]
    omega
  generalize (σ.pagesRestored s).genesisRestored s = τ at hk hmem ⊢
  generalize σ.pagesRestored s = υ at hpages hall hgen hcopy hmem
  have htable : τ.tableOffset = Genesis.size := by
    rw [tableOffset, genesis, hmem, restoreGenesis]
    simp (disch := decide) only [assign, get_set_apart]
    rw [get_copy υ.mem 0 _ (by decide), hcopy]
  have hused : ∀ r ∈ [Region.mk 104 8] ++ restoredPages s (2 ^ 32) 0 σ.abortAll ++
      [⟨0, Genesis.size⟩], r.Disjoint (usedTable σ.entryCount) := by
    intro r hr
    rcases List.mem_append.1 hr with hr | hr
    · rcases List.mem_append.1 hr with hr | hr
      · rw [List.mem_singleton.1 hr]
        exact Or.inl (Nat.le_of_lt (by decide : 104 + 8 < 256))
      · exact (hs.pages r hr).2.1
    · rw [List.mem_singleton.1 hr]
      exact Or.inl (le_refl 256)
  rw [← hmem] at hall
  obtain ⟨hsound, hadv⟩ := h.frame (hk.init.trans h.init) htable hall hused
  refine ⟨hsound, hadv, ?_⟩
  rw [genesis, hmem, restoreGenesis]
  simp (disch := decide) only [assign, get_set_apart]
  rw [get_set_u64 _ _ rfl, hgen, u64_of_lt hs.generation]

/-- An operation that writes elsewhere. -/
theorem step_elsewhere (h : TableSound σ) {op : Op}
    (hop : ∀ r ∈ op.writes σ, r.Disjoint tableWord ∧ r.Disjoint (usedTable σ.entryCount)) :
    TableSound (Op.step σ op).1 ∧ Advances σ (Op.step σ op).1 := by
  have hc := Op.changesOnly h.init op
  refine h.frame ((Op.keeps h.init op).init.trans h.init) ?_ hc fun r hr => (hop r hr).2
  exact (hc.load fun r hr => ((hop r hr).1).symm).trans h.table

/-- An operation that spares the table keeps it sound and only advances it. -/
theorem step (h : TableSound σ) {op : Op} (hop : SparesTable σ op) :
    TableSound (Op.step σ op).1 ∧ Advances σ (Op.step σ op).1 := by
  unfold SparesTable at hop
  split at hop
  · exact h.step_allocGeneration
  · exact h.step_revoke hop
  · rename_i k
    cases hk : σ.snapshots k with
    | none =>
      simp only [Op.step, SnapOp.step, hk]
      exact ⟨h, Advances.refl σ⟩
    | some s =>
      simp only [Op.step, SnapOp.step, hk]
      rcases snapshotRestore_cases h.init s with ⟨b, hs, -⟩ | ⟨hstate, -, hs⟩
      · rw [hs]
        exact ⟨h, Advances.refl σ⟩
      · obtain ⟨hsound, hadv, -⟩ := h.step_restore (hop s hk hstate)
        rw [hs]
        exact ⟨hsound, hadv⟩
  · exact h.step_elsewhere hop

/-- A restore that succeeds increases the generation. -/
theorem lt_of_restore (h : TableSound σ) {k : Fin maxSnapshots}
    (hop : SparesTable σ (.snap (.restore k)))
    (hres : (Op.step σ (.snap (.restore k))).2 = .snap (.vbit .true)) :
    σ.genesis Genesis.generation <
      (Op.step σ (.snap (.restore k))).1.genesis Genesis.generation := by
  cases hk : σ.snapshots k with
  | none =>
    simp only [Op.step, SnapOp.step, hk, Atlas.snapshotRestore, Result.snap.injEq,
      SnapResult.vbit.injEq] at hres
    cases hres
  | some s =>
    simp only [Op.step, SnapOp.step, hk, Result.snap.injEq, SnapResult.vbit.injEq] at hres ⊢
    rcases snapshotRestore_cases h.init s with ⟨b, hs, hb⟩ | ⟨hstate, -, hs⟩
    · rw [hs] at hres
      exact absurd hres hb
    · obtain ⟨-, -, hgen⟩ := h.step_restore (hop s hk hstate)
      rw [hs]
      exact (Nat.lt_succ_self _).trans_eq hgen.symm

/-- A run of operations that spare the table. -/
theorem run (h : TableSound σ) {ops : List Op} (hg : Guarded Op.step SparesTable σ ops) :
    TableSound (Runs.run Op.step σ ops) ∧ Advances σ (Runs.run Op.step σ ops) := by
  constructor
  · exact guarded_invariant (I := TableSound) (fun _ _ hs hop => (hs.step hop).1) h hg
  · exact guarded_le (I := TableSound) (r := Advances) Advances.refl
      (fun _ _ _ h h' => h.trans h') (fun _ _ hs hop => hs.step hop) h hg

end TableSound

theorem tableSound_format (size : ℕ) (mem : Memory) : TableSound (mapped size mem).format where
  init := rfl
  table := format_tableOffset _
  count := (format_entryCount _).trans_le (Nat.zero_le _)

/-- A restore that succeeds increases the generation of Genesis. -/
def RestoreIncreases (c : Call Atlas Op Result) : Prop :=
  ∀ k, c.op = .snap (.restore k) → c.result = .snap (.vbit .true) →
    c.before.genesis Genesis.generation < (Op.step c.before c.op).1.genesis Genesis.generation

/-- In a run of operations that spare the table, a generation that was accepted and then
refused is never accepted again, and every restore increases the generation of Genesis. -/
theorem revoked_forever {mmap : ℕ → Bool} {mem : Memory} {request : ℕ} {σ : Atlas}
    (hnew : atlasInit mmap mem none request = some σ) (ops₁ ops₂ ops₃ : List Op)
    (hg : Guarded Op.step SparesTable σ (ops₁ ++ ops₂ ++ ops₃)) :
    (∀ id g, (run Op.step σ ops₁).checkGeneration id g = .true →
      (run Op.step σ (ops₁ ++ ops₂)).checkGeneration id g = .false →
      (run Op.step σ (ops₁ ++ ops₂ ++ ops₃)).checkGeneration id g ≠ .true) ∧
    ∀ c ∈ calls Op.step σ (ops₁ ++ ops₂ ++ ops₃), RestoreIncreases c := by
  obtain ⟨size, -, rfl⟩ := atlasInit_new hnew
  have hsound := tableSound_format size mem
  refine ⟨fun id g haccepted hrefused => ?_, ?_⟩
  · obtain ⟨hg, hg₃⟩ := guarded_append.1 hg
    obtain ⟨hg₁, hg₂⟩ := guarded_append.1 hg
    rw [run_append] at hg₃
    obtain ⟨hsound₁, -⟩ := hsound.run hg₁
    obtain ⟨hsound₂, hadv₂⟩ := hsound₁.run hg₂
    obtain ⟨-, hadv₃⟩ := hsound₂.run hg₃
    rw [run_append] at hrefused
    rw [run_append, run_append]
    exact hadv₂.never_again hadv₃ haccepted hrefused
  · refine guarded_calls (I := TableSound) (P := RestoreIncreases)
      (fun _ _ hs hop => (hs.step hop).1) (fun τ op hs hop k hk hres => ?_) hsound hg
    change op = _ at hk
    subst hk
    exact hs.lt_of_restore hop hres

/-- A snapshot that copies the page at `page`, with `writes` after the commit, is restored. -/
def copyAndRestore (page : ℕ) (writes : List Op) : List Op :=
  [.snap (.begin none), .snap (.includePages 0 (some page) 8), .snap (.activate 0),
    .snap (.cowPage 0 (some page)), .snap (.commit 0)] ++ writes ++ [.snap (.restore 0)]

/-- On 256 KiB, a revoked generation stays revoked when a data page is restored. -/
theorem revoked_forever_256k :
    (run Op.step smallAtlas
      ([.alloc .allocGeneration] ++ [.alloc (.revoke 0)] ++
        copyAndRestore 131072 [])).checkGeneration 0 1 ≠ .true := by
  refine (revoked_forever atlasInit_smallAtlas [.alloc .allocGeneration] [.alloc (.revoke 0)]
    (copyAndRestore 131072 []) ⟨trivial, fun _ => ?_, ?_, ?_, ?_, ?_, ?_, ?_, trivial⟩).1 0 1
    (by decide) (by decide +kernel)
  · decide
  · change ∀ r ∈ Op.writes _ (.snap (.begin none)), _
    decide
  · change ∀ r ∈ Op.writes _ (.snap (.includePages 0 (some 131072) 8)), _
    decide
  · change ∀ r ∈ Op.writes _ (.snap (.activate 0)), _
    decide
  · change ∀ r ∈ Op.writes _ (.snap (.cowPage 0 (some 131072))), _
    decide
  · change ∀ r ∈ Op.writes _ (.snap (.commit 0)), _
    decide
  · intro s hs _
    obtain rfl : 16384 = s := Option.some.inj (Eq.trans (by decide) hs)
    exact ⟨by decide, by decide +kernel, by decide +kernel⟩

/-- On 256 KiB, a snapshot that copies the page of the table brings a revoked generation
back. -/
theorem not_revoked_forever :
    (run Op.step smallAtlas
        ([.alloc .allocGeneration])).checkGeneration 0 1 = .true ∧
      (run Op.step smallAtlas ([.alloc .allocGeneration] ++
        (copyAndRestore 256 [.alloc (.revoke 0)]).dropLast)).checkGeneration 0 1 = .false ∧
      (run Op.step smallAtlas ([.alloc .allocGeneration] ++
        copyAndRestore 256 [.alloc (.revoke 0)])).checkGeneration 0 1 = .true :=
  ⟨by decide, by decide +kernel, by decide +kernel⟩

end Seraph
