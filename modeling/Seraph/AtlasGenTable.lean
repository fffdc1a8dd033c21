import Seraph.AtlasLayout

/-!
# The generation table

Capabilities to a persistent allocation carry the generation of a table entry. `revoke`
increments the entry, so that `checkGeneration` no longer accepts the old number. Each
operation has one lemma that lists what it can do (`allocGeneration_cases`,
`revoke_cases`), with the bytes it may change.
-/

namespace Seraph

open ByteMem Memory

namespace Atlas

variable (σ : Atlas)

/-- `seraph_atlas_get_gen_table`. -/
def getGenTable : Ptr :=
  if !σ.initialized || σ.tableOffset = 0 then none else some σ.tableOffset

/-- `seraph_atlas_alloc_generation`. -/
def allocGeneration : Atlas × ℕ :=
  match σ.getGenTable with
  | none => (σ, voidU64)
  | some table =>
    if genTableSize ≤ σ.mem.get table GenTable.entryCount then (σ, voidU64)
    else
      let allocId := σ.mem.get table GenTable.entryCount
      let generation := σ.mem.get table GenTable.nextGeneration
      let m := σ.mem.set table (GenTable.generations allocId) generation
      let m := m.set table GenTable.nextGeneration (generation + 1)
      let m := m.set table GenTable.entryCount (m.get table GenTable.entryCount + 1)
      ({ σ with mem := m }, allocId)

/-- `seraph_atlas_revoke`. -/
def revoke (allocId : ℕ) : Atlas × ℕ :=
  match σ.getGenTable with
  | none => (σ, voidU64)
  | some table =>
    if σ.mem.get table GenTable.entryCount ≤ allocId then (σ, voidU64)
    else
      let generation := σ.mem.get table (GenTable.generations allocId)
      let m := σ.mem.set table (GenTable.generations allocId) (generation + 1)
      ({ σ with mem := m }, m.get table (GenTable.generations allocId))

/-- `seraph_atlas_check_generation`. -/
def checkGeneration (allocId generation : ℕ) : Vbit :=
  match σ.getGenTable with
  | none => .void
  | some table =>
    if σ.mem.get table GenTable.entryCount ≤ allocId then .void
    else if generation = σ.mem.get table (GenTable.generations allocId) then .true
    else .false

/-- The bytes that a new entry writes : the two words of the table and the slot `id`. -/
def entryWrites (table id : ℕ) : List Region :=
  [⟨table + (GenTable.generations id).off, 8⟩, ⟨table + 8, 16⟩]

/-- The words of the generation table and its first `count` slots. -/
def usedTable (count : ℕ) : Region :=
  ⟨Genesis.size, 24 + 8 * count⟩

theorem generations_apart {i j : ℕ} (h : i ≠ j) :
    (GenTable.generations i).Apart (GenTable.generations j) := by
  simp only [StructField.Apart, GenTable.generations]
  omega

variable {σ}

theorem getGenTable_eq_some {table : ℕ} (h : σ.getGenTable = some table) :
    σ.tableOffset = table ∧ σ.initialized = true ∧ σ.tableOffset ≠ 0 := by
  unfold getGenTable at h
  split_ifs at h with hc
  simp only [Bool.or_eq_true, Bool.not_eq_true', decide_eq_true_eq, not_or,
    Bool.not_eq_false] at hc
  exact ⟨Option.some.inj h, hc.1, hc.2⟩

/-- A new entry goes in the first unused slot and leaves the used slots alone. -/
theorem allocGeneration_cases :
    (σ.allocGeneration = (σ, voidU64)) ∨ ∃ m, σ.getGenTable = some σ.tableOffset ∧
      σ.entryCount < genTableSize ∧
      σ.allocGeneration = ({ σ with mem := m }, σ.entryCount) ∧
      m.get σ.tableOffset GenTable.entryCount = σ.entryCount + 1 ∧
      (∀ id < σ.entryCount, m.get σ.tableOffset (GenTable.generations id) =
        σ.generationOf id) ∧
      ChangesOnly (entryWrites σ.tableOffset σ.entryCount) σ.mem m := by
  unfold allocGeneration
  cases ht : σ.getGenTable with
  | none => exact Or.inl rfl
  | some table =>
    obtain ⟨rfl, -, -⟩ := getGenTable_eq_some ht
    dsimp only
    split_ifs with hfull
    · exact Or.inl rfl
    · have hlt : σ.entryCount < genTableSize := by simpa [entryCount] using hfull
      have hcount : (GenTable.generations σ.entryCount).Apart GenTable.entryCount := by
        simp only [StructField.Apart, GenTable.generations, GenTable.entryCount]
        omega
      refine Or.inr ⟨_, rfl, hlt, rfl, ?_, fun id hid => ?_, ?_⟩
      · refine (get_set_same _ _ _ _).trans ?_
        have hkeep := (get_set_apart (σ.mem.set σ.tableOffset (GenTable.generations σ.entryCount)
            (σ.mem.get σ.tableOffset GenTable.nextGeneration)) σ.tableOffset
            (f := GenTable.nextGeneration) (g := GenTable.entryCount) (by decide)
            (σ.mem.get σ.tableOffset GenTable.nextGeneration + 1)).trans
          (get_set_apart σ.mem σ.tableOffset hcount _)
        refine (congrArg (fun n => (n + 1) % 256 ^ 8) hkeep).trans (Nat.mod_eq_of_lt ?_)
        change σ.entryCount + 1 < 256 ^ 8
        unfold genTableSize at hlt
        omega
      · have h1 : GenTable.entryCount.Apart (GenTable.generations id) := by
          simp only [StructField.Apart, GenTable.generations, GenTable.entryCount]
          omega
        have h2 : GenTable.nextGeneration.Apart (GenTable.generations id) := by
          simp only [StructField.Apart, GenTable.generations, GenTable.nextGeneration]
          omega
        exact (get_set_apart _ _ h1 _).trans ((get_set_apart _ _ h2 _).trans
          (get_set_apart _ _ (generations_apart hid.ne') _))
      · refine (((changesOnly_store _ _ _ _).trans (changesOnly_store _ _ _ _)).trans
          (changesOnly_store _ _ _ _)).mono ?_
        simp only [List.cons_append, List.nil_append, List.forall_mem_cons]
        refine ⟨⟨_, List.mem_cons_self, le_refl _, le_refl _⟩,
          ⟨_, List.mem_cons_of_mem _ List.mem_cons_self, ?_⟩,
          ⟨_, List.mem_cons_of_mem _ List.mem_cons_self, ?_⟩, by simp⟩
        · simp only [Region.Within, GenTable.nextGeneration]
          omega
        · simp only [Region.Within, GenTable.entryCount]
          omega

/-- Revoking increments one used slot and changes nothing else. -/
theorem revoke_cases (id : ℕ) :
    (σ.revoke id = (σ, voidU64)) ∨ ∃ m, σ.getGenTable = some σ.tableOffset ∧
      id < σ.entryCount ∧
      σ.revoke id = ({ σ with mem := m }, m.get σ.tableOffset (GenTable.generations id)) ∧
      m.get σ.tableOffset (GenTable.generations id) = u64 (σ.generationOf id + 1) ∧
      ChangesOnly [⟨σ.tableOffset + (GenTable.generations id).off, 8⟩] σ.mem m := by
  unfold revoke
  cases ht : σ.getGenTable with
  | none => exact Or.inl rfl
  | some table =>
    obtain ⟨rfl, -, -⟩ := getGenTable_eq_some ht
    dsimp only
    split_ifs with hid
    · exact Or.inl rfl
    · exact Or.inr ⟨_, rfl, by simpa [entryCount] using hid, rfl, get_set_same _ _ _ _,
        changesOnly_store _ _ _ _⟩

/-- An accepted generation is the one in the table. -/
theorem checkGeneration_eq_true {id g : ℕ} (h : σ.checkGeneration id g = .true) :
    id < σ.entryCount ∧ g = σ.generationOf id := by
  unfold checkGeneration at h
  cases ht : σ.getGenTable with
  | none => simp [ht] at h
  | some table =>
    obtain ⟨rfl, -, -⟩ := getGenTable_eq_some ht
    simp only [ht] at h
    split_ifs at h with hid hg
    exact ⟨not_le.1 hid, hg⟩

/-- A refused generation is another one than in the table. -/
theorem checkGeneration_eq_false {id g : ℕ} (h : σ.checkGeneration id g = .false) :
    id < σ.entryCount ∧ g ≠ σ.generationOf id := by
  unfold checkGeneration at h
  cases ht : σ.getGenTable with
  | none => simp [ht] at h
  | some table =>
    obtain ⟨rfl, -, -⟩ := getGenTable_eq_some ht
    simp only [ht] at h
    split_ifs at h with hid hg
    exact ⟨not_le.1 hid, hg⟩

end Atlas

end Seraph
