import Mathlib.Algebra.Order.BigOperators.Group.Finset
import Mathlib.Data.Fintype.Basic
import Mathlib.Data.List.FinRange
import Seraph.AtlasLayout

/-!
# Transactions

A transaction occupies one of sixteen slots of the handle. `begin` records the
generation of Genesis, and `commit` succeeds when the generation is still the same; a
successful commit increments it, so that every transaction that was active then will
conflict. `abort` and a conflicting commit mark the slot aborted.

`TxOp` runs the three calls in any order. `WorkOp` adds what a client does while its
transaction is active : marking regions dirty, moving the root and writing bytes.
-/

namespace Seraph

open ByteMem Memory Runs

/-- A transaction pointer, as the index of its slot; `none` is NULL. -/
abbrev TxPtr := Option (Fin maxTransactions)

namespace Atlas

variable (σ : Atlas)

/-- The slot can be taken by a new transaction. -/
def slotFree (i : Fin maxTransactions) : Bool :=
  (σ.transactions i).state = .void ∨ (σ.transactions i).state = .committed ∨
    (σ.transactions i).state = .aborted

/-- `seraph_atlas_begin`. -/
def begin : Atlas × TxPtr :=
  if !σ.initialized then (σ, none)
  else
    match (List.finRange maxTransactions).find? σ.slotFree with
    | none => (σ, none)
    | some i =>
      ({ σ with
          transactions := Function.update σ.transactions i
            { txId := σ.nextTxId
              epoch := σ.currentEpoch
              startGeneration := σ.genesis Genesis.generation
              startChronon := 0
              state := .active
              dirtyPages := [] }
          nextTxId := u64 (σ.nextTxId + 1) }, some i)

/-- Set the state of a transaction. -/
def setTxState (i : Fin maxTransactions) (state : TxState) : Atlas :=
  { σ with transactions :=
      Function.update σ.transactions i { σ.transactions i with state := state } }

theorem setTxState_self (i : Fin maxTransactions) (state : TxState) :
    (σ.setTxState i state).transactions i = { σ.transactions i with state := state } :=
  Function.update_self _ _ _

theorem setTxState_of_ne {i j : Fin maxTransactions} (h : j ≠ i) (state : TxState) :
    (σ.setTxState i state).transactions j = σ.transactions j :=
  Function.update_of_ne h _ _

/-- `genesis->abort_count++`. -/
def countAbort : Atlas :=
  { σ with mem := σ.mem.set 0 Genesis.abortCount (σ.genesis Genesis.abortCount + 1) }

/-- Genesis after a successful commit. -/
def committedGenesis : Memory :=
  let m := σ.mem.set 0 Genesis.generation (σ.genesis Genesis.generation + 1)
  let m := m.set 0 Genesis.modifiedAt 0
  let m := m.set 0 Genesis.lastCommitAt (m.get 0 Genesis.modifiedAt)
  m.set 0 Genesis.commitCount (m.get 0 Genesis.commitCount + 1)

/-- `seraph_atlas_commit`. -/
def commit (tx : TxPtr) : Atlas × Vbit :=
  match tx with
  | none => (σ, .void)
  | some i =>
    if !σ.initialized then (σ, .void)
    else if (σ.transactions i).state ≠ .active then (σ, .void)
    else if σ.genesis Genesis.generation ≠ (σ.transactions i).startGeneration then
      ((σ.setTxState i .aborted).countAbort, .false)
    else
      ({ σ.setTxState i .committed with
          mem := σ.committedGenesis
          currentEpoch := u64 (σ.currentEpoch + 1) }, .true)

/-- `seraph_atlas_abort`. -/
def abort (tx : TxPtr) : Atlas :=
  match tx with
  | none => σ
  | some i =>
    if (σ.transactions i).state ≠ .active then σ
    else (σ.countAbort).setTxState i .aborted

/-- `seraph_atlas_tx_mark_dirty`. -/
def txMarkDirty (tx : TxPtr) (ptr : Ptr) (size : ℕ) : Atlas × Vbit :=
  match tx with
  | none => (σ, .void)
  | some i =>
    if (σ.transactions i).state ≠ .active then (σ, .void)
    else if maxDirtyPages ≤ (σ.transactions i).dirtyPages.length then (σ, .false)
    else
      ({ σ with
          transactions := Function.update σ.transactions i
            { σ.transactions i with
              dirtyPages := (σ.transactions i).dirtyPages ++ [⟨ptr, size, none⟩] } }, .true)

/-- `seraph_atlas_set_root`. -/
def setRoot (root : Ptr) : Atlas × Vbit :=
  if !σ.initialized then (σ, .void)
  else if root ≠ none ∧ !σ.contains root then (σ, .void)
  else
    let m := σ.mem.set 0 Genesis.rootOffset (if root = none then 0 else σ.ptrToOffset root)
    ({ σ with mem := m.set 0 Genesis.modifiedAt 0 }, .true)

/-- The Genesis bytes that commits and aborts write : the generation, the two times and
the two counters. -/
def txWrites : List Region :=
  [⟨16, 8⟩, ⟨80, 32⟩]

/-- The Genesis bytes that moving the root writes. -/
def rootWrites : List Region :=
  [⟨24, 8⟩, ⟨80, 8⟩]

theorem changesOnly_setRoot (root : Ptr) :
    ChangesOnly rootWrites σ.mem (σ.setRoot root).1.mem := by
  unfold setRoot
  split
  · exact ChangesOnly.refl _ _
  · split
    · exact ChangesOnly.refl _ _
    · exact (changesOnly_store _ _ _ _).trans (changesOnly_store _ _ _ _)

/-- A new transaction takes a free slot and starts from the current generation. -/
theorem begin_cases : (σ.begin = (σ, none)) ∨ ∃ i, σ.initialized = true ∧
    (σ.transactions i).state ≠ .active ∧
    σ.begin = ({ σ with
      transactions := Function.update σ.transactions i
        ⟨σ.nextTxId, σ.currentEpoch, σ.genesis Genesis.generation, 0, .active, []⟩
      nextTxId := u64 (σ.nextTxId + 1) }, some i) := by
  unfold begin
  split_ifs with hinit
  · exact Or.inl rfl
  · cases hf : (List.finRange maxTransactions).find? σ.slotFree with
    | none => exact Or.inl rfl
    | some i =>
      refine Or.inr ⟨i, by simpa using hinit, fun hact => ?_, rfl⟩
      have hfree := List.find?_some hf
      simp [slotFree, hact] at hfree

theorem committedGenesis_generation : σ.committedGenesis.get 0 Genesis.generation =
    u64 (σ.genesis Genesis.generation + 1) := by
  unfold committedGenesis
  simp (disch := decide) only [get_set_apart]
  exact get_set_u64 _ _ rfl _

theorem committedGenesis_commitCount : σ.committedGenesis.get 0 Genesis.commitCount =
    u64 (σ.genesis Genesis.commitCount + 1) := by
  unfold committedGenesis
  rw [get_set_u64 _ _ rfl]
  simp (disch := decide) only [get_set_apart]
  rfl

theorem changesOnly_committedGenesis : ChangesOnly txWrites σ.mem σ.committedGenesis := by
  have hall : ChangesOnly [⟨16, 8⟩, ⟨80, 8⟩, ⟨88, 8⟩, ⟨96, 8⟩] σ.mem σ.committedGenesis :=
    (((changesOnly_store _ _ _ _).trans (changesOnly_store _ _ _ _)).trans
      (changesOnly_store _ _ _ _)).trans (changesOnly_store _ _ _ _)
  refine hall.mono ?_
  simp only [txWrites, Region.Within]
  decide

/-- A commit does nothing to a slot that is not active; otherwise it succeeds and moves the
counters when the generation is the one at the begin, and aborts when it is not. -/
theorem commit_cases (hinit : σ.initialized = true) (i : Fin maxTransactions) :
    ((σ.transactions i).state ≠ .active ∧ σ.commit (some i) = (σ, .void)) ∨
      ((σ.transactions i).state = .active ∧
        σ.genesis Genesis.generation ≠ (σ.transactions i).startGeneration ∧
        σ.commit (some i) = ((σ.setTxState i .aborted).countAbort, .false)) ∨
      ((σ.transactions i).state = .active ∧
        σ.genesis Genesis.generation = (σ.transactions i).startGeneration ∧
        σ.commit (some i) = ({ σ.setTxState i .committed with
          mem := σ.committedGenesis
          currentEpoch := u64 (σ.currentEpoch + 1) }, .true)) := by
  by_cases hact : (σ.transactions i).state = .active
  · by_cases hgen : σ.genesis Genesis.generation = (σ.transactions i).startGeneration
    · exact Or.inr (Or.inr ⟨hact, hgen, by simp [commit, hinit, hact, hgen]⟩)
    · exact Or.inr (Or.inl ⟨hact, hgen, by simp [commit, hinit, hact, hgen]⟩)
  · exact Or.inl ⟨hact, by simp [commit, hinit, hact]⟩

theorem countAbort_genesis {f : StructField} (h : Genesis.abortCount.Apart f) :
    σ.countAbort.genesis f = σ.genesis f :=
  get_set_apart _ _ h _

theorem changesOnly_countAbort : ChangesOnly [⟨104, 8⟩] σ.mem σ.countAbort.mem :=
  changesOnly_store _ _ _ _

/-- An abort counts and marks an active transaction. -/
theorem abort_cases (i : Fin maxTransactions) :
    ((σ.transactions i).state ≠ .active ∧ σ.abort (some i) = σ) ∨
      ((σ.transactions i).state = .active ∧
        σ.abort (some i) = (σ.countAbort).setTxState i .aborted) := by
  by_cases hact : (σ.transactions i).state = .active
  · exact Or.inr ⟨hact, by simp [abort, hact]⟩
  · exact Or.inl ⟨hact, by simp [abort, hact]⟩

end Atlas

/-! ## Calls in any order -/

/-- Begin, commit and abort. -/
inductive TxOp where
  | begin
  | commit (tx : TxPtr)
  | abort (tx : TxPtr)
deriving DecidableEq, Repr

/-- A transaction pointer, a truth value or nothing. -/
inductive TxResult where
  | slot (tx : TxPtr)
  | vbit (b : Vbit)
  | unit
deriving DecidableEq, Repr

/-- Perform one call. -/
def TxOp.step (σ : Atlas) : TxOp → Atlas × TxResult
  | begin => (σ.begin.1, .slot σ.begin.2)
  | commit tx => ((σ.commit tx).1, .vbit (σ.commit tx).2)
  | abort tx => (σ.abort tx, .unit)

theorem changesOnly_abort (σ : Atlas) (tx : TxPtr) :
    ChangesOnly [⟨104, 8⟩] σ.mem (σ.abort tx).mem := by
  cases tx with
  | none => exact ChangesOnly.refl _ _
  | some i =>
    rcases σ.abort_cases i with ⟨-, h⟩ | ⟨-, h⟩
    · rw [h]
      exact ChangesOnly.refl _ _
    · rw [h]
      exact σ.changesOnly_countAbort

/-- Transaction calls write the counters of Genesis only. -/
theorem TxOp.changesOnly (σ : Atlas) (op : TxOp) :
    ChangesOnly Atlas.txWrites σ.mem (TxOp.step σ op).1.mem := by
  have habort : ∀ r ∈ [Region.mk 104 8], ∃ s ∈ Atlas.txWrites, r.Within s := by
    simp only [Atlas.txWrites, Region.Within]
    decide
  cases op with
  | begin =>
    rcases σ.begin_cases with h | ⟨i, -, -, h⟩ <;> rw [TxOp.step, h] <;> exact ChangesOnly.refl _ _
  | commit tx =>
    cases tx with
    | none => exact ChangesOnly.refl _ _
    | some i =>
      by_cases hinit : σ.initialized = true
      · rcases σ.commit_cases hinit i with ⟨-, h⟩ | ⟨-, -, h⟩ | ⟨-, -, h⟩
        · rw [TxOp.step, h]
          exact ChangesOnly.refl _ _
        · rw [TxOp.step, h]
          exact (σ.setTxState i .aborted).changesOnly_countAbort.mono habort
        · rw [TxOp.step, h]
          exact σ.changesOnly_committedGenesis
      · have h : σ.commit (some i) = (σ, .void) := by simp [Atlas.commit, hinit]
        rw [TxOp.step, h]
        exact ChangesOnly.refl _ _
  | abort tx => exact (changesOnly_abort σ tx).mono habort

/-- Transaction calls, and what a client does in between : mark a region, move the root,
write bytes. -/
inductive WorkOp where
  | call (op : TxOp)
  | markDirty (tx : TxPtr) (ptr : Ptr) (size : ℕ)
  | setRoot (root : Ptr)
  | write (off : ℕ) (bytes : List UInt8)
deriving DecidableEq, Repr

/-- Perform one call or write. -/
def WorkOp.step (σ : Atlas) : WorkOp → Atlas × TxResult
  | call op => TxOp.step σ op
  | markDirty tx ptr size => ((σ.txMarkDirty tx ptr size).1, .vbit (σ.txMarkDirty tx ptr size).2)
  | setRoot root => ((σ.setRoot root).1, .vbit (σ.setRoot root).2)
  | write off bytes => ({ σ with mem := σ.mem.write off bytes }, .unit)

end Seraph
