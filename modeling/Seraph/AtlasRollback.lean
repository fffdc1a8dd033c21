import Seraph.AtlasTransactions

/-!
# What an abort leaves behind

`seraph_atlas_tx_mark_dirty` records a region and no copy of it, and neither `abort` nor a commit
that finds a conflict writes anything but the abort count. So a transaction that ends aborted is
rolled back exactly when its client left every marked byte and the root as they were at the begin
(`rolledBack_iff`). Past Genesis that is a matter of the last byte written at each address
(`lastWrite`).
-/

namespace Seraph

open ByteMem Memory Runs

/-- The byte an operation writes at address `a`. -/
def WorkOp.patch (a : ℕ) : WorkOp → Option UInt8
  | write off bytes =>
    if off ≤ a ∧ a < off + bytes.length then some (bytes.getD (a - off) 0) else none
  | _ => none

/-- The last byte that the operations write at address `a`. -/
def lastWrite (a : ℕ) : List WorkOp → Option UInt8
  | [] => none
  | op :: ops => (lastWrite a ops).or (op.patch a)

/-- A byte of a region the transaction marked dirty. -/
def Transaction.Marked (tx : Transaction) (a : ℕ) : Prop :=
  ∃ d ∈ tx.dirtyPages, ∃ off, d.offset = some off ∧ a ∈ Region.mk off d.size

/-- Past Genesis only the client writes. -/
theorem mem_workStep (σ : Atlas) (op : WorkOp) {a : ℕ} (ha : Genesis.size ≤ a) :
    (WorkOp.step σ op).1.mem a = (op.patch a).getD (σ.mem a) := by
  cases op with
  | call op =>
    refine TxOp.changesOnly σ op a fun r hr hmem => ?_
    have hin : ∀ r ∈ Atlas.txWrites, r.start + r.len ≤ Genesis.size := by decide
    have := hin r hr
    rw [Region.mem_def] at hmem
    omega
  | markDirty tx ptr size =>
    cases tx with
    | none => rfl
    | some i =>
      simp only [WorkOp.step, Atlas.txMarkDirty]
      split_ifs <;> rfl
  | setRoot root =>
    refine σ.changesOnly_setRoot root a fun r hr hmem => ?_
    have hin : ∀ r ∈ Atlas.rootWrites, r.start + r.len ≤ Genesis.size := by decide
    have := hin r hr
    rw [Region.mem_def] at hmem
    omega
  | write off bytes =>
    simp only [WorkOp.step, WorkOp.patch, Memory.write]
    split_ifs <;> rfl

theorem mem_workRun (σ : Atlas) (ops : List WorkOp) {a : ℕ} (ha : Genesis.size ≤ a) :
    (run WorkOp.step σ ops).mem a = (lastWrite a ops).getD (σ.mem a) := by
  induction ops generalizing σ with
  | nil => rfl
  | cons op ops ih =>
    rw [run_cons, ih, mem_workStep σ op ha, lastWrite]
    cases lastWrite a ops <;> rfl

/-- The transaction that begins in `σ` in slot `i` works through `mid` and ends aborted, by
`op` : an abort, or a commit that finds a conflict. -/
structure EndsAborted (σ : Atlas) (mid : List WorkOp) (op : TxOp) (i : Fin maxTransactions) :
    Prop where
  began : (WorkOp.step σ (.call .begin)).2 = .slot (some i)
  kept : ∀ c ∈ calls WorkOp.step (WorkOp.step σ (.call .begin)).1 mid, c.result ≠ .slot (some i)
  active : ((run WorkOp.step σ (.call .begin :: mid)).transactions i).state = .active
  last : op = .abort (some i) ∨ op = .commit (some i)
  aborted : ((TxOp.step (run WorkOp.step σ (.call .begin :: mid)) op).1.transactions i).state =
    .aborted

/-- Every marked byte and the root are in `τ` what they were in `σ`. -/
def RolledBack (tx : Transaction) (σ τ : Atlas) : Prop :=
  (∀ a, tx.Marked a → τ.mem a = σ.mem a) ∧
    τ.genesis Genesis.rootOffset = σ.genesis Genesis.rootOffset

/-- The client left the marked bytes and the root as they were in `σ` : the last byte it
wrote at a marked address past Genesis is the one that was there, a marked byte of Genesis
is the same in `τ` once the abort is counted, and so is the root. -/
structure LeftAsFound (tx : Transaction) (mid : List WorkOp) (σ τ : Atlas) : Prop where
  data : ∀ a, tx.Marked a → Genesis.size ≤ a → ∀ b ∈ lastWrite a mid, b = σ.mem a
  genesis : ∀ a, tx.Marked a → a < Genesis.size → τ.countAbort.mem a = σ.mem a
  root : τ.genesis Genesis.rootOffset = σ.genesis Genesis.rootOffset

/-- Ending aborted counts the abort and writes nothing else. -/
theorem mem_of_aborted {σ : Atlas} {op : TxOp} {i : Fin maxTransactions}
    (hact : (σ.transactions i).state = .active)
    (hop : op = .abort (some i) ∨ op = .commit (some i))
    (hend : ((TxOp.step σ op).1.transactions i).state = .aborted) :
    (TxOp.step σ op).1.mem = σ.countAbort.mem := by
  rcases hop with rfl | rfl
  · rcases σ.abort_cases i with ⟨hno, -⟩ | ⟨-, h⟩
    · exact absurd hact hno
    · rw [TxOp.step, h]
      rfl
  · by_cases hinit : σ.initialized = true
    · rcases σ.commit_cases hinit i with ⟨hno, -⟩ | ⟨-, -, h⟩ | ⟨-, -, h⟩
      · exact absurd hact hno
      · rw [TxOp.step, h]
        rfl
      · simp only [TxOp.step, h] at hend
        have hcommitted := congrArg Transaction.state (σ.setTxState_self i .committed)
        cases hcommitted.symm.trans hend
    · have h : σ.commit (some i) = (σ, .void) := by simp [Atlas.commit, hinit]
      simp only [TxOp.step, h, hact] at hend
      cases hend

/-- An aborted transaction is rolled back exactly when its client left everything as found. -/
theorem rolledBack_iff {σ : Atlas} {mid : List WorkOp} {op : TxOp} {i : Fin maxTransactions}
    (h : EndsAborted σ mid op i) :
    RolledBack ((run WorkOp.step σ (.call .begin :: mid)).transactions i) σ
        (TxOp.step (run WorkOp.step σ (.call .begin :: mid)) op).1 ↔
      LeftAsFound ((run WorkOp.step σ (.call .begin :: mid)).transactions i) mid σ
        (run WorkOp.step σ (.call .begin :: mid)) := by
  have hend := mem_of_aborted h.active h.last h.aborted
  have hbyte : ∀ a, Genesis.size ≤ a →
      (run WorkOp.step σ (.call .begin :: mid)).mem a = (lastWrite a mid).getD (σ.mem a) := by
    intro a ha
    rw [mem_workRun σ _ ha, lastWrite]
    cases lastWrite a mid <;> rfl
  generalize run WorkOp.step σ (.call .begin :: mid) = τ at hend hbyte ⊢
  have hcount : ∀ a, Genesis.size ≤ a → τ.countAbort.mem a = τ.mem a := by
    intro a ha
    refine τ.changesOnly_countAbort a fun r hr hmem => ?_
    rw [List.mem_singleton.1 hr, Region.mem_def] at hmem
    simp only [Genesis.size] at ha hmem
    omega
  have hroot : (TxOp.step τ op).1.genesis Genesis.rootOffset = τ.genesis Genesis.rootOffset := by
    rw [Atlas.genesis, hend]
    exact τ.countAbort_genesis (by decide)
  unfold RolledBack
  rw [hend, hroot]
  constructor
  · rintro ⟨hbytes, hr⟩
    refine ⟨fun a hm ha b hb => ?_, fun a hm _ => hbytes a hm, hr⟩
    have := hbytes a hm
    rw [hcount a ha, hbyte a ha, Option.mem_def.1 hb] at this
    exact this
  · intro hleft
    refine ⟨fun a hm => ?_, hleft.root⟩
    rcases Nat.lt_or_ge a Genesis.size with ha | ha
    · exact hleft.genesis a hm ha
    · rw [hcount a ha, hbyte a ha]
      cases hl : lastWrite a mid with
      | none => rfl
      | some b => exact hleft.data a hm ha b (by rw [hl]; rfl)

/-- A client that marks eight bytes and changes the first. -/
def markAndWrite : List WorkOp :=
  [.markDirty (some 0) (some 40000) 8, .write 40000 [1]]

/-- On 64 KiB, a client that puts back the byte it changed. -/
theorem rolledBack_iff_64k :
    RolledBack ((run WorkOp.step (mapped 65536 fun _ => 0).format
        (.call .begin :: (markAndWrite ++ [.write 40000 [0]]))).transactions 0)
      (mapped 65536 fun _ => 0).format
      (TxOp.step (run WorkOp.step (mapped 65536 fun _ => 0).format
        (.call .begin :: (markAndWrite ++ [.write 40000 [0]]))) (.abort (some 0))).1 ↔
    LeftAsFound ((run WorkOp.step (mapped 65536 fun _ => 0).format
        (.call .begin :: (markAndWrite ++ [.write 40000 [0]]))).transactions 0)
      (markAndWrite ++ [.write 40000 [0]]) (mapped 65536 fun _ => 0).format
      (run WorkOp.step (mapped 65536 fun _ => 0).format
        (.call .begin :: (markAndWrite ++ [.write 40000 [0]]))) :=
  rolledBack_iff ⟨by decide, by decide +kernel, by decide +kernel, Or.inl rfl,
    by decide⟩

/-- On 64 KiB, a transaction that changes a marked byte and aborts leaves the change behind. -/
theorem not_rolledBack_write :
    ¬RolledBack ((run WorkOp.step (mapped 65536 fun _ => 0).format
        (.call .begin :: markAndWrite)).transactions 0)
      (mapped 65536 fun _ => 0).format
      (TxOp.step (run WorkOp.step (mapped 65536 fun _ => 0).format
        (.call .begin :: markAndWrite)) (.abort (some 0))).1 := by
  intro h
  have htx : (run WorkOp.step (mapped 65536 fun _ => 0).format
      (.call .begin :: markAndWrite)).transactions 0 =
      ⟨1, 1, 1, 0, .active, [⟨some 40000, 8, none⟩]⟩ := by
    decide
  have hbyte := h.1 40000 ⟨⟨some 40000, 8, none⟩, by rw [htx]; simp, 40000, rfl, by decide⟩
  revert hbyte
  decide

end Seraph
