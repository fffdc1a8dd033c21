import Seraph.AtlasTransactions

/-!
# First committer wins

The generation of Genesis counts the commits of a run, modulo `2 ^ 64`, and the start
generation of an active transaction is the count at its begin (`Agrees`). Every commit
uses up a begun transaction (`Agrees.budget`), so a run with at most `2 ^ 64` begins has
fewer than `2 ^ 64` commits while a transaction is active, and the generation is the one
at its begin exactly when nothing has committed since (`commit_iff`).
`firstCommitterWins` collects what this gives for a run of a new Atlas.
-/

namespace Seraph

open ByteMem Memory Runs

/-- A call of a run of transactions. -/
abbrev TxCall := Call Atlas TxOp TxResult

/-- The call is a commit that returned TRUE. -/
def committed (c : TxCall) : Bool :=
  match c.op, c.result with
  | .commit _, .vbit .true => true
  | _, _ => false

/-- The slot that the call began a transaction in. -/
def begun (c : TxCall) : TxPtr :=
  match c.result with
  | .slot tx => tx
  | _ => none

/-- Number of commits that succeeded. -/
def commits (cs : List TxCall) : ℕ :=
  cs.countP committed

/-- Number of transactions begun. -/
def begins (cs : List TxCall) : ℕ :=
  cs.countP fun c => (begun c).isSome

/-- The slots of active transactions. -/
def Atlas.activeSlots (σ : Atlas) : Finset (Fin maxTransactions) :=
  Finset.univ.filter fun i => (σ.transactions i).state = .active

/-- The `tx_id`s given out by a run, in order. -/
def txIds (σ : Atlas) (ops : List TxOp) : List ℕ :=
  (calls TxOp.step σ ops).filterMap fun c =>
    (begun c).map fun i => ((TxOp.step c.before c.op).1.transactions i).txId

theorem commits_append (cs ds : List TxCall) : commits (cs ++ ds) = commits cs + commits ds :=
  List.countP_append

theorem begins_append (cs ds : List TxCall) : begins (cs ++ ds) = begins cs + begins ds :=
  List.countP_append

theorem commits_eq_zero {cs : List TxCall} : commits cs = 0 ↔ ∀ c ∈ cs, committed c = false := by
  simp [commits, List.countP_eq_zero]

theorem mem_activeSlots {σ : Atlas} {i : Fin maxTransactions} :
    i ∈ σ.activeSlots ↔ (σ.transactions i).state = .active := by
  simp [Atlas.activeSlots]

theorem u64_u64_add (a b : ℕ) : u64 (u64 a + b) = u64 (a + b) :=
  Nat.mod_add_mod _ _ _

/-! ## The counters and the calls so far -/

/-- The counters are those of the calls `cs` made so far on a new Atlas. -/
structure Agrees (σ : Atlas) (cs : List TxCall) : Prop where
  init : σ.initialized = true
  generation : σ.genesis Genesis.generation = u64 (1 + commits cs)
  commitCount : σ.genesis Genesis.commitCount = u64 (commits cs)
  epoch : σ.currentEpoch = u64 (1 + commits cs)
  nextTxId : σ.nextTxId = u64 (1 + begins cs)
  started : ∀ i, (σ.transactions i).state = .active →
    ∃ n ≤ commits cs, (σ.transactions i).startGeneration = u64 (1 + n)
  budget : commits cs + σ.activeSlots.card ≤ begins cs

theorem agrees_format (size : ℕ) (mem : Memory) : Agrees (mapped size mem).format [] where
  init := rfl
  generation := Atlas.format_generation _
  commitCount := Atlas.format_commitCount _
  epoch := rfl
  nextTxId := rfl
  started := fun i hi => by cases hi
  budget := by
    have hnone : (mapped size mem).format.activeSlots = ∅ :=
      Finset.filter_eq_empty_iff.2 fun i _ hi => by cases hi
    rw [hnone]
    exact le_refl _

/-- A call that neither begins nor commits may end active transactions. -/
theorem Agrees.quiet {σ τ : Atlas} {cs : List TxCall} (h : Agrees σ cs) {c : TxCall}
    (hc : committed c = false) (hb : begun c = none) (hinit : τ.initialized = σ.initialized)
    (hgen : ∀ f : StructField, Genesis.abortCount.Apart f → τ.genesis f = σ.genesis f)
    (hepoch : τ.currentEpoch = σ.currentEpoch) (hid : τ.nextTxId = σ.nextTxId)
    (hslots : ∀ i, (τ.transactions i).state = .active → τ.transactions i = σ.transactions i) :
    Agrees τ (cs ++ [c]) := by
  have hcommits : commits (cs ++ [c]) = commits cs := by
    simp [commits, hc]
  have hbegins : begins (cs ++ [c]) = begins cs := by
    simp [begins, hb]
  have hsub : τ.activeSlots ⊆ σ.activeSlots := fun i hi => by
    have hact := mem_activeSlots.1 hi
    exact mem_activeSlots.2 (by rw [← hslots i hact]; exact hact)
  refine ⟨hinit.trans h.init, ?_, ?_, ?_, ?_, fun i hi => ?_, ?_⟩
  · rw [hgen _ (by decide), hcommits]
    exact h.generation
  · rw [hgen _ (by decide), hcommits]
    exact h.commitCount
  · rw [hepoch, hcommits]
    exact h.epoch
  · rw [hid, hbegins]
    exact h.nextTxId
  · rw [hcommits, hslots i hi]
    exact h.started i (by rw [← hslots i hi]; exact hi)
  · rw [hcommits, hbegins]
    exact (Nat.add_le_add_left (Finset.card_le_card hsub) _).trans h.budget

/-- A new transaction counts as begun and takes a slot that was not active. -/
theorem Agrees.begin {σ : Atlas} {cs : List TxCall} (h : Agrees σ cs) {c : TxCall}
    (hc : committed c = false) {i : Fin maxTransactions} (hb : begun c = some i) {τ : Atlas}
    (hfree : (σ.transactions i).state ≠ .active)
    (hτ : τ = { σ with
      transactions := Function.update σ.transactions i
        ⟨σ.nextTxId, σ.currentEpoch, σ.genesis Genesis.generation, 0, .active, []⟩
      nextTxId := u64 (σ.nextTxId + 1) }) : Agrees τ (cs ++ [c]) := by
  have hcommits : commits (cs ++ [c]) = commits cs := by
    simp [commits, hc]
  have hbegins : begins (cs ++ [c]) = begins cs + 1 := by
    simp [begins, hb]
  have hself : τ.transactions i =
      ⟨σ.nextTxId, σ.currentEpoch, σ.genesis Genesis.generation, 0, .active, []⟩ := by
    rw [hτ]
    exact Function.update_self _ _ _
  have hother : ∀ j, j ≠ i → τ.transactions j = σ.transactions j := fun j hj => by
    rw [hτ]
    exact Function.update_of_ne hj _ _
  have hactive : τ.activeSlots = insert i σ.activeSlots := by
    ext j
    rw [Finset.mem_insert, mem_activeSlots, mem_activeSlots]
    by_cases hj : j = i
    · simp [hj, hself]
    · simp [hj, hother j hj]
  refine ⟨?_, ?_, ?_, ?_, ?_, fun j hj => ?_, ?_⟩
  · rw [hτ]
    exact h.init
  · rw [hcommits, hτ]
    exact h.generation
  · rw [hcommits, hτ]
    exact h.commitCount
  · rw [hcommits, hτ]
    exact h.epoch
  · rw [hbegins, hτ]
    change u64 (σ.nextTxId + 1) = _
    rw [h.nextTxId, u64_u64_add]
    rfl
  · rw [hcommits]
    by_cases hji : j = i
    · rw [hji, hself]
      exact ⟨_, le_refl _, h.generation⟩
    · rw [hother j hji] at hj ⊢
      exact h.started j hj
  · have hmem : i ∉ σ.activeSlots := fun hi => hfree (mem_activeSlots.1 hi)
    rw [hcommits, hbegins, hactive, Finset.card_insert_of_notMem hmem]
    have := h.budget
    omega

/-- A commit that succeeds moves every counter and uses up its transaction. -/
theorem Agrees.commit {σ : Atlas} {cs : List TxCall} (h : Agrees σ cs) {c : TxCall}
    (hc : committed c = true) (hb : begun c = none) {i : Fin maxTransactions} {τ : Atlas}
    (hact : (σ.transactions i).state = .active)
    (hτ : τ = { σ.setTxState i .committed with
      mem := σ.committedGenesis
      currentEpoch := u64 (σ.currentEpoch + 1) }) : Agrees τ (cs ++ [c]) := by
  have hcommits : commits (cs ++ [c]) = commits cs + 1 := by
    simp [commits, hc]
  have hbegins : begins (cs ++ [c]) = begins cs := by
    simp [begins, hb]
  have hself : (τ.transactions i).state = .committed := by
    rw [hτ]
    exact congrArg Transaction.state (σ.setTxState_self i .committed)
  have hother : ∀ j, j ≠ i → τ.transactions j = σ.transactions j := fun j hj => by
    rw [hτ]
    exact σ.setTxState_of_ne hj .committed
  have hactive : τ.activeSlots = σ.activeSlots.erase i := by
    ext j
    rw [Finset.mem_erase, mem_activeSlots, mem_activeSlots]
    by_cases hj : j = i
    · simp [hj, hself]
    · simp [hj, hother j hj]
  have hmem : i ∈ σ.activeSlots := mem_activeSlots.2 hact
  refine ⟨?_, ?_, ?_, ?_, ?_, fun j hj => ?_, ?_⟩
  · rw [hτ]
    exact h.init
  · rw [hcommits, hτ]
    refine σ.committedGenesis_generation.trans ?_
    rw [h.generation, u64_u64_add, Nat.add_assoc]
  · rw [hcommits, hτ]
    refine σ.committedGenesis_commitCount.trans ?_
    rw [h.commitCount, u64_u64_add]
  · rw [hcommits, hτ]
    change u64 (σ.currentEpoch + 1) = _
    rw [h.epoch, u64_u64_add, Nat.add_assoc]
  · rw [hbegins, hτ]
    exact h.nextTxId
  · have hji : j ≠ i := fun hji => by
      rw [hji, hself] at hj
      cases hj
    rw [hother j hji] at hj ⊢
    obtain ⟨n, hn, hstart⟩ := h.started j hj
    exact ⟨n, by omega, hstart⟩
  · have hpos : 0 < σ.activeSlots.card := Finset.card_pos.2 ⟨i, hmem⟩
    rw [hcommits, hbegins, hactive, Finset.card_erase_of_mem hmem]
    have := h.budget
    omega

/-- Ending the transaction of a slot leaves the other slots as they were. -/
theorem active_setTxState {σ : Atlas} {i j : Fin maxTransactions} {state : TxState}
    (hstate : state ≠ .active)
    (h : ((σ.setTxState i state).transactions j).state = .active) :
    (σ.setTxState i state).transactions j = σ.transactions j := by
  by_cases hj : j = i
  · rw [hj, σ.setTxState_self] at h
    exact absurd h hstate
  · exact σ.setTxState_of_ne hj _

/-- Every call keeps the counters in agreement with the calls. -/
theorem Agrees.step {σ : Atlas} {cs : List TxCall} (h : Agrees σ cs) (op : TxOp) :
    Agrees (TxOp.step σ op).1 (cs ++ [⟨σ, op, (TxOp.step σ op).2⟩]) := by
  have hsame : ∀ c : TxCall, committed c = false → begun c = none → Agrees σ (cs ++ [c]) :=
    fun c hc hb => h.quiet hc hb rfl (fun _ _ => rfl) rfl rfl fun _ _ => rfl
  cases op with
  | begin =>
    rcases σ.begin_cases with hb | ⟨i, -, hfree, hb⟩
    · simp only [TxOp.step, hb]
      exact hsame _ rfl rfl
    · simp only [TxOp.step, hb]
      exact h.begin rfl rfl hfree rfl
  | commit tx =>
    cases tx with
    | none => exact hsame _ rfl rfl
    | some i =>
      rcases σ.commit_cases h.init i with ⟨-, hc⟩ | ⟨-, -, hc⟩ | ⟨hact, -, hc⟩
      · simp only [TxOp.step, hc]
        exact hsame _ rfl rfl
      · simp only [TxOp.step, hc]
        exact h.quiet rfl rfl rfl
          (fun f hf => (σ.setTxState i .aborted).countAbort_genesis hf) rfl rfl
          fun j hj => active_setTxState (by decide) hj
      · simp only [TxOp.step, hc]
        exact h.commit rfl rfl hact rfl
  | abort tx =>
    cases tx with
    | none => exact hsame _ rfl rfl
    | some i =>
      rcases σ.abort_cases i with ⟨-, ha⟩ | ⟨-, ha⟩
      · simp only [TxOp.step, ha]
        exact hsame _ rfl rfl
      · simp only [TxOp.step, ha]
        exact h.quiet rfl rfl rfl (fun f hf => σ.countAbort_genesis hf) rfl rfl
          fun j hj => active_setTxState (σ := σ.countAbort) (by decide) hj

/-- Every run keeps the counters in agreement with the calls. -/
theorem Agrees.run {σ : Atlas} {cs : List TxCall} (h : Agrees σ cs) (ops : List TxOp) :
    Agrees (run TxOp.step σ ops) (cs ++ calls TxOp.step σ ops) := by
  induction ops using List.reverseRecOn with
  | nil => rwa [calls, List.append_nil]
  | append_singleton ops op ih =>
    rw [run_concat, calls_concat, ← List.append_assoc]
    exact ih.step op

/-- After any run of a new Atlas the counters are those of its calls. -/
theorem agrees_run {σ : Atlas} (h : Agrees σ []) (ops : List TxOp) :
    Agrees (Runs.run TxOp.step σ ops) (calls TxOp.step σ ops) :=
  h.run ops

/-! ## The slot of a transaction -/

/-- A slot that is active after a call which does not begin in it is as it was. -/
theorem transactions_step {σ : Atlas} (hinit : σ.initialized = true) {op : TxOp}
    {i : Fin maxTransactions} (hb : begun ⟨σ, op, (TxOp.step σ op).2⟩ ≠ some i)
    (hact : ((TxOp.step σ op).1.transactions i).state = .active) :
    (TxOp.step σ op).1.transactions i = σ.transactions i := by
  cases op with
  | begin =>
    rcases σ.begin_cases with h | ⟨j, -, -, h⟩
    · simp only [TxOp.step, h]
    · simp only [TxOp.step, h, begun, ne_eq, Option.some.injEq] at hb ⊢
      exact Function.update_of_ne (fun hij => hb hij.symm) _ _
  | commit tx =>
    cases tx with
    | none => rfl
    | some j =>
      rcases σ.commit_cases hinit j with ⟨-, h⟩ | ⟨-, -, h⟩ | ⟨-, -, h⟩
      · simp only [TxOp.step, h]
      · simp only [TxOp.step, h] at hact ⊢
        exact active_setTxState (by decide) hact
      · simp only [TxOp.step, h] at hact ⊢
        exact active_setTxState (by decide) hact
  | abort tx =>
    cases tx with
    | none => rfl
    | some j =>
      rcases σ.abort_cases j with ⟨-, h⟩ | ⟨-, h⟩
      · simp only [TxOp.step, h]
      · simp only [TxOp.step, h] at hact ⊢
        exact active_setTxState (σ := σ.countAbort) (by decide) hact

/-- A slot that is active after calls none of which begins in it is as it was. -/
theorem transactions_run {σ : Atlas} {cs : List TxCall} (h : Agrees σ cs) {ops : List TxOp}
    {i : Fin maxTransactions} (hb : ∀ c ∈ calls TxOp.step σ ops, begun c ≠ some i)
    (hact : ((run TxOp.step σ ops).transactions i).state = .active) :
    (run TxOp.step σ ops).transactions i = σ.transactions i := by
  induction ops generalizing σ cs with
  | nil => rfl
  | cons op ops ih =>
    have htail := ih (h.step op) (fun c hc => hb c (List.mem_cons_of_mem _ hc)) hact
    rw [run_cons] at hact ⊢
    rw [htail] at hact ⊢
    exact transactions_step h.init (hb _ List.mem_cons_self) hact

/-- An active transaction that started after `n` commits can commit exactly when there has
been no other. -/
theorem commit_iff {σ : Atlas} {cs : List TxCall} (h : Agrees σ cs) (hb : begins cs ≤ 2 ^ 64)
    {i : Fin maxTransactions} (hact : (σ.transactions i).state = .active) {n : ℕ}
    (hn : n ≤ commits cs) (hstart : (σ.transactions i).startGeneration = u64 (1 + n)) :
    (σ.commit (some i)).2 = .true ↔ commits cs = n := by
  have hpos : 0 < σ.activeSlots.card := Finset.card_pos.2 ⟨i, mem_activeSlots.2 hact⟩
  have hbudget := h.budget
  have hgen : σ.genesis Genesis.generation = (σ.transactions i).startGeneration ↔
      commits cs = n := by
    rw [h.generation, hstart]
    unfold u64
    omega
  rcases σ.commit_cases h.init i with ⟨hno, -⟩ | ⟨-, hne, hc⟩ | ⟨-, heq, hc⟩
  · exact absurd hact hno
  · rw [hc]
    exact ⟨fun hf => (by cases hf), fun hcn => absurd (hgen.2 hcn) hne⟩
  · rw [hc]
    exact ⟨fun _ => hgen.1 heq, fun _ => rfl⟩

/-- A commit of a slot that is not active returns VOID. -/
theorem commit_void {σ : Atlas} (hinit : σ.initialized = true) {i : Fin maxTransactions}
    (hact : (σ.transactions i).state ≠ .active) : (σ.commit (some i)).2 = .void := by
  rcases σ.commit_cases hinit i with ⟨-, hc⟩ | ⟨h, -⟩ | ⟨h, -⟩
  · rw [hc]
  · exact absurd h hact
  · exact absurd h hact

/-- A new transaction gets the next `tx_id`. -/
theorem txId_of_begun {σ : Atlas} {op : TxOp} {i : Fin maxTransactions}
    (h : begun ⟨σ, op, (TxOp.step σ op).2⟩ = some i) :
    ((TxOp.step σ op).1.transactions i).txId = σ.nextTxId := by
  cases op with
  | begin =>
    rcases σ.begin_cases with hb | ⟨j, -, -, hb⟩
    · simp only [TxOp.step, hb, begun] at h
      cases h
    · simp only [TxOp.step, hb, begun, Option.some.injEq] at h ⊢
      rw [h, Function.update_self]
  | commit tx => cases h
  | abort tx => cases h

/-- The `tx_id`s of a run are consecutive, modulo `2 ^ 64`. -/
theorem txIds_eq {σ : Atlas} (h : Agrees σ []) (ops : List TxOp) : txIds σ ops =
    (List.range (begins (calls TxOp.step σ ops))).map fun k => u64 (1 + k) := by
  induction ops using List.reverseRecOn with
  | nil => rfl
  | append_singleton ops op ih =>
    have hrun := agrees_run h ops
    rw [txIds, calls_concat, List.filterMap_append, ← txIds, ih, begins_append,
      List.range_add, List.map_append, List.map_map]
    congr 1
    generalize run TxOp.step σ ops = τ at hrun ⊢
    cases hb : begun ⟨τ, op, (TxOp.step τ op).2⟩ with
    | none => simp [begins, hb]
    | some i =>
      have hid : ((TxOp.step τ op).1.transactions i).txId = τ.nextTxId :=
        txId_of_begun hb
      simp [begins, hb, hid]
      exact hrun.nextTxId

/-! ## Runs of a new Atlas -/

/-- The transaction begun after `pre` in slot `i` still occupies the slot after `mid`. -/
structure Occupies (σ : Atlas) (pre mid : List TxOp) (i : Fin maxTransactions) : Prop where
  began : (TxOp.step (run TxOp.step σ pre) .begin).2 = .slot (some i)
  kept : ∀ c ∈ calls TxOp.step (run TxOp.step σ (pre ++ [.begin])) mid, begun c ≠ some i

/-- The commit after `mid` returns TRUE exactly when no commit of `mid` did. -/
def CommitsFirst (σ : Atlas) (pre mid : List TxOp) (i : Fin maxTransactions) : Prop :=
  (TxOp.step (run TxOp.step σ (pre ++ .begin :: mid)) (.commit (some i))).2 = .vbit .true ↔
    ∀ c ∈ calls TxOp.step (run TxOp.step σ (pre ++ [.begin])) mid, committed c = false

/-- Optimistic concurrency of a run : an active transaction commits exactly when it is the
first to commit since its begin, of two that were active together at most one commits, no
`tx_id` is given out twice, and the counters are in step. -/
structure FirstCommitterWins (σ : Atlas) (ops : List TxOp) : Prop where
  wins : ∀ pre mid post i, ops = pre ++ .begin :: (mid ++ .commit (some i) :: post) →
    Occupies σ pre mid i →
    (((run TxOp.step σ (pre ++ .begin :: mid)).transactions i).state = .active →
      CommitsFirst σ pre mid i) ∧
    (((run TxOp.step σ (pre ++ .begin :: mid)).transactions i).state ≠ .active →
      (TxOp.step (run TxOp.step σ (pre ++ .begin :: mid)) (.commit (some i))).2 = .vbit .void)
  one : ∀ pre mid mid' post i j,
    ops = pre ++ (mid ++ .commit (some i) :: (mid' ++ .commit (some j) :: post)) →
    ((run TxOp.step σ pre).transactions i).state = .active →
    ((run TxOp.step σ pre).transactions j).state = .active →
    (∀ c ∈ calls TxOp.step (run TxOp.step σ pre) mid, begun c ≠ some i) →
    (∀ c ∈ calls TxOp.step (run TxOp.step σ pre) (mid ++ .commit (some i) :: mid'),
      begun c ≠ some j) →
    (TxOp.step (run TxOp.step σ (pre ++ mid)) (.commit (some i))).2 = .vbit .true →
    (TxOp.step (run TxOp.step σ (pre ++ (mid ++ .commit (some i) :: mid')))
      (.commit (some j))).2 ≠ .vbit .true
  ids : (txIds σ ops).Nodup
  counters : ∀ pre, pre <+: ops →
    (run TxOp.step σ pre).currentEpoch =
      u64 ((run TxOp.step σ pre).genesis Genesis.commitCount + 1) ∧
    u64 ((run TxOp.step σ pre).genesis Genesis.generation + (2 ^ 64 - 1)) =
      (run TxOp.step σ pre).genesis Genesis.commitCount

theorem begins_le {σ : Atlas} {pre ops : List TxOp} (h : pre <+: ops) :
    begins (calls TxOp.step σ pre) ≤ begins (calls TxOp.step σ ops) := by
  obtain ⟨post, rfl⟩ := h
  rw [calls_append, begins_append]
  exact Nat.le_add_right _ _

/-- The commit of an occupant that is still active. -/
theorem commitsFirst {σ : Atlas} (h : Agrees σ []) {pre mid : List TxOp}
    {i : Fin maxTransactions} (hocc : Occupies σ pre mid i)
    (hb : begins (calls TxOp.step σ (pre ++ .begin :: mid)) ≤ 2 ^ 64)
    (hact : ((run TxOp.step σ (pre ++ .begin :: mid)).transactions i).state = .active) :
    CommitsFirst σ pre mid i := by
  have hsplit : pre ++ .begin :: mid = (pre ++ [.begin]) ++ mid := by simp
  have hpre := agrees_run h pre
  have hbegin := agrees_run h (pre ++ [.begin])
  have hend := agrees_run h (pre ++ .begin :: mid)
  -- the slot still records the commits there were at the begin
  have hstart : ((run TxOp.step σ (pre ++ .begin :: mid)).transactions i).startGeneration =
      u64 (1 + commits (calls TxOp.step σ pre)) := by
    rw [hsplit, run_append] at hact ⊢
    rw [transactions_run hbegin hocc.kept hact, run_concat]
    have hbegan := hocc.began
    rcases (run TxOp.step σ pre).begin_cases with hno | ⟨j, -, -, hj⟩
    · simp only [TxOp.step, hno] at hbegan
      cases hbegan
    · simp only [TxOp.step, hj, TxResult.slot.injEq, Option.some.injEq] at hbegan ⊢
      rw [hbegan, Function.update_self]
      exact hpre.generation
  have hcommits : commits (calls TxOp.step σ (pre ++ .begin :: mid)) =
      commits (calls TxOp.step σ pre) +
        commits (calls TxOp.step (run TxOp.step σ (pre ++ [.begin])) mid) := by
    rw [hsplit, calls_append, calls_concat, commits_append, commits_append]
    rfl
  have hiff := commit_iff hend hb hact (by omega) hstart
  unfold CommitsFirst
  rw [← commits_eq_zero, TxOp.step, TxResult.vbit.injEq, hiff, hcommits]
  omega

/-- Of two transactions active at once, only the first to commit does. -/
theorem one_commits {σ : Atlas} {cs : List TxCall} (h : Agrees σ cs) {mid mid' : List TxOp}
    {i j : Fin maxTransactions} (hj : (σ.transactions j).state = .active)
    (hkeep : ∀ c ∈ calls TxOp.step σ (mid ++ .commit (some i) :: mid'), begun c ≠ some j)
    (hb : begins (cs ++ calls TxOp.step σ (mid ++ .commit (some i) :: mid')) ≤ 2 ^ 64)
    (hi : (TxOp.step (run TxOp.step σ mid) (.commit (some i))).2 = .vbit .true) :
    (TxOp.step (run TxOp.step σ (mid ++ .commit (some i) :: mid')) (.commit (some j))).2 ≠
      .vbit .true := by
  have hend := h.run (mid ++ .commit (some i) :: mid')
  have hone : 1 ≤ commits (calls TxOp.step σ (mid ++ .commit (some i) :: mid')) := by
    refine Nat.one_le_iff_ne_zero.2 fun h0 => ?_
    have hno := commits_eq_zero.1 h0
      ⟨run TxOp.step σ mid, .commit (some i),
        (TxOp.step (run TxOp.step σ mid) (.commit (some i))).2⟩ (by rw [calls_append]; simp [calls])
    rw [committed, hi] at hno
    cases hno
  obtain ⟨n, hn, hstart⟩ := h.started j hj
  intro htrue
  rw [TxOp.step, TxResult.vbit.injEq] at htrue
  by_cases hact : ((run TxOp.step σ (mid ++ .commit (some i) :: mid')).transactions j).state =
      .active
  · rw [← transactions_run h hkeep hact] at hstart
    have := (commit_iff hend hb hact (by rw [commits_append]; omega) hstart).1 htrue
    rw [commits_append] at this
    omega
  · rw [commit_void hend.init hact] at htrue
    cases htrue

/-- First committer wins, in every run of a new Atlas with at most `2 ^ 64` begins. -/
theorem firstCommitterWins {mmap : ℕ → Bool} {mem : Memory} {request : ℕ} {σ : Atlas}
    (hσ : atlasInit mmap mem none request = some σ) (ops : List TxOp)
    (hb : begins (calls TxOp.step σ ops) ≤ 2 ^ 64) : FirstCommitterWins σ ops := by
  have h : Agrees σ [] := by
    obtain ⟨size, -, rfl⟩ := atlasInit_new hσ
    exact agrees_format _ _
  refine ⟨?_, ?_, ?_, ?_⟩
  · rintro pre mid post i rfl hocc
    have hpre : (pre ++ .begin :: mid) <+: pre ++ .begin :: (mid ++ .commit (some i) :: post) :=
      ⟨.commit (some i) :: post, by simp⟩
    refine ⟨fun hact => commitsFirst h hocc ((begins_le hpre).trans hb) hact,
      fun hact => ?_⟩
    exact congrArg TxResult.vbit (commit_void (agrees_run h _).init hact)
  · rintro pre mid mid' post i j rfl - hj - hkeep hi
    have hpre : (pre ++ (mid ++ .commit (some i) :: mid')) <+:
        pre ++ (mid ++ .commit (some i) :: (mid' ++ .commit (some j) :: post)) :=
      ⟨.commit (some j) :: post, by simp⟩
    have hle := (begins_le hpre).trans hb
    rw [calls_append] at hle
    rw [run_append] at hi ⊢
    exact one_commits (agrees_run h pre) hj hkeep hle hi
  · rw [txIds_eq h]
    refine List.Nodup.map_on (fun a ha b hb' hab => ?_) List.nodup_range
    rw [List.mem_range] at ha hb'
    unfold u64 at hab
    omega
  · intro pre _
    have hrun := agrees_run h pre
    rw [hrun.epoch, hrun.commitCount, hrun.generation]
    unfold u64
    omega

/-- Two transactions that overlap : the one that commits first wins. -/
theorem firstCommitterWins_overlapping :
    FirstCommitterWins (mapped 65536 fun _ => 0).format
        [.begin, .begin, .commit (some 1), .commit (some 0)] ∧
      (calls TxOp.step (mapped 65536 fun _ => 0).format
        [.begin, .begin, .commit (some 1), .commit (some 0)]).map Call.result =
          [.slot (some 0), .slot (some 1), .vbit .true, .vbit .false] := by
  have hsize : newFileSize 65536 = 65536 := by decide
  have hnew : atlasInit (fun _ => true) (fun _ => 0) none 65536 =
      some (mapped 65536 fun _ => 0).format := by
    rw [atlasInit, hsize]
    rfl
  exact ⟨firstCommitterWins hnew _ (by decide +kernel), by decide +kernel⟩

/-- `n` transactions one after the other in slot 0, each aborted. -/
def abortedRun (n : ℕ) : List TxOp :=
  (List.replicate n [.begin, .abort (some 0)]).flatten

/-- Each of them begins. -/
theorem begins_abortedRun (n : ℕ) : ∀ {σ : Atlas}, σ.initialized = true →
    σ.slotFree 0 = true → begins (calls TxOp.step σ (abortedRun n)) = n := by
  induction n with
  | zero => exact fun _ _ => rfl
  | succ n ih =>
    intro σ hinit hfree
    have hfind : (List.finRange maxTransactions).find? σ.slotFree = some 0 := by
      rw [List.finRange_succ, List.find?_cons_of_pos hfree]
    have hbegin : (TxOp.step σ .begin).2 = .slot (some 0) := by
      simp [TxOp.step, Atlas.begin, hinit, hfind]
    have hact : ((TxOp.step σ .begin).1.transactions 0).state = .active := by
      simp [TxOp.step, Atlas.begin, hinit, hfind]
    have hinit' : (TxOp.step σ .begin).1.initialized = true := by
      simp [TxOp.step, Atlas.begin, hinit, hfind]
    generalize hτ : (TxOp.step σ .begin).1 = τ at hact hinit'
    have habort : TxOp.step τ (.abort (some 0)) = (τ.countAbort.setTxState 0 .aborted, .unit) := by
      simp [TxOp.step, Atlas.abort, hact]
    have hrest := ih (σ := τ.countAbort.setTxState 0 .aborted) hinit'
      (by simp [Atlas.slotFree, Atlas.setTxState_self])
    have hcons : abortedRun (n + 1) = .begin :: .abort (some 0) :: abortedRun n := rfl
    rw [hcons, calls, calls, hτ, habort]
    simp only [begins, List.countP_cons, begun, hbegin] at hrest ⊢
    rw [hrest]
    simp

/-- An aborted transaction that nobody overtook still cannot commit, and the transaction
after `2 ^ 64` others has the `tx_id` of the first. -/
theorem aborted_cannot_commit :
    (Occupies (mapped 65536 fun _ => 0).format [] [.abort (some 0)] 0 ∧
      ¬CommitsFirst (mapped 65536 fun _ => 0).format [] [.abort (some 0)] 0) ∧
    ¬(txIds (mapped 65536 fun _ => 0).format (abortedRun (2 ^ 64 + 1))).Nodup := by
  refine ⟨⟨⟨by decide, by decide +kernel⟩, ?_⟩, fun hnodup => ?_⟩
  · unfold CommitsFirst
    decide
  · rw [txIds_eq (agrees_format _ _), begins_abortedRun _ rfl rfl] at hnodup
    have h := List.inj_on_of_nodup_map hnodup (x := 0) (List.mem_range.2 (by omega))
      (y := 2 ^ 64) (List.mem_range.2 (by omega)) (by decide)
    omega

end Seraph
