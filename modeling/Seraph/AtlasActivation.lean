import Seraph.AtlasFootprint

/-!
# Bringing a snapshot to ACTIVE

`prepare` begins a snapshot, includes pages and activates it, with any operations in between
that leave the struct alone. `Activated` says that it succeeds, `Included` which pages the
include calls name. The snapshot is then active, has no copies and keeps its magic
(`Activated.spec`).
-/

namespace Seraph

open ByteMem Memory Runs Atlas

/-- A new Atlas is initialized and smaller than `2 ^ 64`, and so are the Atlases of its
runs. -/
theorem atlasInit_run {mmap : ℕ → Bool} {mem : Memory} {request : ℕ} {σ : Atlas}
    (h : atlasInit mmap mem none request = some σ) (ops : List Op) :
    (run Op.step σ ops).initialized = true ∧ (run Op.step σ ops).size < 2 ^ 64 := by
  obtain ⟨size, hsize, rfl⟩ := atlasInit_new h
  have hk := keeps_run (σ := (mapped size mem).format) rfl ops
  exact ⟨hk.init.trans rfl, hk.size.trans_lt hsize⟩

/-- An include call on the snapshot of slot `k`. -/
def Op.Includes (k : Fin maxSnapshots) : Op → Prop
  | .snap (.includePages j _ _) => j = k
  | .snap (.includeAll j) => j = k
  | _ => False

/-- The call includes the page at `p` of a region of `size` bytes. -/
def Op.Covers (k : Fin maxSnapshots) (size p : ℕ) : Op → Prop
  | .snap (.includePages j (some off) n) =>
    j = k ∧ p % pageSize = 0 ∧ p < size ∧ off < p + pageSize ∧ p < off + n
  | .snap (.includeAll j) => j = k ∧ p % pageSize = 0 ∧ p < size
  | _ => False

/-- One of the calls returned TRUE and includes the page at `p`. -/
def Included (cs : List (Call Atlas Op Result)) (k : Fin maxSnapshots) (size p : ℕ) : Prop :=
  ∃ c ∈ cs, c.result = .snap (.vbit .true) ∧ c.op.Covers k size p

/-- The operation includes pages in the snapshot at `s` in slot `k`, or leaves it alone. -/
def Spares (k : Fin maxSnapshots) (s : ℕ) (σ : Atlas) (op : Op) : Prop :=
  op.Includes k ∨ ∀ r ∈ op.writes σ, r.Disjoint (snapRegion s)

/-- Begin a snapshot, perform `between` and activate it. -/
def prepare (vclock : Option VectorClock) (between : List Op) (k : Fin maxSnapshots) : List Op :=
  .snap (.begin vclock) :: (between ++ [.snap (.activate k)])

/-- The state right after the begin. -/
def Atlas.begunWith (σ : Atlas) (vclock : Option VectorClock) : Atlas :=
  (Op.step σ (.snap (.begin vclock))).1

/-- `prepare` brings the snapshot at `s` in slot `k` to ACTIVE. In between there are include
calls and whatever leaves the struct alone. -/
structure Activated (σ : Atlas) (vclock : Option VectorClock) (between : List Op)
    (k : Fin maxSnapshots) (s : ℕ) : Prop where
  begun : (σ.snapshotBegin vclock).2 = some s
  slot : (σ.begunWith vclock).snapshots k = some s
  spares : Guarded Op.step (Spares k s) (σ.begunWith vclock) between
  activated : (Op.step (run Op.step (σ.begunWith vclock) between)
    (.snap (.activate k))).2 = .snap (.vbit .true)

/-- The pages that the include calls between the begin and the activation include. -/
def Atlas.includedBy (σ : Atlas) (vclock : Option VectorClock) (between : List Op)
    (k : Fin maxSnapshots) : ℕ → Prop :=
  Included (calls Op.step (σ.begunWith vclock) between) k σ.size

theorem Op.Covers.aligned {k : Fin maxSnapshots} {size p : ℕ} {op : Op}
    (h : op.Covers k size p) : p % pageSize = 0 ∧ p < size := by
  unfold Op.Covers at h
  split at h
  · exact ⟨h.2.1, h.2.2.1⟩
  · exact h.2
  · exact h.elim

theorem Included.aligned {cs : List (Call Atlas Op Result)} {k : Fin maxSnapshots} {size p : ℕ}
    (h : Included cs k size p) : p % pageSize = 0 ∧ p < size := by
  obtain ⟨c, -, -, hc⟩ := h
  exact hc.aligned

/-- Including pages writes the two words that count them. -/
theorem get_include {σ : Atlas} {k : Fin maxSnapshots} {s : ℕ} (hslot : σ.snapshots k = some s)
    {op : Op} (hop : op.Includes k) {f : StructField} (hf : f.Apart ⟨576, 16⟩) :
    (Op.step σ op).1.mem.get s f = σ.mem.get s f := by
  have hcount : Snapshot.includedPageCount.Apart f := by
    simp only [StructField.Apart, Snapshot.includedPageCount] at hf ⊢
    omega
  have hpages : Snapshot.includedPages.Apart f := by
    simp only [StructField.Apart, Snapshot.includedPages] at hf ⊢
    omega
  unfold Op.Includes at hop
  split at hop
  · rename_i j ptr size
    subst hop
    rcases snapshotInclude_cases (σ := σ) s ptr size with h | ⟨v, -, h⟩
    · simp only [Op.step, SnapOp.step, hslot, h]
    · simp only [Op.step, SnapOp.step, hslot, h]
      exact get_set_apart _ _ hcount _
  · rename_i j
    subst hop
    rcases snapshotIncludeAll_cases (σ := σ) s with h | ⟨v, -, h⟩
    · simp only [Op.step, SnapOp.step, hslot, h]
    · simp only [Op.step, SnapOp.step, hslot, h]
      refine get_assign_apart s _ _ ?_
      simp only [List.forall_mem_cons]
      exact ⟨hcount, hpages, by simp⟩
  · exact hop.elim

/-- Nothing is copied between the begin and the activation, and the magic stays. -/
theorem get_spares {σ : Atlas} (hinit : σ.initialized = true) {k : Fin maxSnapshots}
    {s : ℕ} (hslot : σ.snapshots k = some s) {between : List Op}
    (hg : Guarded Op.step (Spares k s) σ between) {f : StructField}
    (hf : f.Inside Snapshot.size) (hincl : f.Apart ⟨576, 16⟩) :
    (run Op.step σ between).mem.get s f = σ.mem.get s f := by
  induction between generalizing σ with
  | nil => rfl
  | cons op between ih =>
    have hk := Op.keeps hinit op
    rw [run_cons, ih (hk.init.trans hinit) (hk.snapshots _ _ hslot) hg.2]
    rcases hg.1 with hop | hop
    · exact get_include hslot hop hincl
    · exact (Op.changesOnly hinit op).get hf fun r hr => (hop r hr).symm

/-- A successful activation makes the snapshot active and keeps the magic and the count of
copies. -/
theorem activate_spec {σ : Atlas} (hinit : σ.initialized = true) {k : Fin maxSnapshots}
    {s : ℕ} (hslot : σ.snapshots k = some s)
    (hact : (Op.step σ (.snap (.activate k))).2 = .snap (.vbit .true)) :
    (Op.step σ (.snap (.activate k))).1.snapState s = SnapState.active.code ∧
      (Genesis.size ≤ s → (Op.step σ (.snap (.activate k))).1.mem.get s Snapshot.magic =
        σ.mem.get s Snapshot.magic) ∧
      (Op.step σ (.snap (.activate k))).1.cowCount s = σ.cowCount s := by
  have hstate : ∀ (τ : Atlas) (size : ℕ) (p : Ptr),
      (τ.startCow s size p).snapState s = SnapState.active.code := by
    intro τ size p
    unfold snapState startCow
    rw [tickVclock_mem, get_set_same]
    decide
  have hc := Op.changesOnly hinit (.snap (.activate k))
  refine ⟨?_, fun hs => hc.load fun r hr => ?_, hc.load fun r hr => ?_⟩
  · rcases snapshotActivate_cases hinit s with ⟨b, h, hb⟩ | ⟨-, size, h⟩ |
      ⟨m, size, -, -, -, -, h, -, -⟩
    · simp only [Op.step, SnapOp.step, hslot, h, Result.snap.injEq, SnapResult.vbit.injEq] at hact
      exact absurd hact hb
    · simp only [Op.step, SnapOp.step, hslot, h]
      exact hstate _ _ _
    · simp only [Op.step, SnapOp.step, hslot, h]
      exact hstate _ _ _
  all_goals
    simp only [Op.writes, SnapOp.writes, hslot] at hr
    split at hr
    · simp only [bumpWrites, List.cons_append, List.nil_append, List.mem_cons, List.not_mem_nil,
        or_false] at hr
      rcases hr with rfl | rfl | rfl | rfl <;>
        simp only [Region.Disjoint, Snapshot.cowPageCount, Snapshot.state, Snapshot.magic,
          Snapshot.cowStorageOffset, Genesis.size] at * <;> omega
    · cases hr

theorem run_prepare (σ : Atlas) (vclock : Option VectorClock) (between : List Op)
    (k : Fin maxSnapshots) : run Op.step σ (prepare vclock between k) =
      (Op.step (run Op.step (σ.begunWith vclock) between) (.snap (.activate k))).1 := by
  rw [prepare, run_cons, run_concat]
  rfl

/-- The begin gives a snapshot with its magic and no copies. -/
theorem Activated.begun_spec {σ : Atlas} (hinit : σ.initialized = true)
    {vclock : Option VectorClock} {between : List Op} {k : Fin maxSnapshots} {s : ℕ}
    (h : Activated σ vclock between k s) : Begun σ (σ.begunWith vclock) s := by
  rcases snapshotBegin_cases hinit vclock with hb | ⟨τ, t, hb, hbegun⟩
  · have hs := h.begun
    rw [hb] at hs
    cases hs
  · have hs := h.begun
    rw [hb] at hs
    obtain rfl := Option.some.inj hs
    simpa only [begunWith, Op.step, SnapOp.step, hb] using hbegun

/-- The activation makes the snapshot active, with no copies yet, and keeps the magic. -/
theorem Activated.spec {σ : Atlas} (hinit : σ.initialized = true)
    {vclock : Option VectorClock} {between : List Op} {k : Fin maxSnapshots} {s : ℕ}
    (h : Activated σ vclock between k s) {τ : Atlas}
    (hτ : τ = run Op.step σ (prepare vclock between k)) :
    τ.snapshots k = some s ∧ τ.snapState s = SnapState.active.code ∧ τ.cowCount s = 0 ∧
      (Genesis.size ≤ s → τ.mem.get s Snapshot.magic = Snapshot.magicValue) := by
  have hbegun := h.begun_spec hinit
  have hinit₁ := hbegun.keeps.init.trans hinit
  have hk := keeps_run hinit₁ between
  have hinit₂ := hk.init.trans hinit₁
  have hslot := hk.snapshots _ _ h.slot
  obtain ⟨hstate, hmagic, hcount⟩ := activate_spec hinit₂ hslot h.activated
  have hbetween := fun f (hf : StructField.Inside f Snapshot.size) hincl =>
    get_spares hinit₁ h.slot h.spares hf hincl
  rw [hτ, run_prepare]
  refine ⟨(Op.keeps hinit₂ _).snapshots _ _ hslot, hstate, ?_, fun hs => ?_⟩
  · rw [hcount, cowCount, hbetween _ (by decide) (by decide)]
    exact hbegun.noCopies
  · rw [hmagic hs, hbetween _ (by decide) (by decide)]
    exact hbegun.magic

end Seraph
