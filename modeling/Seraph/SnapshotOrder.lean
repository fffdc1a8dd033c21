import Seraph.AtlasSnapshotSteps
import Seraph.VectorClock

/-!
# The order of snapshots

A snapshot has room for the timestamps of 64 nodes and keeps the node count of the clock that it was
begun with. `seraph_atlas_snapshot_compare` compares as many timestamps as the count says, and knows
no VOID. So it agrees with `seraph_vclock_compare` just where the counts differ, or where all
timestamps have been captured and none is VOID (`compare_agrees_iff`).
-/

namespace Seraph

open ByteMem Memory Atlas

/-- `a->vclock[i]` of the snapshot at `s`, `none` for a read outside of the array. -/
def snapshotChronon (m : Memory) (s i : ℕ) : Option ℕ :=
  if i < vclockMaxNodes then some (m.get s (Snapshot.vclock i)) else none

/-- The flags of `snapshot_compare_vclocks`. -/
structure CompareFlags where
  aLeB : Bool
  bLeA : Bool
  aLtB : Bool
  bLtA : Bool

/-- One round of `snapshot_compare_vclocks`. -/
def compareRound (m : Memory) (s r : ℕ) (flags : CompareFlags) (i : ℕ) : Option CompareFlags := do
  let a ← snapshotChronon m s i
  let b ← snapshotChronon m r i
  let flags := if a > b then { flags with aLeB := false, bLtA := true } else flags
  return if a < b then { flags with bLeA := false, aLtB := true } else flags

/-- `snapshot_compare_vclocks`. -/
def snapshotCompareVclocks (m : Memory) (s aCount r bCount : ℕ) : Option CausalOrder :=
  if aCount = 0 ∨ bCount = 0 then some .void
  else if aCount ≠ bCount then some .void
  else do
    let flags ← (List.range aCount).foldlM (compareRound m s r) ⟨true, true, false, false⟩
    if flags.aLeB && flags.bLeA then return .equal
    if flags.aLeB && flags.aLtB then return .before
    if flags.bLeA && flags.bLtA then return .after
    return .concurrent

/-- `seraph_atlas_snapshot_compare`. -/
def snapshotCompare (m : Memory) (s r : ℕ) : Option CausalOrder :=
  if m.get s Snapshot.magic ≠ Snapshot.magicValue ∨ m.get r Snapshot.magic ≠ Snapshot.magicValue
  then some .void
  else
    snapshotCompareVclocks m s (m.get s Snapshot.vclockNodeCount) r
      (m.get r Snapshot.vclockNodeCount)

/-- A clock as `seraph_atlas_snapshot_begin` gets it. -/
def VClock.toSnapshot (c : VClock) : VectorClock :=
  ⟨some ((List.range c.nodeCount).map c.timestamps), c.nodeCount, c.selfId⟩

/-- What `seraph_vclock_init` takes, with timestamps of 64 bits. -/
structure VClock.Accepted (c : VClock) : Prop where
  nodeCount_pos : 0 < c.nodeCount
  nodeCount_le : c.nodeCount ≤ 65536
  selfId_lt : c.selfId < c.nodeCount
  timestamps : ∀ i < c.nodeCount, c.timestamps i < 2 ^ 64

/-- Size of the fields of a snapshot up to the end of its vector clock. -/
def snapshotHead : ℕ :=
  576

/-- The snapshot at `s` has been begun with the clock `c`, and has its header still. -/
def BegunWith (m : Memory) (s : ℕ) (c : VClock) : Prop :=
  ∃ σ τ : Atlas, σ.initialized = true ∧ σ.snapshotBegin (some c.toSnapshot) = (τ, some s) ∧
    SameBytes τ.mem s m s snapshotHead

/-- The order of the snapshots is that of their clocks, and only what has been captured is read. -/
def CompareAgrees (m : Memory) (s r : ℕ) (a b : VClock) : Prop :=
  snapshotCompare m s r = some (a.compare b)

/-! ## What has been captured -/

/-- A field that is assigned once. -/
theorem get_assign_mem (base : ℕ) {f : StructField} {v : ℕ} :
    ∀ (fs : List (StructField × ℕ)) (m : Memory), (f, v) ∈ fs →
      (∀ p ∈ fs, p = (f, v) ∨ p.1.Apart f) → (m.assign base fs).get base f = v % 256 ^ f.width
  | [], _, hmem, _ => absurd hmem List.not_mem_nil
  | q :: fs, m, hmem, hall => by
    by_cases hin : (f, v) ∈ fs
    · exact get_assign_mem base fs _ hin fun p hp => hall p (List.mem_cons_of_mem _ hp)
    · obtain rfl : (f, v) = q := (List.mem_cons.1 hmem).resolve_right hin
      rw [assign, get_assign_apart base fs _ fun p hp => ?_, get_set_same]
      exact (hall p (List.mem_cons_of_mem _ hp)).resolve_left fun h => hin (h ▸ hp)

theorem BegunWith.started {m : Memory} {s : ℕ} {c : VClock} (h : BegunWith m s c) :
    ∃ σ : Atlas, SameBytes (σ.snapshotInit s (some c.toSnapshot)) s m s snapshotHead := by
  obtain ⟨σ, τ, hinit, hbegin, hsame⟩ := h
  unfold snapshotBegin at hbegin
  rw [if_neg (by simp [hinit])] at hbegin
  split at hbegin
  · cases hbegin
  · next υ t _ =>
    obtain ⟨h1, h2⟩ := Prod.ext_iff.1 hbegin
    obtain rfl : t = s := Option.some.inj h2
    refine ⟨υ, ?_⟩
    rw [← startSnapshot_mem, show υ.startSnapshot t (some c.toSnapshot) = τ from h1]
    exact hsame

/-- The fields of the header stay as they have been written. -/
theorem BegunWith.get {m : Memory} {s : ℕ} {c : VClock} (h : BegunWith m s c) {f : StructField}
    (hf : f.Inside snapshotHead) :
    ∃ σ : Atlas, m.get s f = (σ.snapshotInit s (some c.toSnapshot)).get s f := by
  obtain ⟨σ, hsame⟩ := h.started
  refine ⟨σ, load_congr fun x hx => ?_⟩
  obtain ⟨h1, h2⟩ : s + f.off ≤ x ∧ x < s + f.off + f.width := hx
  unfold StructField.Inside at hf
  have hbyte := hsame (x - s) (by omega)
  rwa [Nat.add_sub_cancel' (by omega)] at hbyte

/-- What is written after the clock leaves it alone. -/
theorem snapshotInit_get (σ : Atlas) (s : ℕ) (vclock : Option VectorClock) {f : StructField}
    (hf : f.Inside snapshotHead) :
    ∃ m, (σ.snapshotInit s vclock).get s f = (σ.snapshotCaptureVclock m s vclock).get s f := by
  have hapart : ∀ g : StructField, snapshotHead ≤ g.off → g.Apart f := by
    intro g hg
    unfold StructField.Apart
    unfold StructField.Inside at hf
    omega
  refine ⟨_, (get_assign_apart s _ _ ?_).trans ((copyGenesis_get _ s (hf.trans (by decide))).trans
    (get_assign_apart s _ _ ?_))⟩
  · simp only [List.forall_mem_cons]
    exact ⟨hapart _ (by decide), hapart _ (by decide), by simp⟩
  · simp only [List.forall_mem_cons]
    exact ⟨hapart _ (by decide), hapart _ (by decide), hapart _ (by decide), hapart _ (by decide),
      hapart _ (by decide), hapart _ (by decide), by simp⟩

theorem begun_magic {m : Memory} {s : ℕ} {c : VClock} (h : BegunWith m s c) :
    m.get s Snapshot.magic = Snapshot.magicValue := by
  obtain ⟨σ, hget⟩ := h.get (f := Snapshot.magic) (by decide)
  rw [hget, snapshotInit_magic]

/-- The node count is captured as it is. -/
theorem begun_nodeCount {m : Memory} {s : ℕ} {c : VClock} (h : BegunWith m s c)
    (hc : c.Accepted) : m.get s Snapshot.vclockNodeCount = c.nodeCount := by
  obtain ⟨σ, hget⟩ := h.get (f := Snapshot.vclockNodeCount) (by decide)
  obtain ⟨m', hget'⟩ := snapshotInit_get σ s (some c.toSnapshot)
    (f := Snapshot.vclockNodeCount) (by decide)
  have hle := hc.nodeCount_le
  rw [hget, hget']
  refine (get_assign_mem s _ _ List.mem_cons_self ?_).trans (Nat.mod_eq_of_lt ?_)
  · simp only [List.forall_mem_cons, List.forall_mem_map]
    refine ⟨.inl trivial, .inr (by decide), fun i _ => .inr ?_⟩
    simp only [StructField.Apart, Snapshot.vclock, Snapshot.vclockNodeCount]
    omega
  · simp only [Snapshot.vclockNodeCount]
    omega

/-- The timestamps of the first nodes are captured. -/
theorem begun_timestamp {m : Memory} {s : ℕ} {c : VClock} (h : BegunWith m s c)
    (hc : c.Accepted) {i : ℕ} (hi : i < c.nodeCount) (hmax : i < vclockMaxNodes) :
    snapshotChronon m s i = some (c.timestamps i) := by
  have hmax' : i < 64 := hmax
  have hinside : (Snapshot.vclock i).Inside snapshotHead := by
    simp only [StructField.Inside, Snapshot.vclock, snapshotHead]
    omega
  obtain ⟨σ, hget⟩ := h.get hinside
  obtain ⟨m', hget'⟩ := snapshotInit_get σ s (some c.toSnapshot) hinside
  have hlt := hc.timestamps i hi
  rw [snapshotChronon, if_pos hmax, hget, hget']
  refine congrArg some ((get_assign_mem s _ _ (v := c.timestamps i) ?_ ?_).trans
    (Nat.mod_eq_of_lt ?_))
  · refine List.mem_cons_of_mem _ (List.mem_cons_of_mem _ (List.mem_map.2 ⟨⟨i, hmax⟩, ?_, ?_⟩))
    · exact List.mem_filter.2 ⟨List.mem_finRange _, decide_eq_true hi⟩
    · simp [hi]
  · simp only [List.forall_mem_cons, List.forall_mem_map]
    refine ⟨.inr ?_, .inr ?_, fun j hj => ?_⟩
    · simp only [StructField.Apart, Snapshot.vclock, Snapshot.vclockNodeCount]
      omega
    · simp only [StructField.Apart, Snapshot.vclock, Snapshot.vclockSelfId]
      omega
    · rcases eq_or_ne j.val i with rfl | hne
      · have hj' : j.val < c.nodeCount := of_decide_eq_true (List.mem_filter.1 hj).2
        exact .inl (by simp [hj'])
      · refine .inr ?_
        simp only [StructField.Apart, Snapshot.vclock]
        omega
  · simpa [Snapshot.vclock] using hlt

/-! ## The comparison -/

/-- A loop fails where one of its rounds does. -/
theorem foldlM_eq_none {α β : Type} {f : β → α → Option β} {x : α} (hx : ∀ b, f b x = none) :
    ∀ (xs : List α) (b : β), x ∈ xs → xs.foldlM f b = none
  | [], _, hmem => absurd hmem List.not_mem_nil
  | y :: ys, b, hmem => by
    rw [List.foldlM_cons]
    rcases List.mem_cons.1 hmem with rfl | hmem
    · rw [hx]
      rfl
    · cases f b y with
      | none => rfl
      | some b' => exact foldlM_eq_none hx ys b' hmem

/-- The loop finds whether a timestamp of the one clock is less, and whether one is greater. -/
theorem foldlM_compareRound {m : Memory} {s r : ℕ} {a b : ℕ → ℕ} {n : ℕ}
    (ha : ∀ i < n, snapshotChronon m s i = some (a i))
    (hb : ∀ i < n, snapshotChronon m r i = some (b i)) :
    (List.range n).foldlM (compareRound m s r) ⟨true, true, false, false⟩ =
      some ⟨!(List.range n).any fun i => a i > b i, !(List.range n).any fun i => a i < b i,
        (List.range n).any fun i => a i < b i, (List.range n).any fun i => a i > b i⟩ := by
  induction n with
  | zero => rfl
  | succ n ih =>
    rw [List.range_succ, List.foldlM_append, ih (fun i hi => ha i (by omega))
      fun i hi => hb i (by omega)]
    simp only [List.any_append, List.any_cons, List.any_nil, Bool.or_false]
    generalize (List.range n).any (fun i => decide (a i > b i)) = greater
    generalize (List.range n).any (fun i => decide (a i < b i)) = less
    rw [Option.bind_eq_bind, Option.bind_some, List.foldlM_cons]
    simp only [compareRound, ha n (Nat.lt_succ_self n), hb n (Nat.lt_succ_self n),
      List.foldlM_nil]
    rcases lt_trichotomy (a n) (b n) with h | h | h
    · simp [h, h.not_gt]
    · simp [h]
    · simp [h, h.not_gt]

/-- The comparison reads all timestamps that the count says, captured or not. -/
theorem snapshotCompare_begun {m : Memory} {s r : ℕ} {a b : VClock} (ha : a.Accepted)
    (hb : b.Accepted) (hs : BegunWith m s a) (hr : BegunWith m r b) :
    snapshotCompare m s r =
      if a.nodeCount ≠ b.nodeCount then some .void
      else if a.nodeCount ≤ vclockMaxNodes then
        some (CausalOrder.ofFlags
          ((List.range a.nodeCount).any fun i => a.timestamps i > b.timestamps i)
          ((List.range a.nodeCount).any fun i => a.timestamps i < b.timestamps i))
      else none := by
  have hpos := ha.nodeCount_pos
  have hpos' := hb.nodeCount_pos
  rw [snapshotCompare, begun_magic hs, begun_magic hr, if_neg (by simp), begun_nodeCount hs ha,
    begun_nodeCount hr hb, snapshotCompareVclocks, if_neg (by omega)]
  by_cases hcount : a.nodeCount = b.nodeCount
  swap
  · rw [if_pos hcount, if_pos hcount]
  rw [if_neg (not_not.2 hcount), if_neg (not_not.2 hcount)]
  by_cases hmax : a.nodeCount ≤ vclockMaxNodes
  · rw [if_pos hmax, foldlM_compareRound (n := a.nodeCount)
      (fun i hi => begun_timestamp hs ha hi (hi.trans_le hmax))
      fun i hi => begun_timestamp hr hb (hcount ▸ hi) (hi.trans_le hmax)]
    generalize (List.range a.nodeCount).any
      (fun i => decide (a.timestamps i > b.timestamps i)) = greater
    generalize (List.range a.nodeCount).any
      (fun i => decide (a.timestamps i < b.timestamps i)) = less
    cases greater <;> cases less <;> rfl
  · have hnone : ∀ flags, compareRound m s r flags vclockMaxNodes = none := by
      intro flags
      rw [compareRound, snapshotChronon, if_neg (lt_irrefl _)]
      rfl
    rw [if_neg hmax, foldlM_eq_none hnone _ _ (List.mem_range.2 (not_le.1 hmax))]
    rfl

/-- The order of snapshots is that of their clocks just where the node counts differ, or all
timestamps fit and none is VOID. -/
theorem compare_agrees_iff {m : Memory} {s r : ℕ} {a b : VClock} (ha : a.Accepted)
    (hb : b.Accepted) (hs : BegunWith m s a) (hr : BegunWith m r b) :
    CompareAgrees m s r a b ↔ a.nodeCount ≠ b.nodeCount ∨ a.nodeCount ≤ vclockMaxNodes ∧
      ∀ i < a.nodeCount, a.timestamps i ≠ voidU64 ∧ b.timestamps i ≠ voidU64 := by
  rw [CompareAgrees, snapshotCompare_begun ha hb hs hr, VClock.compare]
  by_cases hcount : a.nodeCount = b.nodeCount
  swap
  · rw [if_pos hcount, if_pos hcount]
    exact iff_of_true rfl (.inl hcount)
  rw [if_neg (not_not.2 hcount), if_neg (not_not.2 hcount), or_iff_right (not_not.2 hcount)]
  by_cases hmax : a.nodeCount ≤ vclockMaxNodes
  swap
  · rw [if_neg hmax]
    exact iff_of_false (by simp) fun h => hmax h.1
  rw [if_pos hmax, and_iff_right hmax, Option.some_inj, VClock.compareArrays]
  have hvoid : ((List.range a.nodeCount).any fun i =>
      (a.timestamps i = voidU64 : Bool) || (b.timestamps i = voidU64 : Bool)) = false ↔
      ∀ i < a.nodeCount, a.timestamps i ≠ voidU64 ∧ b.timestamps i ≠ voidU64 := by
    simp [List.any_eq_false]
  rw [← hvoid]
  cases hany : (List.range a.nodeCount).any fun i =>
    (a.timestamps i = voidU64 : Bool) || (b.timestamps i = voidU64 : Bool)
  · exact iff_of_true rfl rfl
  · refine iff_of_false ?_ (by simp)
    generalize (List.range a.nodeCount).any
      (fun i => decide (a.timestamps i > b.timestamps i)) = greater
    generalize (List.range a.nodeCount).any
      (fun i => decide (a.timestamps i < b.timestamps i)) = less
    cases greater <;> cases less <;> decide

/-- An Atlas with a void snapshot. -/
def voidSnapshot : Atlas where
  size := 2 ^ 20
  mem := fun _ => 0
  initialized := true
  currentEpoch := 1
  transactions := fun _ => .zero
  nextTxId := 1
  snapshots := fun _ => some 4096
  nextSnapshotId := 1
  localNodeId := 0
  nodeCount := 1
  currentVclock := fun _ => 0

/-- A clock of one node. -/
def oneNode (timestamp : ℕ) : VClock :=
  ⟨fun _ => timestamp, 1, 0⟩

theorem accepted_oneNode {timestamp : ℕ} (h : timestamp < 2 ^ 64) : (oneNode timestamp).Accepted :=
  ⟨Nat.one_pos, Nat.one_le_of_lt (show 0 < 65536 by decide), Nat.one_pos, fun _ _ => h⟩

theorem begunWith_oneNode (timestamp : ℕ) :
    BegunWith (voidSnapshot.snapshotBegin (some (oneNode timestamp).toSnapshot)).1.mem 4096
      (oneNode timestamp) :=
  ⟨voidSnapshot, _, rfl, rfl, .refl _ _ _⟩

/-- An Atlas with two void snapshots. -/
def voidSnapshots : Atlas :=
  { voidSnapshot with snapshots := fun i => if i.val = 0 then some 4096 else some 40960 }

/-- The first one has been begun with timestamp 7. -/
def onceBegun : Atlas :=
  (voidSnapshots.snapshotBegin (some (oneNode 7).toSnapshot)).1

/-- The second one has been begun with timestamp 9, then. -/
def twiceBegun : Atlas :=
  (onceBegun.snapshotBegin (some (oneNode 9).toSnapshot)).1

theorem compare_agrees_iff_twiceBegun :
    CompareAgrees twiceBegun.mem 4096 40960 (oneNode 7) (oneNode 9) ∧
      (oneNode 7).compare (oneNode 9) = .before := by
  have hfirst : BegunWith twiceBegun.mem 4096 (oneNode 7) := by
    refine ⟨voidSnapshots, onceBegun, rfl, Prod.ext rfl (by decide +kernel), ?_⟩
    unfold SameBytes
    decide +kernel
  have hsecond : BegunWith twiceBegun.mem 40960 (oneNode 9) :=
    ⟨onceBegun, twiceBegun, by decide +kernel, Prod.ext rfl (by decide +kernel), .refl _ _ _⟩
  exact ⟨(compare_agrees_iff (accepted_oneNode (by decide)) (accepted_oneNode (by decide))
    hfirst hsecond).2 (.inr ⟨by decide, by decide⟩), by decide⟩

/-- A VOID timestamp is equal to itself for snapshots. -/
theorem not_compare_agrees_void :
    (oneNode voidU64).Accepted ∧
      BegunWith (voidSnapshot.snapshotBegin (some (oneNode voidU64).toSnapshot)).1.mem 4096
        (oneNode voidU64) ∧
      ¬CompareAgrees (voidSnapshot.snapshotBegin (some (oneNode voidU64).toSnapshot)).1.mem 4096
        4096 (oneNode voidU64) (oneNode voidU64) := by
  have haccepted : (oneNode voidU64).Accepted := accepted_oneNode (by decide)
  refine ⟨haccepted, begunWith_oneNode voidU64, fun h => ?_⟩
  rw [CompareAgrees, snapshotCompare_begun haccepted haccepted (begunWith_oneNode _)
    (begunWith_oneNode _)] at h
  exact absurd h (by decide)

end Seraph
