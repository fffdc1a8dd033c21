import Mathlib.Data.Fin.Basic
import Seraph.CausalOrder
import Seraph.Words

/-!
# Vector clocks

A vector clock has one timestamp for each of `nodeCount` nodes and is owned by the node
`selfId`. `tick` counts an event of the owner, `snapshot` copies the timestamps into a message and
`receive` takes in the timestamps of a message before it counts its own event. `SERAPH_VOID_U64`
is no timestamp : what meets it is VOID. On clocks without it `compare` tells the pointwise order
of the timestamps (`compare_tells`).
-/

namespace Seraph

open CausalOrder

/-- `SERAPH_CHRONON_MAX`. -/
def maxChronon : ℕ :=
  voidU64 - 1

/-- `seraph_chronon_max`. -/
def chrononMax (a b : ℕ) : ℕ :=
  if a = voidU64 ∨ b = voidU64 then voidU64
  else if a ≥ b then a
  else b

/-- `Seraph_VectorClock`, with its timestamps allocated. -/
structure VClock where
  timestamps : ℕ → ℕ
  nodeCount : ℕ
  selfId : ℕ

namespace VClock

/-- `vclock_init_timestamps`. -/
def initTimestamps (nodeCount selfId : ℕ) : VClock :=
  ⟨fun _ => 0, nodeCount, selfId⟩

/-- `seraph_vclock_init`, `none` for a result that is not TRUE. -/
def init (memory : Bool) (nodeCount selfId : ℕ) : Option VClock :=
  if nodeCount = 0 ∨ nodeCount > 65536 then none
  else if selfId ≥ nodeCount then none
  else if memory then some (initTimestamps nodeCount selfId)
  else none

variable (c : VClock)

/-- `seraph_vclock_tick`. -/
def tick : VClock × ℕ :=
  if c.selfId ≥ c.nodeCount then (c, voidU64)
  else
    let selfTs := c.timestamps c.selfId
    if selfTs ≥ maxChronon then (c, voidU64)
    else ({ c with timestamps := Function.update c.timestamps c.selfId (selfTs + 1) }, selfTs + 1)

/-- `seraph_vclock_snapshot` : the buffer and the number of timestamps. -/
def snapshot (buffer : ℕ → ℕ) (bufferSize : ℕ) : (ℕ → ℕ) × ℕ :=
  if bufferSize < c.nodeCount then (buffer, 0)
  else (fun i => if i < c.nodeCount then c.timestamps i else buffer i, c.nodeCount)

/-- The component-wise maximum in `seraph_vclock_receive`. -/
def mergeReceived (received : ℕ → ℕ) : VClock :=
  { c with timestamps := fun i =>
      if i < c.nodeCount then chrononMax (c.timestamps i) (received i) else c.timestamps i }

/-- `seraph_vclock_receive`. -/
def receive (received : ℕ → ℕ) (count : ℕ) : VClock × Vbit :=
  if count ≠ c.nodeCount then (c, .false)
  else if (List.range count).any fun i => received i = voidU64 then (c, .void)
  else
    let ticked := (c.mergeReceived received).tick
    if ticked.2 = voidU64 then
      ({ ticked.1 with timestamps := Function.update ticked.1.timestamps ticked.1.selfId voidU64 },
        .void)
    else (ticked.1, .true)

/-- `vclock_compare_arrays`. -/
def compareArrays (a b : ℕ → ℕ) (count : ℕ) : CausalOrder :=
  let anyVoid := (List.range count).any fun i => a i = voidU64 || b i = voidU64
  let anyLt := (List.range count).any fun i => a i < b i
  let anyGt := (List.range count).any fun i => a i > b i
  if anyVoid then .void else ofFlags anyGt anyLt

/-- `seraph_vclock_compare`. -/
def compare (a b : VClock) : CausalOrder :=
  if a.nodeCount ≠ b.nodeCount then .void
  else compareArrays a.timestamps b.timestamps a.nodeCount

/-! ## Clocks of a system -/

/-- A clock for `N` nodes, owned by `p`, without a VOID timestamp. -/
structure Sound (c : VClock) (N p : ℕ) : Prop where
  nodeCount : c.nodeCount = N
  selfId : c.selfId = p
  self_lt : p < N
  timestamps : ∀ k < N, c.timestamps k < voidU64

/-- The timestamps of the `N` nodes. -/
def stamp (c : VClock) (N : ℕ) : Fin N → ℕ :=
  fun k => c.timestamps k

variable {c} {N p : ℕ}

theorem sound_initTimestamps (h : p < N) : (initTimestamps N p).Sound N p :=
  ⟨rfl, rfl, h, fun _ _ => (by decide : 0 < voidU64)⟩

/-- Below the maximum, `tick` adds one to the timestamp of the owner. -/
theorem tick_eq (h : c.Sound N p) (hmax : c.timestamps p < maxChronon) :
    c.tick = ({ c with timestamps := Function.update c.timestamps p (c.timestamps p + 1) },
      c.timestamps p + 1) := by
  unfold tick
  rw [h.selfId, h.nodeCount, if_neg (Nat.not_le.2 h.self_lt)]
  exact if_neg (Nat.not_le.2 hmax)

theorem Sound.tick (h : c.Sound N p) (hmax : c.timestamps p < maxChronon) :
    c.tick.1.Sound N p := by
  rw [tick_eq h hmax]
  refine ⟨h.nodeCount, h.selfId, h.self_lt, fun k hk => ?_⟩
  rcases eq_or_ne k p with rfl | hne
  · simp only [Function.update_self]
    unfold maxChronon at hmax
    omega
  · simp only [Function.update_of_ne hne]
    exact h.timestamps k hk

theorem stamp_tick (p : Fin N) (h : c.Sound N p) (hmax : c.timestamps p < maxChronon) :
    c.tick.1.stamp N = Function.update (c.stamp N) p (c.stamp N p + 1) := by
  rw [tick_eq h hmax]
  funext k
  rcases eq_or_ne k p with rfl | hne
  · rw [Function.update_self]
    exact Function.update_self _ _ _
  · rw [Function.update_of_ne hne]
    exact Function.update_of_ne (fun heq => hne (Fin.ext heq)) _ _

theorem chrononMax_eq {a b : ℕ} (ha : a < voidU64) (hb : b < voidU64) :
    chrononMax a b = max a b := by
  rw [chrononMax, if_neg (by omega)]
  split <;> omega

theorem Sound.mergeReceived (h : c.Sound N p) {received : ℕ → ℕ}
    (hreceived : ∀ k < N, received k < voidU64) : (c.mergeReceived received).Sound N p := by
  refine ⟨h.nodeCount, h.selfId, h.self_lt, fun k hk => ?_⟩
  have hown := h.timestamps k hk
  have hother := hreceived k hk
  rw [VClock.mergeReceived]
  dsimp only
  rw [if_pos (h.nodeCount.symm ▸ hk), chrononMax_eq hown hother]
  omega

theorem stamp_mergeReceived (h : c.Sound N p) {received : ℕ → ℕ}
    (hreceived : ∀ k < N, received k < voidU64) :
    (c.mergeReceived received).stamp N = c.stamp N ⊔ fun k => received k := by
  funext k
  have hk : (k : ℕ) < c.nodeCount := h.nodeCount.symm ▸ k.isLt
  rw [stamp, VClock.mergeReceived]
  dsimp only
  rw [if_pos hk, chrononMax_eq (h.timestamps k k.isLt) (hreceived k k.isLt)]
  rfl

/-- A message without VOID is taken in, and the owner's event is counted. -/
theorem receive_eq (h : c.Sound N p) {received : ℕ → ℕ}
    (hreceived : ∀ k < N, received k < voidU64)
    (hmax : (c.mergeReceived received).timestamps p < maxChronon) :
    c.receive received N = ((c.mergeReceived received).tick.1, .true) := by
  have hvoid : ((List.range N).any fun i => received i = voidU64) = false := by
    rw [List.any_eq_false]
    intro k hk
    simpa using (hreceived k (List.mem_range.1 hk)).ne
  have hticked : (c.mergeReceived received).tick.2 ≠ voidU64 := by
    rw [tick_eq (h.mergeReceived hreceived) hmax]
    unfold maxChronon at hmax
    dsimp only
    omega
  rw [receive, if_neg (not_not.2 h.nodeCount.symm), hvoid, if_neg Bool.false_ne_true]
  exact if_neg hticked

/-- The loop over the timestamps finds what holds of one of them. -/
theorem any_range_iff {P : ℕ → Prop} [DecidablePred P] :
    ((List.range N).any fun i => P i) = true ↔ ∃ k : Fin N, P k := by
  rw [List.any_eq_true]
  constructor
  · rintro ⟨k, hk, hP⟩
    exact ⟨⟨k, List.mem_range.1 hk⟩, of_decide_eq_true hP⟩
  · rintro ⟨k, hP⟩
    exact ⟨k, List.mem_range.2 k.isLt, decide_eq_true hP⟩

/-- `compare` tells the order of the timestamps. -/
theorem compare_tells {a b : VClock} {q : ℕ} (ha : a.Sound N p) (hb : b.Sound N q) :
    (a.compare b).Tells (a.stamp N) (b.stamp N) := by
  have hvoid : ((List.range N).any fun i =>
      (a.timestamps i = voidU64 : Bool) || (b.timestamps i = voidU64 : Bool)) = false := by
    rw [List.any_eq_false]
    intro k hk
    have hA := (ha.timestamps k (List.mem_range.1 hk)).ne
    have hB := (hb.timestamps k (List.mem_range.1 hk)).ne
    simp [hA, hB]
  have hcompare : a.compare b = ofFlags
      ((List.range N).any fun i => a.timestamps i > b.timestamps i)
      ((List.range N).any fun i => a.timestamps i < b.timestamps i) := by
    rw [compare, if_neg (not_not.2 (ha.nodeCount.trans hb.nodeCount.symm)), compareArrays,
      ha.nodeCount, hvoid]
    rfl
  rw [hcompare]
  exact tells_ofFlags any_range_iff any_range_iff

end VClock

end Seraph
