import Mathlib.Data.Fin.Basic
import Seraph.Runs
import Seraph.SparseClockOrder

/-!
# Saturated clocks

Sparse clocks are run here next to unbounded ones, maps in which every timestamp has a place :
a step `Fits` where the sparse clock has room for what the unbounded clock takes in. While all
steps fit, each clock stands for its unbounded clock (`Agrees`) and `compare` reports nothing
that these contradict (`conservative_run`). After a step that does not fit, `compare` goes on as
if nothing were missing : it never looks at the SATURATED flag, so a full clock is found equal
to what it was before a merge whose entries it had to drop (`merge_full`).
-/

namespace Seraph

open SortedTable Loops Runs CausalOrder

/-- Sparse clocks, and the unbounded clocks alongside. -/
structure ClockState where
  clock : ℕ → SparseClock
  unbounded : ℕ → ℕ → ℕ

/-- Calls on clocks that are told by their index. -/
inductive ClockOp where
  | increment (clock : ℕ) (memory : Bool)
  | set (clock : ℕ) (memory : Bool) (nodeId : Fin (2 ^ 16)) (timestamp : Fin (2 ^ 64))
  | merge (clock : ℕ) (memory : Bool) (other : ℕ)
  | compare (a b : ℕ)

namespace ClockState

variable (s : ClockState)

/-- Clock `i` and its unbounded clock after a step. -/
def put (i : ℕ) (c : SparseClock) (f : ℕ → ℕ) : ClockState :=
  ⟨Function.update s.clock i c, Function.update s.unbounded i f⟩

/-- A call, and what `compare` reports. The unbounded clock refuses nothing but a VOID
timestamp. -/
def step : ClockOp → ClockState × Option CausalOrder
  | .increment i memory =>
    let owner := (s.clock i).ownerNode
    (s.put i ((s.clock i).increment memory).1
      (Function.update (s.unbounded i) owner (s.unbounded i owner + 1)), none)
  | .set i memory nodeId timestamp =>
    (s.put i ((s.clock i).set memory nodeId timestamp).1
      (if timestamp.val = voidU64 then s.unbounded i
        else Function.update (s.unbounded i) nodeId timestamp), none)
  | .merge i memory j =>
    (s.put i ((s.clock i).merge memory (s.clock j)).1 (s.unbounded i ⊔ s.unbounded j), none)
  | .compare i j => (s, some ((s.clock i).compare (s.clock j)))

/-- The sparse clock has room for what the step brings : the timestamp of an increment is not
the last one, an entry can be written, the nodes of merged clocks fit together and can be
allocated. Clocks that are compared are a safe pair. -/
def Fits : ClockOp → Prop
  | .increment i memory =>
    (s.clock i).value (s.clock i).ownerNode + 1 < voidU64 ∧
      (s.clock i).Accepts memory (s.clock i).ownerNode
  | .set i memory nodeId timestamp =>
    timestamp.val = voidU64 ∨ (s.clock i).value nodeId = timestamp ∨
      (s.clock i).Accepts memory nodeId
  | .merge i memory j =>
    (s.clock j).count = 0 ∨
      memory = true ∧ ((s.clock i).nodes ∪ (s.clock j).nodes).card ≤ maxClockEntries
  | .compare i j => SparseClock.SafePair (s.clock i) (s.clock j)

/-- Every clock is well-formed and stands for its unbounded clock. -/
def Agrees : Prop :=
  ∀ i, (s.clock i).WellFormed ∧ (s.clock i).value = s.unbounded i

end ClockState

/-- A result that claims no relation but that of `x` and `y`. -/
structure Conservative {α : Type*} [PartialOrder α] (r : CausalOrder) (x y : α) : Prop where
  before : r = .before → x < y
  equal : r = .equal → x = y
  after : r = .after → y < x

theorem CausalOrder.Tells.conservative {α : Type*} [PartialOrder α] {r : CausalOrder} {x y : α}
    (h : r.Tells x y) : Conservative r x y :=
  ⟨h.before.1, h.equal.1, h.after.1⟩

namespace ClockState

variable {s : ClockState}

theorem Agrees.put (h : s.Agrees) {i : ℕ} {c : SparseClock} {f : ℕ → ℕ} (hc : c.WellFormed)
    (hvalue : c.value = f) : (s.put i c f).Agrees := by
  intro j
  rcases eq_or_ne j i with rfl | hj
  · simp only [ClockState.put, Function.update_self]
    exact ⟨hc, hvalue⟩
  · simp only [ClockState.put, Function.update_of_ne hj]
    exact h j

theorem Agrees.increment (h : s.Agrees) {i : ℕ} {memory : Bool}
    (hfits : s.Fits (.increment i memory)) : (s.step (.increment i memory)).1.Agrees := by
  obtain ⟨hwf, hvalue⟩ := h i
  rcases SparseClock.increment_cases hwf memory with ⟨hfull, -, -⟩ | ⟨-, -, -, hwrites⟩
  · rcases hfull with hmax | hroom
    · exact absurd hfits.1 (Nat.not_lt.2 hmax)
    · exact absurd hfits.2 hroom
  · refine h.put hwrites.wellFormed ?_
    rw [hwrites.value, hvalue]

theorem Agrees.set (h : s.Agrees) {i : ℕ} {memory : Bool} {nodeId : Fin (2 ^ 16)}
    {timestamp : Fin (2 ^ 64)} (hfits : s.Fits (.set i memory nodeId timestamp)) :
    (s.step (.set i memory nodeId timestamp)).1.Agrees := by
  obtain ⟨hwf, hvalue⟩ := h i
  by_cases hvoid : timestamp.val = voidU64
  · refine h.put ?_ ?_
    · rw [hvoid, SparseClock.set_void]
      exact hwf
    · rw [hvoid, SparseClock.set_void, if_pos rfl]
      exact hvalue
  · have hstamp : timestamp.val < voidU64 := by
      have := timestamp.isLt
      unfold voidU64 at *
      omega
    refine h.put ?_ ?_
    · rcases SparseClock.set_cases hwf memory nodeId.isLt hstamp with ⟨-, -, hsame⟩ |
        ⟨-, -, hwrites⟩
      · exact (hsame.wellFormed hwf).1
      · exact hwrites.wellFormed
    · rw [if_neg hvoid, ← hvalue]
      rcases SparseClock.set_cases hwf memory nodeId.isLt hstamp with ⟨hroom, -, hsame⟩ |
        ⟨-, -, hwrites⟩
      · -- A refused timestamp is the one that the node has.
        have hkept : (s.clock i).value nodeId = timestamp :=
          (hfits.resolve_left hvoid).resolve_right hroom
        rw [(hsame.wellFormed hwf).2.1, ← hkept, Function.update_eq_self]
      · exact hwrites.value

theorem Agrees.merge (h : s.Agrees) {i j : ℕ} {memory : Bool}
    (hfits : s.Fits (.merge i memory j)) : (s.step (.merge i memory j)).1.Agrees := by
  obtain ⟨hwfA, hvalueA⟩ := h i
  obtain ⟨hwfB, hvalueB⟩ := h j
  rcases hfits with hempty | ⟨rfl, hcard⟩
  · have hsame : ((s.clock i).merge memory (s.clock j)).1 = s.clock i := by
      rw [SparseClock.merge, if_pos hempty]
    have hzero : s.unbounded j = 0 := hvalueB ▸ SparseClock.value_of_empty hempty
    refine h.put ?_ ?_
    · rwa [hsame]
    · rw [hsame, hvalueA, hzero]
      exact (sup_of_le_left fun k => Nat.zero_le _).symm
  · have hjoins := (SparseClock.joins_merge hwfA hwfB hcard).2
    refine h.put hjoins.wellFormed ?_
    rw [hjoins.value, hvalueA, hvalueB]

/-- A step that fits keeps the clocks and the unbounded clocks together. -/
theorem agrees_step (h : s.Agrees) {op : ClockOp} (hfits : s.Fits op) : (s.step op).1.Agrees := by
  cases op with
  | increment i memory => exact h.increment hfits
  | set i memory nodeId timestamp => exact h.set hfits
  | merge i memory j => exact h.merge hfits
  | compare i j => exact h

/-- A comparison of clocks that agree with their unbounded clocks tells how these are related. -/
theorem Agrees.compare (h : s.Agrees) {i j : ℕ} (hfits : s.Fits (.compare i j)) :
    ((s.clock i).compare (s.clock j)).Tells (s.unbounded i) (s.unbounded j) := by
  have hcompares := SparseClock.compares_of_safePair (h i).1 (h j).1 hfits
  rw [← (h i).2, ← (h j).2]
  exact hcompares.tells

/-- The call does not report a relation that the unbounded clocks contradict. -/
def ReportsSafely (c : Call ClockState ClockOp (Option CausalOrder)) : Prop :=
  ∀ i j r, c.op = .compare i j → c.result = some r →
    Conservative r (c.before.unbounded i) (c.before.unbounded j)

/-- **Conservative order.** In a run whose steps all fit, `compare` reports BEFORE, EQUAL and
AFTER only for clocks whose unbounded clocks are in that relation. -/
theorem conservative_run {ops : List ClockOp} (hs : s.Agrees) (hfits : Guarded step Fits s ops) :
    ∀ c ∈ calls step s ops, ReportsSafely c := by
  refine guarded_calls (I := Agrees) (fun s op h hfits => agrees_step h hfits) ?_ hs hfits
  rintro s op h hfits i j r rfl hresult
  obtain rfl := Option.some.inj hresult
  exact (h.compare hfits).conservative

/-- New clocks. -/
def fresh : ClockState :=
  ⟨fun i => SparseClock.init (u16 i), fun _ => 0⟩

theorem agrees_fresh : fresh.Agrees :=
  fun i => ⟨SparseClock.wellFormed_init (Nat.mod_lt i (by decide)), rfl⟩

/-- Node 1 learns of an event of node 0 and has one of its own. -/
def mergeRun : List ClockOp :=
  [.increment 0 true, .merge 1 true 0, .increment 1 true, .compare 0 1]

theorem conservative_run_merge :
    Guarded step Fits fresh mergeRun ∧ ∀ c ∈ calls step fresh mergeRun, ReportsSafely c := by
  suffices hfits : Guarded step Fits fresh mergeRun from
    ⟨hfits, conservative_run agrees_fresh hfits⟩
  refine ⟨⟨by decide, ?_⟩, .inr ⟨rfl, by decide⟩, ⟨by decide, ?_⟩,
    .inl (iff_of_false (by decide) (by decide)), trivial⟩
  · exact .inr (.inl (by decide))
  · exact .inr (.inr ⟨by decide, by decide, by decide⟩)

end ClockState

/-! ## Full clocks -/

namespace MergeState

variable {a b : SparseClock} {s t : MergeState}

/-- Nothing of the second clock has been read, and the first one is being copied. -/
structure Copying (a : SparseClock) (s : MergeState) : Prop where
  j : s.j = 0
  k : s.k = s.i
  i : s.i ≤ a.count
  merged : ∀ p < s.i, s.merged p = a.entries p

/-- The nodes of the first clock come before all nodes of the second. -/
theorem Copying.mergeRound (h : Copying a s)
    (hlt : ∀ p < a.count, (a.entries p).nodeId < (b.entries 0).nodeId) {maxCount : ℕ}
    (hround : s.mergeRound a b maxCount = some t) :
    Copying a t ∧ a.count - t.i < a.count - s.i := by
  unfold MergeState.mergeRound at hround
  split at hround
  · next hcond =>
    rw [h.j, if_pos (hlt s.i hcond.1)] at hround
    obtain rfl := Option.some.inj hround
    refine ⟨⟨h.j, congrArg (· + 1) h.k, hcond.1, fun p hp => ?_⟩,
      Nat.sub_lt_sub_left hcond.1 (Nat.lt_succ_self s.i)⟩
    simp only [MergeState.takeA, h.k] at hp ⊢
    rcases Nat.lt_succ_iff_lt_or_eq.1 hp with hp | rfl
    · rw [Function.update_of_ne hp.ne]
      exact h.merged p hp
    · rw [Function.update_self]
  · cases hround

/-- The loops of `merge` copy a full clock whose nodes come before all nodes of the other. -/
theorem copying_mergeLoops (hb : 0 < b.count)
    (hlt : ∀ p < a.count, (a.entries p).nodeId < (b.entries 0).nodeId) :
    Copying a (mergeLoops a b a.count) ∧ (mergeLoops a b a.count).i = a.count := by
  have hstart : Copying a start :=
    ⟨rfl, rfl, Nat.zero_le _, fun p hp => absurd hp (Nat.not_lt_zero p)⟩
  have hfuel : a.count - start.i < a.count + b.count + 1 := by
    simp only [start]
    omega
  obtain ⟨hcopy, -, hdone⟩ := loop_spec (f := fun s : MergeState => a.count - s.i)
    (fun s t h hround => Copying.mergeRound (b := b) h hlt hround) hstart hfuel
  unfold mergeLoops
  dsimp only
  generalize loop (MergeState.mergeRound a b a.count) (a.count + b.count + 1) start = s
    at hcopy hdone
  have hi : s.i = a.count := by
    refine Nat.le_antisymm hcopy.i (Nat.not_lt.1 fun hi => ?_)
    rw [MergeState.mergeRound, hcopy.j, hcopy.k, if_pos ⟨hi, hb, hi⟩, if_pos (hlt s.i hi)] at hdone
    cases hdone
  have hrestA : restARound a a.count s = none := if_neg fun h => absurd hi h.1.ne
  have hrestB : restBRound b a.count s = none :=
    if_neg fun h => absurd (hcopy.k.trans hi) h.2.ne
  rw [loop_of_none hrestA, loop_of_none hrestB]
  exact ⟨hcopy, hi⟩

end MergeState

namespace SparseClock

variable {a b c : SparseClock}

/-- A full clock keeps its map when it is merged with a clock of larger nodes, and its SATURATED
flag is set. -/
theorem merge_full (ha : a.WellFormed) (hfull : a.count = maxClockEntries) (hb : 0 < b.count)
    (hcount : b.count ≤ maxClockEntries)
    (hlt : ∀ p < a.count, (a.entries p).nodeId < (b.entries 0).nodeId) :
    (a.merge true b).2 = .true ∧ (a.merge true b).1.WellFormed ∧
      (a.merge true b).1.value = a.value ∧ (a.merge true b).1.nodes = a.nodes ∧
      (a.merge true b).1.saturated = true := by
  have hmax : a.maxCount b = a.count := by
    unfold maxCount
    rw [hfull] at *
    unfold maxClockEntries at *
    rw [u16_of_lt (by omega)]
    exact if_pos (by omega)
  obtain ⟨hcopy, hi⟩ := MergeState.copying_mergeLoops hb hlt
  have hcap : a.count < 2 ^ 16 := by
    rw [hfull]
    decide
  have hk := hcopy.k.trans hi
  have hj := hcopy.j
  have hmerged := hcopy.merged
  unfold merge
  rw [if_neg hb.ne', hmax]
  simp only [Bool.not_true, Bool.false_eq_true, if_false]
  generalize MergeState.mergeLoops a b a.count = s at hi hj hk hmerged
  rw [hi] at hmerged
  refine ⟨trivial, ⟨?_, fun p hp => ?_, fun p hp => ?_, ?_, ?_, ha.owner⟩, ?_, ?_, ?_⟩
  · simp only [hk]
    exact ha.sorted.congr hmerged
  · simp only [hk] at hp
    simp only [hmerged p hp]
    exact ha.nodeId p hp
  · simp only [hk] at hp
    simp only [hmerged p hp]
    exact ha.timestamp p hp
  · exact hk.le
  · exact hcap
  · funext n
    simp only [value, hk]
    exact get_congr hmerged n
  · ext n
    simp only [mem_nodes, hk]
    constructor
    · rintro ⟨p, hp, rfl⟩
      exact ⟨p, hp, by rw [hmerged p hp]⟩
    · rintro ⟨p, hp, rfl⟩
      exact ⟨p, hp, by rw [hmerged p hp]⟩
  · simp [hj, hb]

/-- A clock of node 0 with a timestamp for each of the first `n` nodes. -/
def filled : ℕ → SparseClock
  | 0 => init 0
  | n + 1 => ((filled n).set true n 1).1

/-- What `filled n` holds. -/
structure Filled (c : SparseClock) (n : ℕ) : Prop where
  wellFormed : c.WellFormed
  count : c.count = n
  entries : ∀ i < n, c.entries i = ⟨i, 1⟩
  borrowed : c.borrowed = false
  capacity : c.capacity ≤ maxClockEntries

theorem ensureCapacity_le (h : c.capacity ≤ maxClockEntries) (memory : Bool) :
    (c.ensureCapacity memory).1.capacity ≤ maxClockEntries := by
  unfold ensureCapacity
  split
  · exact h
  split
  · exact h
  split
  · exact h
  split
  · have hgrown : c.grownCapacity ≤ maxClockEntries := by
      simp only [grownCapacity]
      split
      · split <;> omega
      · split <;> omega
    exact (Nat.mod_le _ _).trans hgrown
  · exact h

/-- A timestamp for a node behind all nodes of the clock is appended. -/
theorem Filled.set_eq {n : ℕ} (h : Filled c n) (hn : n < maxClockEntries) :
    ∃ capacity ≤ maxClockEntries, (c.set true n 1).1 =
      { c with entries := insertAt c.entries n n ⟨n, 1⟩, count := n + 1, capacity } := by
  have hroom : c.HasRoom true := by
    rcases Nat.lt_or_ge c.count c.capacity with hlt | hge
    · exact .inl hlt
    · exact .inr ⟨h.borrowed, by have := h.count; omega, rfl⟩
  have hle := ensureCapacity_le h.capacity true
  have hone : (1 : ℕ) ≠ voidU64 := by decide
  obtain ⟨capacity, hgrown, -⟩ := ((ensureCapacity_cases c true).resolve_left fun h => h.1 hroom).2
  rw [hgrown] at hle
  refine ⟨capacity, hle, ?_⟩
  rw [SparseClock.set, if_neg hone]
  rcases searched_cases h.wellFormed n with ⟨i, hi, -, hnode, -⟩ | ⟨-, -, hindex, hgap⟩
  · rw [h.count] at hi
    rw [h.entries i hi] at hnode
    exact absurd hnode hi.ne
  · have hcount : u16 (n + 1) = n + 1 := by
      have : maxClockEntries < 2 ^ 16 := by decide
      exact u16_of_lt (by omega)
    rw [h.count] at hgap hindex
    have hindex' : u16 (-(binarySearch c.entries n n + 1)).toNat = n := by
      refine Nat.le_antisymm hgap.le (Nat.not_lt.1 fun hlt => ?_)
      have hnode := hgap.above _ le_rfl hlt
      rw [h.entries _ hlt] at hnode
      exact absurd hlt hnode.asymm
    simp only [h.count, hindex, hindex', if_false, insertEntry, hgrown, Bool.not_true,
      Bool.false_eq_true, hcount]

theorem Filled.set {n : ℕ} (h : Filled c n) (hn : n < maxClockEntries) :
    Filled (c.set true n 1).1 (n + 1) := by
  have hwf : (c.set true n 1).1.WellFormed := by
    rcases set_cases h.wellFormed true (hn.trans (by decide)) (by decide : 1 < voidU64)
      with ⟨-, -, hsame⟩ | ⟨-, -, hwrites⟩
    · exact (hsame.wellFormed h.wellFormed).1
    · exact hwrites.wellFormed
  obtain ⟨capacity, hcap, heq⟩ := h.set_eq hn
  rw [heq] at hwf ⊢
  refine ⟨hwf, rfl, fun i hi => ?_, h.borrowed, hcap⟩
  rcases Nat.lt_succ_iff_lt_or_eq.1 hi with hi | rfl
  · simp only [insertAt_of_lt hi]
    exact h.entries i hi
  · exact insertAt_self

theorem filled_spec : ∀ n ≤ maxClockEntries, Filled (filled n) n
  | 0, _ => ⟨wellFormed_init (by decide), rfl, fun i hi => absurd hi (Nat.not_lt_zero i), rfl,
      by decide⟩
  | n + 1, hn => (filled_spec n (Nat.le_of_succ_le hn)).set hn

end SparseClock

namespace ClockState

/-- The clocks 0 and 1 are the clock `c`, and clock 2 is a new clock of node 256. -/
def beside (c : SparseClock) : ClockState :=
  ⟨fun i => if i = 2 then SparseClock.init maxClockEntries else c,
    fun i => if i = 2 then 0 else c.value⟩

theorem agrees_beside {c : SparseClock} (hc : c.WellFormed) : (beside c).Agrees := by
  intro i
  unfold beside
  dsimp only
  split
  · exact ⟨SparseClock.wellFormed_init (by decide), rfl⟩
  · exact ⟨hc, rfl⟩

/-- Merging the clock of node 256 into a full clock. -/
def overflow : List ClockOp :=
  [.increment 2 true, .merge 0 true 2]

theorem run_overflow (c : SparseClock) :
    (run step (beside c) overflow).clock 0 = (c.merge true (SparseClock.ticked maxClockEntries)).1 ∧
      (run step (beside c) overflow).clock 1 = c ∧
      (run step (beside c) overflow).unbounded 0 =
        c.value ⊔ Function.update 0 maxClockEntries 1 ∧
      (run step (beside c) overflow).unbounded 1 = c.value :=
  ⟨rfl, rfl, rfl, rfl⟩

/-- The full clock is SATURATED afterwards, and found equal to what it was before. -/
theorem equal_overflow {c : SparseClock} (h : SparseClock.Filled c maxClockEntries) :
    ((run step (beside c) overflow).clock 0).saturated = true ∧
      ((run step (beside c) overflow).step (.compare 0 1)).2 = some .equal ∧
      (run step (beside c) overflow).unbounded 0 maxClockEntries = 1 ∧
      (run step (beside c) overflow).unbounded 1 maxClockEntries = 0 := by
  obtain ⟨hclock, hother, hunbounded, hunbounded'⟩ := run_overflow c
  have hlt : ∀ p < c.count,
      (c.entries p).nodeId < ((SparseClock.ticked maxClockEntries).entries 0).nodeId := by
    intro p hp
    rw [h.count] at hp
    rw [h.entries p hp]
    exact hp
  obtain ⟨-, hwf, hvalue, hnodes, hsaturated⟩ := SparseClock.merge_full h.wellFormed h.count
    (by decide : 0 < (SparseClock.ticked maxClockEntries).count) (by decide) hlt
  have hlost : c.value maxClockEntries = 0 := by
    refine SparseClock.value_of_not_mem ?_
    rw [SparseClock.mem_nodes]
    rintro ⟨p, hp, heq⟩
    rw [h.count] at hp
    rw [h.entries p hp] at heq
    exact absurd heq hp.ne
  have hcompares := SparseClock.compares_of_safePair hwf h.wellFormed (.inl (by rw [hnodes]))
  refine ⟨hclock ▸ hsaturated, ?_, ?_, ?_⟩
  · simp only [step, hclock, hother]
    rw [hcompares.tells.equal.2 hvalue]
  · rw [hunbounded, Pi.sup_apply, hlost, Function.update_self]
    rfl
  · rw [hunbounded', hlost]

/-- The clock with an entry for each of the nodes 0 to 255 loses the entry of node 256. -/
theorem not_conservative_overflow : (beside (SparseClock.filled maxClockEntries)).Agrees ∧
    ¬ ∀ c ∈ calls step (beside (SparseClock.filled maxClockEntries)) (overflow ++ [.compare 0 1]),
      ReportsSafely c := by
  have hfilled := SparseClock.filled_spec maxClockEntries le_rfl
  refine ⟨agrees_beside hfilled.wellFormed, fun h => ?_⟩
  obtain ⟨-, hreport, hone, hzero⟩ := equal_overflow hfilled
  rw [calls_concat] at h
  have hsafe := h _ (List.mem_append_right _ (List.mem_singleton_self _)) 0 1 .equal rfl hreport
  have heq := congrFun (hsafe.equal rfl) maxClockEntries
  rw [hone, hzero] at heq
  exact absurd heq (by decide)

end ClockState

end Seraph
