import Mathlib.Data.List.Induction
import Mathlib.Data.List.Nodup
import Mathlib.Data.List.Perm.Subperm
import Mathlib.Logic.Relation
import Seraph.CelestialRun
import Seraph.Loops

/-!
# Dead code elimination

`celestial_eliminate_dead_code` collects the values that instructions with side effects need in a
set of 4096 places. As long as these values fit, the set holds exactly them (`mem_liveSet_iff`), and
an instruction is removed if it has a result that is not in the set (`foldl_eliminateFunction`).
-/

namespace Seraph

open Loops Relation

/-- The places of the live set. -/
def liveCapacity : ℕ := 4096

namespace CirModule

variable (m : CirModule) (fn : CirFunction)

/-- `has_side_effects`. -/
def hasSideEffects (i : InstrPtr) : Bool :=
  (m.instrs i).effects != 0 || (m.instrs i).opcode.hasSideEffects

/-- `mark_live`. -/
def markLive (live : List ValuePtr) (val : Option ValuePtr) : List ValuePtr :=
  match val with
  | none => live
  | some v =>
    if (m.values v).kind = .const then live
    else if v ∈ live then live
    else if live.length < liveCapacity then live ++ [v]
    else live

/-- Mark the operands of an instruction. -/
def markOperands (live : List ValuePtr) (i : InstrPtr) : List ValuePtr :=
  (m.instrs i).operands.foldl m.markLive live

/-- A step of the first pass. -/
def markInstr (live : List ValuePtr) (i : InstrPtr) : List ValuePtr :=
  if (m.instrs i).opcode = .nop then live
  else if m.hasSideEffects i then m.markOperands live i
  else live

/-- A step of the second pass. -/
def propagateInstr (live : List ValuePtr) (i : InstrPtr) : List ValuePtr :=
  if (m.instrs i).opcode = .nop then live
  else
    match (m.instrs i).result with
    | none => live
    | some v => if v ∈ live then m.markOperands live i else live

/-- A round of the second pass, until nothing changes. -/
def propagate (live : List ValuePtr) : Option (List ValuePtr) :=
  let next := fn.instrs.foldl m.propagateInstr live
  if next.length > live.length then some next else none

/-- The live set after both passes. -/
def liveSet : List ValuePtr :=
  loop (m.propagate fn) (liveCapacity + 1) (fn.instrs.foldl m.markInstr [])

/-- A step of the third pass. -/
def eliminateInstr (live : List ValuePtr) (m : CirModule) (i : InstrPtr) : CirModule :=
  if (m.instrs i).opcode = .nop then m
  else
    match (m.instrs i).result with
    | none => m
    | some v => if m.hasSideEffects i ∨ v ∈ live then m else m.setOpcode i .nop

/-- `celestial_eliminate_dead_code` on one function. -/
def eliminateFunction : CirModule :=
  fn.instrs.foldl (eliminateInstr (m.liveSet fn)) m

/-- `celestial_eliminate_dead_code`. -/
def eliminateDeadCode : CirModule :=
  m.functions.foldl eliminateFunction m

/-! ## What is needed -/

/-- The values that instructions with side effects need, at first hand or not. -/
inductive Needed : ValuePtr → Prop
  | effect {i : InstrPtr} {v : ValuePtr} : i ∈ fn.instrs → (m.instrs i).opcode ≠ .nop →
    m.hasSideEffects i = true → some v ∈ (m.instrs i).operands → (m.values v).kind ≠ .const →
    Needed v
  | result {i : InstrPtr} {r v : ValuePtr} : i ∈ fn.instrs → (m.instrs i).opcode ≠ .nop →
    (m.instrs i).result = some r → Needed r → some v ∈ (m.instrs i).operands →
    (m.values v).kind ≠ .const → Needed v

/-- The values that are needed have room in the live set. -/
def NeededFit : Prop :=
  ∃ l : List ValuePtr, l.length ≤ liveCapacity ∧ ∀ v, m.Needed fn v → v ∈ l

/-- The live set holds needed values, each once. -/
structure Live (live : List ValuePtr) : Prop where
  nodup : live.Nodup
  needed : ∀ v ∈ live, m.Needed fn v
  length_le : live.length ≤ liveCapacity

variable {m fn} {live : List ValuePtr} {i : InstrPtr} {v : ValuePtr} {os : List (Option ValuePtr)}

theorem Live.nil : m.Live fn [] :=
  ⟨List.nodup_nil, fun _ hv => absurd hv List.not_mem_nil, Nat.zero_le _⟩

/-- The operands of an instruction are marked. -/
def Marks (m : CirModule) (live : List ValuePtr) (i : InstrPtr) : Prop :=
  ∀ v, some v ∈ (m.instrs i).operands → (m.values v).kind ≠ .const → v ∈ live

/-! ## One step -/

theorem markLive_extends (live : List ValuePtr) (o : Option ValuePtr) :
    live <+: m.markLive live o := by
  unfold markLive
  split
  · exact List.prefix_rfl
  · split_ifs
    · exact List.prefix_rfl
    · exact List.prefix_rfl
    · exact List.prefix_append _ _
    · exact List.prefix_rfl

/-- A loop that only adds to the set. -/
theorem foldl_extends {A : Type} {g : List ValuePtr → A → List ValuePtr}
    (hg : ∀ live a, live <+: g live a) (as : List A) (live : List ValuePtr) :
    live <+: as.foldl g live :=
  foldl_rel (f := id) (r := (· <+: ·)) (fun _ => List.prefix_rfl)
    (fun _ _ _ h h' => h.trans h') hg as live

/-- Where such a loop adds nothing, no step of it does. -/
theorem eq_of_foldl_eq {A : Type} {g : List ValuePtr → A → List ValuePtr}
    (hg : ∀ live a, live <+: g live a) {as : List A} (h : as.foldl g live = live) {a : A}
    (ha : a ∈ as) : g live a = live := by
  induction as with
  | nil => cases ha
  | cons b as ih =>
    have hlast : g live b <+: live := by
      have hrest := foldl_extends hg as (g live b)
      rwa [← List.foldl_cons, h] at hrest
    have hb : g live b = live := hlast.eq_of_length_le (hg live b).length_le
    rw [List.foldl_cons, hb] at h
    rcases List.mem_cons.1 ha with rfl | ha
    · exact hb
    · exact ih h ha

theorem Live.markLive (h : m.Live fn live)
    (hv : (m.values v).kind ≠ .const → m.Needed fn v) : m.Live fn (m.markLive live (some v)) := by
  unfold CirModule.markLive
  dsimp only
  split_ifs with hconst hmem hroom
  · exact h
  · exact h
  · refine ⟨List.nodup_append.2 ⟨h.nodup, List.nodup_singleton v, fun a ha b hb heq => hmem ?_⟩,
      fun w hw => ?_, ?_⟩
    · rwa [← List.mem_singleton.1 hb, ← heq]
    · rcases List.mem_append.1 hw with hw | hw
      · exact h.needed w hw
      · rw [List.mem_singleton.1 hw]
        exact hv hconst
    · rw [List.length_append, List.length_singleton]
      exact hroom
  · exact h

/-- Where the needed values have room, a value that is marked is in the set. -/
theorem Live.mem_markLive (h : m.Live fn live) (hfit : m.NeededFit fn)
    (hconst : (m.values v).kind ≠ .const) (hv : m.Needed fn v) :
    v ∈ m.markLive live (some v) := by
  unfold CirModule.markLive
  dsimp only
  rw [if_neg hconst]
  split_ifs with hmem hroom
  · exact hmem
  · exact List.mem_append_right _ (List.mem_singleton_self v)
  · obtain ⟨l, hl, hall⟩ := hfit
    have hsub : v :: live ⊆ l := List.cons_subset.2 ⟨hall v hv, fun w hw => hall w (h.needed w hw)⟩
    have hlen := ((List.nodup_cons.2 ⟨hmem, h.nodup⟩).subperm hsub).length_le
    rw [List.length_cons] at hlen
    omega

/-- Operands that are needed are all marked. -/
theorem Live.foldl_markLive (h : m.Live fn live)
    (hos : ∀ v, some v ∈ os → (m.values v).kind ≠ .const → m.Needed fn v) :
    m.Live fn (os.foldl m.markLive live) ∧
      (m.NeededFit fn → ∀ v, some v ∈ os → (m.values v).kind ≠ .const →
        v ∈ os.foldl m.markLive live) := by
  induction os generalizing live with
  | nil => exact ⟨h, fun _ _ hv => absurd hv List.not_mem_nil⟩
  | cons o os ih =>
    have hlive : m.Live fn (m.markLive live o) := by
      cases o with
      | none => exact h
      | some v => exact h.markLive (hos v List.mem_cons_self)
    obtain ⟨hlive', hmem⟩ := ih hlive fun v hv => hos v (List.mem_cons_of_mem o hv)
    refine ⟨hlive', fun hfit v hv hconst => ?_⟩
    rcases List.mem_cons.1 hv with rfl | hv
    · exact (foldl_extends markLive_extends os _).subset
        (h.mem_markLive hfit hconst (hos v List.mem_cons_self hconst))
    · exact hmem hfit v hv hconst

theorem markInstr_extends (live : List ValuePtr) (i : InstrPtr) : live <+: m.markInstr live i := by
  unfold markInstr
  split_ifs
  · exact List.prefix_rfl
  · exact foldl_extends markLive_extends _ _
  · exact List.prefix_rfl

theorem propagateInstr_extends (live : List ValuePtr) (i : InstrPtr) :
    live <+: m.propagateInstr live i := by
  unfold propagateInstr
  split
  · exact List.prefix_rfl
  · split
    · exact List.prefix_rfl
    · split_ifs
      · exact foldl_extends markLive_extends _ _
      · exact List.prefix_rfl

theorem Live.markInstr (h : m.Live fn live) (hi : i ∈ fn.instrs) :
    m.Live fn (m.markInstr live i) ∧ (m.NeededFit fn → (m.instrs i).opcode ≠ .nop →
      m.hasSideEffects i = true → m.Marks (m.markInstr live i) i) := by
  unfold CirModule.markInstr
  split_ifs with hnop heffect
  · exact ⟨h, fun _ hne => absurd hnop hne⟩
  · obtain ⟨hlive, hmem⟩ := h.foldl_markLive fun v hv hconst =>
      .effect hi hnop heffect hv hconst
    exact ⟨hlive, fun hfit _ _ => hmem hfit⟩
  · exact ⟨h, fun _ _ heff => absurd heff heffect⟩

theorem Live.propagateInstr (h : m.Live fn live) (hi : i ∈ fn.instrs) :
    m.Live fn (m.propagateInstr live i) ∧ (m.NeededFit fn → (m.instrs i).opcode ≠ .nop →
      ∀ r, (m.instrs i).result = some r → r ∈ live → m.Marks (m.propagateInstr live i) i) := by
  unfold CirModule.propagateInstr
  split
  · next hnop => exact ⟨h, fun _ hne => absurd hnop hne⟩
  · next hnop =>
    split
    · next hnone => exact ⟨h, fun _ _ r hr => by rw [hnone] at hr; cases hr⟩
    · next v hv =>
      split_ifs with hmem
      · obtain ⟨hlive, hmark⟩ := h.foldl_markLive fun w hw hconst =>
          .result hi hnop hv (h.needed v hmem) hw hconst
        exact ⟨hlive, fun hfit _ _ _ _ => hmark hfit⟩
      · refine ⟨h, fun _ _ r hr hr' => absurd ?_ hmem⟩
        rw [hv] at hr
        cases hr
        exact hr'

/-! ## The live set -/

theorem Live.foldl {g : List ValuePtr → InstrPtr → List ValuePtr}
    (hg : ∀ live i, m.Live fn live → i ∈ fn.instrs → m.Live fn (g live i)) {is : List InstrPtr}
    (his : ∀ i ∈ is, i ∈ fn.instrs) (h : m.Live fn live) : m.Live fn (is.foldl g live) := by
  induction is generalizing live with
  | nil => exact h
  | cons i is ih =>
    exact ih (fun j hj => his j (List.mem_cons_of_mem i hj))
      (hg live i h (his i List.mem_cons_self))

/-- The first pass marks the operands of the instructions with side effects. -/
theorem marks_foldl_markInstr {is : List InstrPtr} (hfit : m.NeededFit fn)
    (his : ∀ i ∈ is, i ∈ fn.instrs) (h : m.Live fn live) (hi : i ∈ is)
    (hnop : (m.instrs i).opcode ≠ .nop) (heffect : m.hasSideEffects i = true) :
    m.Marks (is.foldl m.markInstr live) i := by
  induction is generalizing live with
  | nil => cases hi
  | cons j is ih =>
    have hj := his j List.mem_cons_self
    rcases List.mem_cons.1 hi with rfl | hi
    · exact fun v hv hconst => (foldl_extends markInstr_extends is _).subset
        ((h.markInstr hj).2 hfit hnop heffect v hv hconst)
    · exact ih (fun k hk => his k (List.mem_cons_of_mem j hk)) (h.markInstr hj).1 hi

variable (m fn)

/-- The live set is made of needed values, the second pass adds nothing to it, and it holds what the
first pass found. -/
theorem live_liveSet : m.Live fn (m.liveSet fn) ∧
    fn.instrs.foldl m.propagateInstr (m.liveSet fn) = m.liveSet fn ∧
    fn.instrs.foldl m.markInstr [] <+: m.liveSet fn := by
  have hstart : m.Live fn (fn.instrs.foldl m.markInstr []) :=
    Live.nil.foldl (fun _ _ h hi => (h.markInstr hi).1) fun _ hi => hi
  have hkeep : ∀ live next, (m.Live fn live ∧ fn.instrs.foldl m.markInstr [] <+: live) →
      m.propagate fn live = some next →
      (m.Live fn next ∧ fn.instrs.foldl m.markInstr [] <+: next) ∧
        liveCapacity - next.length < liveCapacity - live.length := by
    intro live next hlive hround
    unfold propagate at hround
    dsimp only at hround
    split at hround
    · next hlong =>
      cases hround
      have hnext := hlive.1.foldl (fun _ _ h hi => (h.propagateInstr hi).1) fun _ hi => hi
      have hle := hnext.length_le
      exact ⟨⟨hnext, hlive.2.trans (foldl_extends propagateInstr_extends _ _)⟩, by omega⟩
    · cases hround
  have hfuel : liveCapacity - (fn.instrs.foldl m.markInstr []).length < liveCapacity + 1 := by
    omega
  obtain ⟨⟨hlive, hpre⟩, -, hdone⟩ := loop_spec hkeep ⟨hstart, List.prefix_rfl⟩ hfuel
  refine ⟨hlive, ?_, hpre⟩
  have hextends := foldl_extends (m.propagateInstr_extends) fn.instrs (m.liveSet fn)
  refine (hextends.eq_of_length_le ?_).symm
  by_contra hlong
  have hsome : m.propagate fn (m.liveSet fn) =
      some (fn.instrs.foldl m.propagateInstr (m.liveSet fn)) := if_pos (Nat.lt_of_not_le hlong)
  rw [liveSet, hdone] at hsome
  cases hsome

variable {m fn}

/-- Where the needed values have room, the live set holds exactly them. -/
theorem mem_liveSet_iff (hfit : m.NeededFit fn) : v ∈ m.liveSet fn ↔ m.Needed fn v := by
  obtain ⟨hlive, hfix, hfirst⟩ := live_liveSet m fn
  refine ⟨hlive.needed v, fun hv => ?_⟩
  induction hv with
  | effect hi hnop heffect hv hconst =>
    exact hfirst.subset
      (marks_foldl_markInstr hfit (fun _ hi => hi) Live.nil hi hnop heffect _ hv hconst)
  | result hi hnop hr _ hv hconst ih =>
    have hmarks := (hlive.propagateInstr hi).2 hfit hnop _ hr ih
    rw [eq_of_foldl_eq propagateInstr_extends hfix hi] at hmarks
    exact hmarks _ hv hconst

/-! ## What is removed -/

/-- What the third pass removes. -/
def Removable (m : CirModule) (live : List ValuePtr) (i : InstrPtr) : Prop :=
  (m.instrs i).opcode ≠ .nop ∧ m.hasSideEffects i = false ∧
    ∃ v, (m.instrs i).result = some v ∧ v ∉ live

/-- Each instruction of a list is removed, or is as it was. -/
structure Cleaned (m : CirModule) (live : List ValuePtr) (is : List InstrPtr) (m' : CirModule) :
    Prop where
  values : m'.values = m.values
  removed : ∀ i ∈ is, m.Removable live i → m'.instrs i = { m.instrs i with opcode := .nop }
  kept : ∀ i, ¬(i ∈ is ∧ m.Removable live i) → m'.instrs i = m.instrs i

variable {m' : CirModule} {is : List InstrPtr} {fs : List CirFunction}

theorem eliminateInstr_of_removable (h : m.Removable live i) :
    eliminateInstr live m i = m.setOpcode i .nop := by
  obtain ⟨hnop, heffect, v, hv, hlive⟩ := h
  unfold eliminateInstr
  rw [if_neg hnop, hv]
  exact if_neg fun hor => hor.elim (fun heff => by rw [heff] at heffect; cases heffect) hlive

theorem eliminateInstr_of_not_removable (h : ¬m.Removable live i) :
    eliminateInstr live m i = m := by
  unfold eliminateInstr
  split
  · rfl
  · next hnop =>
    split
    · rfl
    · next v hv =>
      refine if_pos ?_
      by_contra hor
      rw [not_or] at hor
      exact h ⟨hnop, Bool.eq_false_iff.2 hor.1, v, hv, hor.2⟩

theorem removable_congr (h : m'.instrs i = m.instrs i) :
    m'.Removable live i ↔ m.Removable live i := by
  unfold Removable hasSideEffects
  rw [h]

/-- The third pass over a list of instructions. -/
theorem cleaned_foldl (m : CirModule) (live : List ValuePtr) (is : List InstrPtr) :
    Cleaned m live is (is.foldl (eliminateInstr live) m) := by
  induction is using List.reverseRecOn with
  | nil => exact ⟨rfl, fun _ hi => absurd hi List.not_mem_nil, fun _ _ => rfl⟩
  | append_singleton is j ih =>
    rw [List.foldl_append, List.foldl_cons, List.foldl_nil]
    generalize is.foldl (eliminateInstr live) m = m' at ih ⊢
    by_cases hj : m'.Removable live j
    · -- the instruction has not been met before
      have hfresh : ¬(j ∈ is ∧ m.Removable live j) := fun ⟨hmem, hrem⟩ => by
        have hnop := hj.1
        rw [ih.removed j hmem hrem] at hnop
        exact hnop rfl
      have hsame := ih.kept j hfresh
      rw [eliminateInstr_of_removable hj]
      refine ⟨ih.values, fun i hi hrem => ?_, fun i hi => ?_⟩
      · rcases eq_or_ne i j with rfl | hne
        · rw [setOpcode_self, hsame]
        · rw [setOpcode_of_ne hne]
          refine ih.removed i ((List.mem_append.1 hi).resolve_right fun hmem => ?_) hrem
          exact hne (List.mem_singleton.1 hmem)
      · rcases eq_or_ne i j with rfl | hne
        · refine absurd ⟨List.mem_append_right _ (List.mem_singleton_self i), ?_⟩ hi
          exact (removable_congr hsame).1 hj
        · rw [setOpcode_of_ne hne]
          exact ih.kept i fun ⟨hmem, hrem⟩ => hi ⟨List.mem_append_left _ hmem, hrem⟩
    · rw [eliminateInstr_of_not_removable hj]
      refine ⟨ih.values, fun i hi hrem => ?_, fun i hi => ?_⟩
      · by_cases hmem : i ∈ is
        · exact ih.removed i hmem hrem
        · obtain rfl : i = j := List.mem_singleton.1 ((List.mem_append.1 hi).resolve_left hmem)
          exact absurd ((removable_congr (ih.kept i fun h => hmem h.1)).2 hrem) hj
      · exact ih.kept i fun ⟨hmem, hrem⟩ => hi ⟨List.mem_append_left _ hmem, hrem⟩

/-- The live set depends on the instructions of the function only. -/
theorem liveSet_congr (hvalues : m'.values = m.values)
    (h : ∀ i ∈ fn.instrs, m'.instrs i = m.instrs i) : m'.liveSet fn = m.liveSet fn := by
  have hmark : m'.markLive = m.markLive := by
    funext live val
    unfold markLive
    rw [hvalues]
  have hround : m'.propagate fn = m.propagate fn := by
    funext live
    unfold propagate
    rw [List.foldl_ext _ _ live fun live i hi => ?_]
    unfold propagateInstr markOperands
    rw [h i hi, hmark]
  unfold liveSet
  rw [hround, List.foldl_ext _ _ [] fun live i hi => ?_]
  unfold markInstr markOperands hasSideEffects
  rw [h i hi, hmark]

/-- Functions one after the other, where no two share an instruction. -/
theorem foldl_eliminateFunction
    (hfs : fs.Pairwise fun f g => ∀ i ∈ f.instrs, i ∉ g.instrs) (m : CirModule) :
    (fs.foldl eliminateFunction m).values = m.values ∧
      (∀ i, (∀ f ∈ fs, i ∉ f.instrs) → (fs.foldl eliminateFunction m).instrs i = m.instrs i) ∧
      ∀ f ∈ fs, ∀ i ∈ f.instrs,
        (m.Removable (m.liveSet f) i →
          (fs.foldl eliminateFunction m).instrs i = { m.instrs i with opcode := .nop }) ∧
        (¬m.Removable (m.liveSet f) i →
          (fs.foldl eliminateFunction m).instrs i = m.instrs i) := by
  induction fs generalizing m with
  | nil => exact ⟨rfl, fun _ _ => rfl, fun _ hf => absurd hf List.not_mem_nil⟩
  | cons g fs ih =>
    obtain ⟨hg, hfs⟩ := List.pairwise_cons.1 hfs
    have hclean : Cleaned m (m.liveSet g) g.instrs (m.eliminateFunction g) := cleaned_foldl ..
    obtain ⟨hvalues, hother, hrest⟩ := ih hfs (m.eliminateFunction g)
    rw [List.foldl_cons]
    refine ⟨hvalues.trans hclean.values, fun i hi => ?_, fun f hf i hi => ?_⟩
    · rw [hother i fun f hf => hi f (List.mem_cons_of_mem g hf)]
      exact hclean.kept i fun h => hi g List.mem_cons_self h.1
    · rcases List.mem_cons.1 hf with rfl | hf
      · rw [hother i fun g hg' => hg g hg' i hi]
        exact ⟨hclean.removed i hi, fun hrem => hclean.kept i fun h => hrem h.2⟩
      · have hsame : ∀ j ∈ f.instrs, (m.eliminateFunction g).instrs j = m.instrs j := fun j hj =>
          hclean.kept j fun h => hg f hf j h.1 hj
        have hi' := hrest f hf i hi
        rwa [liveSet_congr hclean.values hsame, removable_congr (hsame i hi), hsame i hi] at hi'

end CirModule

end Seraph
