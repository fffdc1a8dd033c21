import Mathlib.Logic.Relation
import Seraph.Strands

/-!
# Deadlock detection

A strand waits for the one it joins and for the holder of the mutex it is blocked on.
`seraph_strand_would_deadlock` follows joins only, at most 256 of them, and looks one mutex ahead
from each strand on the way (`wouldDeadlock_iff`), so it is right where that finds every way from
the target to the waiter. `seraph_strand_mutex_acquire` only asks whether the holder joins the
caller. In runs whose calls are right about these, no strands wait for each other in a cycle
(`deadlock_detection`).
-/

namespace Seraph

open Relation

/-! ## Adding an edge to a graph -/

section graphs

variable {V : Type} {r r' : V → V → Prop}

/-- No vertex is on a cycle. -/
def AcyclicRel (r : V → V → Prop) : Prop :=
  ∀ v, ¬TransGen r v v

theorem AcyclicRel.mono (h : AcyclicRel r) (hsub : ∀ a b, r' a b → r a b) : AcyclicRel r' :=
  fun v hv => h v (TransGen.mono hsub v v hv)

/-- A way through a graph with one more edge, where that edge closes no cycle. -/
theorem transGen_of_newEdge {s t : V} (hnew : ∀ a b, r' a b → r a b ∨ a = s ∧ b = t)
    (hback : ¬ReflTransGen r t s) {x y : V} (h : TransGen r' x y) :
    TransGen r x y ∨ ReflTransGen r x s ∧ ReflTransGen r t y := by
  induction h with
  | single hstep =>
    rcases hnew _ _ hstep with hold | ⟨rfl, rfl⟩
    · exact Or.inl (.single hold)
    · exact Or.inr ⟨.refl, .refl⟩
  | tail _ hstep ih =>
    rcases hnew _ _ hstep with hold | ⟨rfl, rfl⟩
    · exact ih.imp (·.tail hold) fun h => ⟨h.1, h.2.tail hold⟩
    · rcases ih with h | h
      · exact Or.inr ⟨h.to_reflTransGen, .refl⟩
      · exact absurd h.2 hback

/-- An edge from `s` to `t` closes no cycle where there is no way from `t` to `s`. -/
theorem AcyclicRel.newEdge (h : AcyclicRel r) {s t : V}
    (hnew : ∀ a b, r' a b → r a b ∨ a = s ∧ b = t) (hback : ¬ReflTransGen r t s) :
    AcyclicRel r' := by
  intro v hv
  rcases transGen_of_newEdge hnew hback hv with hold | ⟨hvs, htv⟩
  · exact h v hold
  · exact hback (htv.trans hvs)

end graphs

namespace Strands

variable {S M : Type} (σ : Strands S M)

/-! ## The wait-for graph -/

/-- The holder of the mutex a strand is blocked on. -/
def blocker (s : S) : Option S :=
  (σ.strand s).blockedOnMutex.bind fun m => (σ.mutex m).holder

/-- A strand waits for the one it joins and the one that holds the mutex it is blocked on. -/
def WaitsFor (a b : S) : Prop :=
  (σ.strand a).waitingOn = some b ∨ σ.blocker a = some b

/-- There is a way from one strand to the other in the wait-for graph, maybe of no steps. -/
def Reaches : S → S → Prop :=
  ReflTransGen σ.WaitsFor

/-- No strand waits for itself, by any number of steps. -/
def Acyclic : Prop :=
  AcyclicRel σ.WaitsFor

/-- No strand waits. -/
def Unwaiting (σ : Strands S M) : Prop :=
  ∀ s, (σ.strand s).waitingOn = none ∧ (σ.strand s).blockedOnMutex = none

/-- No cycle, and a mutex that a strand is blocked on is held. -/
structure WaitInvariant (σ : Strands S M) : Prop where
  acyclic : σ.Acyclic
  held : ∀ s m, (σ.strand s).blockedOnMutex = some m → (σ.mutex m).holder ≠ none

/-- The strand `n` joins from a strand. -/
def joined : ℕ → S → Option S
  | 0, s => some s
  | n + 1, s => (σ.strand s).waitingOn.bind (joined n)

/-- Fewer than 256 joins from `target` is a strand that waits for `waiter`. -/
def ReachesDirectly (target waiter : S) : Prop :=
  ∃ n < strandCapTableSize, ∃ s, σ.joined n target = some s ∧ σ.WaitsFor s waiter

/-- `seraph_strand_would_deadlock` is TRUE where there is a way from the target to the waiter, and
only there. -/
def DetectsExactly [DecidableEq S] (waiter target : S) : Prop :=
  σ.wouldDeadlock (some waiter) (some target) = .true ↔ σ.Reaches target waiter

/-! ## What the walk finds -/

variable {σ}

theorem WaitInvariant.of_unwaiting (h : σ.Unwaiting) : σ.WaitInvariant := by
  have hnone : ∀ a b, ¬σ.WaitsFor a b := by
    intro a b hwaits
    simp [WaitsFor, blocker, (h a).1, (h a).2] at hwaits
  refine ⟨fun s hs => ?_, fun s m hm => ?_⟩
  · obtain ⟨_, hstep, -⟩ := TransGen.head'_iff.1 hs
    exact hnone _ _ hstep
  · rw [(h s).2] at hm
    cases hm

theorem reaches_of_joined {n : ℕ} {a b : S} (h : σ.joined n a = some b) : σ.Reaches a b := by
  induction n generalizing a with
  | zero => exact Option.some.inj h ▸ .refl
  | succ n ih =>
    obtain ⟨next, hnext, h⟩ := Option.bind_eq_some_iff.1 h
    exact .head (Or.inl hnext) (ih h)

theorem ReachesDirectly.reaches {target waiter : S} (h : σ.ReachesDirectly target waiter) :
    σ.Reaches target waiter := by
  obtain ⟨n, -, s, hs, hwaits⟩ := h
  exact (reaches_of_joined hs).tail hwaits

variable [DecidableEq S]

theorem deadlockWalk_iff {waiter : S} {depth : ℕ} {target : S} :
    σ.deadlockWalk waiter depth (some target) = true ↔
      ∃ n < depth, ∃ s, σ.joined n target = some s ∧ σ.WaitsFor s waiter := by
  induction depth generalizing target with
  | zero => simp [deadlockWalk]
  | succ depth ih =>
    by_cases hwaits : σ.WaitsFor target waiter
    · have hwalk : σ.deadlockWalk waiter (depth + 1) (some target) = true := by
        rw [deadlockWalk]
        rcases hwaits with hjoin | hblocked
        · rw [if_pos hjoin]
        · split
          · rfl
          · exact if_pos hblocked
      exact iff_of_true hwalk ⟨0, Nat.succ_pos _, target, rfl, hwaits⟩
    · obtain ⟨hjoin, hblocked⟩ := not_or.1 hwaits
      rw [blocker] at hblocked
      rw [deadlockWalk, if_neg hjoin, if_neg hblocked]
      cases hnext : (σ.strand target).waitingOn with
      | none =>
        refine iff_of_false (by cases depth <;> simp [deadlockWalk]) ?_
        rintro ⟨n, -, s, hs, hwaits'⟩
        cases n with
        | zero => exact hwaits (Option.some.inj hs ▸ hwaits')
        | succ n => simp [joined, hnext] at hs
      | some next =>
        rw [ih]
        constructor
        · rintro ⟨n, hn, s, hs, hwaits'⟩
          exact ⟨n + 1, Nat.succ_lt_succ hn, s, by rw [joined, hnext]; exact hs, hwaits'⟩
        · rintro ⟨n, hn, s, hs, hwaits'⟩
          cases n with
          | zero => exact absurd (Option.some.inj hs ▸ hwaits') hwaits
          | succ n =>
            rw [joined, hnext] at hs
            exact ⟨n, Nat.lt_of_succ_lt_succ hn, s, hs, hwaits'⟩

theorem wouldDeadlock_iff {waiter target : S} :
    σ.wouldDeadlock (some waiter) (some target) = .true ↔ σ.ReachesDirectly target waiter := by
  rw [ReachesDirectly, ← deadlockWalk_iff, wouldDeadlock]
  split <;> simp_all

theorem detectsExactly_iff {waiter target : S} :
    σ.DetectsExactly waiter target ↔
      (σ.Reaches target waiter → σ.ReachesDirectly target waiter) := by
  rw [DetectsExactly, wouldDeadlock_iff]
  exact ⟨fun h => h.2, fun h => ⟨ReachesDirectly.reaches, h⟩⟩

/-! ## Runs of joins and acquisitions -/

/-- A call that may wait, by the strand that is current. -/
inductive WaitOp (S M : Type) where
  | join (current : S) (strand : Option S)
  | acquire (current : S) (mutex : Option M) (destSlot : ℕ)

/-- A call, and what it returned. -/
def waitStep [DecidableEq M] (σ : Strands S M) : WaitOp S M → Strands S M × (StrandError ⊕ Capability)
  | .join current strand =>
    let r := (σ.setCurrent (some current)).join strand
    (r.1, .inl r.2.1)
  | .acquire current mutex destSlot =>
    let r := (σ.setCurrent (some current)).mutexAcquire mutex destSlot
    (r.1, .inr r.2)

/-- The call is told if it would close a cycle : where there is a way back from the target of a join
to the caller, the walk finds it, and where there is one from the holder of a mutex, the holder joins
the caller. -/
def Told (σ : Strands S M) : WaitOp S M → Prop
  | .join current (some target) => (σ.strand target).state ≠ .terminated →
    σ.Reaches target current → σ.ReachesDirectly target current
  | .acquire current (some m) destSlot => destSlot < strandCapTableSize →
    ∀ holder, (σ.mutex m).holder = some holder → σ.Reaches holder current →
      (σ.strand holder).waitingOn = some current
  | _ => True

omit [DecidableEq S] in
theorem joined_setCurrent {current : Option S} (n : ℕ) (s : S) :
    (σ.setCurrent current).joined n s = σ.joined n s := by
  induction n generalizing s with
  | zero => rfl
  | succ n ih => exact Option.bind_congr fun next _ => ih next

omit [DecidableEq S] in
theorem waitInvariant_setCurrent {current : Option S} :
    (σ.setCurrent current).WaitInvariant ↔ σ.WaitInvariant :=
  ⟨fun h => ⟨h.acyclic, h.held⟩, fun h => ⟨h.acyclic, h.held⟩⟩

/-- A join that is told of its cycle closes none. -/
theorem join_invariant {current target : S} (h : σ.WaitInvariant)
    (hcurrent : σ.current = some current)
    (htold : (σ.strand target).state ≠ .terminated → σ.Reaches target current →
      σ.ReachesDirectly target current) :
    (σ.join (some target)).1.WaitInvariant := by
  simp only [join, hcurrent]
  split
  · exact h
  · rename_i hended
    split
    · exact h
    · rename_i hdeadlock
      rw [wouldDeadlock_iff] at hdeadlock
      refine ⟨h.acyclic.newEdge (s := current) (t := target) ?_ ?_, ?_⟩
      · intro a b hab
        by_cases ha : a = current
        · rcases hab with hjoin | hblocked
          · right
            simpa [ha, eq_comm] using hjoin
          · left; right
            simpa [blocker, ha] using hblocked
        · left
          simpa [WaitsFor, blocker, ha] using hab
      · exact fun hback => hdeadlock (htold hended hback)
      · intro s m hm
        refine h.held s m ?_
        by_cases hs : s = current <;> simpa [hs] using hm

variable [DecidableEq M]

/-- Taking a free mutex adds no edge, since nobody is blocked on it. -/
theorem take_invariant {m : M} {current : S} {slot : ℕ} (h : σ.WaitInvariant)
    (hfree : (σ.mutex m).holder = none) : (σ.take m current slot).WaitInvariant := by
  have hwaiting : ∀ s, ((σ.take m current slot).strand s).waitingOn = (σ.strand s).waitingOn := by
    intro s
    by_cases hs : s = current <;>
      simp [take, hs, StrandRecord.setEntry, StrandRecord.countUp]
  have hblocked : ∀ s, ((σ.take m current slot).strand s).blockedOnMutex =
      (σ.strand s).blockedOnMutex := by
    intro s
    by_cases hs : s = current <;>
      simp [take, hs, StrandRecord.setEntry, StrandRecord.countUp]
  have hholder : ∀ s n, (σ.strand s).blockedOnMutex = some n →
      ((σ.take m current slot).mutex n).holder = (σ.mutex n).holder := by
    intro s n hn
    have hne : n ≠ m := fun heq => h.held s n hn (heq ▸ hfree)
    simp [take, hne]
  refine ⟨h.acyclic.mono fun a b hab => ?_, fun s n hn => ?_⟩
  · rcases hab with hjoin | hmutex
    · exact Or.inl (hwaiting a ▸ hjoin)
    · right
      rw [blocker, hblocked] at hmutex
      obtain ⟨n, hn, hheld⟩ := Option.bind_eq_some_iff.1 hmutex
      exact Option.bind_eq_some_iff.2 ⟨n, hn, hholder a n hn ▸ hheld⟩
  · rw [hblocked] at hn
    rw [hholder s n hn]
    exact h.held s n hn

/-- An acquisition that is told of its cycle closes none. -/
theorem mutexAcquire_invariant {current : S} {m : M} {destSlot : ℕ} (h : σ.WaitInvariant)
    (hcurrent : σ.current = some current)
    (htold : destSlot < strandCapTableSize → ∀ holder, (σ.mutex m).holder = some holder →
      σ.Reaches holder current → (σ.strand holder).waitingOn = some current) :
    (σ.mutexAcquire (some m) destSlot).1.WaitInvariant := by
  simp only [mutexAcquire, hcurrent]
  split
  · exact h
  · rename_i hslot
    split
    · rename_i hfree
      exact take_invariant h hfree
    · rename_i holder hheld
      split
      · exact h
      · rename_i hdirect
        have hback : ¬σ.Reaches holder current := fun hback =>
          hdirect (htold (not_le.1 hslot) holder hheld hback)
        have hholder : ∀ n, ((σ.modifyMutex m fun mutex =>
            { mutex with
              contentions := u64 (mutex.contentions + 1)
              waitQueue := some current }).mutex n).holder = (σ.mutex n).holder := by
          intro n
          by_cases hn : n = m <;> simp [hn]
        refine ⟨h.acyclic.newEdge (s := current) (t := holder) ?_ hback, ?_⟩
        · intro a b hab
          by_cases ha : a = current
          · rcases hab with hjoin | hblocked
            · left; left
              simpa [ha] using hjoin
            · right
              simpa [blocker, ha, hheld, eq_comm] using hblocked
          · left
            rcases hab with hjoin | hblocked
            · left
              simpa [ha] using hjoin
            · right
              simpa only [blocker, strand_modify, if_neg ha, mutex_modify, hholder,
                strand_modifyMutex] using hblocked
        · intro s n hn
          rw [mutex_modify, hholder]
          by_cases hs : s = current
          · simp only [strand_modify, hs, if_true, Option.some.injEq] at hn
            rw [← hn, hheld]
            exact Option.some_ne_none _
          · rw [strand_modify, if_neg hs] at hn
            exact h.held s n hn

/-- A call that is told of its cycle closes none. -/
theorem waitStep_invariant {a : WaitOp S M} (h : σ.WaitInvariant) (hok : Told σ a) :
    (waitStep σ a).1.WaitInvariant := by
  cases a with
  | join current strand =>
    cases strand with
    | none => exact waitInvariant_setCurrent.2 h
    | some target =>
      refine join_invariant (waitInvariant_setCurrent.2 h) rfl fun hended hback => ?_
      obtain ⟨n, hn, s, hs, hwaits⟩ := hok hended hback
      exact ⟨n, hn, s, by rw [joined_setCurrent, hs], hwaits⟩
  | acquire current mutex destSlot =>
    cases mutex with
    | none => exact waitInvariant_setCurrent.2 h
    | some m => exact mutexAcquire_invariant (waitInvariant_setCurrent.2 h) rfl hok

/-- The check is exact where the walk finds every way there is, and runs all of whose calls are
told of their cycle close none. -/
theorem deadlock_detection :
    (∀ (σ : Strands S M) (waiter target : S), σ.DetectsExactly waiter target ↔
      (σ.Reaches target waiter → σ.ReachesDirectly target waiter)) ∧
    ∀ (σ : Strands S M) (ops : List (WaitOp S M)), σ.Unwaiting →
      Runs.Guarded waitStep Told σ ops → (Runs.run waitStep σ ops).Acyclic := by
  refine ⟨fun σ waiter target => detectsExactly_iff, fun σ ops hidle hguarded => ?_⟩
  have h := Runs.guarded_invariant (I := WaitInvariant) (fun _ _ => waitStep_invariant)
    (.of_unwaiting hidle) hguarded
  exact h.acyclic

/-- Two strands and two mutexes, and nobody waits. -/
def idle : Strands Bool Bool where
  strand := fun s => .create s.toNat
  mutex := fun m => mutexInit (if m then 48 else 24) 1
  current := none

/-- Each strand takes a mutex and then asks for that of the other. -/
def crossed : List (WaitOp Bool Bool) :=
  [.acquire false (some false) 0, .acquire true (some true) 0, .acquire false (some true) 1,
    .acquire true (some false) 1]

/-- Each strand takes a mutex, and one asks for that of the other. -/
theorem deadlock_detection_idle :
    idle.Unwaiting ∧ (Runs.run waitStep idle (crossed.take 3)).Acyclic := by
  have hidle : idle.Unwaiting := fun s => ⟨rfl, rfl⟩
  refine ⟨hidle, deadlock_detection.2 idle _ hidle ?_⟩
  refine ⟨fun _ holder hheld => ?_, fun _ holder hheld => ?_, fun _ holder hheld hback => ?_,
    trivial⟩
  · cases hheld
  · cases hheld
  · obtain rfl : holder = true := (Option.some.inj hheld).symm
    rcases ReflTransGen.cases_head hback with hself | ⟨s, hjoin | hblocked, -⟩
    · cases hself
    · cases hjoin
    · cases hblocked

/-- Nobody tells the strands that cross that they wait for each other, nor one that asks to join
itself. -/
theorem not_acyclic_crossed :
    idle.Unwaiting ∧ ¬(Runs.run waitStep idle crossed).Acyclic ∧ ¬idle.DetectsExactly false false := by
  refine ⟨fun s => ⟨rfl, rfl⟩, fun h => ?_, fun h => ?_⟩
  · refine h false (.tail (.single (b := true) ?_) ?_)
    · exact Or.inr (by decide)
    · exact Or.inr (by decide)
  · have hwalk := h.2 .refl
    revert hwalk
    decide

end Strands

end Seraph
