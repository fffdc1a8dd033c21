import Seraph.Runs
import Seraph.Scheduler

/-!
# Priority inheritance

A lend of a strand of higher priority raises the base priority of the receiver, too, so that the
return finds nothing to restore. In a run of lends and returns priorities are restored, and never
below those of the lenders, if and only if nothing was raised or restored at all (`undone_iff`).
-/

namespace Seraph

open Runs

/-- Both priorities of a strand. -/
def Scheduler.priorities (s : Scheduler) (strand : StrandPtr) : ℕ × ℕ :=
  ((s.strands strand).priority, (s.strands strand).basePriority)

/-- The lends that have not been returned after one more call, with their receivers. -/
def noteLend (lends : List (StrandPtr × StrandPtr)) : SchedOp → List (StrandPtr × StrandPtr)
  | .ipcLend lender receiver => (lender, receiver) :: lends
  | .ipcReturn lender receiver => lends.erase (lender, receiver)
  | _ => lends

/-- The lends of a run that have not been returned. -/
def outstanding (ops : List SchedOp) : List (StrandPtr × StrandPtr) :=
  ops.foldl noteLend []

/-- A call that is neither a lend nor a return changes no priority. -/
def QuietOp (s : Scheduler) (op : SchedOp) : Prop :=
  (∀ lender receiver, op ≠ .ipcLend lender receiver ∧ op ≠ .ipcReturn lender receiver) →
    (op.step s).1.priorities = s.priorities

/-- A receiver has at least the priority of its lenders, and the priorities that it had before if
there are none. -/
def Inherits (s₀ s : Scheduler) (lends : List (StrandPtr × StrandPtr)) : Prop :=
  (∀ p ∈ lends, (s.strands p.1).priority ≤ (s.strands p.2).priority) ∧
    ∀ receiver, (∀ p ∈ lends, p.2 ≠ receiver) → s.priorities receiver = s₀.priorities receiver

/-- Priority inheritance at all times of a run. -/
def Undone (s : Scheduler) (ops : List SchedOp) : Prop :=
  ∀ before, before <+: ops → Inherits s (run SchedOp.step s before) (outstanding before)

/-- No lend raises a priority, and no return restores one. -/
def NoneRaised (s : Scheduler) (ops : List SchedOp) : Prop :=
  (∀ lender receiver, .ipcLend lender receiver ∈ ops →
      (s.strands lender).priority ≤ (s.strands receiver).priority) ∧
    ∀ lender receiver, .ipcReturn lender receiver ∈ ops →
      (s.strands receiver).basePriority < priorityMax →
      (s.strands receiver).priority = (s.strands receiver).basePriority

namespace Scheduler

variable {s : Scheduler}

/-! ## Calls and priorities -/

theorem priority_congr {t : Scheduler} (h : t.priorities = s.priorities) (strand : StrandPtr) :
    (t.strands strand).priority = (s.strands strand).priority ∧
      (t.strands strand).basePriority = (s.strands strand).basePriority :=
  Prod.mk.injEq .. ▸ congrFun h strand

theorem priorities_modify (strand : StrandPtr) {f : Strand → Strand}
    (hf : ∀ t, (f t).priority = t.priority ∧ (f t).basePriority = t.basePriority) :
    (s.modify strand f).priorities = s.priorities := by
  funext x
  unfold priorities
  by_cases hx : x = strand
  · rw [hx, modify_self, (hf _).1, (hf _).2]
  · rw [modify_of_ne _ hx]

theorem priorities_setNext (strand : StrandPtr) (next : Option StrandPtr) :
    (s.setNext strand next).priorities = s.priorities :=
  priorities_modify strand fun _ => ⟨rfl, rfl⟩

theorem priorities_setState (strand : StrandPtr) (state : StrandState) :
    (s.setState strand state).priorities = s.priorities :=
  priorities_modify strand fun _ => ⟨rfl, rfl⟩

theorem priorities_runqueueAdd (priority : ℕ) (strand : StrandPtr) :
    (s.runqueueAdd priority strand).priorities = s.priorities := by
  unfold runqueueAdd
  dsimp only
  split
  · exact (priorities_setNext _ _).trans (priorities_setNext _ _)
  · exact priorities_setNext _ _

theorem priorities_runqueueRemove (priority : ℕ) (strand : StrandPtr) :
    (s.runqueueRemove priority strand).priorities = s.priorities := by
  unfold runqueueRemove
  dsimp only
  split
  · unfold runqueuePop
    dsimp only
    split
    · rfl
    · exact priorities_setNext _ _
  · split
    · rfl
    · exact priorities_setNext _ _

theorem priorities_countList (n : ℕ) : (s.countList n).priorities = s.priorities :=
  rfl

theorem priorities_unlinkBlocked (strand : StrandPtr) :
    (s.unlinkBlocked strand).priorities = s.priorities := by
  unfold unlinkBlocked
  split
  · rfl
  · split
    · exact priorities_countList _
    · exact (priorities_countList _).trans (priorities_setNext _ _)

theorem priorities_wake (strand : StrandPtr) : (s.wake strand).priorities = s.priorities := by
  unfold wake enqueue
  split
  · have hadd : ∀ t : Scheduler, ∀ n p, ((t.runqueueAdd p strand).countReady n).priorities =
        t.priorities := fun t _ p => priorities_runqueueAdd (s := t) p strand
    have hcount : ∀ (t : Scheduler) n, (t.countBlocked n).priorities = t.priorities :=
      fun _ _ => rfl
    rw [hadd, priorities_setState, hcount, priorities_unlinkBlocked]
  · rfl

theorem priorities_requeue (strand : StrandPtr) (priority : ℕ) :
    (s.requeue strand priority).priorities =
      Function.update s.priorities strand (priority, (s.strands strand).basePriority) := by
  have hset : ∀ t : Scheduler, t.priorities = s.priorities →
      (t.modify strand fun u => { u with priority := priority }).priorities =
        Function.update s.priorities strand (priority, (s.strands strand).basePriority) := by
    intro t ht
    funext x
    by_cases hx : x = strand
    · have hbase : (t.strands strand).basePriority = (s.strands strand).basePriority :=
        congrArg Prod.snd (congrFun ht strand)
      rw [hx, Function.update_self, ← hbase]
      unfold priorities
      rw [modify_self]
    · rw [Function.update_of_ne hx, ← ht]
      unfold priorities
      rw [modify_of_ne _ hx]
  unfold requeue
  dsimp only
  split
  · exact (priorities_runqueueAdd _ _).trans (hset _ (priorities_runqueueRemove _ _))
  · exact hset s rfl

/-- What a call of `seraph_scheduler_set_priority` leaves. -/
theorem priorities_setPriority (strand : StrandPtr) {priority : ℕ} (h : priority < priorityMax) :
    (s.setPriority strand priority).priorities =
      Function.update s.priorities strand (priority, priority) := by
  have hrequeue := priorities_requeue (s := s) strand priority
  unfold setPriority
  rw [if_neg (Nat.not_le.2 h)]
  funext x
  by_cases hx : x = strand
  · have hself := congrArg Prod.fst (congrFun hrequeue strand)
    rw [Function.update_self] at hself
    rw [hx, Function.update_self]
    unfold priorities at hself ⊢
    rw [modify_self]
    exact Prod.ext hself rfl
  · have hother := congrFun hrequeue x
    rw [Function.update_of_ne hx] at hother ⊢
    unfold priorities at hother ⊢
    rw [modify_of_ne _ hx]
    exact hother

/-- A lend changes nothing, or raises both priorities of the receiver to that of the lender. -/
theorem onIpcLend_cases (s : Scheduler) (lender receiver : StrandPtr) :
    (s.onIpcLend lender receiver).priorities = s.priorities ∧
        ((s.strands lender).priority ≤ (s.strands receiver).priority ∨
          priorityMax ≤ (s.strands lender).priority) ∨
      (s.strands receiver).priority < (s.strands lender).priority ∧
        (s.onIpcLend lender receiver).priorities = Function.update s.priorities receiver
          ((s.strands lender).priority, (s.strands lender).priority) := by
  unfold onIpcLend priorityBoost
  by_cases hlt : (s.strands receiver).priority < (s.strands lender).priority
  · rw [if_pos hlt, if_pos hlt]
    by_cases hmax : (s.strands lender).priority < priorityMax
    · exact .inr ⟨hlt, priorities_setPriority receiver hmax⟩
    · refine .inl ⟨?_, .inr (Nat.not_lt.1 hmax)⟩
      rw [setPriority, if_pos (Nat.not_lt.1 hmax)]
  · rw [if_neg hlt]
    exact .inl ⟨rfl, .inl (Nat.not_lt.1 hlt)⟩

/-- A return changes nothing, or restores the base priority. -/
theorem onIpcReturn_cases (s : Scheduler) (lender receiver : StrandPtr) :
    (s.onIpcReturn lender receiver).priorities = s.priorities ∧
        ((s.strands receiver).priority = (s.strands receiver).basePriority ∨
          priorityMax ≤ (s.strands receiver).basePriority) ∨
      (s.strands receiver).basePriority < priorityMax ∧
        (s.strands receiver).priority ≠ (s.strands receiver).basePriority ∧
        (s.onIpcReturn lender receiver).priorities = Function.update s.priorities receiver
          ((s.strands receiver).basePriority, (s.strands receiver).basePriority) := by
  have hwake : (s.onIpcReturn lender receiver).priorities =
      (s.priorityRestore receiver).priorities := by
    unfold onIpcReturn
    dsimp only
    split
    · exact priorities_wake lender
    · rfl
  rw [hwake]
  unfold priorityRestore
  by_cases hne : (s.strands receiver).priority ≠ (s.strands receiver).basePriority
  · rw [if_pos hne]
    by_cases hmax : (s.strands receiver).basePriority < priorityMax
    · exact .inr ⟨hmax, hne, priorities_setPriority receiver hmax⟩
    · refine .inl ⟨?_, .inr (Nat.not_lt.1 hmax)⟩
      rw [setPriority, if_pos (Nat.not_lt.1 hmax)]
  · rw [if_neg hne]
    exact .inl ⟨rfl, .inl (not_not.1 hne)⟩

end Scheduler

/-! ## Runs -/

section

variable {s : Scheduler} {ops : List SchedOp}

open Scheduler

/-- The base priority of a strand holds, and is `v` or above. -/
def Level (v : ℕ) (strand : StrandPtr) (s : Scheduler) : Prop :=
  (s.strands strand).priority = (s.strands strand).basePriority ∧ v ≤ (s.strands strand).priority

theorem level_iff {v : ℕ} {strand : StrandPtr} : Level v strand s ↔
    (s.priorities strand).1 = (s.priorities strand).2 ∧ v ≤ (s.priorities strand).1 :=
  Iff.rfl

theorem QuietOp.cases {op : SchedOp} (h : QuietOp s op) :
    (∃ lender receiver, op = .ipcLend lender receiver ∨ op = .ipcReturn lender receiver) ∨
      (∀ lender receiver, op ≠ .ipcLend lender receiver ∧ op ≠ .ipcReturn lender receiver) ∧
        (op.step s).1.priorities = s.priorities := by
  by_cases hop : ∃ lender receiver, op = .ipcLend lender receiver ∨ op = .ipcReturn lender receiver
  · exact .inl hop
  · have hother : ∀ lender receiver,
        op ≠ .ipcLend lender receiver ∧ op ≠ .ipcReturn lender receiver := fun l r =>
      ⟨fun heq => hop ⟨l, r, .inl heq⟩, fun heq => hop ⟨l, r, .inr heq⟩⟩
    exact .inr ⟨hother, h hother⟩

/-- Such a level never goes down. -/
theorem Level.step {v : ℕ} {strand : StrandPtr} (h : Level v strand s) {op : SchedOp}
    (hop : QuietOp s op) : Level v strand (op.step s).1 := by
  rw [level_iff] at h ⊢
  obtain ⟨heq, hle⟩ := h
  rcases hop.cases with ⟨lender, receiver, rfl | rfl⟩ | ⟨-, hsame⟩
  · have hstep : (SchedOp.step s (.ipcLend lender receiver)).1 = s.onIpcLend lender receiver := rfl
    rw [hstep]
    rcases onIpcLend_cases s lender receiver with ⟨hsame, -⟩ | ⟨hlt, hraise⟩
    · rw [hsame]
      exact ⟨heq, hle⟩
    · rw [hraise]
      by_cases hx : strand = receiver
      · subst hx
        rw [Function.update_self]
        exact ⟨rfl, Nat.le_trans hle hlt.le⟩
      · rw [Function.update_of_ne hx]
        exact ⟨heq, hle⟩
  · have hstep : (SchedOp.step s (.ipcReturn lender receiver)).1 =
        s.onIpcReturn lender receiver := rfl
    rw [hstep]
    rcases onIpcReturn_cases s lender receiver with ⟨hsame, -⟩ | ⟨-, hne, hrestore⟩
    · rw [hsame]
      exact ⟨heq, hle⟩
    · rw [hrestore]
      by_cases hx : strand = receiver
      · subst hx
        exact absurd heq hne
      · rw [Function.update_of_ne hx]
        exact ⟨heq, hle⟩
  · rw [hsame]
    exact ⟨heq, hle⟩

theorem outstanding_concat (op : SchedOp) :
    outstanding (ops ++ [op]) = noteLend (outstanding ops) op := by
  rw [outstanding, List.foldl_append]
  rfl

theorem mem_of_outstanding {lender receiver : StrandPtr}
    (h : (lender, receiver) ∈ outstanding ops) : .ipcLend lender receiver ∈ ops := by
  induction ops using List.reverseRecOn with
  | nil => cases h
  | append_singleton ops op ih =>
    rw [outstanding_concat] at h
    cases op with
    | ipcLend l r =>
      rcases List.mem_cons.1 h with heq | h
      · cases heq
        exact List.mem_append_right _ (List.mem_singleton_self _)
      · exact List.mem_append_left _ (ih h)
    | ipcReturn l r => exact List.mem_append_left _ (ih (List.mem_of_mem_erase h))
    | _ => exact List.mem_append_left _ (ih h)

theorem noneRaised_concat {op : SchedOp} (h : NoneRaised s ops)
    (hlend : ∀ lender receiver, op = .ipcLend lender receiver →
      (s.strands lender).priority ≤ (s.strands receiver).priority)
    (hreturn : ∀ lender receiver, op = .ipcReturn lender receiver →
      (s.strands receiver).basePriority < priorityMax →
      (s.strands receiver).priority = (s.strands receiver).basePriority) :
    NoneRaised s (ops ++ [op]) := by
  refine ⟨fun lender receiver hmem => ?_, fun lender receiver hmem => ?_⟩
  · rcases List.mem_append.1 hmem with hmem | hmem
    · exact h.1 _ _ hmem
    · exact hlend _ _ (List.mem_singleton.1 hmem).symm
  · rcases List.mem_append.1 hmem with hmem | hmem
    · exact h.2 _ _ hmem
    · exact hreturn _ _ (List.mem_singleton.1 hmem).symm

/-- Where nothing is raised, all priorities stay. -/
theorem priorities_of_noneRaised (h : NoneRaised s ops)
    (hquiet : Guarded SchedOp.step QuietOp s ops) :
    (run SchedOp.step s ops).priorities = s.priorities := by
  induction ops using List.reverseRecOn with
  | nil => rfl
  | append_singleton ops op ih =>
    obtain ⟨hquiet, hop⟩ := guarded_concat.1 hquiet
    have hsame := ih ⟨fun l r hmem => h.1 l r (List.mem_append_left _ hmem),
      fun l r hmem => h.2 l r (List.mem_append_left _ hmem)⟩ hquiet
    have hlast : op ∈ ops ++ [op] := List.mem_append_right _ (List.mem_singleton_self op)
    rw [run_concat, ← hsame]
    generalize run SchedOp.step s ops = t at hop hsame ⊢
    rcases hop.cases with ⟨lender, receiver, rfl | rfl⟩ | ⟨-, hop⟩
    · rcases onIpcLend_cases t lender receiver with ⟨hkeep, -⟩ | ⟨hlt, -⟩
      · exact hkeep
      · have hle := h.1 lender receiver hlast
        have hlender := (priority_congr hsame lender).1
        have hreceiver := (priority_congr hsame receiver).1
        omega
    · rcases onIpcReturn_cases t lender receiver with ⟨hkeep, -⟩ | ⟨hmax, hne, -⟩
      · exact hkeep
      · obtain ⟨hpriority, hbase⟩ := priority_congr hsame receiver
        rw [hpriority, hbase] at hne
        exact absurd (h.2 lender receiver hlast (hbase ▸ hmax)) hne
    · exact hop

/-- Where priorities are inherited, nothing is raised. -/
theorem noneRaised_of_undone (h : Undone s ops) (hquiet : Guarded SchedOp.step QuietOp s ops)
    (hcomplete : outstanding ops = []) {before : List SchedOp} (hbefore : before <+: ops) :
    NoneRaised s before ∧ (run SchedOp.step s before).priorities = s.priorities := by
  induction before using List.reverseRecOn with
  | nil => exact ⟨⟨fun _ _ hmem => (by cases hmem), fun _ _ hmem => (by cases hmem)⟩, rfl⟩
  | append_singleton before op ih =>
    obtain ⟨hnone, hsame⟩ := ih ((List.prefix_append before [op]).trans hbefore)
    -- a level that is reached holds to the end, where the first priorities are back
    have hlevel : ∀ v strand, Level v strand (run SchedOp.step s (before ++ [op])) →
        (s.strands strand).priority = (s.strands strand).basePriority ∧
          v ≤ (s.strands strand).priority := by
      intro v strand hv
      obtain ⟨after, rfl⟩ := hbefore
      obtain ⟨-, hquiet⟩ := guarded_append.1 hquiet
      have hend := guarded_invariant (I := Level v strand)
        (fun t op ht hop => ht.step hop) hv hquiet
      rw [← run_append, level_iff, (h _ (List.prefix_refl _)).2 strand] at hend
      · exact hend
      · rw [hcomplete]
        exact fun p hp => (by cases hp)
    have hinherits := h _ hbefore
    rw [outstanding_concat] at hinherits
    rw [run_concat] at hlevel hinherits ⊢
    obtain ⟨after, hops⟩ := hbefore
    rw [← hops, List.append_assoc, guarded_append] at hquiet
    have hop := hquiet.2.1
    clear hquiet hops h
    generalize run SchedOp.step s before = t at hop hlevel hinherits hsame ⊢
    rcases hop.cases with ⟨lender, receiver, rfl | rfl⟩ | ⟨hother, hop⟩
    · have hstep :
          (SchedOp.step t (.ipcLend lender receiver)).1 = t.onIpcLend lender receiver := rfl
      rw [hstep] at hlevel hinherits ⊢
      have hlender := (priority_congr hsame lender).1
      have hreceiver := (priority_congr hsame receiver).1
      rcases onIpcLend_cases t lender receiver with ⟨hkeep, -⟩ | ⟨hlt, hraise⟩
      · have hnew := hinherits.1 (lender, receiver) List.mem_cons_self
        dsimp only at hnew
        rw [(priority_congr hkeep lender).1, (priority_congr hkeep receiver).1, hlender,
          hreceiver] at hnew
        refine ⟨noneRaised_concat hnone (fun l r heq => ?_) (fun l r heq => (by cases heq)),
          hkeep.trans hsame⟩
        cases heq
        exact hnew
      · have hnew := hlevel (t.strands lender).priority receiver (level_iff.2 ?_)
        · omega
        · rw [hraise, Function.update_self]
          exact ⟨rfl, Nat.le_refl _⟩
    · have hstep : (SchedOp.step t (.ipcReturn lender receiver)).1 =
          t.onIpcReturn lender receiver := rfl
      rw [hstep] at hlevel hinherits ⊢
      obtain ⟨hpriority, hbase⟩ := priority_congr hsame receiver
      rcases onIpcReturn_cases t lender receiver with ⟨hkeep, hcond⟩ | ⟨-, hne, hrestore⟩
      · refine ⟨noneRaised_concat hnone (fun l r heq => (by cases heq)) (fun l r heq hmax => ?_),
          hkeep.trans hsame⟩
        cases heq
        rw [hpriority, hbase] at hcond
        exact hcond.resolve_right (Nat.not_le.2 hmax)
      · have hnew := hlevel 0 receiver (level_iff.2 ?_)
        · rw [hpriority, hbase] at hne
          exact absurd hnew.1 hne
        · rw [hrestore, Function.update_self]
          exact ⟨rfl, Nat.zero_le _⟩
    · exact ⟨noneRaised_concat hnone (fun l r heq => absurd heq (hother l r).1)
        (fun l r heq => absurd heq (hother l r).2), hop.trans hsame⟩

/-- In a run after which all lends are returned, and in which nothing else changes a priority,
priorities are inherited and restored if and only if no lend raises one and no return restores
one. -/
theorem undone_iff (s : Scheduler) (ops : List SchedOp)
    (hquiet : Guarded SchedOp.step QuietOp s ops) (hcomplete : outstanding ops = []) :
    Undone s ops ↔ NoneRaised s ops := by
  constructor
  · intro h
    exact (noneRaised_of_undone h hquiet hcomplete (List.prefix_refl ops)).1
  · rintro hnone before ⟨after, rfl⟩
    have hbefore : NoneRaised s before :=
      ⟨fun l r hmem => hnone.1 l r (List.mem_append_left _ hmem),
        fun l r hmem => hnone.2 l r (List.mem_append_left _ hmem)⟩
    have hsame := priorities_of_noneRaised hbefore (guarded_append.1 hquiet).1
    refine ⟨fun p hp => ?_, fun receiver _ => congrFun hsame receiver⟩
    rw [(priority_congr hsame p.1).1, (priority_congr hsame p.2).1]
    exact hbefore.1 p.1 p.2 (mem_of_outstanding hp)

end

/-- Strand 1 is of high priority, all others are of normal priority. -/
def highAndNormal : Scheduler :=
  (Scheduler.init 0 fun strand =>
    if strand = 1 then ⟨.nascent, none, 4, 4, false⟩ else ⟨.nascent, none, 3, 3, false⟩).start

theorem undone_iff_equal :
    Undone highAndNormal [.ipcLend 2 3, .ipcReturn 2 3] ↔
      NoneRaised highAndNormal [.ipcLend 2 3, .ipcReturn 2 3] :=
  undone_iff _ _ ⟨fun h => absurd rfl (h 2 3).1, fun h => absurd rfl (h 2 3).2, trivial⟩ rfl

/-- The strand of normal priority keeps the high priority that it was lent with. -/
theorem not_undone_high : ¬ Undone highAndNormal [.ipcLend 1 2, .ipcReturn 1 2] := by
  intro h
  have hend := (h _ (List.prefix_refl _)).2 2 (fun p hp => (by cases hp))
  exact absurd (congrArg Prod.fst hend) (by decide)

end Seraph
