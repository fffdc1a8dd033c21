import Seraph.SchedulerSteps

/-!
# Runs of the scheduler

Along a run it is recorded which strands have been made ready and which have been removed
(`SchedRun`). As long as no removed strand yields or blocks, no blocked strand is removed and the
statistics are reset only where no strand is queued or blocked, each strand is in one place and its
state says in which one, and no removed strand gets the processor again (`strands_placed`). Without
this a removed strand runs again (`removed_dispatched`).
-/

namespace Seraph

open LinkedQueue Runs Scheduler

/-- A scheduler, and what has been done with the strands. -/
structure SchedRun where
  sched : Scheduler
  /-- Strands that have been made ready. -/
  made : List StrandPtr
  /-- Strands that have been removed. -/
  removed : List StrandPtr

namespace SchedRun

/-- A new scheduler. -/
def begin (idle : StrandPtr) (strands : StrandPtr → Strand) : SchedRun :=
  ⟨Scheduler.init idle strands, [], []⟩

/-- Perform a call and record what it is asked for. -/
def step (r : SchedRun) (op : SchedOp) : SchedRun × Unit :=
  (⟨(op.step r.sched).1,
    match op with
    | .ready x => x :: r.made
    | _ => r.made,
    match op with
    | .remove x => x :: r.removed
    | _ => r.removed⟩, ())

/-- The scheduler is started once, and a strand is made ready once. -/
def Legal (r : SchedRun) : SchedOp → Prop
  | .start => r.sched.current = none
  | .ready x => x ∉ r.made ∧ x ∉ r.removed ∧ x ≠ r.sched.idleStrand
  | _ => True

instance (r : SchedRun) (op : SchedOp) : Decidable (r.Legal op) :=
  match op with
  | .start => inferInstanceAs (Decidable (_ = _))
  | .ready _ => inferInstanceAs (Decidable (_ ∧ _))
  | .remove _ | .tick _ | .yield | .block | .wake _ | .setPriority _ _ | .priorityBoost _ _
  | .priorityRestore _ | .galacticBoost _ _ | .statsReset | .ipcLend _ _ | .ipcReturn _ _ =>
    inferInstanceAs (Decidable True)

/-- A removed strand does not yield or block, a blocked one is not removed, and the statistics are
reset where no strand is counted. -/
def Harmless (r : SchedRun) : SchedOp → Prop
  | .yield | .block => ∀ x, r.sched.current = some x → x ∉ r.removed
  | .remove x => x ≠ r.sched.idleStrand ∧ (r.sched.strands x).state ≠ .blocked
  | .statsReset => ∀ x, (r.sched.strands x).state ≠ .ready ∧ (r.sched.strands x).state ≠ .blocked
  | _ => True

end SchedRun

/-- A strand is in one place, and its state says which. -/
def Scheduler.At (s : Scheduler) (q : ℕ → List StrandPtr) (b : List StrandPtr)
    (x : StrandPtr) : Prop :=
  match (s.strands x).state with
  | .running => s.current = some x ∧ (∀ p, x ∉ q p) ∧ x ∉ b
  | .ready => s.current ≠ some x ∧ (∀ p, x ∈ q p ↔ p = (s.strands x).priority) ∧ x ∉ b
  | .blocked => s.current ≠ some x ∧ (∀ p, x ∉ q p) ∧ x ∈ b
  | _ => False

/-- The ready queues hold the strands of `q` and the list of blocked strands those of `b` : every
strand that has been made ready and not removed is in one place, and the counters are right. -/
structure Placement (r : SchedRun) (q : ℕ → List StrandPtr) (b : List StrandPtr) : Prop where
  queue : ∀ p, Queue r.sched.next (r.sched.readyQueues p).head (r.sched.readyQueues p).tail (q p)
  count : ∀ p, (r.sched.readyQueues p).count = (q p).length
  blocked : Path r.sched.next r.sched.blockedHead b none
  nodup : b.Nodup
  place : ∀ x ∈ r.made, x ∉ r.removed → r.sched.At q b x
  listed : ∀ x, (∃ p, x ∈ q p) ∨ x ∈ b → x ∈ r.made ∧ x ∉ r.removed
  readyCount : r.sched.stats.readyCount = queued q
  blockedCount : r.sched.blockedCount = b.length
  statsBlocked : r.sched.stats.blockedCount = b.length

namespace SchedInv

variable {s : Scheduler} {r : SchedRun} {made removed : List StrandPtr} {x : StrandPtr}

/-- The invariant places the strands. -/
theorem placement (h : SchedInv r.sched r.made r.removed) : ∃ q b, Placement r q b := by
  obtain ⟨q, b, hl, ha⟩ := h
  refine ⟨q, b, ⟨hl.queue, hl.count, hl.path, hl.nodup, fun x hx hnot => ?_, fun x hx => ?_,
    ha.readyCount, ha.blockedCount, ha.statsBlocked⟩⟩
  · have hidle : x ≠ r.sched.core.idleStrand := fun heq => ha.idle_fresh (heq ▸ hx)
    have hcurrent : r.sched.current = some x → r.sched.core.state x = .running := fun hcur =>
      (ha.current x hcur hidle).resolve_right hnot
    unfold Scheduler.At
    rcases ha.alive x hx hnot with hstate | hstate | hstate
    · have hblocked : x ∉ b := fun hmem => by
        rw [(ha.blocked x).1 hmem] at hstate
        cases hstate
      rw [show (r.sched.strands x).state = .ready from hstate]
      refine ⟨fun hcur => ?_, fun p => ?_, hblocked⟩
      · rw [hcurrent hcur] at hstate
        cases hstate
      · exact (ha.ready x p).trans ((and_iff_right hstate).trans eq_comm)
    · rw [show (r.sched.strands x).state = .running from hstate]
      refine ⟨ha.running x hidle hstate, fun p hmem => ?_, fun hmem => ?_⟩
      · rw [((ha.ready x p).1 hmem).1] at hstate
        cases hstate
      · rw [(ha.blocked x).1 hmem] at hstate
        cases hstate
    · rw [show (r.sched.strands x).state = .blocked from hstate]
      refine ⟨fun hcur => ?_, fun p hmem => ?_, (ha.blocked x).2 hstate⟩
      · rw [hcurrent hcur] at hstate
        cases hstate
      · rw [((ha.ready x p).1 hmem).1] at hstate
        cases hstate
  · have hstate : r.sched.core.state x = .ready ∨ r.sched.core.state x = .blocked :=
      hx.imp (fun ⟨p, hp⟩ => ((ha.ready x p).1 hp).1) (ha.blocked x).1
    have hidle : x ≠ r.sched.core.idleStrand := fun heq => by
      rw [heq] at hstate
      exact hstate.elim ha.idle.1 ha.idle.2
    constructor
    · by_contra hnot
      obtain ⟨hready, -, hblocked⟩ := ha.fresh x hnot hidle
      exact hstate.elim hready hblocked
    · intro hgone
      rw [ha.gone x hgone] at hstate
      exact hstate.elim (fun heq => by cases heq) fun heq => by cases heq

/-- A call keeps the strands in their places. -/
theorem step (h : SchedInv r.sched r.made r.removed) {op : SchedOp} (hlegal : r.Legal op)
    (hok : r.Harmless op) :
    SchedInv (r.step op).1.sched (r.step op).1.made (r.step op).1.removed := by
  cases op with
  | start => exact h.start hlegal
  | ready x => exact h.ready hlegal.1 hlegal.2.1 hlegal.2.2
  | remove x => exact h.remove hok.1 hok.2
  | tick delta => exact h.tick delta
  | yield => exact h.yield hok
  | block => exact h.block hok
  | wake x => exact h.wake x
  | setPriority x priority => exact h.setPriority x priority
  | priorityBoost x minPriority => exact h.priorityBoost x minPriority
  | priorityRestore x => exact h.priorityRestore x
  | galacticBoost x urgency => exact h.galacticBoost x urgency
  | statsReset => exact h.statsReset hok
  | ipcLend lender receiver => exact h.onIpcLend lender receiver
  | ipcReturn lender receiver => exact h.onIpcReturn lender receiver

/-- In a new scheduler no strand has a place. -/
theorem begin {idle : StrandPtr} {strands : StrandPtr → Strand}
    (hfresh : ∀ x, x ≠ idle → (strands x).state = .nascent)
    (hvalid : ∀ x, (strands x).priority < priorityMax) :
    SchedInv (Scheduler.init idle strands) [] [] := by
  have hidle : (Scheduler.init idle strands).core.state idle = .running := by
    unfold Scheduler.init core
    dsimp only
    rw [Function.update_self]
  have hother : ∀ x, x ≠ idle → (Scheduler.init idle strands).core.state x = .nascent := by
    intro x hx
    unfold Scheduler.init core
    dsimp only
    rw [Function.update_of_ne hx]
    exact hfresh x hx
  have hstate : ∀ x, (Scheduler.init idle strands).core.state x = .running ∨
      (Scheduler.init idle strands).core.state x = .nascent := by
    intro x
    by_cases hx : x = idle
    · exact .inl (hx ▸ hidle)
    · exact .inr (hother x hx)
  have hready : ∀ x, (Scheduler.init idle strands).core.state x ≠ .ready ∧
      (Scheduler.init idle strands).core.state x ≠ .blocked := by
    intro x
    rcases hstate x with heq | heq
    all_goals
      rw [heq]
      exact ⟨by decide, by decide⟩
  refine ⟨fun _ => [], [], ?_, ?_⟩
  · exact ⟨fun _ => Queue.empty _, fun _ => rfl, rfl, List.nodup_nil,
      fun _ _ _ hx => absurd hx List.not_mem_nil, fun _ _ hx => absurd hx List.not_mem_nil,
      fun _ => List.not_mem_nil, List.not_mem_nil⟩
  · exact
      { blocked := fun x => iff_of_false List.not_mem_nil (hready x).2
        idle := hready idle
        alive := fun _ hx => absurd hx List.not_mem_nil
        fresh := fun x _ hx => by
          rw [hother x hx]
          exact ⟨by decide, by decide, by decide⟩
        idle_fresh := List.not_mem_nil
        idle_kept := List.not_mem_nil
        gone := fun _ hx => absurd hx List.not_mem_nil
        valid := fun x => by
          unfold Scheduler.init core
          dsimp only
          by_cases hx : x = idle
          · rw [hx, Function.update_self]
            decide
          · rw [Function.update_of_ne hx]
            exact hvalid x
        readyCount := rfl
        blockedCount := rfl
        statsBlocked := rfl
        ready := fun x _ => iff_of_false List.not_mem_nil fun hall => (hready x).1 hall.1
        running := fun x hx hrun => by
          rw [hother x hx] at hrun
          cases hrun
        current := fun _ hcur => by cases hcur }

end SchedInv

/-! ## Dispatches -/

namespace Scheduler

variable {s : Scheduler} {cur x : StrandPtr}

/-- The current strand stays the same, or the new one runs. -/
def Dispatches (s t : Scheduler) : Prop :=
  t.current = s.current ∨ ∃ x, t.current = some x ∧ (t.strands x).state = .running

theorem Dispatches.trans {t u : Scheduler} (h : Dispatches t u) (heq : t.current = s.current) :
    Dispatches s u :=
  h.imp_left fun h => h.trans heq

theorem dispatches_switchTo (hne : x ≠ cur) : Dispatches s (s.switchTo cur x) := by
  have hcore := core_switchTo (s := s) hne
  refine .inr ⟨x, congrArg SchedCore.current hcore, ?_⟩
  exact (congrFun (congrArg SchedCore.state hcore) x).trans (Function.update_self ..)

theorem current_pickFrom (n : ℕ) : (s.pickFrom n).1.current = s.current := by
  induction n with
  | zero => rfl
  | succ n ih =>
    have hpop := congrArg SchedCore.current (core_runqueuePop (s := s) n)
    rw [pickFrom]
    split
    · next t y heq =>
      rw [heq] at hpop
      exact hpop
    · exact ih

/-- The strand that is picked gets the processor, if it is another one. -/
theorem dispatches_picked {f g : Scheduler → Scheduler} (hf : ∀ t, (f t).current = t.current)
    (hg : ∀ t, (g t).current = t.current) : Dispatches s (if s.pickNextStrand.2 ≠ cur then
        (f s.pickNextStrand.1).switchTo cur s.pickNextStrand.2
      else g s.pickNextStrand.1) := by
  have hpick : s.pickNextStrand.1.current = s.current := current_pickFrom priorityMax
  split
  · next hne =>
    exact (dispatches_switchTo hne).trans ((hf _).trans hpick)
  · exact .inl ((hg _).trans hpick)

theorem current_enqueue (x : StrandPtr) : (s.enqueue x).current = s.current := by
  unfold enqueue
  exact congrArg SchedCore.current (core_runqueueAdd _ x)

theorem current_requeue (x : StrandPtr) (priority : ℕ) :
    (s.requeue x priority).current = s.current := by
  unfold requeue
  dsimp only
  split
  · refine (congrArg SchedCore.current (core_runqueueAdd _ x)).trans ?_
    exact congrArg SchedCore.current (core_runqueueRemove _ x)
  · rfl

theorem current_setPriority (x : StrandPtr) (priority : ℕ) :
    (s.setPriority x priority).current = s.current := by
  unfold setPriority
  split
  · rfl
  · exact current_requeue x priority

theorem current_priorityBoost (x : StrandPtr) (minPriority : ℕ) :
    (s.priorityBoost x minPriority).current = s.current := by
  unfold priorityBoost
  split
  · exact current_setPriority x minPriority
  · rfl

theorem current_priorityRestore (x : StrandPtr) : (s.priorityRestore x).current = s.current := by
  unfold priorityRestore
  split
  · exact current_setPriority x _
  · rfl

theorem current_setState (x : StrandPtr) (state : StrandState) :
    (s.setState x state).current = s.current :=
  rfl

theorem current_countReady (n : ℕ) : (s.countReady n).current = s.current :=
  rfl

theorem current_countBlocked (n : ℕ) : (s.countBlocked n).current = s.current :=
  rfl

theorem current_unlinkBlocked (x : StrandPtr) : (s.unlinkBlocked x).current = s.current :=
  congrArg SchedCore.current (core_unlinkBlocked x)

theorem current_wake (x : StrandPtr) : (s.wake x).current = s.current := by
  unfold wake
  split
  · rw [current_enqueue, current_setState, current_countBlocked, current_unlinkBlocked]
  · rfl

theorem current_remove (x : StrandPtr) : (s.remove x).current = s.current := by
  unfold remove
  dsimp only
  split
  · rw [current_setState, current_countReady]
    exact congrArg SchedCore.current (core_runqueueRemove _ x)
  · exact current_unlinkBlocked x
  · rfl

theorem current_galacticBoost (x : StrandPtr) (urgency : ℕ) :
    (s.galacticBoost x urgency).current = s.current := by
  unfold galacticBoost
  split
  · rfl
  · exact current_requeue x _

theorem dispatches_tick (delta : Option ℤ) : Dispatches s (s.tick delta) := by
  unfold tick
  split
  · next cur hrunning hcur =>
    dsimp only
    split
    · have hadjust : (({ s with quantumRemaining := s.quantumRemaining - 1 } : Scheduler).adjust cur
          delta).current = s.current := SchedInv.current_adjust delta
      generalize ({ s with quantumRemaining := s.quantumRemaining - 1 } : Scheduler).adjust cur
        delta = u at *
      have hput : (if cur ≠ u.idleStrand ∧ (u.strands cur).state = .running then
          (u.modify cur fun t => { t with preempted := true }).enqueue cur else u).current =
            s.current := by
        split
        · exact (current_enqueue cur).trans hadjust
        · exact hadjust
      generalize (if cur ≠ u.idleStrand ∧ (u.strands cur).state = .running then
          (u.modify cur fun t => { t with preempted := true }).enqueue cur else u) = v at *
      exact (dispatches_picked (f := fun t => { t with
          stats := { t.stats with preemptions := u64 (t.stats.preemptions + 1) } })
        (g := fun t => { t with quantumRemaining := priorityQuantum (t.strands cur).priority })
        (fun _ => rfl) fun _ => rfl).trans hput
    · exact .inl rfl
  · exact .inl rfl

theorem dispatches_yield : Dispatches s s.yield := by
  unfold yield
  split
  · next cur hrunning hcur =>
    dsimp only
    have hput : (if cur ≠ s.idleStrand then
        (s.modify cur fun t => { t with preempted := false }).enqueue cur else s).current =
          s.current := by
      split
      · exact current_enqueue cur
      · rfl
    generalize (if cur ≠ s.idleStrand then
        (s.modify cur fun t => { t with preempted := false }).enqueue cur else s) = u at *
    exact (dispatches_picked
      (f := fun t => { t with stats := { t.stats with yields := u64 (t.stats.yields + 1) } })
      (g := fun t => t) (fun _ => rfl) fun _ => rfl).trans hput
  · exact .inl rfl

theorem dispatches_block : Dispatches s s.block := by
  unfold block
  split
  · next cur hrunning hcur =>
    dsimp only
    have hput : (if cur ≠ s.idleStrand then s.linkBlocked cur else s).current = s.current := by
      split <;> rfl
    generalize (if cur ≠ s.idleStrand then s.linkBlocked cur else s) = u at *
    exact (dispatches_picked (f := fun t => t) (g := fun t => t) (fun _ => rfl)
      fun _ => rfl).trans hput
  · exact .inl rfl

theorem current_onIpcLend (lender receiver : StrandPtr) :
    (s.onIpcLend lender receiver).current = s.current := by
  unfold onIpcLend
  split
  · exact current_priorityBoost receiver _
  · rfl

theorem current_onIpcReturn (lender receiver : StrandPtr) :
    (s.onIpcReturn lender receiver).current = s.current := by
  unfold onIpcReturn
  dsimp only
  split
  · exact (current_wake lender).trans (current_priorityRestore receiver)
  · exact current_priorityRestore receiver

end Scheduler

/-- The current strand stays the same, is the idle one, or has just been given the processor. -/
theorem SchedOp.dispatches (s : Scheduler) (op : SchedOp) :
    (op.step s).1.current = some s.idleStrand ∨ Dispatches s (op.step s).1 := by
  cases op with
  | start => exact .inl rfl
  | ready x => exact .inr (.inl (current_enqueue x))
  | remove x => exact .inr (.inl (current_remove x))
  | tick delta => exact .inr (dispatches_tick delta)
  | yield => exact .inr dispatches_yield
  | block => exact .inr dispatches_block
  | wake x => exact .inr (.inl (current_wake x))
  | setPriority x priority => exact .inr (.inl (current_setPriority x priority))
  | priorityBoost x minPriority => exact .inr (.inl (current_priorityBoost x minPriority))
  | priorityRestore x => exact .inr (.inl (current_priorityRestore x))
  | galacticBoost x urgency => exact .inr (.inl (current_galacticBoost x urgency))
  | statsReset => exact .inr (.inl rfl)
  | ipcLend lender receiver => exact .inr (.inl (current_onIpcLend lender receiver))
  | ipcReturn lender receiver => exact .inr (.inl (current_onIpcReturn lender receiver))

namespace SchedRun

variable {r : SchedRun} {op : SchedOp} {x : StrandPtr}

/-- A call does not give the processor to a removed strand. -/
theorem not_dispatched (h : SchedInv r.sched r.made r.removed) (hlegal : r.Legal op)
    (hok : r.Harmless op) (hx : x ∈ r.removed) (hcur : (r.step op).1.sched.current = some x) :
    r.sched.current = some x := by
  obtain ⟨q', b', -, ha'⟩ := h.step hlegal hok
  obtain ⟨q, b, -, ha⟩ := h
  have hx' : x ∈ (r.step op).1.removed := by
    cases op with
    | remove y => exact List.mem_cons_of_mem y hx
    | _ => exact hx
  rcases op.dispatches r.sched with hidle | hsame | ⟨y, hy, hrun⟩
  · have heq : x = r.sched.idleStrand := Option.some.inj (hcur.symm.trans hidle)
    rw [heq] at hx
    exact absurd hx ha.idle_kept
  · exact hsame.symm.trans hcur
  · have heq : x = y := Option.some.inj (hcur.symm.trans hy)
    have hgone : ((r.step op).1.sched.strands x).state = .terminated := ha'.gone x hx'
    rw [heq] at hgone
    exact absurd (hgone.symm.trans hrun) (by decide)

/-- In every run in which no removed strand yields or blocks, no blocked strand is removed and the
statistics are reset only where they count nothing, the strands are in their places and a removed
strand is not given the processor. -/
theorem strands_placed {idle : StrandPtr} {strands : StrandPtr → Strand}
    (hfresh : ∀ x, x ≠ idle → (strands x).state = .nascent)
    (hvalid : ∀ x, (strands x).priority < priorityMax) (ops : List SchedOp)
    (hlegal : Guarded step Legal (begin idle strands) ops)
    (hok : Guarded step Harmless (begin idle strands) ops) :
    (∃ q b, Placement (run step (begin idle strands) ops) q b) ∧
      ∀ c ∈ calls step (begin idle strands) ops, ∀ x ∈ c.before.removed,
        (c.before.step c.op).1.sched.current = some x → c.before.sched.current = some x := by
  have hboth := guarded_and.2 ⟨hlegal, hok⟩
  have hstart : SchedInv (begin idle strands).sched [] [] := SchedInv.begin hfresh hvalid
  constructor
  · exact (guarded_invariant (I := fun r => SchedInv r.sched r.made r.removed)
      (fun _ _ h hall => h.step hall.1 hall.2) hstart hboth).placement
  · exact guarded_calls (I := fun r => SchedInv r.sched r.made r.removed)
      (P := fun c => ∀ x ∈ c.before.removed,
        (c.before.step c.op).1.sched.current = some x → c.before.sched.current = some x)
      (fun _ _ h hall => h.step hall.1 hall.2)
      (fun _ _ h hall _ hx hcur => not_dispatched h hall.1 hall.2 hx hcur) hstart hboth

/-- A strand that has just been made. -/
def newStrand : Strand :=
  ⟨.nascent, none, 3, 3, false⟩

/-- Two strands run in turn ; one of them blocks, and the other one is woken and removed. -/
def twoStrands : List SchedOp :=
  [.ready 1, .ready 2, .start, .tick none, .yield, .block, .wake 2, .remove 2, .yield]

theorem strands_placed_two :
    (∃ q b, Placement (run step (begin 0 fun _ => newStrand) twoStrands) q b) ∧
      ∀ c ∈ calls step (begin 0 fun _ => newStrand) twoStrands, ∀ x ∈ c.before.removed,
        (c.before.step c.op).1.sched.current = some x → c.before.sched.current = some x := by
  have hlegal : Guarded step Legal (begin 0 fun _ => newStrand) twoStrands := by decide
  have hstate : ((run step (begin 0 fun _ => newStrand)
      (twoStrands.take 7)).sched.strands 2).state = .ready := by
    decide
  have hcur : (run step (begin 0 fun _ => newStrand)
      (twoStrands.take 8)).sched.current = some 1 := by
    decide +kernel
  refine strands_placed (fun _ _ => rfl) (fun _ => by decide) twoStrands hlegal ?_
  refine ⟨trivial, trivial, trivial, trivial, fun _ _ => List.not_mem_nil,
    fun _ _ => List.not_mem_nil, trivial, ⟨by decide, fun heq => ?_⟩, fun x hx hmem => ?_, trivial⟩
  · have hready := hstate.symm.trans heq
    cases hready
  · have heq := Option.some.inj (hx.symm.trans hcur)
    rw [heq] at hmem
    revert hmem
    decide

/-- A strand that yields after it has been removed runs again. -/
theorem removed_dispatched :
    Guarded step Legal (begin 0 fun _ => newStrand)
        [.ready 1, .ready 2, .start, .tick none, .remove 1, .yield, .yield] ∧
      1 ∈ (run step (begin 0 fun _ => newStrand)
        [.ready 1, .ready 2, .start, .tick none, .remove 1, .yield]).removed ∧
      (run step (begin 0 fun _ => newStrand)
        [.ready 1, .ready 2, .start, .tick none, .remove 1, .yield]).sched.current = some 2 ∧
      (run step (begin 0 fun _ => newStrand)
        [.ready 1, .ready 2, .start, .tick none, .remove 1, .yield, .yield]).sched.current =
          some 1 := by
  decide

end SchedRun

end Seraph
