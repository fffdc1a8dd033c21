import Mathlib.Logic.Function.Basic
import Seraph.LinkedQueue
import Seraph.Words

/-!
# The scheduler of strands

A strand is current, in the ready queue of its priority, or in the list of blocked strands. All
these lists are threaded through one link of the strand.

Each call is one step on one processor : locks, contexts and the timer are left out, and a call
that switches to another strand returns at once. So are the times and predictions that only the
Galactic statistics read ; what these say of a strand whose quantum is over is an argument of
`tick`. A null pointer is `none`, and calls with one are left out where they do nothing.
-/

namespace Seraph

/-- `Seraph_Strand *`, not null. -/
abbrev StrandPtr := UInt64

/-- `Seraph_Strand_State`. -/
inductive StrandState where
  | nascent
  | ready
  | running
  | blocked
  | waiting
  | terminated
deriving DecidableEq, Repr

/-- `Seraph_Strand`. -/
structure Strand where
  state : StrandState
  nextInQueue : Option StrandPtr
  priority : ℕ
  basePriority : ℕ
  preempted : Bool
deriving DecidableEq, Repr

/-- `SERAPH_PRIORITY_IDLE`. -/
def priorityIdle : ℕ := 0

/-- `SERAPH_PRIORITY_BACKGROUND`. -/
def priorityBackground : ℕ := 1

/-- `SERAPH_PRIORITY_REALTIME`. -/
def priorityRealtime : ℕ := 5

/-- `SERAPH_PRIORITY_MAX`. -/
def priorityMax : ℕ := 7

/-- `priority_quantum`. -/
def priorityQuantum : ℕ → ℕ
  | 0 => 1
  | 1 => 2
  | 2 => 4
  | 3 => 8
  | 4 => 16
  | 5 => 32
  | _ => 64

/-- `Seraph_RunQueue`. -/
structure RunQueue where
  head : Option StrandPtr
  tail : Option StrandPtr
  count : ℕ
deriving DecidableEq, Repr

/-- `Seraph_Scheduler_Stats`. -/
structure SchedulerStats where
  totalSwitches : ℕ
  preemptions : ℕ
  yields : ℕ
  strandsDestroyed : ℕ
  readyCount : ℕ
  blockedCount : ℕ
deriving DecidableEq, Repr

/-- `SERAPH_QUANTUM_IDLE`. -/
def quantumIdle : ℕ := 1

/-- The variables of the scheduler, and the strands at their addresses. -/
structure Scheduler where
  readyQueues : ℕ → RunQueue
  current : Option StrandPtr
  idleStrand : StrandPtr
  blockedHead : Option StrandPtr
  blockedCount : ℕ
  running : Bool
  quantumRemaining : ℕ
  currentPriority : ℕ
  stats : SchedulerStats
  galacticEnabled : Bool
  strands : StrandPtr → Strand

/-- `seraph_galactic_sched_adjust_priority` where the statistics ask for this change. -/
def adjustPriority (currentPriority : ℕ) (delta : ℤ) (minPriority maxPriority : ℕ) : ℕ :=
  if delta = 0 then currentPriority
  else (min (max (currentPriority + delta) minPriority) maxPriority).toNat

namespace Scheduler

/-- `seraph_scheduler_init`, with the address of the idle strand. -/
def init (idle : StrandPtr) (strands : StrandPtr → Strand) : Scheduler where
  readyQueues := fun _ => ⟨none, none, 0⟩
  current := none
  idleStrand := idle
  blockedHead := none
  blockedCount := 0
  running := false
  quantumRemaining := 0
  currentPriority := 0
  stats := ⟨0, 0, 0, 0, 0, 0⟩
  galacticEnabled := true
  strands := Function.update strands idle ⟨.running, none, priorityIdle, priorityIdle, false⟩

variable (s : Scheduler)

/-- `seraph_scheduler_start` on a machine with a timer. -/
def start : Scheduler :=
  { s with
    running := true
    current := some s.idleStrand
    quantumRemaining := quantumIdle }

/-- One strand changes. -/
def modify (strand : StrandPtr) (f : Strand → Strand) : Scheduler :=
  { s with strands := Function.update s.strands strand (f (s.strands strand)) }

theorem modify_self (strand : StrandPtr) (f : Strand → Strand) :
    (s.modify strand f).strands strand = f (s.strands strand) :=
  Function.update_self ..

theorem modify_of_ne {strand other : StrandPtr} (h : other ≠ strand) (f : Strand → Strand) :
    (s.modify strand f).strands other = s.strands other :=
  Function.update_of_ne h ..

/-- Write `next` of a strand. -/
def setNext (strand : StrandPtr) (next : Option StrandPtr) : Scheduler :=
  s.modify strand fun t => { t with nextInQueue := next }

/-- Write the state of a strand. -/
def setState (strand : StrandPtr) (state : StrandState) : Scheduler :=
  s.modify strand fun t => { t with state := state }

/-- Write a queue. -/
def setQueue (priority : ℕ) (queue : RunQueue) : Scheduler :=
  { s with readyQueues := Function.update s.readyQueues priority queue }

/-- `stats.ready_count` goes up by `n`, as a `uint64_t`. -/
def countReady (n : ℕ) : Scheduler :=
  { s with stats := { s.stats with readyCount := u64 (s.stats.readyCount + n) } }

/-- `stats.blocked_count` goes up by `n`. -/
def countBlocked (n : ℕ) : Scheduler :=
  { s with stats := { s.stats with blockedCount := u64 (s.stats.blockedCount + n) } }

/-- `blocked_count` goes up by `n`. -/
def countList (n : ℕ) : Scheduler :=
  { s with blockedCount := u64 (s.blockedCount + n) }

/-! ### Queues -/

/-- `runqueue_add`. -/
def runqueueAdd (priority : ℕ) (strand : StrandPtr) : Scheduler :=
  let queue := s.readyQueues priority
  let s := s.setNext strand none
  match queue.tail with
  | some tail =>
    (s.setNext tail (some strand)).setQueue priority
      ⟨queue.head, some strand, u64 (queue.count + 1)⟩
  | none => s.setQueue priority ⟨some strand, some strand, u64 (queue.count + 1)⟩

/-- `runqueue_pop`. -/
def runqueuePop (priority : ℕ) : Scheduler × Option StrandPtr :=
  let queue := s.readyQueues priority
  match queue.head with
  | none => (s, none)
  | some strand =>
    let head := (s.strands strand).nextInQueue
    let tail := if head = none then none else queue.tail
    ((s.setQueue priority ⟨head, tail, u64 (queue.count + (2 ^ 64 - 1))⟩).setNext strand none,
      some strand)

/-- The strand behind another one in its queue. -/
def next (strand : StrandPtr) : Option StrandPtr :=
  (s.strands strand).nextInQueue

/-- The strand in front of another one, as the loops of `runqueue_remove`, `seraph_scheduler_remove`
and `seraph_scheduler_wake` find it. -/
def findPrev (head : Option StrandPtr) (strand : StrandPtr) : Option StrandPtr :=
  LinkedQueue.findPrev s.next (2 ^ 64) head strand

/-- `runqueue_remove`. -/
def runqueueRemove (priority : ℕ) (strand : StrandPtr) : Scheduler :=
  let queue := s.readyQueues priority
  if queue.head = some strand then (s.runqueuePop priority).1
  else
    match s.findPrev queue.head strand with
    | none => s
    | some prev =>
      (s.setNext prev (s.strands strand).nextInQueue).setQueue priority
        ⟨queue.head, if queue.tail = some strand then some prev else queue.tail,
          u64 (queue.count + (2 ^ 64 - 1))⟩

/-- The strand is taken off the list of blocked strands, in `seraph_scheduler_remove` and
`seraph_scheduler_wake`. -/
def unlinkBlocked (strand : StrandPtr) : Scheduler :=
  if s.blockedHead = some strand then
    { s with blockedHead := (s.strands strand).nextInQueue }.countList (2 ^ 64 - 1)
  else
    match s.findPrev s.blockedHead strand with
    | none => s.countList (2 ^ 64 - 1)
    | some prev => (s.setNext prev (s.strands strand).nextInQueue).countList (2 ^ 64 - 1)

/-- The first strand of the highest of the queues below `n` that is not empty. -/
def pickFrom : ℕ → Scheduler × Option StrandPtr
  | 0 => (s, none)
  | n + 1 =>
    match s.runqueuePop n with
    | (t, some strand) => (t.countReady (2 ^ 64 - 1), some strand)
    | (_, none) => pickFrom n

/-- `pick_next_strand`. -/
def pickNextStrand : Scheduler × StrandPtr :=
  ((s.pickFrom priorityMax).1, (s.pickFrom priorityMax).2.getD s.idleStrand)

/-- `switch_to` from the strand `prev`. -/
def switchTo (prev next : StrandPtr) : Scheduler :=
  if next = prev then s
  else
    let s :=
      if prev ≠ s.idleStrand ∧ (s.strands prev).state = .running then s.setState prev .ready else s
    let s := s.setState next .running
    { s with
      quantumRemaining := priorityQuantum (s.strands next).priority
      currentPriority := (s.strands next).priority
      current := some next
      stats := { s.stats with totalSwitches := u64 (s.stats.totalSwitches + 1) } }

/-- The strand is put into the queue of its priority. -/
def enqueue (strand : StrandPtr) : Scheduler :=
  (s.runqueueAdd (s.strands strand).priority strand).countReady 1

/-! ### Calls -/

/-- `seraph_scheduler_ready`. -/
def ready (strand : StrandPtr) : Scheduler :=
  (s.setState strand .ready).enqueue strand

/-- `seraph_scheduler_remove`. -/
def remove (strand : StrandPtr) : Scheduler :=
  let s :=
    match (s.strands strand).state with
    | .ready =>
      (s.runqueueRemove (s.strands strand).priority strand).countReady (2 ^ 64 - 1)
    | .blocked => s.unlinkBlocked strand
    | _ => s
  let s := s.setState strand .terminated
  { s with stats := { s.stats with strandsDestroyed := u64 (s.stats.strandsDestroyed + 1) } }

/-- The change of priority in `seraph_scheduler_tick`. -/
def adjust (current : StrandPtr) (delta : Option ℤ) : Scheduler :=
  if s.galacticEnabled ∧ current ≠ s.idleStrand then
    match delta with
    | some delta =>
      let newPriority :=
        adjustPriority (s.strands current).priority delta priorityBackground priorityRealtime
      s.modify current fun t => { t with priority := newPriority }
    | none => s
  else s

/-- `seraph_scheduler_tick`, with what the Galactic statistics of the current strand ask for, if it
has any. -/
def tick (delta : Option ℤ) : Scheduler :=
  match s.running, s.current with
  | true, some current =>
    let s := { s with quantumRemaining := s.quantumRemaining - 1 }
    if s.quantumRemaining = 0 then
      let s := s.adjust current delta
      let s :=
        if current ≠ s.idleStrand ∧ (s.strands current).state = .running then
          (s.modify current fun t => { t with preempted := true }).enqueue current
        else s
      let r := s.pickNextStrand
      if r.2 ≠ current then
        { r.1 with
          stats := { r.1.stats with preemptions := u64 (r.1.stats.preemptions + 1) } }.switchTo
          current r.2
      else { r.1 with quantumRemaining := priorityQuantum (r.1.strands current).priority }
    else s
  | _, _ => s

/-- `seraph_scheduler_yield`. -/
def yield : Scheduler :=
  match s.running, s.current with
  | true, some current =>
    let s :=
      if current ≠ s.idleStrand then
        (s.modify current fun t => { t with preempted := false }).enqueue current
      else s
    let r := s.pickNextStrand
    if r.2 ≠ current then
      { r.1 with stats := { r.1.stats with yields := u64 (r.1.stats.yields + 1) } }.switchTo
        current r.2
    else r.1
  | _, _ => s

/-- The strand becomes the first one of the list of blocked strands. -/
def linkBlocked (strand : StrandPtr) : Scheduler :=
  let s := (s.setState strand .blocked).setNext strand s.blockedHead
  ({ s with blockedHead := some strand }.countList 1).countBlocked 1

/-- `seraph_scheduler_block`. -/
def block : Scheduler :=
  match s.running, s.current with
  | true, some current =>
    let s := if current ≠ s.idleStrand then s.linkBlocked current else s
    let r := s.pickNextStrand
    if r.2 ≠ current then r.1.switchTo current r.2 else r.1
  | _, _ => s

/-- `seraph_scheduler_wake`. -/
def wake (strand : StrandPtr) : Scheduler :=
  if (s.strands strand).state = .blocked then
    (((s.unlinkBlocked strand).countBlocked (2 ^ 64 - 1)).setState strand .ready).enqueue strand
  else s

/-- A strand gets a new priority, and another queue where it is ready. -/
def requeue (strand : StrandPtr) (priority : ℕ) : Scheduler :=
  let oldPriority := (s.strands strand).priority
  if (s.strands strand).state = .ready ∧ oldPriority ≠ priority then
    ((s.runqueueRemove oldPriority strand).modify strand fun t =>
      { t with priority := priority }).runqueueAdd priority strand
  else s.modify strand fun t => { t with priority := priority }

/-- `seraph_scheduler_set_priority`. -/
def setPriority (strand : StrandPtr) (priority : ℕ) : Scheduler :=
  if priority ≥ priorityMax then s
  else (s.requeue strand priority).modify strand fun t => { t with basePriority := priority }

/-- `seraph_scheduler_priority_boost`. -/
def priorityBoost (strand : StrandPtr) (minPriority : ℕ) : Scheduler :=
  if (s.strands strand).priority < minPriority then s.setPriority strand minPriority else s

/-- `seraph_scheduler_priority_restore`. -/
def priorityRestore (strand : StrandPtr) : Scheduler :=
  if (s.strands strand).priority ≠ (s.strands strand).basePriority then
    s.setPriority strand (s.strands strand).basePriority
  else s

/-- `seraph_scheduler_galactic_boost`. -/
def galacticBoost (strand : StrandPtr) (urgency : ℕ) : Scheduler :=
  if urgency = 0 ∨ urgency > 3 then s
  else
    let newPriority := (s.strands strand).priority + urgency
    s.requeue strand (if newPriority > priorityRealtime then priorityRealtime else newPriority)

/-- `seraph_scheduler_stats_reset`. -/
def statsReset : Scheduler :=
  { s with stats := ⟨0, 0, 0, 0, 0, 0⟩ }

/-- `seraph_scheduler_on_ipc_lend`. -/
def onIpcLend (lender receiver : StrandPtr) : Scheduler :=
  if (s.strands receiver).priority < (s.strands lender).priority then
    s.priorityBoost receiver (s.strands lender).priority
  else s

/-- `seraph_scheduler_on_ipc_return`. -/
def onIpcReturn (lender receiver : StrandPtr) : Scheduler :=
  let s := s.priorityRestore receiver
  if (s.strands lender).state = .blocked then s.wake lender else s

end Scheduler

/-- A call of the scheduler. -/
inductive SchedOp where
  | start
  | ready (strand : StrandPtr)
  | remove (strand : StrandPtr)
  | tick (delta : Option ℤ)
  | yield
  | block
  | wake (strand : StrandPtr)
  | setPriority (strand : StrandPtr) (priority : ℕ)
  | priorityBoost (strand : StrandPtr) (minPriority : ℕ)
  | priorityRestore (strand : StrandPtr)
  | galacticBoost (strand : StrandPtr) (urgency : ℕ)
  | statsReset
  | ipcLend (lender receiver : StrandPtr)
  | ipcReturn (lender receiver : StrandPtr)
deriving DecidableEq, Repr

/-- Perform a call. -/
def SchedOp.step (s : Scheduler) : SchedOp → Scheduler × Unit
  | start => (s.start, ())
  | ready strand => (s.ready strand, ())
  | remove strand => (s.remove strand, ())
  | tick delta => (s.tick delta, ())
  | yield => (s.yield, ())
  | block => (s.block, ())
  | wake strand => (s.wake strand, ())
  | setPriority strand priority => (s.setPriority strand priority, ())
  | priorityBoost strand minPriority => (s.priorityBoost strand minPriority, ())
  | priorityRestore strand => (s.priorityRestore strand, ())
  | galacticBoost strand urgency => (s.galacticBoost strand urgency, ())
  | statsReset => (s.statsReset, ())
  | ipcLend lender receiver => (s.onIpcLend lender receiver, ())
  | ipcReturn lender receiver => (s.onIpcReturn lender receiver, ())

end Seraph
