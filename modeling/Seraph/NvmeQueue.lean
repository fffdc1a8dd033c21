import Mathlib.Algebra.Group.Nat.Defs
import Seraph.PhaseRing
import Seraph.Runs
import Seraph.Words

/-!
# NVMe queues

`nvme_queue.c` : a submission queue and a completion queue, and the controller at the other end. The
controller takes the submissions in order up to the doorbell and completes what it has taken in any
order. Only the host's functions are the source's; the controller, and the histories beside the
queue, are what the protocol is about.
-/

namespace Seraph

/-- `Seraph_NVMe_Cmd`. -/
structure NvmeCmd where
  opc : ℕ
  flags : ℕ
  cid : ℕ
  nsid : ℕ
  reserved : ℕ
  mptr : ℕ
  prp1 : ℕ
  prp2 : ℕ
  cdw10 : ℕ
  cdw11 : ℕ
  cdw12 : ℕ
  cdw13 : ℕ
  cdw14 : ℕ
  cdw15 : ℕ
deriving DecidableEq, Repr

/-- `Seraph_NVMe_Cpl`. -/
structure NvmeCpl where
  dw0 : ℕ
  dw1 : ℕ
  sqHead : ℕ
  sqId : ℕ
  cid : ℕ
  status : ℕ
deriving DecidableEq, Repr

/-- `SERAPH_NVME_STATUS_PHASE`. -/
def statusPhase (status : ℕ) : ℕ :=
  status &&& 1

/-- `SERAPH_NVME_STATUS_CODE`. -/
def statusCode (status : ℕ) : ℕ :=
  (status >>> 1) &&& 0xFF

/-- `seraph_nvme_status_ok`. -/
def statusOk (status : ℕ) : Bool :=
  statusCode status == 0

/-- A zeroed `Seraph_NVMe_Cmd`. -/
def NvmeCmd.zero : NvmeCmd :=
  ⟨0, 0, 0, 0, 0, 0, 0, 0, 0, 0, 0, 0, 0, 0⟩

/-- A zeroed `Seraph_NVMe_Cpl`. -/
def NvmeCpl.zero : NvmeCpl :=
  ⟨0, 0, 0, 0, 0, 0⟩

/-- `Seraph_NVMe_Queue`, with the memory that it points to. -/
structure NvmeQueue where
  sq : ℕ → NvmeCmd
  cq : ℕ → NvmeCpl
  sqTail : ℕ
  cqHead : ℕ
  depth : ℕ
  phase : ℕ
  qid : ℕ
  sqDoorbell : ℕ
  cqDoorbell : ℕ
  nextCid : ℕ

/-- What a round of `seraph_nvme_poll_completion` finds. -/
inductive PollRound where
  | returned (result : Vbit)
  | notOurs
  | nothing
deriving DecidableEq, Repr

namespace NvmeQueue

/-- `seraph_nvme_queue_init`, with zeroed memory for the entries. -/
def init (qid depth : ℕ) : Option NvmeQueue :=
  if depth = 0 ∨ depth > 65536 then none
  else some ⟨fun _ => .zero, fun _ => .zero, 0, 0, depth, 1, qid, 0, 0, 0⟩

/-- `seraph_nvme_submit`, with the command id. -/
def submit (q : NvmeQueue) (cmd : NvmeCmd) : NvmeQueue × ℕ :=
  let nextTail := (q.sqTail + 1) % q.depth
  ({ q with
      nextCid := u16 (q.nextCid + 1)
      sq := Function.update q.sq q.sqTail { cmd with cid := q.nextCid }
      sqTail := nextTail
      sqDoorbell := nextTail }, q.nextCid)

/-- `seraph_nvme_check_completion`, with the completion if there is one. -/
def checkCompletion (q : NvmeQueue) : NvmeQueue × Option NvmeCpl :=
  let cpl := q.cq q.cqHead
  if statusPhase cpl.status ≠ q.phase then (q, none)
  else
    let cqHead := if q.depth ≤ q.cqHead + 1 then 0 else q.cqHead + 1
    ({ q with
        cqHead := cqHead
        phase := if q.depth ≤ q.cqHead + 1 then q.phase ^^^ 1 else q.phase
        cqDoorbell := cqHead }, some cpl)

/-- A round of the loop of `seraph_nvme_poll_completion`. -/
def pollRound (q : NvmeQueue) (cid : ℕ) : NvmeQueue × PollRound :=
  match q.checkCompletion with
  | (q, some cpl) =>
    if cpl.cid = cid then (q, .returned (if statusOk cpl.status then .true else .void))
    else (q, .notOurs)
  | (q, none) => (q, .nothing)

/-- `seraph_nvme_queue_outstanding`. -/
def outstanding (q : NvmeQueue) : ℕ :=
  if q.depth = 0 then 0
  else if q.cqHead ≤ q.sqTail then q.sqTail - q.cqHead
  else q.depth - q.cqHead + q.sqTail

/-- `seraph_nvme_queue_empty`. -/
def empty (q : NvmeQueue) : Bool :=
  q.outstanding == 0

/-- `seraph_nvme_queue_full`. -/
def full (q : NvmeQueue) : Bool :=
  q.depth == 0 || decide (q.depth - 1 ≤ q.outstanding)

end NvmeQueue

/-! ## Host and controller -/

/-- A completion, with the number of the command that it completes. -/
structure Posted where
  command : ℕ
  cpl : NvmeCpl
deriving DecidableEq, Repr

/-- What a poll has reported : the number of the command it is about, how many completions had been
returned before it returned, and its result. -/
structure PollReport where
  command : ℕ
  before : ℕ
  result : Vbit
deriving DecidableEq, Repr

/-- A queue, the state of the controller, and the poll that is going on; then what has been submitted,
taken by the controller, posted by it, returned to the host, dropped by a poll and reported by one. -/
structure NvmeSystem where
  queue : NvmeQueue
  head : ℕ
  tail : ℕ
  phase : ℕ
  inflight : List ℕ
  polling : Option ℕ
  submitted : List NvmeCmd
  consumed : List NvmeCmd
  posted : List Posted
  returned : List NvmeCpl
  dropped : List NvmeCpl
  reports : List PollReport

/-- Calls of the host, rounds of its polling, and steps of the controller. A poll is about the command
with a number; a post completes the command with a number. -/
inductive NvmeAction where
  | submit (cmd : NvmeCmd)
  | check
  | poll (command : ℕ)
  | pollRound
  | pollTimeout
  | consume
  | post (command dw0 dw1 sqHead sqId status : ℕ)
deriving DecidableEq, Repr

namespace NvmeSystem

/-- A queue and a controller that has just been enabled. -/
def start (q : NvmeQueue) : NvmeSystem where
  queue := q
  head := 0
  tail := 0
  phase := 1
  inflight := []
  polling := none
  submitted := []
  consumed := []
  posted := []
  returned := []
  dropped := []
  reports := []

/-- The command id of the command with a number. -/
def cidOf (s : NvmeSystem) (command : ℕ) : ℕ :=
  (s.submitted.getD command .zero).cid

/-- A submission, with the command as it stands in the queue. -/
def submit (s : NvmeSystem) (cmd : NvmeCmd) : NvmeSystem :=
  let (queue, cid) := s.queue.submit cmd
  { s with queue := queue, submitted := s.submitted ++ [{ cmd with cid := cid }] }

/-- A check for a completion. -/
def check (s : NvmeSystem) : NvmeSystem :=
  let (queue, cpl) := s.queue.checkCompletion
  { s with queue := queue, returned := s.returned ++ cpl.toList }

/-- A round of a poll. -/
def pollRound (s : NvmeSystem) (command : ℕ) : NvmeSystem :=
  let cpl := s.queue.checkCompletion.2.toList
  match s.queue.pollRound (s.cidOf command) with
  | (queue, .returned result) =>
    { s with
      queue := queue
      returned := s.returned ++ cpl
      polling := none
      reports := s.reports ++ [⟨command, s.returned.length, result⟩] }
  | (queue, .notOurs) =>
    { s with queue := queue, returned := s.returned ++ cpl, dropped := s.dropped ++ cpl }
  | (queue, .nothing) => { s with queue := queue }

/-- The controller takes the next submission. -/
def consume (s : NvmeSystem) : NvmeSystem :=
  if s.head = s.queue.sqDoorbell then s
  else { s with
    head := (s.head + 1) % s.queue.depth
    inflight := s.inflight ++ [s.consumed.length]
    consumed := s.consumed ++ [s.queue.sq s.head] }

/-- The controller posts a completion of a command that it has taken, with the phase in the status. -/
def post (s : NvmeSystem) (command dw0 dw1 sqHead sqId status : ℕ) : NvmeSystem :=
  if command ∈ s.inflight then
    let cpl : NvmeCpl := ⟨dw0, dw1, sqHead, sqId, (s.consumed.getD command .zero).cid,
      2 * status + s.phase⟩
    { s with
      queue := { s.queue with cq := Function.update s.queue.cq s.tail cpl }
      tail := if s.queue.depth ≤ s.tail + 1 then 0 else s.tail + 1
      phase := if s.queue.depth ≤ s.tail + 1 then s.phase ^^^ 1 else s.phase
      inflight := s.inflight.erase command
      posted := s.posted ++ [⟨command, cpl⟩] }
  else s

/-- One step. A poll is about a command that has been submitted; where no poll is going on, it makes
no round. -/
def step (s : NvmeSystem) : NvmeAction → NvmeSystem × Unit
  | .submit cmd => (s.submit cmd, ())
  | .check => (s.check, ())
  | .poll command =>
    (if command < s.submitted.length then { s with polling := some command } else s, ())
  | .pollRound => (s.polling.elim s s.pollRound, ())
  | .pollTimeout => ({ s with polling := none }, ())
  | .consume => (s.consume, ())
  | .post command dw0 dw1 sqHead sqId status =>
    (s.post command dw0 dw1 sqHead sqId status, ())

/-! ## What is promised -/

/-- The numbers of the commands whose completion has not been returned. -/
def outstanding (s : NvmeSystem) : List ℕ :=
  (List.range s.submitted.length).filter fun command =>
    command ∉ (s.posted.take s.returned.length).map Posted.command

/-- What the queue promises : completions are returned in the order they were posted, and the next one
is there when it has been posted; the controller takes what was submitted, which stays in the queue
till then; the outstanding commands have different ids, which are not VOID, and are as many as the
queue says; a poll reports the status of its own command, and drops no other. A success is what the
driver takes for one : `statusOk` looks at the status code, and not at its type. -/
structure Correct (s : NvmeSystem) : Prop where
  returned : s.returned <+: s.posted.map Posted.cpl
  next : s.queue.checkCompletion.2 = (s.posted.map Posted.cpl)[s.returned.length]?
  consumed : s.consumed <+: s.submitted
  entries : ∀ k, s.consumed.length ≤ k → ∀ hk : k < s.submitted.length,
    s.queue.sq (k % s.queue.depth) = s.submitted[k]
  distinct : (s.outstanding.map s.cidOf).Nodup
  valid : voidU16 ∉ s.outstanding.map s.cidOf
  outstanding : s.queue.outstanding + s.returned.length = s.submitted.length
  reports : ∀ r ∈ s.reports, ∃ p, s.posted[r.before]? = some p ∧ p.command = r.command ∧
    r.result = if statusOk p.cpl.status then .true else .void
  dropped : s.dropped = []

/-- Where the code keeps its promise : a command is submitted while the queue is not full and the id
is not the VOID id, and the next completion that a poll comes to is that of its own command. -/
def Allowed (s : NvmeSystem) : NvmeAction → Prop
  | .submit _ => s.queue.full = false ∧ s.queue.nextCid ≠ voidU16
  | .pollRound => ∀ command ∈ s.polling, ∀ cpl ∈ s.queue.checkCompletion.2,
      cpl.cid = s.cidOf command
  | _ => True

instance (s : NvmeSystem) : ∀ a : NvmeAction, Decidable (s.Allowed a)
  | .submit _ => inferInstanceAs (Decidable (_ ∧ _))
  | .pollRound => inferInstanceAs (Decidable (∀ command ∈ s.polling, ∀ cpl ∈ _, _))
  | .check => inferInstanceAs (Decidable True)
  | .poll _ => inferInstanceAs (Decidable True)
  | .pollTimeout => inferInstanceAs (Decidable True)
  | .consume => inferInstanceAs (Decidable True)
  | .post .. => inferInstanceAs (Decidable True)

end NvmeSystem

end Seraph
