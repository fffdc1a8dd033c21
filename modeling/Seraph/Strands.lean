import Seraph.Capability
import Seraph.Runs
import Seraph.Scheduler

/-!
# Strands

`strand.c` : the capability table of a strand, the transfer of capabilities between strands, mutexes
that are capabilities, and the check for deadlocks. A pointer to a strand or a mutex is a key, of a
type with as many as there are, and `none` is NULL. Only what these calls read of a strand is here :
not its stack, its arena, its entry point or its statistics. A call does not wait, as in the code :
a strand that has to is marked and the call returns.
-/

namespace Seraph

/-- `SERAPH_STRAND_CAP_TABLE_SIZE`. -/
def strandCapTableSize : ℕ :=
  256

/-- `Seraph_Strand_Error`. -/
inductive StrandError where
  | ok
  | null
  | state
  | memory
  | deadlock
  | full
  | timeout
  | invalid
  | perm
  | void
deriving DecidableEq, Repr

/-- `Seraph_Cap_Status`. -/
inductive CapStatus where
  | void
  | owned
  | lent
  | borrowed
deriving DecidableEq, Repr

/-- `Seraph_Strand_Cap_Entry`. -/
structure StrandCapEntry where
  cap : Capability
  status : CapStatus
  lenderId : ℕ
  timeout : ℕ
deriving DecidableEq, Repr

/-- A slot without a capability. -/
def StrandCapEntry.empty : StrandCapEntry :=
  ⟨.void, .void, 0, voidU64⟩

/-- `Seraph_Strand`, where `S` are the strands and `M` the mutexes. -/
structure StrandRecord (S M : Type) where
  strandId : ℕ
  state : StrandState
  chronon : ℕ
  capTable : ℕ → StrandCapEntry
  capCount : ℕ
  exitCode : ℕ
  waitingOn : Option S
  blockedOnMutex : Option M
  nextWaiter : Option S

/-- `Seraph_Strand_Mutex`. -/
structure StrandMutex (S : Type) where
  cap : Capability
  holder : Option S
  waitQueue : Option S
  acquisitions : ℕ
  contentions : ℕ

/-- All strands and mutexes, and `g_current_strand`. -/
structure Strands (S M : Type) where
  strand : S → StrandRecord S M
  mutex : M → StrandMutex S
  current : Option S

variable {S M : Type}

namespace StrandRecord

/-- `seraph_strand_create`, as far as it is seen here. -/
def create (strandId : ℕ) : StrandRecord S M where
  strandId := strandId
  state := .nascent
  chronon := 0
  capTable := fun _ => .empty
  capCount := 0
  exitCode := 0
  waitingOn := none
  blockedOnMutex := none
  nextWaiter := none

variable (r : StrandRecord S M)

/-- Write a slot. -/
def setEntry (slot : ℕ) (entry : StrandCapEntry) : StrandRecord S M :=
  { r with capTable := Function.update r.capTable slot entry }

/-- `cap_count++`. -/
def countUp : StrandRecord S M :=
  { r with capCount := u32 (r.capCount + 1) }

/-- `cap_count--`. -/
def countDown : StrandRecord S M :=
  { r with capCount := u32 (r.capCount + (2 ^ 32 - 1)) }

/-- The status of a slot. -/
def status (slot : ℕ) : CapStatus :=
  (r.capTable slot).status

/-- `seraph_strand_cap_store`, for a slot of the table. -/
def capStore (slot : ℕ) (cap : Capability) : StrandRecord S M :=
  let wasEmpty := r.status slot = .void
  let isValid := !cap.isVoid
  let r := r.setEntry slot ⟨cap, if isValid then .owned else .void, 0, voidU64⟩
  if wasEmpty ∧ isValid then r.countUp else if ¬wasEmpty ∧ !isValid then r.countDown else r

/-- `seraph_strand_cap_clear`, for a slot of the table. -/
def capClear (slot : ℕ) : StrandRecord S M :=
  let wasEmpty := r.status slot = .void
  let r := r.setEntry slot .empty
  if wasEmpty then r else r.countDown

/-- `seraph_strand_cap_get`. -/
def capGet (slot : ℕ) : Capability :=
  if slot ≥ strandCapTableSize then .void
  else if r.status slot = .void then .void
  else if r.status slot = .lent then .void
  else (r.capTable slot).cap

/-- `seraph_strand_cap_find_slot`. -/
def capFindSlot : Option ℕ :=
  (List.range strandCapTableSize).find? fun i => r.status i = .void

/-- Whether what a slot has borrowed has expired at time `now`. -/
def Expired (now slot : ℕ) : Prop :=
  r.status slot = .borrowed ∧ (r.capTable slot).timeout ≠ voidU64 ∧
    (r.capTable slot).timeout ≤ now

instance (now slot : ℕ) : Decidable (r.Expired now slot) :=
  inferInstanceAs (Decidable (_ ∧ _))

/-- `seraph_strand_process_lends`. -/
def processLends : StrandRecord S M :=
  let now := r.chronon
  (List.range strandCapTableSize).foldl
    (fun r i => if r.Expired now i then (r.setEntry i .empty).countDown else r) r

end StrandRecord

/-- `seraph_chronon_add`. -/
def chrononAdd (t delta : ℕ) : ℕ :=
  if t = voidU64 ∨ t + delta ≥ voidU64 then voidU64 else t + delta

namespace Strands

variable (σ : Strands S M)

section

variable [DecidableEq M]

/-- Change a mutex. -/
def modifyMutex (m : M) (f : StrandMutex S → StrandMutex S) : Strands S M :=
  { σ with mutex := Function.update σ.mutex m (f (σ.mutex m)) }

@[simp] theorem strand_modifyMutex (m : M) (f : StrandMutex S → StrandMutex S) :
    (σ.modifyMutex m f).strand = σ.strand :=
  rfl

@[simp] theorem mutex_modifyMutex (m n : M) (f : StrandMutex S → StrandMutex S) :
    (σ.modifyMutex m f).mutex n = if n = m then f (σ.mutex m) else σ.mutex n :=
  Function.update_apply _ _ _ _

end

variable [DecidableEq S]

/-- Change a strand. -/
def modify (s : S) (f : StrandRecord S M → StrandRecord S M) : Strands S M :=
  { σ with strand := Function.update σ.strand s (f (σ.strand s)) }

@[simp] theorem strand_modify (s t : S) (f : StrandRecord S M → StrandRecord S M) :
    (σ.modify s f).strand t = if t = s then f (σ.strand s) else σ.strand t :=
  Function.update_apply _ _ _ _

@[simp] theorem mutex_modify (s : S) (f : StrandRecord S M → StrandRecord S M) :
    (σ.modify s f).mutex = σ.mutex :=
  rfl

/-- `seraph_strand_set_current`. -/
def setCurrent (s : Option S) : Strands S M :=
  { σ with current := s }

/-- `seraph_strand_tick`. -/
def tick : Strands S M :=
  match σ.current with
  | none => σ
  | some current => σ.modify current fun r => { r with chronon := chrononAdd r.chronon 1 }

/-! ## Capabilities -/

/-- `seraph_strand_cap_store`. -/
def capStore (strand : Option S) (slot : ℕ) (cap : Capability) : Strands S M × StrandError :=
  match strand with
  | none => (σ, .null)
  | some s =>
    if slot ≥ strandCapTableSize then (σ, .invalid) else (σ.modify s (·.capStore slot cap), .ok)

/-- `seraph_strand_cap_clear`. -/
def capClear (strand : Option S) (slot : ℕ) : Strands S M × StrandError :=
  match strand with
  | none => (σ, .null)
  | some s =>
    if slot ≥ strandCapTableSize then (σ, .invalid) else (σ.modify s (·.capClear slot), .ok)

/-- `seraph_strand_cap_get`. -/
def capGet (strand : Option S) (slot : ℕ) : Capability :=
  match strand with
  | none => .void
  | some s => (σ.strand s).capGet slot

/-- Put an entry into a slot, and count it if there was none. -/
def receive (dest : S) (slot : ℕ) (entry : StrandCapEntry) : Strands S M :=
  let destWasEmpty := (σ.strand dest).status slot = .void
  σ.modify dest fun r =>
    let r := r.setEntry slot entry
    if destWasEmpty then r.countUp else r

/-- `seraph_strand_grant`. -/
def grant (dest : Option S) (srcSlot destSlot : ℕ) : Strands S M × StrandError :=
  match σ.current, dest with
  | some src, some dest =>
    if srcSlot ≥ strandCapTableSize ∨ destSlot ≥ strandCapTableSize then (σ, .invalid)
    else if (σ.strand src).status srcSlot ≠ .owned then (σ, .perm)
    else
      let cap := ((σ.strand src).capTable srcSlot).cap
      let σ := σ.receive dest destSlot ⟨cap, .owned, 0, voidU64⟩
      (σ.modify src fun r => (r.setEntry srcSlot
        { r.capTable srcSlot with cap := .void, status := .void }).countDown, .ok)
  | _, _ => (σ, .null)

/-- `seraph_strand_lend`. -/
def lend (dest : Option S) (srcSlot destSlot timeout : ℕ) : Strands S M × StrandError :=
  match σ.current, dest with
  | some src, some dest =>
    if srcSlot ≥ strandCapTableSize ∨ destSlot ≥ strandCapTableSize then (σ, .invalid)
    else if (σ.strand src).status srcSlot ≠ .owned then (σ, .perm)
    else
      let cap := ((σ.strand src).capTable srcSlot).cap
      let destWasEmpty := (σ.strand dest).status destSlot = .void
      let σ := σ.modify src fun r =>
        r.setEntry srcSlot { r.capTable srcSlot with status := .lent }
      (σ.modify dest fun r =>
        let r := r.setEntry destSlot ⟨cap, .borrowed, u32 (σ.strand src).strandId, timeout⟩
        if destWasEmpty then r.countUp else r, .ok)
  | _, _ => (σ, .null)

/-- `seraph_strand_revoke`. -/
def revoke (srcSlot : ℕ) : Strands S M × StrandError :=
  match σ.current with
  | none => (σ, .null)
  | some src =>
    if srcSlot ≥ strandCapTableSize then (σ, .invalid)
    else if (σ.strand src).status srcSlot ≠ .lent then (σ, .state)
    else
      (σ.modify src fun r => r.setEntry srcSlot { r.capTable srcSlot with status := .owned }, .ok)

/-- `seraph_strand_return`. -/
def returnCap (slot : ℕ) : Strands S M × StrandError :=
  match σ.current with
  | none => (σ, .null)
  | some current =>
    if slot ≥ strandCapTableSize then (σ, .invalid)
    else if (σ.strand current).status slot ≠ .borrowed then (σ, .state)
    else (σ.modify current fun r => (r.setEntry slot .empty).countDown, .ok)

/-- `seraph_strand_process_lends`. -/
def processLends (strand : Option S) : Strands S M :=
  match strand with
  | none => σ
  | some s => σ.modify s (·.processLends)

/-- `seraph_strand_exit`. -/
def exit (exitCode : ℕ) : Strands S M :=
  match σ.current with
  | none => σ
  | some current =>
    let σ := σ.modify current fun r => { r with exitCode := exitCode, state := .terminated }
    (List.range strandCapTableSize).foldl
      (fun σ i => if (σ.strand current).status i = .lent then (σ.revoke i).1 else σ) σ

/-! ## Waiting -/

/-- The walk of `seraph_strand_would_deadlock`, of at most so many strands. -/
def deadlockWalk (waiter : S) : ℕ → Option S → Bool
  | 0, _ => false
  | _, none => false
  | depth + 1, some current =>
    if (σ.strand current).waitingOn = some waiter then true
    else if ((σ.strand current).blockedOnMutex.bind fun m => (σ.mutex m).holder) = some waiter then
      true
    else deadlockWalk waiter depth (σ.strand current).waitingOn

/-- `seraph_strand_would_deadlock`. -/
def wouldDeadlock (waiter target : Option S) : Vbit :=
  match waiter, target with
  | some waiter, some target =>
    if σ.deadlockWalk waiter strandCapTableSize (some target) then .true else .false
  | _, _ => .void

/-- `seraph_strand_join`, with the exit code it returns. -/
def join (strand : Option S) : Strands S M × StrandError × Option ℕ :=
  match strand, σ.current with
  | none, _ => (σ, .null, none)
  | some _, none => (σ, .state, none)
  | some s, some current =>
    if (σ.strand s).state = .terminated then (σ, .ok, some (σ.strand s).exitCode)
    else if σ.wouldDeadlock (some current) (some s) = .true then (σ, .deadlock, none)
    else
      let σ := σ.modify current fun r => { r with state := .waiting, waitingOn := some s }
      (σ, .ok, some (σ.strand s).exitCode)

/-! ## Mutexes -/

variable [DecidableEq M]

/-- `seraph_cap_same_region`. -/
def sameRegion (a b : Capability) : Bool :=
  a.base = b.base ∧ a.length = b.length ∧ a.generation = b.generation

/-- `seraph_strand_mutex_init`, with the address of the mutex and its generation. -/
def mutexInit (addr generation : ℕ) : StrandMutex S where
  cap := .create addr 24 generation permRead
  holder := none
  waitQueue := none
  acquisitions := 0
  contentions := 0

/-- A free mutex goes to `current`, which has its capability in a slot. -/
def take (m : M) (current : S) (slot : ℕ) : Strands S M :=
  let σ := σ.modifyMutex m fun mutex =>
    { mutex with holder := some current, acquisitions := u64 (mutex.acquisitions + 1) }
  σ.modify current fun r => (r.setEntry slot
    { r.capTable slot with cap := (σ.mutex m).cap, status := .owned }).countUp

/-- `seraph_strand_mutex_acquire`. -/
def mutexAcquire (mutex : Option M) (destSlot : ℕ) : Strands S M × Capability :=
  match mutex, σ.current with
  | some m, some current =>
    if destSlot ≥ strandCapTableSize then (σ, .void)
    else
      match (σ.mutex m).holder with
      | none => (σ.take m current destSlot, (σ.mutex m).cap)
      | some holder =>
        if (σ.strand holder).waitingOn = some current then (σ, .void)
        else
          let waitQueue := (σ.mutex m).waitQueue
          let σ := σ.modifyMutex m fun mutex =>
            { mutex with
              contentions := u64 (mutex.contentions + 1)
              waitQueue := some current }
          (σ.modify current fun r =>
            { r with nextWaiter := waitQueue, state := .blocked, blockedOnMutex := some m }, .void)
  | _, _ => (σ, .void)

/-- `seraph_strand_mutex_release`. -/
def mutexRelease (mutex : Option M) (held : Capability) : Strands S M × StrandError :=
  match mutex, σ.current with
  | none, _ => (σ, .null)
  | some _, none => (σ, .state)
  | some m, some current =>
    if (σ.mutex m).holder ≠ some current then (σ, .perm)
    else if !sameRegion held (σ.mutex m).cap then (σ, .perm)
    else
      let slot := (List.range strandCapTableSize).find? fun i =>
        sameRegion ((σ.strand current).capTable i).cap (σ.mutex m).cap
      let σ := match slot with
        | none => σ
        | some i => (σ.capClear (some current) i).1
      match (σ.mutex m).waitQueue with
      | none => (σ.modifyMutex m fun mutex => { mutex with holder := none }, .ok)
      | some waiter =>
        let next := (σ.strand waiter).nextWaiter
        let σ := σ.modify waiter fun r =>
          { r with nextWaiter := none, state := .ready, blockedOnMutex := none }
        (σ.modifyMutex m fun mutex =>
          { mutex with
            waitQueue := next
            holder := some waiter
            acquisitions := u64 (mutex.acquisitions + 1) }, .ok)

/-- `seraph_strand_mutex_try_acquire`. -/
def mutexTryAcquire (mutex : Option M) (destSlot : ℕ) : Strands S M × Capability :=
  match mutex, σ.current with
  | some m, some current =>
    if destSlot ≥ strandCapTableSize then (σ, .void)
    else
      match (σ.mutex m).holder with
      | none => (σ.take m current destSlot, (σ.mutex m).cap)
      | some _ => (σ, .void)
  | _, _ => (σ, .void)

end Strands

end Seraph
