import Mathlib.Algebra.Group.Nat.Defs
import Seraph.Capability
import Seraph.Runs

/-!
# Arenas

An arena hands out blocks of one piece of memory by moving a pointer, and takes them all back with
`reset`, which brings the next generation. A capability of a block bears the generation that it was
made in, and is good in this one only.

Addresses and sizes are words of 64 bits ; the calls of `ArenaOp` take them as such. The log, the
file behind a mapped arena and `destroy` are left out.
-/

namespace Seraph

open ByteMem Runs

/-- `SERAPH_ARENA_DEFAULT_ALIGNMENT`. -/
def arenaDefaultAlignment : ℕ := 64

/-- `SERAPH_ARENA_MAX_GENERATION`. -/
def arenaMaxGeneration : ℕ := voidU32 - 1

/-- `SERAPH_ARENA_FLAG_ZERO_ON_ALLOC`. -/
def arenaFlagZeroOnAlloc : ℕ := 0x01

/-- `SERAPH_ARENA_FLAG_ZERO_ON_RESET`. -/
def arenaFlagZeroOnReset : ℕ := 0x02

/-- The difference of two `uint64_t`. -/
def sub64 (a b : ℕ) : ℕ :=
  u64 (a + 2 ^ 64 - b)

/-- `Seraph_Arena`, and the bytes in memory. -/
structure Arena where
  memory : ℕ
  capacity : ℕ
  used : ℕ
  generation : ℕ
  alignment : ℕ
  flags : ℕ
  allocCount : ℕ
  bytes : Memory

namespace Arena

/-- `seraph_arena_create` with the memory that the system gives, whose address is 0 if there is
none. -/
def create (memory : ℕ) (bytes : Memory) (capacity alignment flags : ℕ) : Option Arena :=
  if capacity = 0 then none
  else
    let alignment := if alignment = 0 then arenaDefaultAlignment else alignment
    if alignment &&& sub64 alignment 1 ≠ 0 then none
    else if memory = 0 then none
    else some
      { memory
        capacity
        used := 0
        generation := 1
        alignment := u32 alignment
        flags
        allocCount := 0
        bytes := if flags &&& arenaFlagZeroOnAlloc ≠ 0 then bytes.fill memory capacity 0
          else bytes }

variable (arena : Arena)

/-- `seraph_arena_is_valid`. -/
def isValid : Bool :=
  arena.memory ≠ 0 && arena.capacity > 0

/-- `seraph_arena_reset`. -/
def reset : Arena × ℕ :=
  if !arena.isValid then (arena, voidU32)
  else
    let generation :=
      if arena.generation ≥ arenaMaxGeneration then 1 else u32 (arena.generation + 1)
    ({ arena with
        bytes := if arena.flags &&& arenaFlagZeroOnReset ≠ 0
          then arena.bytes.fill arena.memory arena.used 0 else arena.bytes
        used := 0
        allocCount := 0
        generation }, generation)

/-- `seraph_arena_alloc`. -/
def alloc (size align : ℕ) : Arena × ℕ :=
  if !arena.isValid then (arena, voidU64)
  else if size = 0 then (arena, voidU64)
  else
    let align := if align = 0 then arena.alignment else align
    if align &&& sub64 align 1 ≠ 0 then (arena, voidU64)
    else
      let currentAddr := u64 (arena.memory + arena.used)
      let alignedAddr := sub64 (u64 (currentAddr + align)) 1 &&& (2 ^ 64 - 1 - sub64 align 1)
      let alignedOffset := u64 (arena.used + sub64 alignedAddr currentAddr)
      if alignedOffset < arena.used then (arena, voidU64)
      else
        let newUsed := u64 (alignedOffset + size)
        if newUsed > arena.capacity ∨ newUsed < alignedOffset then (arena, voidU64)
        else
          let ptr := u64 (arena.memory + alignedOffset)
          ({ arena with
              used := newUsed
              allocCount := u32 (arena.allocCount + 1)
              bytes := if arena.flags &&& arenaFlagZeroOnAlloc ≠ 0
                then arena.bytes.fill ptr size 0 else arena.bytes }, ptr)

/-- `seraph_arena_alloc_array`. -/
def allocArray (elemSize count align : ℕ) : Arena × ℕ :=
  if count = 0 ∨ elemSize = 0 then (arena, voidU64)
  else
    let total := u64 (elemSize * count)
    if total / elemSize ≠ count then (arena, voidU64)
    else arena.alloc total align

/-- `seraph_arena_calloc`. -/
def calloc (size align : ℕ) : Arena × ℕ :=
  let r := arena.alloc size align
  if r.2 ≠ voidU64 then ({ r.1 with bytes := r.1.bytes.fill r.2 size 0 }, r.2)
  else r

/-- `seraph_arena_get_capability`. -/
def getCapability (ptr size perms : ℕ) : Capability :=
  if !arena.isValid then .void
  else if ptr = 0 ∨ ptr = voidU64 then .void
  else if size = 0 then .void
  else
    let arenaEnd := u64 (arena.memory + arena.used)
    let ptrEnd := u64 (ptr + size)
    if ptr < arena.memory ∨ ptrEnd > arenaEnd ∨ ptrEnd < ptr then .void
    else .create ptr size arena.generation perms

/-- `seraph_arena_check_capability`. -/
def checkCapability (cap : Capability) : Vbit :=
  if !arena.isValid then .void
  else if cap.isVoid then .void
  else if cap.generation ≠ arena.generation then .false
  else
    let arenaEnd := u64 (arena.memory + arena.capacity)
    let capEnd := u64 (cap.base + cap.length)
    if cap.base < arena.memory ∨ capEnd > arenaEnd ∨ capEnd < cap.base then .false
    else .true

end Arena

/-! ## Runs -/

/-- A call that changes an arena. -/
inductive ArenaOp where
  | alloc (size align : UInt64)
  | allocArray (elemSize count align : UInt64)
  | calloc (size align : UInt64)
  | reset
deriving DecidableEq, Repr

/-- One call, with the pointer or the generation that it returns. -/
def ArenaOp.step (arena : Arena) : ArenaOp → Arena × ℕ
  | alloc size align => arena.alloc size.toNat align.toNat
  | allocArray elemSize count align => arena.allocArray elemSize.toNat count.toNat align.toNat
  | calloc size align => arena.calloc size.toNat align.toNat
  | reset => arena.reset

/-- The bytes and the alignment that a call asks for. -/
def ArenaOp.request : ArenaOp → Option (ℕ × ℕ)
  | alloc size align => some (size.toNat, align.toNat)
  | allocArray elemSize count align => some (elemSize.toNat * count.toNat, align.toNat)
  | calloc size align => some (size.toNat, align.toNat)
  | reset => none

/-- A block and its alignment. -/
structure ArenaBlock where
  region : Region
  align : ℕ
deriving DecidableEq, Repr

/-- The blocks since the last reset after one more call, the last one first. -/
def noteBlock (blocks : List ArenaBlock) (c : Call Arena ArenaOp ℕ) : List ArenaBlock :=
  match c.op.request with
  | none => []
  | some (size, align) =>
    if c.result = voidU64 then blocks
    else ⟨⟨c.result, size⟩, if align = 0 then c.before.alignment else align⟩ :: blocks

/-- The blocks that a run has returned since its last reset. -/
def blocksSinceReset (arena : Arena) (ops : List ArenaOp) : List ArenaBlock :=
  (calls ArenaOp.step arena ops).foldl noteBlock []

/-- The number of resets. -/
def resets (ops : List ArenaOp) : ℕ :=
  ops.count .reset

end Seraph
