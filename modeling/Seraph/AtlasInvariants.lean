import Mathlib.Order.Basic
import Seraph.ByteMemory
import Seraph.Fuel
import Seraph.Words

/-!
# Invariants of structures in Atlas

A semantic checkpoint validates the fields of the structures it knows, and repairs what it can.
Pointers are stored as addresses, so the memory here is that of the machine, and `Mapping` says
where the region of Atlas lies in it. NULL is the address 0.

Each kind of invariant has a validator, and all but the first one a repair. `validateInvariant` and
`recoverInvariant` choose among them. Only the repair of a cycle has a loop without a bound. It
takes fuel, and so do the functions that call it.
-/

namespace Seraph

open ByteMem Memory

namespace Checkpoint

/-- `SERAPH_ATLAS_MAX_CYCLE_DEPTH`. -/
@[irreducible] def maxCycleDepth : ℕ :=
  65536

/-- Where the region of an Atlas is mapped. -/
structure Mapping where
  base : ℕ
  size : ℕ
  fits : base + size ≤ 2 ^ 64

/-- `seraph_atlas_contains`. -/
def Mapping.contains (A : Mapping) (ptr : ℕ) : Bool :=
  A.base ≠ 0 && ptr ≠ 0 && A.base ≤ ptr && ptr < A.base + A.size

/-- `seraph_atlas_ptr_to_offset`. -/
def Mapping.ptrToOffset (A : Mapping) (ptr : ℕ) : ℕ :=
  if A.contains ptr then ptr - A.base else voidU64

/-- `Seraph_Atlas_Validate_Result`. -/
inductive ValidateResult where
  | ok
  | nullViolation
  | invalidPtr
  | cycleDetected
  | boundsExceeded
  | refcountInvalid
  | rangeExceeded
  | customFailed
  | error
deriving DecidableEq, Repr

/-- `Seraph_Atlas_Validator_Fn`, with the Atlas and its `user_data` : it reads the memory of the
structure at `data`. -/
abbrev ValidatorFn :=
  (mem : Memory) → (data fieldOffset fieldSize : ℕ) → ValidateResult

/-- `Seraph_Atlas_Recovery_Fn`, with the Atlas and its `user_data`. -/
abbrev RecoveryFn :=
  (mem : Memory) → (data fieldOffset fieldSize : ℕ) → (violation : ValidateResult) → Bool × Memory

/-- `Seraph_Atlas_Invariant_Type`, each with its member of `params`. -/
inductive InvariantType where
  | nullPtr
  | nullablePtr
  | noCycle (nextOffset : ℕ)
  | arrayBounds (countOffset elementSize maxCount : ℕ)
  | refcount (minCount : ℤ) (liveOnly : Bool)
  | range (min max : ℤ)
  | custom (validator : Option ValidatorFn) (recovery : Option RecoveryFn)
  | unknown

/-- `Seraph_Atlas_Invariant`. -/
structure Invariant where
  type : InvariantType
  fieldOffset : ℕ
  fieldSize : ℕ
  autoRecoverable : Bool

/-! ## Fields -/

/-- `read_ptr_field`. -/
def readPtrField (mem : Memory) (data offset : ℕ) : ℕ :=
  mem.load (data + offset) 8

/-- `write_ptr_field`. -/
def writePtrField (mem : Memory) (data offset value : ℕ) : Memory :=
  mem.store (data + offset) 8 value

/-- `read_size_field`. -/
def readSizeField (mem : Memory) (data offset : ℕ) : ℕ :=
  mem.load (data + offset) 8

/-- The `memcpy` of a `size_t` into the structure. -/
def writeSizeField (mem : Memory) (data offset value : ℕ) : Memory :=
  mem.store (data + offset) 8 value

/-- The sizes that `read_int_field` and `write_int_field` know. -/
def IntSize (size : ℕ) : Prop :=
  size = 1 ∨ size = 2 ∨ size = 4 ∨ size = 8

instance (size : ℕ) : Decidable (IntSize size) :=
  inferInstanceAs (Decidable (_ ∨ _))

/-- `read_int_field`. -/
def readIntField (mem : Memory) (data offset size : ℕ) : ℤ :=
  if IntSize size then (BitVec.ofNat (8 * size) (mem.load (data + offset) size)).toInt else 0

/-- `write_int_field`. -/
def writeIntField (mem : Memory) (data offset size : ℕ) (value : ℤ) : Memory :=
  if IntSize size then mem.store (data + offset) size (BitVec.ofInt (8 * size) value).toNat else mem

/-! ## Validators -/

section

variable (A : Mapping) (mem : Memory) (data fieldOffset fieldSize : ℕ)

/-- `validate_null_ptr`. -/
def validateNullPtr : ValidateResult :=
  if readPtrField mem data fieldOffset = 0 then .nullViolation else .ok

/-- `validate_nullable_ptr`. -/
def validateNullablePtr : ValidateResult :=
  let ptr := readPtrField mem data fieldOffset
  if ptr = 0 then .ok
  else if !A.contains ptr then .invalidPtr
  else .ok

/-- How the loop over a linked structure ends : at NULL, at a pointer that is not in Atlas, where
the two pointers meet, or after the last iteration. -/
inductive WalkEnd where
  | null
  | outside
  | meet (ptr : ℕ)
  | deep
deriving DecidableEq, Repr

/-- The loop that `validate_no_cycle` and `recover_no_cycle` share, with `rounds` iterations to
go. -/
def cycleWalk (nextOffset : ℕ) : (rounds slow fast : ℕ) → WalkEnd
  | 0, _, _ => .deep
  | rounds + 1, slow, fast =>
    if fast = 0 then .null
    else if !A.contains slow then .outside
    else
      let slow := readPtrField mem slow nextOffset
      if !A.contains fast then .outside
      else
        let fast := readPtrField mem fast nextOffset
        if fast = 0 then .null
        else if !A.contains fast then .outside
        else
          let fast := readPtrField mem fast nextOffset
          if slow = fast ∧ slow ≠ 0 then .meet fast
          else cycleWalk nextOffset rounds slow fast

/-- `validate_no_cycle`. -/
def validateNoCycle (nextOffset : ℕ) : ValidateResult :=
  let slow := readPtrField mem data fieldOffset
  if slow = 0 then .ok
  else
    match cycleWalk A mem nextOffset maxCycleDepth slow slow with
    | .null => .ok
    | .outside => .invalidPtr
    | .meet _ => .cycleDetected
    | .deep => .cycleDetected

/-- `validate_array_bounds`. -/
def validateArrayBounds (countOffset elementSize maxCount : ℕ) : ValidateResult :=
  let arrayPtr := readPtrField mem data fieldOffset
  let count := readSizeField mem data countOffset
  if arrayPtr = 0 then
    if count = 0 then .ok else .nullViolation
  else if !A.contains arrayPtr then .invalidPtr
  else if maxCount > 0 ∧ count > maxCount then .boundsExceeded
  else
    let totalSize := u64 (count * elementSize)
    let arrayEnd := u64 (arrayPtr + totalSize)
    if !A.contains (u64 (arrayEnd + (2 ^ 64 - 1))) ∧ count > 0 then .boundsExceeded
    else .ok

/-- `validate_refcount`. -/
def validateRefcount (minCount : ℤ) (liveOnly : Bool) : ValidateResult :=
  let refcount := readIntField mem data fieldOffset fieldSize
  if refcount < minCount then .refcountInvalid
  else if liveOnly ∧ refcount = 0 then .ok
  else .ok

/-- `validate_range`. -/
def validateRange (min max : ℤ) : ValidateResult :=
  let value := readIntField mem data fieldOffset fieldSize
  if value < min ∨ value > max then .rangeExceeded else .ok

/-- `validate_custom`. -/
def validateCustom : (validator : Option ValidatorFn) → ValidateResult
  | none => .ok
  | some validator => validator mem data fieldOffset fieldSize

/-- `validate_invariant`. -/
def validateInvariant (inv : Invariant) : ValidateResult :=
  match inv.type with
  | .nullPtr => validateNullPtr mem data inv.fieldOffset
  | .nullablePtr => validateNullablePtr A mem data inv.fieldOffset
  | .noCycle nextOffset => validateNoCycle A mem data inv.fieldOffset nextOffset
  | .arrayBounds countOffset elementSize maxCount =>
    validateArrayBounds A mem data inv.fieldOffset countOffset elementSize maxCount
  | .refcount minCount liveOnly =>
    validateRefcount mem data inv.fieldOffset inv.fieldSize minCount liveOnly
  | .range min max => validateRange mem data inv.fieldOffset inv.fieldSize min max
  | .custom validator _ => validateCustom mem data inv.fieldOffset inv.fieldSize validator
  | .unknown => .error

/-! ## Repairs -/

/-- `recover_nullable_ptr`. -/
def recoverNullablePtr : Bool × Memory :=
  (true, writePtrField mem data fieldOffset 0)

/-- The search for the start of a cycle. It gives `some none` where the repair gives up. -/
def findEntry (nextOffset : ℕ) : (fuel slow fast : ℕ) → Option (Option ℕ)
  | 0, _, _ => none
  | fuel + 1, slow, fast =>
    if slow = fast then some (some slow)
    else if !A.contains slow then some none
    else if !A.contains fast then some none
    else findEntry nextOffset fuel (readPtrField mem slow nextOffset)
      (readPtrField mem fast nextOffset)

/-- The search for the last node of a cycle, with `rounds` iterations to go. -/
def findLast (nextOffset cycleStart : ℕ) : (rounds prev current : ℕ) → ℕ
  | 0, prev, _ => prev
  | rounds + 1, prev, current =>
    if current = cycleStart then prev
    else if !A.contains current then prev
    else findLast nextOffset cycleStart rounds current (readPtrField mem current nextOffset)

/-- The link of the last node of the cycle is set to NULL. -/
def breakCycle (nextOffset cycleStart : ℕ) : Bool × Memory :=
  let prev := findLast A mem nextOffset cycleStart maxCycleDepth cycleStart
    (readPtrField mem cycleStart nextOffset)
  if prev ≠ 0 ∧ A.contains prev then (true, writePtrField mem prev nextOffset 0)
  else (false, mem)

/-- `recover_no_cycle`. -/
def recoverNoCycle (nextOffset fuel : ℕ) : Option (Bool × Memory) :=
  let slow := readPtrField mem data fieldOffset
  if slow = 0 then some (true, mem)
  else
    match cycleWalk A mem nextOffset maxCycleDepth slow slow with
    | .meet fast =>
      (findEntry A mem nextOffset fuel slow fast).map fun entry =>
        match entry with
        | none => (false, mem)
        | some cycleStart => breakCycle A mem nextOffset cycleStart
    | _ => some (true, mem)

/-- `recover_array_bounds`. -/
def recoverArrayBounds (countOffset elementSize maxCount : ℕ) : Bool × Memory :=
  let arrayPtr := readPtrField mem data fieldOffset
  let count := readSizeField mem data countOffset
  if arrayPtr = 0 then (true, writeSizeField mem data countOffset 0)
  else if !A.contains arrayPtr then (true, writeSizeField mem data countOffset 0)
  else if maxCount > 0 ∧ count > maxCount then
    (true, writeSizeField mem data countOffset maxCount)
  else
    let available := A.size - A.ptrToOffset arrayPtr
    let maxElements := if elementSize > 0 then available / elementSize else 0
    if count > maxElements then (true, writeSizeField mem data countOffset maxElements)
    else (true, mem)

/-- `recover_refcount`. -/
def recoverRefcount (minCount : ℤ) : Bool × Memory :=
  (true, writeIntField mem data fieldOffset fieldSize minCount)

/-- `recover_range`. -/
def recoverRange (min max : ℤ) : Bool × Memory :=
  let value := readIntField mem data fieldOffset fieldSize
  if value < min then (true, writeIntField mem data fieldOffset fieldSize min)
  else if value > max then (true, writeIntField mem data fieldOffset fieldSize max)
  else (true, mem)

/-- `recover_custom`. -/
def recoverCustom (violation : ValidateResult) : (recovery : Option RecoveryFn) → Bool × Memory
  | none => (false, mem)
  | some recovery => recovery mem data fieldOffset fieldSize violation

/-- `recover_invariant`. -/
def recoverInvariant (inv : Invariant) (violation : ValidateResult) (fuel : ℕ) :
    Option (Bool × Memory) :=
  if !inv.autoRecoverable then some (false, mem)
  else
    match inv.type with
    | .nullPtr => some (false, mem)
    | .nullablePtr => some (recoverNullablePtr mem data inv.fieldOffset)
    | .noCycle nextOffset => recoverNoCycle A mem data inv.fieldOffset nextOffset fuel
    | .arrayBounds countOffset elementSize maxCount =>
      some (recoverArrayBounds A mem data inv.fieldOffset countOffset elementSize maxCount)
    | .refcount minCount _ =>
      some (recoverRefcount mem data inv.fieldOffset inv.fieldSize minCount)
    | .range min max => some (recoverRange mem data inv.fieldOffset inv.fieldSize min max)
    | .custom _ recovery =>
      some (recoverCustom mem data inv.fieldOffset inv.fieldSize violation recovery)
    | .unknown => some (false, mem)

end

end Checkpoint

end Seraph
