import Seraph.ByteMemory
import Seraph.Words

/-!
# Capabilities

A capability is a byte range with a generation, eight permission bits and a type tag. It is
VOID if its base, its length or its generation has the VOID value, and it is sealed if its
type is not zero. New capabilities come from `derive`, `shrink`, `restrict`, `sealAs` and
`unsealAs`; memory is reached through the reads, the writes and `copy`, which refuse a VOID or
sealed capability, one without the permission, and a range that leaves its bounds.
-/

namespace Seraph

open ByteMem

/-- `Seraph_Capability`. -/
structure Capability where
  /-- Address, `voidU64` for the VOID pointer. -/
  base : ℕ
  length : ℕ
  generation : ℕ
  permissions : ℕ
  type : ℕ
  reserved : ℕ
deriving DecidableEq, Repr

/-- `SERAPH_CAP_READ`. -/
def permRead : ℕ :=
  0x01

/-- `SERAPH_CAP_WRITE`. -/
def permWrite : ℕ :=
  0x02

/-- `SERAPH_CAP_DERIVE`. -/
def permDerive : ℕ :=
  0x08

/-- `SERAPH_CAP_SEAL`. -/
def permSeal : ℕ :=
  0x10

/-- `SERAPH_CAP_UNSEAL`. -/
def permUnseal : ℕ :=
  0x20

namespace Capability

/-- All bytes zero. -/
def zero : Capability :=
  ⟨0, 0, 0, 0, 0, 0⟩

/-- `SERAPH_CAP_VOID`. -/
def void : Capability :=
  ⟨voidU64, voidU64, voidU32, voidU8, voidU8, voidU16⟩

/-- `seraph_cap_is_void`. -/
def isVoid (cap : Capability) : Bool :=
  cap.base = voidU64 ∨ cap.length = voidU64 ∨ cap.generation = voidU32

/-- `seraph_cap_create`. -/
def create (base length generation perms : ℕ) : Capability :=
  if base = voidU64 ∨ length = voidU64 ∨ generation = voidU32 then
    { void with type := 0, reserved := 0 }
  else ⟨base, length, generation, perms, 0, 0⟩

/-! ## Checks -/

variable (cap : Capability)

/-- `seraph_cap_has_perm`. -/
def hasPerm (required : ℕ) : Bool :=
  !cap.isVoid && decide (cap.permissions &&& required = required)

/-- `seraph_cap_can_read`. -/
def canRead : Bool :=
  cap.hasPerm permRead

/-- `seraph_cap_can_write`. -/
def canWrite : Bool :=
  cap.hasPerm permWrite

/-- `seraph_cap_can_derive`. -/
def canDerive : Bool :=
  cap.hasPerm permDerive

/-- `seraph_cap_is_sealed`. -/
def isSealed : Bool :=
  cap.type ≠ 0

/-- `seraph_cap_in_bounds`. -/
def inBounds (offset : ℕ) : Bool :=
  !cap.isVoid && decide (offset < cap.length)

/-- `seraph_cap_range_valid`. -/
def rangeValid (offset size : ℕ) : Bool :=
  if cap.isVoid then false
  else if offset > cap.length then false
  else decide (size ≤ cap.length - offset)

/-! ## New capabilities from old ones -/

/-- `seraph_cap_derive`. -/
def derive (parent : Capability) (offset length perms : ℕ) : Capability :=
  if parent.isVoid then void
  else if !parent.canDerive then void
  else if offset > parent.length then void
  else if length > parent.length - offset then void
  else if perms &&& parent.permissions ≠ perms then void
  else
    { base := u64 (parent.base + offset)
      length
      generation := parent.generation
      permissions := perms &&& parent.permissions
      -- The source calls the result unsealed, whatever the type of the parent.
      type := 0
      reserved := 0 }

/-- `seraph_cap_shrink`. -/
def shrink (offset newLength : ℕ) : Capability :=
  if cap.isVoid then void
  else if offset > cap.length then void
  else if newLength > cap.length - offset then void
  else { cap with base := u64 (cap.base + offset), length := newLength, reserved := 0 }

/-- `seraph_cap_restrict`. -/
def restrict (removePerms : ℕ) : Capability :=
  if cap.isVoid then void
  else { cap with permissions := cap.permissions &&& notU8 removePerms }

/-- `seraph_cap_seal`. -/
def sealAs (type : ℕ) : Capability :=
  if cap.isVoid then void
  else if !cap.hasPerm permSeal then void
  else if type = 0 then void
  else { cap with type, permissions := cap.permissions &&& notU8 permSeal }

/-- `seraph_cap_unseal`. -/
def unsealAs (expectedType : ℕ) : Capability :=
  if cap.isVoid then void
  else if !cap.hasPerm permUnseal then void
  else if cap.type ≠ expectedType then void
  else if expectedType = 0 then void
  else { cap with type := 0, permissions := cap.permissions &&& notU8 permUnseal }

/-- `seraph_cap_is_subset`. -/
def isSubset (a b : Capability) : Bool :=
  if a.isVoid || b.isVoid then false
  else if a.generation ≠ b.generation then false
  else if a.base < b.base then false
  else if u64 (a.base + a.length) > u64 (b.base + b.length) then false
  else decide (a.permissions &&& notU8 b.permissions = 0)

/-! ## Access to memory -/

/-- `seraph_cap_read_u8`. -/
def readU8 (m : Memory) (offset : ℕ) : ℕ :=
  if cap.isVoid then voidU8
  else if !cap.canRead then voidU8
  else if !cap.inBounds offset then voidU8
  else if cap.isSealed then voidU8
  else (m (u64 (cap.base + offset))).toNat

/-- The reads of `width` bytes, `VOID` being the value of the type. -/
def readWord (m : Memory) (offset width void : ℕ) : ℕ :=
  if cap.isVoid then void
  else if !cap.canRead then void
  else if !cap.rangeValid offset width then void
  else if cap.isSealed then void
  else m.load (u64 (cap.base + offset)) width

/-- `seraph_cap_read_u16`. -/
def readU16 (m : Memory) (offset : ℕ) : ℕ :=
  cap.readWord m offset 2 voidU16

/-- `seraph_cap_read_u32`. -/
def readU32 (m : Memory) (offset : ℕ) : ℕ :=
  cap.readWord m offset 4 voidU32

/-- `seraph_cap_read_u64`. -/
def readU64 (m : Memory) (offset : ℕ) : ℕ :=
  cap.readWord m offset 8 voidU64

/-- `seraph_cap_write_u8`. -/
def writeU8 (m : Memory) (offset value : ℕ) : Memory × Vbit :=
  if cap.isVoid then (m, .void)
  else if !cap.canWrite then (m, .false)
  else if !cap.inBounds offset then (m, .false)
  else if cap.isSealed then (m, .false)
  else if value = voidU8 then (m, .false)
  else (m.store (u64 (cap.base + offset)) 1 value, .true)

/-- The writes of `width` bytes, `VOID` being the value of the type. -/
def writeWord (m : Memory) (offset width void value : ℕ) : Memory × Vbit :=
  if cap.isVoid then (m, .void)
  else if !cap.canWrite then (m, .false)
  else if !cap.rangeValid offset width then (m, .false)
  else if cap.isSealed then (m, .false)
  else if value = void then (m, .false)
  else (m.store (u64 (cap.base + offset)) width value, .true)

/-- `seraph_cap_write_u16`. -/
def writeU16 (m : Memory) (offset value : ℕ) : Memory × Vbit :=
  cap.writeWord m offset 2 voidU16 value

/-- `seraph_cap_write_u32`. -/
def writeU32 (m : Memory) (offset value : ℕ) : Memory × Vbit :=
  cap.writeWord m offset 4 voidU32 value

/-- `seraph_cap_write_u64`. -/
def writeU64 (m : Memory) (offset value : ℕ) : Memory × Vbit :=
  cap.writeWord m offset 8 voidU64 value

/-- `seraph_cap_copy`. -/
def copy (m : Memory) (dst : Capability) (dstOffset : ℕ) (src : Capability)
    (srcOffset length : ℕ) : Memory × Vbit :=
  if dst.isVoid || src.isVoid then (m, .void)
  else if !dst.canWrite then (m, .false)
  else if !src.canRead then (m, .false)
  else if !dst.rangeValid dstOffset length then (m, .false)
  else if !src.rangeValid srcOffset length then (m, .false)
  else if dst.isSealed || src.isSealed then (m, .false)
  else (m.copy (u64 (dst.base + dstOffset)) (u64 (src.base + srcOffset)) length, .true)

/-! ## What the operations return -/

@[simp] theorem isVoid_void : void.isVoid = true :=
  rfl

theorem isVoid_iff : cap.isVoid = true ↔
    cap.base = voidU64 ∨ cap.length = voidU64 ∨ cap.generation = voidU32 := by
  simp [isVoid]

/-- `create` returns a VOID capability if one of its arguments is VOID. -/
theorem isVoid_create (base length generation perms : ℕ) :
    (create base length generation perms).isVoid = true ↔
      base = voidU64 ∨ length = voidU64 ∨ generation = voidU32 := by
  unfold create
  split
  · next h => simp [h, isVoid, void]
  · rw [isVoid_iff]

variable {cap}

theorem hasPerm_iff {required : ℕ} : cap.hasPerm required = true ↔
    cap.isVoid = false ∧ cap.permissions &&& required = required := by
  simp [hasPerm]

theorem rangeValid_iff {offset size : ℕ} : cap.rangeValid offset size = true ↔
    cap.isVoid = false ∧ offset + size ≤ cap.length := by
  unfold rangeValid
  cases cap.isVoid
  · simp only [Bool.false_eq_true, if_false, true_and]
    split
    · simp only [Bool.false_eq_true, false_iff]
      omega
    · simp only [decide_eq_true_eq]
      omega
  · simp

/-- The request of a derivation passes the checks of `derive`. -/
structure Derivable (parent : Capability) (offset length perms : ℕ) : Prop where
  notVoid : parent.isVoid = false
  canDerive : parent.canDerive = true
  inside : offset + length ≤ parent.length
  perms : perms &&& parent.permissions = perms

/-- `derive` returns VOID or the capability that was asked for, unsealed. -/
theorem derive_cases (parent : Capability) (offset length perms : ℕ) :
    ¬ Derivable parent offset length perms ∧ parent.derive offset length perms = void ∨
      Derivable parent offset length perms ∧ parent.derive offset length perms =
        ⟨u64 (parent.base + offset), length, parent.generation, perms, 0, 0⟩ := by
  by_cases h : Derivable parent offset length perms
  · obtain ⟨hvoid, hcan, hin, hperms⟩ := h
    refine .inr ⟨⟨hvoid, hcan, hin, hperms⟩, ?_⟩
    rw [derive, if_neg (by simp [hvoid]), if_neg (by simp [hcan]), if_neg (by omega),
      if_neg (by omega), if_neg (not_not.2 hperms), hperms]
  · refine .inl ⟨h, ?_⟩
    unfold derive
    split
    · rfl
    split
    · rfl
    split
    · rfl
    split
    · rfl
    split
    · rfl
    · next hvoid hcan hoff hlen hperms =>
      exact absurd ⟨by simpa using hvoid, by simpa using hcan, by omega, not_not.1 hperms⟩ h

/-- `shrink` returns VOID or a range inside the old one. -/
theorem shrink_cases (cap : Capability) (offset newLength : ℕ) :
    cap.shrink offset newLength = void ∨
      offset + newLength ≤ cap.length ∧ cap.shrink offset newLength =
        { cap with base := u64 (cap.base + offset), length := newLength, reserved := 0 } := by
  unfold shrink
  split
  · exact .inl rfl
  split
  · exact .inl rfl
  split
  · exact .inl rfl
  · exact .inr ⟨by omega, rfl⟩

theorem restrict_cases (cap : Capability) (removePerms : ℕ) :
    cap.restrict removePerms = void ∨ cap.restrict removePerms =
      { cap with permissions := cap.permissions &&& notU8 removePerms } := by
  unfold restrict
  split
  · exact .inl rfl
  · exact .inr rfl

theorem sealAs_cases (cap : Capability) (type : ℕ) :
    cap.sealAs type = void ∨ type ≠ 0 ∧ cap.sealAs type =
      { cap with type, permissions := cap.permissions &&& notU8 permSeal } := by
  unfold sealAs
  split
  · exact .inl rfl
  split
  · exact .inl rfl
  split
  · exact .inl rfl
  · next htype => exact .inr ⟨htype, rfl⟩

theorem unsealAs_cases (cap : Capability) (expectedType : ℕ) :
    cap.unsealAs expectedType = void ∨ cap.unsealAs expectedType =
      { cap with type := 0, permissions := cap.permissions &&& notU8 permUnseal } := by
  unfold unsealAs
  split
  · exact .inl rfl
  split
  · exact .inl rfl
  split
  · exact .inl rfl
  split
  · exact .inl rfl
  · exact .inr rfl

end Capability

end Seraph
