import Seraph.Capability

/-!
# Capabilities only lose authority

`Attenuates root cap` is the order of capabilities : the bytes and the permissions of `cap`
are among those of `root`, and both have one generation. It is reflexive and transitive, and
where the end of the root does not wrap it implies `isSubset`. Each operation that makes a
capability from another returns VOID or goes down in this order (`CapOp.attenuates_run`), so a
capability that any sequence of operations makes from a root stays below the root
(`CapOp.attenuates_root`).
-/

namespace Seraph

namespace Capability

/-- `cap` gives no more than `root`. -/
structure Attenuates (root cap : Capability) : Prop where
  base : root.base ≤ cap.base
  limit : cap.base + cap.length ≤ root.base + root.length
  permissions : cap.permissions &&& root.permissions = cap.permissions
  generation : cap.generation = root.generation

namespace Attenuates

variable {root cap cap' : Capability}

theorem refl (cap : Capability) : Attenuates cap cap :=
  ⟨le_rfl, le_rfl, Nat.and_self _, rfl⟩

theorem trans (h : Attenuates root cap) (h' : Attenuates cap cap') : Attenuates root cap' := by
  refine ⟨h.base.trans h'.base, h'.limit.trans h.limit, ?_, h'.generation.trans h.generation⟩
  rw [← h'.permissions, Nat.and_assoc, h.permissions]

/-- The order implies `seraph_cap_is_subset`. -/
theorem isSubset (h : Attenuates root cap) (hcap : cap.isVoid = false)
    (hroot : root.isVoid = false) (hwrap : root.base + root.length < 2 ^ 64) :
    cap.isSubset root = true := by
  have hlimit := h.limit
  rw [Capability.isSubset, if_neg (by simp [hcap, hroot]), if_neg (not_not.2 h.generation),
    if_neg (Nat.not_lt.2 h.base), u64_of_lt (hlimit.trans_lt hwrap), u64_of_lt hwrap,
    if_neg (Nat.not_lt.2 hlimit), decide_eq_true_eq]
  exact and_notU8_eq_zero h.permissions

end Attenuates

variable {cap : Capability}

/-- Moving the base up inside the old range. -/
theorem attenuates_inside (hwrap : cap.base + cap.length < 2 ^ 64) {offset length perms : ℕ}
    (hin : offset + length ≤ cap.length) (hperms : perms &&& cap.permissions = perms)
    (type reserved : ℕ) :
    Attenuates cap ⟨u64 (cap.base + offset), length, cap.generation, perms, type, reserved⟩ := by
  have hbase : u64 (cap.base + offset) = cap.base + offset := u64_of_lt (by omega)
  refine ⟨?_, ?_, hperms, rfl⟩
  · simp only [hbase]
    omega
  · simp only [hbase]
    omega

/-- Taking permissions away. -/
theorem attenuates_mask (mask type : ℕ) :
    Attenuates cap { cap with permissions := cap.permissions &&& mask, type } := by
  refine ⟨le_rfl, le_rfl, ?_, rfl⟩
  simp only
  rw [Nat.and_assoc, Nat.and_comm mask, ← Nat.and_assoc, Nat.and_self]

end Capability

/-- An operation that makes a capability from another. -/
inductive CapOp where
  | derive (offset length perms : ℕ)
  | shrink (offset newLength : ℕ)
  | restrict (removePerms : ℕ)
  | sealAs (type : ℕ)
  | unsealAs (expectedType : ℕ)
deriving DecidableEq, Repr

namespace CapOp

open Capability

/-- The capability that an operation returns. -/
def run (cap : Capability) : CapOp → Capability
  | derive offset length perms => cap.derive offset length perms
  | shrink offset newLength => cap.shrink offset newLength
  | restrict removePerms => cap.restrict removePerms
  | sealAs type => cap.sealAs type
  | unsealAs expectedType => cap.unsealAs expectedType

variable {root cap : Capability}

/-- Nothing is made from a VOID capability. -/
theorem run_of_isVoid (h : cap.isVoid = true) (op : CapOp) : run cap op = void := by
  cases op <;>
    simp [run, Capability.derive, Capability.shrink, Capability.restrict, Capability.sealAs,
      Capability.unsealAs, h]

/-- An operation returns VOID or a capability below the one it is given. -/
theorem attenuates_run (hwrap : cap.base + cap.length < 2 ^ 64) (op : CapOp) :
    run cap op = void ∨ Attenuates cap (run cap op) := by
  cases op with
  | derive offset length perms =>
    rcases derive_cases cap offset length perms with ⟨-, h⟩ | ⟨hreq, h⟩
    · exact .inl h
    · refine .inr ?_
      rw [run, h]
      exact attenuates_inside hwrap hreq.inside hreq.perms 0 0
  | shrink offset newLength =>
    rcases shrink_cases cap offset newLength with h | ⟨hin, h⟩
    · exact .inl h
    · refine .inr ?_
      rw [run, h]
      exact attenuates_inside hwrap hin (Nat.and_self _) _ 0
  | restrict removePerms =>
    rcases restrict_cases cap removePerms with h | h
    · exact .inl h
    · refine .inr ?_
      rw [run, h]
      exact attenuates_mask _ cap.type
  | sealAs type =>
    rcases sealAs_cases cap type with h | ⟨-, h⟩
    · exact .inl h
    · refine .inr ?_
      rw [run, h]
      exact attenuates_mask _ type
  | unsealAs expectedType =>
    rcases unsealAs_cases cap expectedType with h | h
    · exact .inl h
    · refine .inr ?_
      rw [run, h]
      exact attenuates_mask _ 0

/-- A sequence of operations returns VOID or a capability below the root. -/
theorem isVoid_or_attenuates (hwrap : root.base + root.length < 2 ^ 64) (ops : List CapOp) :
    (ops.foldl run root).isVoid = true ∨ Attenuates root (ops.foldl run root) := by
  refine List.foldlRecOn (motive := fun cap => cap.isVoid = true ∨ Attenuates root cap) ops run
    (.inr (.refl root)) fun cap hcap op _ => ?_
  rcases hcap with hvoid | hle
  · exact .inl (by rw [run_of_isVoid hvoid, isVoid_void])
  · rcases attenuates_run (hle.limit.trans_lt hwrap) op with h | h
    · exact .inl (by rw [h, isVoid_void])
    · exact .inr (hle.trans h)

/-- **Monotonicity.** What any sequence of operations makes from a root is VOID, or lies below
the root and is a subset of it by `seraph_cap_is_subset`. -/
theorem attenuates_root (hroot : root.isVoid = false)
    (hwrap : root.base + root.length < 2 ^ 64) (ops : List CapOp) :
    (ops.foldl run root).isVoid = true ∨
      Attenuates root (ops.foldl run root) ∧ (ops.foldl run root).isSubset root = true := by
  rcases isVoid_or_attenuates hwrap ops with h | h
  · exact .inl h
  cases hvoid : (ops.foldl run root).isVoid with
  | true => exact .inl rfl
  | false => exact .inr ⟨h, h.isSubset hvoid hroot hwrap⟩

/-- A page with all permissions, derived, shrunk, sealed and restricted. -/
theorem attenuates_root_page :
    Capability.isVoid ([derive 256 1024 0x3F, shrink 16 64, sealAs 7, restrict 0x02].foldl run
        (create 4096 4096 1 0xFF)) = false ∧
      Attenuates (create 4096 4096 1 0xFF)
        ([derive 256 1024 0x3F, shrink 16 64, sealAs 7, restrict 0x02].foldl run
          (create 4096 4096 1 0xFF)) := by
  have hvoid : Capability.isVoid ([derive 256 1024 0x3F, shrink 16 64, sealAs 7,
      restrict 0x02].foldl run (create 4096 4096 1 0xFF)) = false := by decide
  refine ⟨hvoid, ?_⟩
  have hroot : (create 4096 4096 1 0xFF).isVoid = false := by decide
  rcases attenuates_root hroot (by decide)
    [derive 256 1024 0x3F, shrink 16 64, sealAs 7, restrict 0x02] with h | h
  · exact absurd (hvoid.symm.trans h) (by decide)
  · exact h.1

end CapOp

end Seraph
