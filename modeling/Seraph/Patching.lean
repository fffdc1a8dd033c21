import Mathlib.Data.Int.Notation
import Mathlib.Data.List.Induction
import Seraph.ByteMemory

/-!
# Patches

A patch stores a number in a field of a memory. A list of patches changes only its fields
(`changesOnly_applyAll`), and where the field of a patch meets no other patch's it holds the number
afterwards (`load_applyAll`). `displacement` reads a field as a signed number : the low bytes of `d`
are read as `d` exactly if the field is wide enough for it (`bmod_eq_iff`).
-/

namespace Patching

open ByteMem

/-- A number for a field. -/
structure Patch where
  field : Region
  value : ℕ

/-- The memory with the number in the field. -/
def Patch.apply (m : Memory) (p : Patch) : Memory :=
  m.store p.field.start p.field.len p.value

/-- The patches, in order. -/
def applyAll (m : Memory) (ps : List Patch) : Memory :=
  ps.foldl Patch.apply m

@[simp] theorem applyAll_nil (m : Memory) : applyAll m [] = m :=
  rfl

@[simp] theorem applyAll_cons (m : Memory) (p : Patch) (ps : List Patch) :
    applyAll m (p :: ps) = applyAll (p.apply m) ps :=
  rfl

theorem applyAll_append (m : Memory) (ps qs : List Patch) :
    applyAll m (ps ++ qs) = applyAll (applyAll m ps) qs :=
  List.foldl_append

theorem changesOnly_apply (m : Memory) (p : Patch) : m.ChangesOnly [p.field] (p.apply m) :=
  Memory.changesOnly_store m _ _ _

/-- Patches change their fields. -/
theorem changesOnly_applyAll (ps : List Patch) (m : Memory) :
    m.ChangesOnly (ps.map Patch.field) (applyAll m ps) := by
  induction ps generalizing m with
  | nil => exact Memory.ChangesOnly.refl _ m
  | cons p ps ih => exact (changesOnly_apply m p).trans (ih (p.apply m))

/-- A field that meets no patch keeps its number. -/
theorem load_applyAll_of_disjoint {ps : List Patch} {r : Region} (m : Memory)
    (h : ∀ p ∈ ps, r.Disjoint p.field) : (applyAll m ps).load r.start r.len = m.load r.start r.len :=
  (changesOnly_applyAll ps m).load fun _ hs => by
    obtain ⟨p, hp, rfl⟩ := List.mem_map.1 hs
    exact h p hp

/-- A field holds the number of its patch. -/
theorem load_applyAll {ps : List Patch} {p : Patch} (m : Memory) (hp : p ∈ ps)
    (h : ∀ q ∈ ps, q = p ∨ p.field.Disjoint q.field) :
    (applyAll m ps).load p.field.start p.field.len = p.value % 256 ^ p.field.len := by
  induction ps using List.reverseRecOn with
  | nil => exact absurd hp List.not_mem_nil
  | append_singleton ps q ih =>
    rw [applyAll_append, applyAll_cons, applyAll_nil]
    have hps : ∀ r ∈ ps, r = p ∨ p.field.Disjoint r.field :=
      fun r hr => h r (List.mem_append_left _ hr)
    rcases h q (List.mem_append_right _ (List.mem_singleton_self q)) with rfl | hq
    · exact Memory.load_store_same _ _ _ _
    · rcases List.mem_append.1 hp with hmem | hmem
      · rw [← ih hmem hps]
        exact (changesOnly_apply _ q).load fun r hr => by
          rw [List.mem_singleton.1 hr]
          exact hq
      · rw [List.mem_singleton.1 hmem]
        exact Memory.load_store_same _ _ _ _

/-! ### Signed numbers -/

/-- The signed number in a field. -/
def displacement (m : Memory) (r : Region) : ℤ :=
  (m.load r.start r.len : ℤ).bmod (256 ^ r.len)

/-- Whether a number is in the range of `w` signed bytes. -/
def FitsBytes (w : ℕ) (d : ℤ) : Prop :=
  -((256 ^ w : ℕ) : ℤ) ≤ 2 * d ∧ 2 * d < (256 ^ w : ℕ)

instance (w : ℕ) (d : ℤ) : Decidable (FitsBytes w d) :=
  inferInstanceAs (Decidable (_ ∧ _))

/-- The low bytes of `d` read as a signed number are `v` : `v` is in range, and congruent to `d`. -/
theorem bmod_eq_iff {w : ℕ} (hw : 0 < w) {d v : ℤ} :
    d.bmod (256 ^ w) = v ↔ FitsBytes w v ∧ ((256 ^ w : ℕ) : ℤ) ∣ v - d := by
  have hpos : 0 < 256 ^ w := Nat.pow_pos (by decide)
  have heven : 256 ^ w % 2 = 0 := Nat.mod_eq_zero_of_dvd
    (Nat.dvd_trans (by decide : 2 ∣ 256) (dvd_pow_self 256 (Nat.ne_of_gt hw)))
  rw [Int.bmod_eq_iff hpos, FitsBytes, and_assoc]
  generalize 256 ^ w = b at heven
  refine ⟨fun ⟨h₁, h₂, h⟩ => ⟨by omega, by omega, h⟩, fun ⟨h₁, h₂, h⟩ => ⟨by omega, by omega, h⟩⟩

/-- The low bytes of `d` are read as `d` exactly if `d` is in range. -/
theorem bmod_self_iff {w : ℕ} (hw : 0 < w) {d : ℤ} : d.bmod (256 ^ w) = d ↔ FitsBytes w d := by
  rw [bmod_eq_iff hw, Int.sub_self]
  exact and_iff_left (Int.dvd_zero _)

/-- What is read in a field that holds the low bytes of `d`. -/
theorem displacement_of_load {m : Memory} {r : Region} {d : ℤ}
    (h : m.load r.start r.len = (BitVec.ofInt (8 * r.len) d).toNat) :
    displacement m r = d.bmod (256 ^ r.len) := by
  have hpow : 2 ^ (8 * r.len) = 256 ^ r.len := Nat.pow_mul 2 8 r.len
  rw [displacement, h, BitVec.toNat_ofInt, hpow]
  have hne : ((256 ^ r.len : ℕ) : ℤ) ≠ 0 := by
    exact_mod_cast (Nat.pow_pos (by decide : 0 < 256)).ne'
  rw [Int.toNat_of_nonneg (Int.emod_nonneg d hne), Int.emod_bmod]

end Patching
