import Seraph.SerialLayout
import Seraph.Words
import Seraph.X64EncodeFaithful
import Seraph.X64Lower
import Seraph.X86Machine

/-!
# The layout of Celestial types

Sizes, alignments and field offsets as `celestial_ir.c` computes them, on 64 bits. An alignment is a
power of two (`align_two_pow`) and divides the size (`align_dvd_size`). The fields of a struct whose
size does not wrap around are aligned, disjoint and inside it (`placed_of_finish_le`). The lowering
of field accesses takes every field for one of eight bytes, which is right for the structs whose
fields all are (`laidOut_iff`).
-/

namespace Seraph

open SerialLayout X86

/-- `Celestial_Type`, as far as its layout depends on it. `absent` is NULL. -/
inductive CelestialType where
  | absent
  | void | bool
  | i8 | i16 | i32 | i64
  | u8 | u16 | u32 | u64
  | scalar | dual | galactic
  | capability | substrate | pointer | slice | str | function
  | voidable (inner : CelestialType)
  | struct (fields : List CelestialType)
  | array (elem : CelestialType) (length : ℕ)
  | enum (payloads : List CelestialType)

namespace CelestialType

mutual

/-- `celestial_type_align`. -/
def align : CelestialType → ℕ
  | absent | void | bool | i8 | u8 => 1
  | i16 | u16 => 2
  | i32 | u32 => 4
  | i64 | u64 => 8
  | scalar | dual | galactic => 16
  | capability | substrate | pointer | slice | str | function => 8
  | voidable inner => inner.align
  | struct fields => maxAlign fields 1
  | array elem _ => elem.align
  | enum _ => 8

/-- The loop over the fields of a struct in `celestial_type_align`. -/
def maxAlign : List CelestialType → ℕ → ℕ
  | [], max_align => max_align
  | field :: fields, max_align =>
    maxAlign fields (if max_align < field.align then field.align else max_align)

end

mutual

/-- `celestial_type_size`. -/
def size : CelestialType → ℕ
  | absent | void => 0
  | bool | i8 | u8 => 1
  | i16 | u16 => 2
  | i32 | u32 => 4
  | i64 | u64 => 8
  | scalar => 16
  | dual => 32
  | galactic => 64
  | capability => 32
  | substrate | pointer | function => 8
  | slice | str => 16
  | voidable inner => inner.size
  | struct fields => alignUp (fieldsEnd fields 0) (align (struct fields))
  | array elem length => Seraph.u64 (elem.size * length)
  | enum payloads => Seraph.u64 (8 + alignUp (maxPayload payloads 0) 8)

/-- The loop over the fields of a struct. -/
def fieldsEnd : List CelestialType → ℕ → ℕ
  | [], total => total
  | field :: fields, total =>
    fieldsEnd fields (Seraph.u64 (alignUp total field.align + field.size))

/-- The loop over the variants of an enum. A payload that is NULL has size 0. -/
def maxPayload : List CelestialType → ℕ → ℕ
  | [], max_payload => max_payload
  | payload :: payloads, max_payload =>
    maxPayload payloads (if max_payload < payload.size then payload.size else max_payload)

end

/-- The fields of a struct. -/
def fields : CelestialType → List CelestialType
  | struct fields => fields
  | _ => []

/-- `celestial_type_field_offset`. -/
def fieldOffset (type : CelestialType) (field_idx : ℕ) : ℕ :=
  match type with
  | struct fields =>
    match fields[field_idx]? with
    | some target => alignUp (fieldsEnd (fields.take field_idx) 0) target.align
    | none => 0
  | _ => 0

/-! ## Alignments and sizes -/

mutual

theorem align_two_pow : (type : CelestialType) → ∃ k ≤ 4, type.align = 2 ^ k
  | absent | void | bool | i8 | u8 => ⟨0, by decide, rfl⟩
  | i16 | u16 => ⟨1, by decide, rfl⟩
  | i32 | u32 => ⟨2, by decide, rfl⟩
  | i64 | u64 | capability | substrate | pointer | slice | str | function | enum _ =>
    ⟨3, by decide, rfl⟩
  | scalar | dual | galactic => ⟨4, by decide, rfl⟩
  | voidable inner => align_two_pow inner
  | struct fields => maxAlign_two_pow fields ⟨0, by decide, rfl⟩
  | array elem _ => align_two_pow elem

theorem maxAlign_two_pow : (fields : List CelestialType) → {max_align : ℕ} →
    (∃ k ≤ 4, max_align = 2 ^ k) → ∃ k ≤ 4, maxAlign fields max_align = 2 ^ k
  | [], _, h => h
  | field :: fields, max_align, h => by
    rw [maxAlign]
    refine maxAlign_two_pow fields ?_
    split_ifs
    · exact align_two_pow field
    · exact h

end

theorem align_pos (type : CelestialType) : 0 < type.align := by
  obtain ⟨k, -, hk⟩ := type.align_two_pow
  rw [hk]
  exact Nat.two_pow_pos k

theorem align_le (type : CelestialType) : type.align ≤ 16 := by
  obtain ⟨k, hk, hpow⟩ := type.align_two_pow
  rw [hpow]
  exact Nat.pow_le_pow_right (by decide) hk

/-- An alignment divides what is rounded up to it. -/
theorem align_dvd_alignUp (type : CelestialType) (x : ℕ) : type.align ∣ alignUp x type.align := by
  obtain ⟨k, hk, hpow⟩ := type.align_two_pow
  rw [hpow, alignUp_two_pow x (hk.trans (by decide))]
  exact Nat.dvd_mul_left _ _

/-- An alignment divides what is left of its multiples on 64 bits. -/
theorem align_dvd_u64 {type : CelestialType} {n : ℕ} (h : type.align ∣ n) :
    type.align ∣ Seraph.u64 n := by
  obtain ⟨k, hk, hpow⟩ := type.align_two_pow
  rw [hpow] at h ⊢
  exact (Nat.dvd_mod_iff (Nat.pow_dvd_pow 2 (hk.trans (by decide)))).mpr h

theorem align_dvd_size : (type : CelestialType) → type.align ∣ type.size
  | absent | void | bool | i8 | u8 => Nat.one_dvd _
  | i16 | u16 | i32 | u32 | i64 | u64 | capability | substrate | pointer | slice | str | function
  | scalar | dual | galactic => by decide
  | voidable inner => align_dvd_size inner
  | struct fields => align_dvd_alignUp (struct fields) (fieldsEnd fields 0)
  | array elem length => @align_dvd_u64 elem _ ((align_dvd_size elem).mul_right length)
  | enum payloads => by
    refine @align_dvd_u64 (enum payloads) _ (Nat.dvd_add (Nat.dvd_refl 8) ?_)
    exact align_dvd_alignUp (enum payloads) (maxPayload payloads 0)

/-! ## Fields one after the other -/

/-- A field, as an item to be placed. -/
def item (type : CelestialType) : Item :=
  ⟨type.align, type.size⟩

theorem item_align_pos (fields : List CelestialType) : ∀ i ∈ fields.map item, 0 < i.align := by
  intro i hi
  obtain ⟨field, -, rfl⟩ := List.mem_map.mp hi
  exact field.align_pos

/-- Below the last multiples of 16, `(x + align - 1) & ~(align - 1)` rounds up. -/
theorem alignUp_align (type : CelestialType) {x : ℕ} (hx : x + 16 ≤ 2 ^ 64) :
    alignUp x type.align = roundUp x type.align := by
  have hle := type.align_le
  have hpos := type.align_pos
  obtain ⟨k, hk, hpow⟩ := type.align_two_pow
  rw [hpow] at hle hpos ⊢
  rw [alignUp_two_pow x (hk.trans (by decide)), u64_of_lt (by omega), roundUp]

theorem fieldsEnd_eq {fields : List CelestialType} {x : ℕ}
    (h : finish (fields.map item) x + 16 ≤ 2 ^ 64) :
    fieldsEnd fields x = finish (fields.map item) x := by
  induction fields generalizing x with
  | nil => rfl
  | cons field fields ih =>
    rw [List.map_cons, finish] at h ⊢
    have hend := le_finish (item_align_pos fields) (field.item.finish x)
    have hround := le_roundUp x field.align_pos
    have hfield : field.item.finish x = roundUp x field.align + field.size := rfl
    rw [fieldsEnd, alignUp_align field (by omega), u64_of_lt (by omega), ← hfield]
    exact ih h

theorem size_struct {fields : List CelestialType}
    (hend : finish (fields.map item) 0 + 16 ≤ 2 ^ 64) :
    (struct fields).size = roundUp (finish (fields.map item) 0) (struct fields).align := by
  rw [size, fieldsEnd_eq hend, alignUp_align _ hend]

theorem exists_struct {type : CelestialType} {i : ℕ} {field : CelestialType}
    (hi : type.fields[i]? = some field) : ∃ fields, type = struct fields := by
  cases type with
  | struct fields => exact ⟨fields, rfl⟩
  | _ => exact absurd hi (by simp [fields])

/-- A list around one of its members. -/
theorem eq_take_append_drop {fields : List CelestialType} {i : ℕ} {field : CelestialType}
    (hi : fields[i]? = some field) : fields = fields.take i ++ [field] ++ fields.drop (i + 1) := by
  obtain ⟨hlt, rfl⟩ := List.getElem?_eq_some_iff.mp hi
  rw [List.append_assoc, List.singleton_append, List.getElem_cons_drop, List.take_append_drop]

section

variable {type : CelestialType} {i j : ℕ} {field other : CelestialType}

/-- The fields in front of one end before all do. -/
theorem finish_take_le (fields : List CelestialType) (i : ℕ) :
    finish ((fields.take i).map item) 0 ≤ finish (fields.map item) 0 := by
  have h := le_finish (item_align_pos (fields.drop i)) (finish ((fields.take i).map item) 0)
  rwa [← finish_append, ← List.map_append, List.take_append_drop] at h

theorem fieldOffset_eq (hend : finish (type.fields.map item) 0 + 16 ≤ 2 ^ 64)
    (hi : type.fields[i]? = some field) :
    type.fieldOffset i = offset ((type.fields.take i).map item) field.item := by
  obtain ⟨fields, rfl⟩ := exists_struct hi
  have htake := finish_take_le fields i
  have hi' : fields[i]? = some field := hi
  change finish (fields.map item) 0 + 16 ≤ 2 ^ 64 at hend
  simp only [fieldOffset, hi']
  rw [fieldsEnd_eq (by omega), alignUp_align field (by omega)]
  rfl

/-- Before the last multiples of 16, a field ends before the next ones begin. -/
theorem field_end_le_offset (hend : finish (type.fields.map item) 0 + 16 ≤ 2 ^ 64)
    (hi : type.fields[i]? = some field) (hj : type.fields[j]? = some other) (hij : i < j) :
    type.fieldOffset i + field.size ≤ type.fieldOffset j := by
  have htake : (type.fields.take j)[i]? = some field := by rw [List.getElem?_take_of_lt hij, hi]
  have hsplit := eq_take_append_drop htake
  rw [List.take_take, Nat.min_eq_left hij.le] at hsplit
  rw [fieldOffset_eq hend hi, fieldOffset_eq hend hj, hsplit, List.map_append, List.map_append]
  exact end_le_offset (item_align_pos _) other.align_pos

/-- Before the last multiples of 16, a field ends before the struct does. -/
theorem field_end_le_size (hend : finish (type.fields.map item) 0 + 16 ≤ 2 ^ 64)
    (hi : type.fields[i]? = some field) :
    type.fieldOffset i + field.size ≤ type.size := by
  have hfinish := @end_le_finish ((type.fields.take i).map item) _ field.item
    (item_align_pos (type.fields.drop (i + 1)))
  have hsplit := congrArg (List.map item) (eq_take_append_drop hi)
  rw [List.map_append, List.map_append] at hsplit
  rw [← List.map_singleton, ← hsplit] at hfinish
  rw [fieldOffset_eq hend hi]
  obtain ⟨fields, rfl⟩ := exists_struct hi
  rw [@size_struct fields hend]
  exact hfinish.trans (le_roundUp _ (struct fields).align_pos)

end

end CelestialType

/-! ## Accesses to fields -/

/-- The offset the lowering of a field access computes, `(int32_t)(field_idx * 8)`. -/
def x64FieldDisp (field_idx : BitVec 64) : BitVec 32 :=
  (field_idx * 8).setWidth 32

/-- The access of `CIR_EXTRACTFIELD`. -/
def x64ExtractAccess (field_idx : BitVec 64) : List UInt8 :=
  x64MovRegMem .rax .rax (x64FieldDisp field_idx) .qword

/-- The access of `CIR_INSERTFIELD`. -/
def x64InsertAccess (field_idx : BitVec 64) : List UInt8 :=
  x64MovMemReg .rdi (x64FieldDisp field_idx) .rax .qword

/-- An access at a field index that is a constant, and none at other indices. -/
def x64FieldAccess (access : BitVec 64 → List UInt8) (field_idx : Option X64Value) :
    List Emission :=
  match field_idx with
  | some value => if value.kind = .const then [.bytes (access value.constant)] else []
  | none => []

/-- `CIR_EXTRACTFIELD` in `x64_lower_memory_op`. -/
def x64LowerExtractField (intervals : List X64LiveInterval) (instr : X64Instr) : List Emission :=
  x64LoadValue intervals instr.operands[0]? .rax ++
    x64FieldAccess x64ExtractAccess instr.operands[1]? ++ x64StoreOptional intervals instr.result

/-- `CIR_INSERTFIELD` in `x64_lower_memory_op`. -/
def x64LowerInsertField (intervals : List X64LiveInterval) (instr : X64Instr) : List Emission :=
  x64LoadValue intervals instr.operands[0]? .rdi ++
    x64LoadValue intervals instr.operands[1]? .rax ++
    x64FieldAccess x64InsertAccess instr.operands[2]? ++
    (if instr.result.isSome then
      .bytes (x64MovRegReg .rax .rdi .qword) :: x64StoreOptional intervals instr.result
    else [])

/-- The bytes of an access move as many bytes as `width` says between `RAX` and `offset` behind a
register. -/
def Moves (operands : Operand → Operand → List Operand) (base : Reg) (bytes : List UInt8)
    (offset width : ℕ) : Prop :=
  ∃ size : Size, size.bytes = width ∧
    Encodes bytes ⟨.mov, size, operands (.reg size .rax) (.mem ⟨some base, none, offset, false⟩)⟩

/-- The accesses to a field move its bytes. -/
def FieldAccessed (field_idx offset width : ℕ) : Prop :=
  Moves (fun reg mem => [reg, mem]) .rax (x64ExtractAccess (BitVec.ofNat 64 field_idx))
      offset width ∧
    Moves (fun reg mem => [mem, reg]) .rdi (x64InsertAccess (BitVec.ofNat 64 field_idx))
      offset width

/-- What an access moves is what its bytes encode. -/
theorem moves_iff {operands : Operand → Operand → List Operand} {base : Reg} {bytes : List UInt8}
    {disp : BitVec 32} {offset width : ℕ}
    (hinj : ∀ r m r' m', operands r m = operands r' m' → m = m')
    (hbytes : Encodes bytes
      ⟨.mov, .qword, operands (.reg .qword .rax) (X64Request.mem base disp)⟩) :
    Moves operands base bytes offset width ↔ disp.toInt = offset ∧ width = 8 := by
  constructor
  · rintro ⟨size, hwidth, hencodes⟩
    have heq := hbytes.unique hencodes
    rw [Instr.mk.injEq] at heq
    have hmem := hinj _ _ _ _ heq.2.2
    rw [X64Request.mem, Operand.mem.injEq, MemRef.mk.injEq] at hmem
    rw [← heq.2.1] at hwidth
    exact ⟨hmem.2.2.1, hwidth.symm⟩
  · rintro ⟨hdisp, rfl⟩
    rw [X64Request.mem, hdisp] at hbytes
    exact ⟨.qword, rfl, hbytes⟩

theorem fieldAccessed_iff {field_idx offset width : ℕ} :
    FieldAccessed field_idx offset width ↔
      (x64FieldDisp (BitVec.ofNat 64 field_idx)).toInt = offset ∧ width = 8 := by
  have hextract := @moves_iff _ _ _ _ offset width
    (fun r m r' m' (h : [r, m] = [r', m']) => (List.cons.inj (List.cons.inj h).2).1)
    ((X64Request.encodes_iff (.movRegMem .rax .rax
      (x64FieldDisp (BitVec.ofNat 64 field_idx)) .qword)).mpr (Or.inr rfl))
  have hinsert := @moves_iff _ _ _ _ offset width
    (fun r m r' m' (h : [m, r] = [m', r']) => (List.cons.inj h).1)
    ((X64Request.encodes_iff (.movMemReg .rdi
      (x64FieldDisp (BitVec.ofNat 64 field_idx)) .rax .qword)).mpr (Or.inr rfl))
  exact (and_congr hextract hinsert).trans (and_self_iff ..)

/-- Up to 2^28 fields, the displacement is eight times the index. -/
theorem x64FieldDisp_toInt {field_idx : ℕ} (h : field_idx < 2 ^ 28) :
    (x64FieldDisp (BitVec.ofNat 64 field_idx)).toInt = (8 * field_idx : ℕ) := by
  have hmul : (BitVec.ofNat 64 field_idx * 8).toNat = 8 * field_idx := by
    rw [BitVec.toNat_mul, BitVec.toNat_ofNat, Nat.mod_eq_of_lt (by omega : field_idx < 2 ^ 64),
      Nat.mul_comm]
    exact Nat.mod_eq_of_lt (show 8 * field_idx < 2 ^ 64 by omega)
  have hnat : (x64FieldDisp (BitVec.ofNat 64 field_idx)).toNat = 8 * field_idx := by
    rw [x64FieldDisp, BitVec.toNat_setWidth, hmul, Nat.mod_eq_of_lt (by omega)]
  rw [BitVec.toInt_eq_toNat_of_lt (by omega), hnat]

/-- The displacement of field 2^28 is negative. -/
theorem x64FieldDisp_negative :
    (x64FieldDisp (BitVec.ofNat 64 (2 ^ 28))).toInt = -2147483648 := by
  decide

namespace CelestialType

/-- The fields of a type are aligned, disjoint and inside it. -/
structure Placed (type : CelestialType) : Prop where
  aligned : ∀ i field, type.fields[i]? = some field → field.align ∣ type.fieldOffset i
  disjoint : ∀ i j field other, type.fields[i]? = some field →
    type.fields[j]? = some other → i ≠ j →
    type.fieldOffset i + field.size ≤ type.fieldOffset j ∨
      type.fieldOffset j + other.size ≤ type.fieldOffset i
  inside : ∀ i field, type.fields[i]? = some field →
    type.fieldOffset i + field.size ≤ type.size

/-- The layout of a type is one, and the accesses to its fields go by it. -/
structure LaidOut (type : CelestialType) : Prop where
  align_pow : ∃ k, type.align = 2 ^ k
  align_dvd : type.align ∣ type.size
  placed : type.Placed
  accessed : ∀ i field, type.fields[i]? = some field →
    FieldAccessed i (type.fieldOffset i) field.size

/-- The fields of a struct that ends before the last multiples of 16 are where they should be. -/
theorem placed_of_finish_le {type : CelestialType}
    (hend : finish (type.fields.map item) 0 + 16 ≤ 2 ^ 64) : type.Placed where
  aligned i field hi := by
    rw [fieldOffset_eq hend hi]
    exact align_dvd_offset
  disjoint i j field other hi hj hij := by
    rcases Nat.lt_or_gt_of_ne hij with hlt | hlt
    · exact Or.inl (field_end_le_offset hend hi hj hlt)
    · exact Or.inr (field_end_le_offset hend hj hi hlt)
  inside i field hi := field_end_le_size hend hi

/-- Fields of eight bytes are at the multiples of eight. -/
theorem finish_of_eight {fields : List CelestialType} (h : ∀ field ∈ fields, field.size = 8)
    (n : ℕ) : finish (fields.map item) (8 * n) = 8 * (n + fields.length) := by
  induction fields generalizing n with
  | nil => rfl
  | cons field fields ih =>
    have hsize := h field (List.mem_cons_self ..)
    have halign : field.align ∣ 8 * n := (hsize ▸ field.align_dvd_size).mul_right n
    have hfinish : field.item.finish (8 * n) = 8 * (n + 1) := by
      rw [Item.finish, item, roundUp_of_dvd field.align_pos halign, hsize, Nat.mul_succ]
    rw [List.map_cons, finish, hfinish, ih fun f hf => h f (List.mem_cons_of_mem _ hf),
      List.length_cons]
    omega

/-- A field in a struct of fields of eight bytes is at eight times its index. -/
theorem fieldOffset_of_eight {type : CelestialType} (h : ∀ field ∈ type.fields, field.size = 8)
    (hlen : type.fields.length ≤ 2 ^ 28) {i : ℕ} {field : CelestialType}
    (hi : type.fields[i]? = some field) : type.fieldOffset i = 8 * i := by
  have hlt := (List.getElem?_eq_some_iff.mp hi).1
  have hend := finish_of_eight h 0
  have htake := @finish_of_eight (type.fields.take i) (fun f hf => h f (List.mem_of_mem_take hf)) 0
  have hsize := h field (List.mem_of_getElem? hi)
  have halign : field.align ∣ 8 * i := (hsize ▸ field.align_dvd_size).mul_right i
  rw [Nat.mul_zero, Nat.zero_add] at hend htake
  rw [fieldOffset_eq (by omega) hi, offset, htake, List.length_take_of_le hlt.le]
  exact roundUp_of_dvd field.align_pos halign

/-- The layout of a type is right exactly if all its fields take eight bytes, and there are at most
2^28 of them. -/
theorem laidOut_iff (type : CelestialType) :
    type.LaidOut ↔ (∀ field ∈ type.fields, field.size = 8) ∧ type.fields.length ≤ 2 ^ 28 := by
  constructor
  · intro h
    have haccess : ∀ i field, type.fields[i]? = some field →
        (x64FieldDisp (BitVec.ofNat 64 i)).toInt = type.fieldOffset i ∧ field.size = 8 :=
      fun i field hi => fieldAccessed_iff.mp (h.accessed i field hi)
    constructor
    · intro field hfield
      obtain ⟨i, hi⟩ := List.mem_iff_getElem?.mp hfield
      exact (haccess i field hi).2
    · by_contra hlong
      have hdisp := (haccess _ _ (List.getElem?_eq_getElem (Nat.lt_of_not_le hlong))).1
      rw [x64FieldDisp_negative] at hdisp
      omega
  · rintro ⟨hfields, hlen⟩
    obtain ⟨k, -, hpow⟩ := type.align_two_pow
    have hend := finish_of_eight hfields 0
    rw [Nat.mul_zero, Nat.zero_add] at hend
    refine ⟨⟨k, hpow⟩, type.align_dvd_size, placed_of_finish_le (by omega), fun i field hi => ?_⟩
    have hlt := (List.getElem?_eq_some_iff.mp hi).1
    refine fieldAccessed_iff.mpr ⟨?_, hfields field (List.mem_of_getElem? hi)⟩
    rw [fieldOffset_of_eight hfields hlen hi, x64FieldDisp_toInt (by omega)]

/-- The second field of a struct of two 32-bit words is at offset 4, and is accessed at 8. -/
theorem not_laidOut_words : ¬(struct [u32, u32]).LaidOut := by
  intro h
  have haccess := fieldAccessed_iff.mp (h.accessed 1 u32 rfl)
  exact absurd haccess.2 (by decide)

end CelestialType

end Seraph
