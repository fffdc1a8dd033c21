import Seraph.AtlasCycles

/-!
# When a repair satisfies the validator

A repair that reports success leaves a structure that passes the validator for three of the five
kinds that have one (`validate_recoverNullablePtr`, `validate_recoverRefcount`,
`validate_recoverRange`). The repair of a linked structure also reports success where the chain
leaves Atlas or is too long, and that of an array where the array is not in Atlas or `max_count`
elements are too many. The check of an array computes its end in 64 bits, so it can accept an array
that is not in Atlas. `Repairable` says for which inputs nothing of this happens
(`repairSound_iff`).
-/

namespace Seraph

open ByteMem Memory Function TortoiseHare Fuel

namespace Checkpoint

/-- A value of a signed field. -/
def Fits (size : ℕ) (value : ℤ) : Prop :=
  IntSize size ∧ -2 ^ (8 * size - 1) ≤ value ∧ value < 2 ^ (8 * size - 1)

/-- The bounds can be stored in the field, and an array has elements and a count of its own. -/
def Invariant.WellFormed (inv : Invariant) : Prop :=
  match inv.type with
  | .arrayBounds countOffset elementSize maxCount =>
    0 < elementSize ∧ maxCount < 2 ^ 64 ∧
      (inv.fieldOffset + 8 ≤ countOffset ∨ countOffset + 8 ≤ inv.fieldOffset)
  | .refcount minCount _ => Fits inv.fieldSize minCount
  | .range min max => min ≤ max ∧ Fits inv.fieldSize min ∧ Fits inv.fieldSize max
  | _ => True

variable (A : Mapping) (mem : Memory) (data : ℕ) (inv : Invariant) (violation : ValidateResult)

/-- What a repair promises, and what the check of an array means. -/
structure RepairSound : Prop where
  returns : ∃ r, Settles (recoverInvariant A mem data inv violation) r
  repairs : ∀ mem', Settles (recoverInvariant A mem data inv violation) (true, mem') →
    validateInvariant A mem' data inv = .ok
  bounds : ∀ countOffset elementSize maxCount,
    inv.type = .arrayBounds countOffset elementSize maxCount →
      validateArrayBounds A mem data inv.fieldOffset countOffset elementSize maxCount = .ok →
        ∀ i < readSizeField mem data countOffset * elementSize,
          A.base ≤ readPtrField mem data inv.fieldOffset + i ∧
            readPtrField mem data inv.fieldOffset + i < A.base + A.size

variable (fieldOffset : ℕ)

/-- The chain behind the field reaches NULL in time, through nodes in Atlas. -/
def EndsInTime (nextOffset : ℕ) : Prop :=
  ∃ e < 2 * maxCycleDepth, node mem data fieldOffset nextOffset e = 0 ∧
    Inside A mem data fieldOffset nextOffset e

/-- The chain behind the field goes round in Atlas, the two pointers of the check meet in time, and
with NULL in the last link the chain ends in time. -/
def CutInTime (nextOffset : ℕ) : Prop :=
  ∃ tail period, Cyclic mem data fieldOffset nextOffset tail period ∧
    Inside A mem data fieldOffset nextOffset (tail + period) ∧
    (∃ j, 0 < j ∧ j ≤ maxCycleDepth ∧ tail ≤ j ∧ period ∣ j) ∧
    EndsInTime A (writePtrField mem (lastNode mem data fieldOffset nextOffset tail period)
      nextOffset 0) data fieldOffset nextOffset

/-- The last byte of `count` elements, computed in 64 bits, is in Atlas. -/
def EndInside (arrayPtr count elementSize : ℕ) : Prop :=
  A.contains (u64 (u64 (arrayPtr + u64 (count * elementSize)) + (2 ^ 64 - 1))) = true

/-- The array is NULL, or it is in Atlas. There `max_count` elements end in Atlas, where there are
more, and else the elements that are there do not end in Atlas behind the last address. -/
def ArrayFits (countOffset elementSize maxCount : ℕ) : Prop :=
  let arrayPtr := readPtrField mem data fieldOffset
  let count := readSizeField mem data countOffset
  arrayPtr = 0 ∨ A.contains arrayPtr = true ∧
    (0 < maxCount ∧ maxCount < count → EndInside A arrayPtr maxCount elementSize) ∧
    (maxCount = 0 ∨ count ≤ maxCount →
      ¬(EndInside A arrayPtr count elementSize ∧ 2 ^ 64 < arrayPtr + count * elementSize))

/-- The inputs for which a repair does what it promises. -/
def Repairable : Prop :=
  match inv.type with
  | .noCycle nextOffset => EndsInTime A mem data inv.fieldOffset nextOffset ∨
      CutInTime A mem data inv.fieldOffset nextOffset
  | .arrayBounds countOffset elementSize maxCount =>
    ArrayFits A mem data inv.fieldOffset countOffset elementSize maxCount
  | .custom validator recovery =>
    ∀ mem', recoverCustom mem data inv.fieldOffset inv.fieldSize violation recovery = (true, mem') →
      validateCustom mem' data inv.fieldOffset inv.fieldSize validator = .ok
  | _ => True

variable {A mem data inv violation fieldOffset}

/-! ## Integer fields -/

/-- A value that fits is read as it was written. -/
theorem readIntField_write {offset size : ℕ} {value : ℤ} (h : Fits size value) :
    readIntField (writeIntField mem data offset size value) data offset size = value := by
  obtain ⟨hsize, hlow, hhigh⟩ := h
  have hpos : 0 < 8 * size := by
    rcases hsize with rfl | rfl | rfl | rfl <;> norm_num
  have hpow : 256 ^ size = 2 ^ (8 * size) := by
    rw [pow_mul]
    norm_num
  have hlt := (BitVec.ofInt (8 * size) value).isLt
  rw [← hpow] at hlt
  rw [readIntField, writeIntField, if_pos hsize, if_pos hsize, load_store_of_lt _ hlt,
    BitVec.ofNat_toNat, BitVec.setWidth_eq, BitVec.toInt_ofInt_eq_self hpos hlow hhigh]

theorem validateRefcount_eq (data fieldOffset fieldSize : ℕ) (minCount : ℤ) (liveOnly : Bool) :
    validateRefcount mem data fieldOffset fieldSize minCount liveOnly =
      if readIntField mem data fieldOffset fieldSize < minCount then .refcountInvalid else .ok := by
  rw [validateRefcount, ite_self]

theorem validate_recoverRefcount {fieldSize : ℕ} {minCount : ℤ} (h : Fits fieldSize minCount)
    (liveOnly : Bool) :
    validateRefcount (recoverRefcount mem data fieldOffset fieldSize minCount).2 data fieldOffset
      fieldSize minCount liveOnly = .ok := by
  rw [validateRefcount_eq, recoverRefcount, readIntField_write h, if_neg (lt_irrefl _)]

theorem validateRange_ok {fieldSize : ℕ} {min max : ℤ}
    (h : min ≤ readIntField mem data fieldOffset fieldSize ∧
      readIntField mem data fieldOffset fieldSize ≤ max) :
    validateRange mem data fieldOffset fieldSize min max = .ok := by
  rw [validateRange]
  exact if_neg (not_or.2 ⟨not_lt.2 h.1, not_lt.2 h.2⟩)

theorem validate_recoverRange {fieldSize : ℕ} {min max : ℤ} (hle : min ≤ max)
    (hmin : Fits fieldSize min) (hmax : Fits fieldSize max) :
    validateRange (recoverRange mem data fieldOffset fieldSize min max).2 data fieldOffset
      fieldSize min max = .ok := by
  rw [recoverRange]
  split_ifs with hlow hhigh
  · exact validateRange_ok (by rw [readIntField_write hmin]; exact ⟨le_rfl, hle⟩)
  · exact validateRange_ok (by rw [readIntField_write hmax]; exact ⟨hle, le_rfl⟩)
  · exact validateRange_ok ⟨not_lt.1 hlow, not_lt.1 hhigh⟩

theorem validate_recoverNullablePtr (A : Mapping) (mem : Memory) (data fieldOffset : ℕ) :
    validateNullablePtr A (recoverNullablePtr mem data fieldOffset).2 data fieldOffset = .ok := by
  rw [validateNullablePtr, recoverNullablePtr]
  exact if_pos (readPtrField_cut mem data fieldOffset)

/-! ## Arrays -/

section

variable {countOffset elementSize maxCount arrayPtr count : ℕ}

theorem mem_contains {ptr : ℕ} :
    A.contains ptr = true ↔ A.base ≠ 0 ∧ ptr ≠ 0 ∧ A.base ≤ ptr ∧ ptr < A.base + A.size := by
  simp [Mapping.contains, and_assoc]

/-- Where the end of the elements does not wrap, its check is that of the last byte. -/
theorem endInside_iff (hbytes : 0 < count * elementSize)
    (hwrap : arrayPtr + count * elementSize ≤ 2 ^ 64) (hptr : A.contains arrayPtr = true) :
    EndInside A arrayPtr count elementSize ↔
      arrayPtr + count * elementSize ≤ A.base + A.size := by
  obtain ⟨hbase, hnull, hlow, -⟩ := mem_contains.1 hptr
  rw [EndInside]
  generalize count * elementSize = bytes at *
  have hlast : u64 (u64 (arrayPtr + u64 bytes) + (2 ^ 64 - 1)) = arrayPtr + bytes - 1 := by
    simp only [u64]
    omega
  rw [hlast, mem_contains]
  omega

/-- What the check of an array accepts. -/
theorem validateArrayBounds_iff :
    validateArrayBounds A mem data fieldOffset countOffset elementSize maxCount = .ok ↔
      (readPtrField mem data fieldOffset = 0 ∧ readSizeField mem data countOffset = 0) ∨
      (A.contains (readPtrField mem data fieldOffset) = true ∧
        (maxCount = 0 ∨ readSizeField mem data countOffset ≤ maxCount) ∧
        (readSizeField mem data countOffset = 0 ∨
          EndInside A (readPtrField mem data fieldOffset) (readSizeField mem data countOffset)
            elementSize)) := by
  rw [validateArrayBounds]
  generalize readPtrField mem data fieldOffset = ptr
  generalize readSizeField mem data countOffset = count
  by_cases hnull : ptr = 0
  · rw [if_pos hnull, hnull, A.not_contains_null]
    by_cases hcount : count = 0
    · simp [hcount]
    · simp [hcount]
  rw [if_neg hnull]
  by_cases hptr : A.contains ptr = true
  swap
  · rw [Bool.not_eq_true] at hptr
    simp [hptr, hnull]
  by_cases hmax : maxCount > 0 ∧ count > maxCount
  · rw [hptr, if_pos hmax]
    have hnot : ¬(maxCount = 0 ∨ count ≤ maxCount) := by omega
    simp [hnull, hnot]
  · rw [hptr, if_neg hmax]
    have hle : maxCount = 0 ∨ count ≤ maxCount := by omega
    rw [EndInside]
    dsimp only
    generalize A.contains (u64 (u64 (ptr + u64 (count * elementSize)) + (2 ^ 64 - 1))) = inside
    cases inside with
    | true => simp [hnull, hle]
    | false =>
      rcases Nat.eq_zero_or_pos count with hcount | hcount
      · simp [hnull, hcount]
      · simp [hnull, hcount, hcount.ne']

/-- A count that is written leaves the pointer to the array as it is. -/
theorem readPtrField_writeSizeField (value : ℕ)
    (hapart : fieldOffset + 8 ≤ countOffset ∨ countOffset + 8 ≤ fieldOffset) :
    readPtrField (writeSizeField mem data countOffset value) data fieldOffset =
      readPtrField mem data fieldOffset :=
  load_store_of_disjoint mem (by omega)

theorem readSizeField_writeSizeField {value : ℕ} (h : value < 2 ^ 64) :
    readSizeField (writeSizeField mem data countOffset value) data countOffset = value :=
  load_store_of_lt mem (h.trans_eq (by norm_num))

/-- Elements that fit behind the array are in Atlas. -/
theorem accepted_of_fit (hptr : A.contains arrayPtr = true)
    (hfit : count * elementSize ≤ A.base + A.size - arrayPtr) (helem : 0 < elementSize) :
    count = 0 ∨ EndInside A arrayPtr count elementSize := by
  have hfits := A.fits
  obtain ⟨-, -, -, hhigh⟩ := mem_contains.1 hptr
  rcases Nat.eq_zero_or_pos count with hzero | hpos
  · exact .inl hzero
  · have hbytes := Nat.mul_pos hpos helem
    exact .inr ((endInside_iff hbytes (by omega) hptr).2 (by omega))

/-- The repair of an array leaves one that is accepted, except where the array is not in Atlas or
`max_count` elements are too many. -/
theorem validate_recoverArrayBounds (A : Mapping) (mem : Memory) (data : ℕ)
    (helem : 0 < elementSize) (hmax : maxCount < 2 ^ 64)
    (hapart : fieldOffset + 8 ≤ countOffset ∨ countOffset + 8 ≤ fieldOffset) :
    validateArrayBounds A
        (recoverArrayBounds A mem data fieldOffset countOffset elementSize maxCount).2 data
        fieldOffset countOffset elementSize maxCount = .ok ↔
      readPtrField mem data fieldOffset = 0 ∨
        A.contains (readPtrField mem data fieldOffset) = true ∧
          (0 < maxCount ∧ maxCount < readSizeField mem data countOffset →
            EndInside A (readPtrField mem data fieldOffset) maxCount elementSize) := by
  rw [validateArrayBounds_iff, recoverArrayBounds]
  by_cases hnull : readPtrField mem data fieldOffset = 0
  · rw [if_pos hnull]
    refine iff_of_true (.inl ⟨?_, ?_⟩) (.inl hnull)
    · rw [readPtrField_writeSizeField 0 hapart, hnull]
    · rw [readSizeField_writeSizeField (by norm_num)]
  rw [if_neg hnull]
  by_cases hptr : A.contains (readPtrField mem data fieldOffset) = true
  swap
  · rw [Bool.not_eq_true] at hptr
    simp [hptr, hnull, readPtrField_writeSizeField 0 hapart]
  simp only [hptr, Bool.not_true, Bool.false_eq_true, if_false, hnull, false_or, true_and]
  by_cases htrunc : maxCount > 0 ∧ readSizeField mem data countOffset > maxCount
  · rw [if_pos htrunc]
    have hpos := htrunc.1
    simp [readPtrField_writeSizeField maxCount hapart, readSizeField_writeSizeField hmax, hnull,
      hptr, htrunc.1, htrunc.2, hpos.ne']
  rw [if_neg htrunc]
  refine iff_of_true (.inr ?_) fun h => absurd h htrunc
  have hle : maxCount = 0 ∨ readSizeField mem data countOffset ≤ maxCount := by omega
  obtain ⟨hbase, -, hlow, hhigh⟩ := mem_contains.1 hptr
  have havailable : A.size - A.ptrToOffset (readPtrField mem data fieldOffset) =
      A.base + A.size - readPtrField mem data fieldOffset := by
    rw [Mapping.ptrToOffset, if_pos hptr]
    omega
  rw [havailable, if_pos helem]
  have hfits := A.fits
  have hmul := Nat.div_mul_le_self (A.base + A.size - readPtrField mem data fieldOffset) elementSize
  have hdiv := Nat.div_le_self (A.base + A.size - readPtrField mem data fieldOffset) elementSize
  split_ifs with hmore
  · rw [readPtrField_writeSizeField _ hapart, readSizeField_writeSizeField (by omega)]
    exact ⟨hptr, by omega, accepted_of_fit hptr hmul helem⟩
  · have hcount := Nat.mul_le_mul_right elementSize (not_lt.1 hmore)
    exact ⟨hptr, hle, accepted_of_fit hptr (hcount.trans hmul) helem⟩

/-- An array that is accepted is in Atlas, unless its end wraps and comes to lie in Atlas again. -/
theorem bounds_iff :
    (validateArrayBounds A mem data fieldOffset countOffset elementSize maxCount = .ok →
      ∀ i < readSizeField mem data countOffset * elementSize,
        A.base ≤ readPtrField mem data fieldOffset + i ∧
          readPtrField mem data fieldOffset + i < A.base + A.size) ↔
    (A.contains (readPtrField mem data fieldOffset) = true →
      maxCount = 0 ∨ readSizeField mem data countOffset ≤ maxCount →
      ¬(EndInside A (readPtrField mem data fieldOffset) (readSizeField mem data countOffset)
          elementSize ∧
        2 ^ 64 < readPtrField mem data fieldOffset +
          readSizeField mem data countOffset * elementSize)) := by
  rw [validateArrayBounds_iff]
  have hfits := A.fits
  generalize readPtrField mem data fieldOffset = ptr
  generalize readSizeField mem data countOffset = count
  constructor
  · rintro hinside hptr hle ⟨hend, hwrap⟩
    obtain ⟨-, -, -, hhigh⟩ := mem_contains.1 hptr
    have hlast := (hinside (.inr ⟨hptr, hle, .inr hend⟩) (count * elementSize - 1) (by omega)).2
    omega
  · rintro hnot (⟨-, hzero⟩ | ⟨hptr, hle, hcount⟩) i hi
    · rw [hzero, Nat.zero_mul] at hi
      omega
    · obtain ⟨-, -, hlow, -⟩ := mem_contains.1 hptr
      rcases hcount with hzero | hend
      · rw [hzero, Nat.zero_mul] at hi
        omega
      · have hwrap := not_lt.1 fun hwrap => hnot hptr hle ⟨hend, hwrap⟩
        have hall := (endInside_iff (by omega) hwrap hptr).1 hend
        omega

end

/-! ## Linked structures -/

section

variable {nextOffset : ℕ}

/-- A chain that reaches NULL is not a cycle. -/
theorem EndsInTime.not_inside (h : EndsInTime A mem data fieldOffset nextOffset) :
    ¬∀ e, Inside A mem data fieldOffset nextOffset e := by
  obtain ⟨e, -, hnull, -⟩ := h
  exact fun hin => Mapping.ne_null (hin (e + 1) e (Nat.lt_succ_self e)) hnull

/-- The repair of a linked structure either leaves the memory, where the pointers do not meet, or
cuts the last link of a cycle in Atlas. -/
theorem recoverNoCycle_cases (A : Mapping) (mem : Memory) (data fieldOffset nextOffset : ℕ) :
    (Settles (recoverNoCycle A mem data fieldOffset nextOffset) (true, mem) ∧
      ∀ tail period, Cyclic mem data fieldOffset nextOffset tail period →
        (∀ e, Inside A mem data fieldOffset nextOffset e) →
        ∀ j, 0 < j → j ≤ maxCycleDepth → tail ≤ j → ¬period ∣ j) ∨
      ∃ tail period, Cyclic mem data fieldOffset nextOffset tail period ∧
        (∀ e, Inside A mem data fieldOffset nextOffset e) ∧
        (∃ j, 0 < j ∧ j ≤ maxCycleDepth ∧ tail ≤ j ∧ period ∣ j) ∧
        Settles (recoverNoCycle A mem data fieldOffset nextOffset)
          (true, writePtrField mem (lastNode mem data fieldOffset nextOffset tail period)
            nextOffset 0) := by
  have hmeans := walk_start A mem data fieldOffset nextOffset
  by_cases hmeet : ∃ ptr, cycleWalk A mem nextOffset maxCycleDepth
      (readPtrField mem data fieldOffset) (readPtrField mem data fieldOffset) = .meet ptr
  · obtain ⟨ptr, hmeet⟩ := hmeet
    rw [hmeet] at hmeans
    obtain ⟨j, hj, hdepth, rfl, heq, hin⟩ := hmeans
    obtain ⟨tail, period, hcyclic, -⟩ := exists_rho (show j < 2 * j by omega) heq
    obtain ⟨htail, hdvd⟩ := (hcyclic.meet_iff hj).1 heq
    have hall := inside_of_meet hj heq hin
    exact .inr ⟨tail, period, hcyclic, hall, ⟨j, hj, hdepth, htail, hdvd⟩,
      settles_recover hcyclic hj hdepth hdvd hall hmeet⟩
  · have hnot := not_exists.1 hmeet
    refine .inl ⟨⟨0, fun fuel _ => recover_of_not_meet fuel hnot⟩, ?_⟩
    intro tail period hcyclic hin j hj hdepth htail hdvd
    obtain ⟨_, -, -, -, -, hwalk⟩ := walk_of_cyclic hcyclic hin hj hdepth htail hdvd
    exact hnot _ hwalk

/-- When the repair of a linked structure leaves one that passes the check. -/
theorem repairs_noCycle_iff (A : Mapping) (mem : Memory) (data fieldOffset nextOffset : ℕ) :
    (∀ mem', Settles (recoverNoCycle A mem data fieldOffset nextOffset) (true, mem') →
      validateNoCycle A mem' data fieldOffset nextOffset = .ok) ↔
    EndsInTime A mem data fieldOffset nextOffset ∨
      CutInTime A mem data fieldOffset nextOffset := by
  rcases recoverNoCycle_cases A mem data fieldOffset nextOffset with
    ⟨hsettles, hnot⟩ | ⟨tail, period, hcyclic, hall, hmeet, hsettles⟩
  · constructor
    · exact fun hrepairs => .inl (validate_ok_iff.1 (hrepairs mem hsettles))
    · rintro hor mem' hmem
      obtain rfl : mem = mem' := congrArg Prod.snd (hsettles.unique hmem)
      rcases hor with hends | ⟨tail, period, hcyclic, hin, ⟨j, hj, hdepth, htail, hdvd⟩, -⟩
      · exact validate_ok_iff.2 hends
      · exact absurd hdvd
          (hnot tail period hcyclic (inside_of_cyclic hcyclic hin) j hj hdepth htail)
  · constructor
    · intro hrepairs
      exact .inr ⟨tail, period, hcyclic, hall _, hmeet, validate_ok_iff.1 (hrepairs _ hsettles)⟩
    · rintro hor mem' hmem
      rcases hor with hends | ⟨tail', period', hcyclic', hin, ⟨j, hj, hdepth, htail, hdvd⟩, hcut⟩
      · exact absurd hall hends.not_inside
      · have hall' := inside_of_cyclic hcyclic' hin
        obtain ⟨j', hj', hdepth', -, hdvd', hwalk⟩ :=
          walk_of_cyclic hcyclic' hall' hj hdepth htail hdvd
        have hsettles' := settles_recover hcyclic' hj' hdepth' hdvd' hall' hwalk
        obtain rfl : _ = mem' := congrArg Prod.snd (hsettles'.unique hmem)
        exact validate_ok_iff.2 hcut

theorem recoverNoCycle_settles (A : Mapping) (mem : Memory) (data fieldOffset nextOffset : ℕ) :
    ∃ r, Settles (recoverNoCycle A mem data fieldOffset nextOffset) r := by
  rcases recoverNoCycle_cases A mem data fieldOffset nextOffset with
    ⟨hsettles, -⟩ | ⟨tail, period, -, -, -, hsettles⟩
  · exact ⟨_, hsettles⟩
  · exact ⟨_, hsettles⟩

end

/-! ## All kinds -/

/-- A repair that takes no fuel promises what its result says. -/
theorem repairs_iff {r : Bool × Memory}
    (hrecover : recoverInvariant A mem data inv violation = fun _ => some r) :
    (∀ mem', Settles (recoverInvariant A mem data inv violation) (true, mem') →
      validateInvariant A mem' data inv = .ok) ↔
    (r.1 = true → validateInvariant A r.2 data inv = .ok) := by
  rw [hrecover]
  constructor
  · exact fun h hr => h r.2 (settles_some_iff.2 (Prod.ext hr rfl))
  · intro h mem' hsettles
    obtain rfl := settles_some_iff.1 hsettles
    exact h rfl

/-- A kind other than arrays, with a repair that leaves what passes the validator. -/
theorem repairSound_of_recover {r : Bool × Memory}
    (hrecover : recoverInvariant A mem data inv violation = fun _ => some r)
    (hgood : r.1 = true → validateInvariant A r.2 data inv = .ok)
    (harray : ∀ countOffset elementSize maxCount,
      inv.type ≠ .arrayBounds countOffset elementSize maxCount) :
    RepairSound A mem data inv violation := by
  refine ⟨⟨r, ?_⟩, (repairs_iff hrecover).2 hgood, fun _ _ _ heq => absurd heq (harray _ _ _)⟩
  rw [hrecover]
  exact settles_pure r

/-- A linked structure : the repair is that of a cycle. -/
theorem repairSound_noCycle (A : Mapping) (mem : Memory)
    (data fieldOffset fieldSize nextOffset : ℕ) (violation : ValidateResult) :
    RepairSound A mem data ⟨.noCycle nextOffset, fieldOffset, fieldSize, true⟩ violation ↔
      EndsInTime A mem data fieldOffset nextOffset ∨
        CutInTime A mem data fieldOffset nextOffset := by
  have hrecover : recoverInvariant A mem data ⟨.noCycle nextOffset, fieldOffset, fieldSize, true⟩
      violation = recoverNoCycle A mem data fieldOffset nextOffset := by
    funext fuel
    simp only [recoverInvariant, Bool.not_true, Bool.false_eq_true, if_false]
  have hrepairs := repairs_noCycle_iff A mem data fieldOffset nextOffset
  constructor
  · intro h
    refine hrepairs.1 fun mem' hsettles => ?_
    rw [← hrecover] at hsettles
    exact h.repairs mem' hsettles
  · intro h
    refine ⟨?_, fun mem' hsettles => ?_, fun _ _ _ h => by cases h⟩
    · rw [hrecover]
      exact recoverNoCycle_settles A mem data fieldOffset nextOffset
    · rw [hrecover] at hsettles
      exact hrepairs.2 h mem' hsettles

/-- An array : the repair and the check of its bounds. -/
theorem repairSound_array {fieldSize countOffset elementSize maxCount : ℕ}
    (hform : Invariant.WellFormed
      ⟨.arrayBounds countOffset elementSize maxCount, fieldOffset, fieldSize, true⟩) :
    RepairSound A mem data
        ⟨.arrayBounds countOffset elementSize maxCount, fieldOffset, fieldSize, true⟩ violation ↔
      ArrayFits A mem data fieldOffset countOffset elementSize maxCount := by
  obtain ⟨helem, hmax, hapart⟩ := hform
  have hrecover : recoverInvariant A mem data
      ⟨.arrayBounds countOffset elementSize maxCount, fieldOffset, fieldSize, true⟩ violation =
        fun _ => some (recoverArrayBounds A mem data fieldOffset countOffset elementSize maxCount) :=
    rfl
  have htrue : (recoverArrayBounds A mem data fieldOffset countOffset elementSize maxCount).1 =
      true := by
    simp only [recoverArrayBounds, apply_ite Prod.fst, ite_self]
  have hrepair := validate_recoverArrayBounds A mem data helem hmax hapart
  constructor
  · intro h
    rcases hrepair.1 ((repairs_iff hrecover).1 h.repairs htrue) with hnull | ⟨hptr, hend⟩
    · exact .inl hnull
    · exact .inr ⟨hptr, hend, bounds_iff.1 (h.bounds _ _ _ rfl) hptr⟩
  · intro h
    refine ⟨⟨_, settles_pure _⟩, (repairs_iff hrecover).2 fun _ => hrepair.2 ?_, ?_⟩
    · rcases h with hnull | ⟨hptr, hend, -⟩
      · exact .inl hnull
      · exact .inr ⟨hptr, hend⟩
    · rintro _ _ _ heq
      obtain ⟨rfl, rfl, rfl⟩ := InvariantType.arrayBounds.inj heq
      refine bounds_iff.2 fun hptr hle => ?_
      rcases h with hnull | ⟨-, -, hwrap⟩
      · exact absurd hnull (Mapping.ne_null hptr)
      · exact hwrap hle

/-- A repair does what it promises exactly where the input is repairable. -/
theorem repairSound_iff (hform : inv.WellFormed) (hauto : inv.autoRecoverable = true) :
    RepairSound A mem data inv violation ↔ Repairable A mem data inv violation := by
  obtain ⟨type, fieldOffset, fieldSize, autoRecoverable⟩ := inv
  dsimp only at hauto
  subst hauto
  cases type with
  | nullPtr =>
    exact iff_of_true (repairSound_of_recover rfl (fun h => by cases h) (fun _ _ _ h => by cases h))
      trivial
  | nullablePtr =>
    exact iff_of_true (repairSound_of_recover (r := recoverNullablePtr mem data fieldOffset) rfl
      (fun _ => validate_recoverNullablePtr A mem data fieldOffset)
      (fun _ _ _ h => by cases h)) trivial
  | noCycle nextOffset =>
    exact repairSound_noCycle A mem data fieldOffset fieldSize nextOffset violation
  | arrayBounds countOffset elementSize maxCount => exact repairSound_array hform
  | refcount minCount liveOnly =>
    exact iff_of_true (repairSound_of_recover rfl
      (fun _ => validate_recoverRefcount hform liveOnly) (fun _ _ _ h => by cases h)) trivial
  | range min max =>
    obtain ⟨hle, hmin, hmax⟩ := hform
    exact iff_of_true (repairSound_of_recover rfl
      (fun _ => validate_recoverRange hle hmin hmax) (fun _ _ _ h => by cases h)) trivial
  | custom validator recovery =>
    constructor
    · intro h mem' hrecover
      exact h.repairs mem' (settles_some_iff.2 hrecover)
    · intro h
      exact ⟨⟨_, settles_pure _⟩, fun mem' hsettles => h mem' (settles_some_iff.1 hsettles),
        fun _ _ _ h => by cases h⟩
  | unknown =>
    exact iff_of_true (repairSound_of_recover rfl (fun h => by cases h) (fun _ _ _ h => by cases h))
      trivial

/-- A structure with an array at `arrayPtr`, and its count. -/
def arrayAt (arrayPtr count : ℕ) : Memory :=
  store (store (fun _ => 0) 4096 8 arrayPtr) 4104 8 count

/-- The invariant of that structure, with elements of 8 bytes and no `max_count`. -/
def arrayInvariant : Invariant :=
  ⟨.arrayBounds 8 8 0, 0, 8, true⟩

theorem arrayInvariant_wellFormed : arrayInvariant.WellFormed :=
  ⟨by decide, by decide, .inl (by decide)⟩

/-- An array of a thousand elements is truncated to what the page holds. -/
theorem repairSound_iff_array :
    RepairSound onePage (arrayAt 4200 1000) 4096 arrayInvariant .boundsExceeded := by
  have hptr : readPtrField (arrayAt 4200 1000) 4096 0 = 4200 := by decide
  have hcount : readSizeField (arrayAt 4200 1000) 4096 8 = 1000 := by decide
  refine (repairSound_iff arrayInvariant_wellFormed rfl).2 (.inr ⟨by decide, ?_, ?_⟩)
  · exact fun h => absurd h.1 (by decide)
  · rintro - ⟨-, hwrap⟩
    rw [arrayInvariant, hptr, hcount] at hwrap
    norm_num at hwrap

/-- An array outside of Atlas is still there after its repair. An array of `2 ^ 61` elements is
accepted. -/
theorem not_repairSound_array : arrayInvariant.WellFormed ∧ arrayInvariant.autoRecoverable = true ∧
    ¬RepairSound onePage (arrayAt 1 5) 4096 arrayInvariant .invalidPtr ∧
    ¬RepairSound onePage (arrayAt 4200 (2 ^ 61)) 4096 arrayInvariant .ok := by
  refine ⟨arrayInvariant_wellFormed, rfl, fun h => ?_, fun h => ?_⟩
  · have hok := h.repairs _ (settles_pure _)
    exact absurd hok (by decide)
  · have hcount : readSizeField (arrayAt 4200 (2 ^ 61)) 4096 8 * 8 = 2 ^ 64 := by decide
    have hlast := (h.bounds 8 8 0 rfl (by decide) 4096 (by rw [hcount]; norm_num)).2
    have hptr : readPtrField (arrayAt 4200 (2 ^ 61)) 4096 arrayInvariant.fieldOffset = 4200 := by
      decide
    rw [hptr] at hlast
    exact absurd hlast (by decide)

end Checkpoint

end Seraph
