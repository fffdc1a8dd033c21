import Mathlib.Data.List.Range
import Seraph.ElfLoader

/-!
# What the boot ELF loader reads and writes

A file for which `calculateSize` succeeds is loaded to a destination of `destSize` bytes. The sums
over the fields of the headers can wrap, and the size in the file need not be at most the size in
memory : the loader stays in the file and in the destination, and puts every segment where it
belongs, just for the files that are `Sound` (`loadAt_iff`). A `WellFormed` file is
(`WellFormed.sound`).
-/

namespace Seraph

open ByteMem ReadLog Logged

namespace Elf64

variable {b : Image}

/-! ## Headers -/

/-- `e_phnum`. -/
def phnum (b : Image) : ℕ :=
  b.header ElfEhdr.phnum

/-- The address of a program header. -/
def phdrAt (b : Image) (i : ℕ) : ℕ :=
  u64 (b.header ElfEhdr.phoff + i * b.header ElfEhdr.phentsize)

/-- A field of a program header. -/
def ph (b : Image) (i : ℕ) (f : StructField) : ℕ :=
  b.mem.get (phdrAt b i) f

/-- A region of the file. -/
def InFile (b : Image) (r : Region) : Prop :=
  b.Holds r.start r.len

/-- A field of a program header lies in the file. -/
def FieldInFile (b : Image) (i : ℕ) (f : StructField) : Prop :=
  InFile b ⟨u64 (phdrAt b i + f.off), f.width⟩

/-- A PT_LOAD header. -/
def IsLoad (b : Image) (i : ℕ) : Prop :=
  ph b i ElfPhdr.type = ptLoad

/-- A PT_LOAD header with something to load. -/
def Loads (b : Image) (i : ℕ) : Prop :=
  IsLoad b i ∧ 0 < ph b i ElfPhdr.memsz

instance (i : ℕ) : Decidable (IsLoad b i) :=
  inferInstanceAs (Decidable (_ = _))

instance (i : ℕ) : Decidable (Loads b i) :=
  inferInstanceAs (Decidable (_ ∧ _))

/-- What is read of a header to see whether it is loadable. -/
def KindInFile (b : Image) (i : ℕ) : Prop :=
  FieldInFile b i ElfPhdr.type ∧ (IsLoad b i → FieldInFile b i ElfPhdr.memsz)

/-- What is read of a header to calculate the size. -/
def HeaderInFile (b : Image) (i : ℕ) : Prop :=
  KindInFile b i ∧ (Loads b i → FieldInFile b i ElfPhdr.vaddr)

theorem all_read {base : ℕ} {f : StructField} :
    All (InFile b) (b.read base f) ↔ InFile b ⟨u64 (base + f.off), f.width⟩ :=
  List.forall_mem_singleton

/-- The ELF header lies in the file. -/
theorem all_header (hsize : ElfEhdr.size ≤ b.size) {f : StructField} (hf : f.Inside ElfEhdr.size) :
    All (InFile b) (b.read 0 f) := by
  rw [all_read]
  have hoff : u64 (0 + f.off) ≤ f.off := (Nat.mod_le _ _).trans (Nat.zero_add _).le
  unfold InFile Image.Holds
  unfold StructField.Inside at hf
  exact (Nat.add_le_add_right hoff _).trans (hf.trans hsize)

theorem all_isValid : All (InFile b) (isValid b) := by
  unfold isValid
  by_cases hsize : b.size < ElfEhdr.size
  · rw [if_pos hsize]
    exact all_pure _
  · rw [if_neg hsize]
    have hread : ∀ {f : StructField}, f.Inside ElfEhdr.size → All (InFile b) (b.read 0 f) :=
      all_header (not_lt.1 hsize)
    have hident : ∀ i < 64, All (InFile b) (b.read 0 (ElfEhdr.ident i)) := fun i hi => hread hi
    simp only [all_bind, all_ite_iff, all_pure, hident _ (show (0 : ℕ) < 64 by decide),
      hident _ (show 1 < 64 by decide), hident _ (show 2 < 64 by decide),
      hident _ (show 3 < 64 by decide), hident _ (show 4 < 64 by decide),
      hident _ (show 5 < 64 by decide), hread (show ElfEhdr.machine.Inside _ by decide),
      hread (show ElfEhdr.type.Inside _ by decide), hread (show ElfEhdr.phnum.Inside _ by decide),
      hread (show ElfEhdr.phoff.Inside _ by decide),
      hread (show ElfEhdr.phentsize.Inside _ by decide), and_true, implies_true]

theorem size_of_isValid (h : (isValid b).value = true) : ElfEhdr.size ≤ b.size := by
  by_contra hsize
  rw [isValid, if_pos (not_le.1 hsize)] at h
  cases h

theorem value_getPhdr {i : ℕ} (hi : i < phnum b) : (getPhdr b i).value = some (phdrAt b i) := by
  have hnum : ¬i ≥ (b.read 0 ElfEhdr.phnum).value := not_le.2 hi
  unfold getPhdr
  rw [value_bind, if_neg hnum]
  rfl

theorem all_getPhdr (hsize : ElfEhdr.size ≤ b.size) (i : ℕ) : All (InFile b) (getPhdr b i) := by
  unfold getPhdr
  simp only [all_bind, all_ite_iff, all_pure, all_header hsize (show ElfEhdr.phnum.Inside _ by decide),
    all_header hsize (show ElfEhdr.phoff.Inside _ by decide),
    all_header hsize (show ElfEhdr.phentsize.Inside _ by decide), and_true, implies_true]

theorem value_loadable (i : ℕ) : (loadable b (phdrAt b i)).value = decide (Loads b i) := by
  unfold loadable
  rw [value_bind]
  by_cases htype : IsLoad b i
  · have hread : ¬(b.read (phdrAt b i) ElfPhdr.type).value ≠ ptLoad := not_not.2 htype
    rw [if_neg hread, value_bind, value_pure, decide_eq_decide]
    exact ⟨fun h => ⟨htype, h⟩, And.right⟩
  · have hread : (b.read (phdrAt b i) ElfPhdr.type).value ≠ ptLoad := htype
    rw [if_pos hread, value_pure, eq_comm, decide_eq_false_iff_not]
    exact fun h => htype h.1

theorem all_loadable (i : ℕ) : All (InFile b) (loadable b (phdrAt b i)) ↔ KindInFile b i := by
  unfold loadable
  rw [all_bind, all_ite_iff, all_bind, all_read, all_read]
  simp only [all_pure, implies_true, true_and, and_true, not_not]
  rfl

/-! ## The size -/

/-- What one round makes of the variables. -/
def extended (b : Image) (e : Extent) (i : ℕ) : Extent :=
  if Loads b i then
    ⟨min (ph b i ElfPhdr.vaddr) e.virtMin,
      max (u64 (ph b i ElfPhdr.vaddr + ph b i ElfPhdr.memsz)) e.virtMax, true⟩
  else e

theorem value_extend {i : ℕ} (hi : i < phnum b) (e : Extent) :
    (extend b e i).value = extended b e i := by
  unfold extend extended
  rw [value_bind, value_getPhdr hi]
  dsimp only
  rw [value_bind, value_loadable]
  by_cases hloads : Loads b i
  · rw [if_pos hloads, if_pos (decide_eq_true hloads), value_bind, value_bind, value_pure]
    have hmin : ∀ x y : ℕ, (if x < y then x else y) = min x y := by
      intro x y
      split <;> omega
    have hmax : ∀ x y : ℕ, (if x > y then x else y) = max x y := by
      intro x y
      split <;> omega
    rw [hmin, hmax]
    rfl
  · rw [if_neg hloads, if_neg (by simpa using hloads), value_pure]

theorem all_extend (hsize : ElfEhdr.size ≤ b.size) {i : ℕ} (hi : i < phnum b) (e : Extent) :
    All (InFile b) (extend b e i) ↔ HeaderInFile b i := by
  unfold extend HeaderInFile
  rw [all_bind, value_getPhdr hi]
  dsimp only
  rw [all_bind, all_loadable, value_loadable, all_ite_iff, decide_eq_true_iff]
  simp only [all_bind, all_getPhdr hsize, all_pure, implies_true, true_and, and_true]
  refine and_congr_right fun hkind => forall_congr' fun hloads => ?_
  rw [all_read, all_read]
  exact and_iff_left (hkind.2 hloads.1)

/-- The variables after the loop. -/
def extent (b : Image) : Extent :=
  (List.range (phnum b)).foldl (extended b) ⟨2 ^ 64 - 1, 0, false⟩

theorem value_extents : ((List.range (phnum b)).foldlM (extend b) ⟨2 ^ 64 - 1, 0, false⟩).value =
    extent b := by
  rw [value_foldlM]
  exact List.foldl_ext _ _ _ fun e i hi => value_extend (List.mem_range.1 hi) e

theorem calculateSize_ok {virtBase virtSize : ℕ} :
    (calculateSize b).value = .ok (virtBase, virtSize) ↔ (isValid b).value = true ∧
      (extent b).foundLoadable = true ∧ virtBase = (extent b).virtMin ∧
      virtSize = u64 ((extent b).virtMax + 2 ^ 64 - (extent b).virtMin) := by
  unfold calculateSize
  rw [value_bind]
  by_cases hvalid : (isValid b).value = true
  · have hnum : (b.read 0 ElfEhdr.phnum).value = phnum b := rfl
    rw [if_neg (by rw [hvalid]; decide), value_bind, hnum, value_bind, value_extents]
    by_cases hfound : (extent b).foundLoadable = true
    · rw [if_neg (by rw [hfound]; decide), value_pure, Except.ok.injEq, Prod.mk.injEq]
      exact ⟨fun h => ⟨hvalid, hfound, h.1.symm, h.2.symm⟩, fun h => ⟨h.2.2.1.symm, h.2.2.2.symm⟩⟩
    · rw [if_pos (by simpa using hfound)]
      exact iff_of_false (by simp) fun h => hfound h.2.1
  · rw [if_pos (by simpa using hvalid)]
    exact iff_of_false (by simp) fun h => hvalid h.1

theorem all_calculateSize (hvalid : (isValid b).value = true) :
    All (InFile b) (calculateSize b) ↔ ∀ i < phnum b, HeaderInFile b i := by
  have hsize := size_of_isValid hvalid
  have hnum : (b.read 0 ElfEhdr.phnum).value = phnum b := rfl
  unfold calculateSize
  rw [all_bind, if_neg (by rw [hvalid]; decide), all_bind, hnum, all_bind,
    all_foldlM_iff _ fun e i hi => all_extend hsize (List.mem_range.1 hi) e]
  simp only [all_isValid, all_header hsize (show ElfEhdr.phnum.Inside _ by decide), all_ite_iff,
    all_pure, implies_true, true_and, and_true, List.mem_range]

theorem foldl_extended (is : List ℕ) (e : Extent) :
    (is.foldl (extended b) e).virtMin ≤ e.virtMin ∧
    e.virtMax ≤ (is.foldl (extended b) e).virtMax ∧
    ∀ i ∈ is, Loads b i → (is.foldl (extended b) e).virtMin ≤ ph b i ElfPhdr.vaddr ∧
      u64 (ph b i ElfPhdr.vaddr + ph b i ElfPhdr.memsz) ≤ (is.foldl (extended b) e).virtMax := by
  induction is generalizing e with
  | nil => exact ⟨le_refl _, le_refl _, fun i hi => absurd hi List.not_mem_nil⟩
  | cons i is ih =>
    rw [List.foldl_cons]
    obtain ⟨hmin, hmax, hall⟩ := ih (extended b e i)
    have hmin' : (extended b e i).virtMin ≤ e.virtMin := by
      unfold extended
      split
      · exact Nat.min_le_right _ _
      · exact le_refl _
    have hmax' : e.virtMax ≤ (extended b e i).virtMax := by
      unfold extended
      split
      · exact Nat.le_max_right _ _
      · exact le_refl _
    refine ⟨hmin.trans hmin', hmax'.trans hmax, fun j hj hloads => ?_⟩
    rcases List.mem_cons.1 hj with rfl | hj
    · rw [extended, if_pos hloads] at hmin hmax ⊢
      exact ⟨hmin.trans (Nat.min_le_left _ _), (Nat.le_max_left _ _).trans hmax⟩
    · exact hall j hj hloads

theorem virtMin_le {i : ℕ} (hi : i < phnum b) (hloads : Loads b i) :
    (extent b).virtMin ≤ ph b i ElfPhdr.vaddr :=
  ((foldl_extended _ _).2.2 i (List.mem_range.2 hi) hloads).1

theorem le_virtMax {i : ℕ} (hi : i < phnum b) (hloads : Loads b i) :
    u64 (ph b i ElfPhdr.vaddr + ph b i ElfPhdr.memsz) ≤ (extent b).virtMax :=
  ((foldl_extended _ _).2.2 i (List.mem_range.2 hi) hloads).2

theorem virtMin_lt (b : Image) : (extent b).virtMin < 2 ^ 64 :=
  (foldl_extended _ _).1.trans_lt (by norm_num)

theorem ph_lt (i : ℕ) {f : StructField} (hf : f.width = 8) : ph b i f < 2 ^ 64 := by
  have hlt := Memory.get_lt b.mem (phdrAt b i) f
  rw [hf] at hlt
  exact hlt.trans_eq (by norm_num)

/-! ## One segment -/

/-- The bytes of a destination of whole pages. -/
def destSize (virtSize : ℕ) : ℕ :=
  4096 * ((virtSize + 4095) / 4096)

/-- The test of the data offset. -/
def Checked (b : Image) (i : ℕ) : Prop :=
  u64 (ph b i ElfPhdr.offset + ph b i ElfPhdr.filesz) ≤ b.size

instance (i : ℕ) : Decidable (Checked b i) :=
  inferInstanceAs (Decidable (_ ≤ _))

variable {virtBase physBase : ℕ}

/-- `dest_addr`. -/
def destAddr (b : Image) (virtBase physBase i : ℕ) : ℕ :=
  u64 (physBase + u64 (ph b i ElfPhdr.vaddr + 2 ^ 64 - virtBase))

/-- The loading with a segment placed. -/
def placed (b : Image) (virtBase physBase : ℕ) (s : Loading) (i : ℕ) : Loading :=
  (place b s (destAddr b virtBase physBase i) (ph b i ElfPhdr.offset) (ph b i ElfPhdr.filesz)
    (ph b i ElfPhdr.memsz)).value

/-- The regions written for a segment. -/
def segmentWrites (b : Image) (virtBase physBase i : ℕ) : List Region :=
  (if 0 < ph b i ElfPhdr.filesz then
    [⟨destAddr b virtBase physBase i, ph b i ElfPhdr.filesz⟩] else []) ++
  (if ph b i ElfPhdr.memsz > ph b i ElfPhdr.filesz then
    [⟨u64 (destAddr b virtBase physBase i + ph b i ElfPhdr.filesz),
      ph b i ElfPhdr.memsz - ph b i ElfPhdr.filesz⟩] else [])

theorem writes_placed (s : Loading) (i : ℕ) :
    (placed b virtBase physBase s i).writes = s.writes ++ segmentWrites b virtBase physBase i := by
  unfold placed place segmentWrites copyData
  rw [value_bind, value_pure]
  dsimp only
  by_cases hfile : 0 < ph b i ElfPhdr.filesz
  · rw [if_pos hfile, if_pos hfile]
    split
    · exact List.append_assoc _ _ _
    · rw [List.append_nil]
      rfl
  · rw [if_neg hfile, if_neg hfile, value_pure]
    split
    · rfl
    · exact (List.append_nil _).symm

theorem all_place {s : Loading} {dest offset filesz memsz : ℕ} :
    All (InFile b) (place b s dest offset filesz memsz) ↔
      (0 < filesz → InFile b ⟨u64 offset, filesz⟩) := by
  unfold place copyData
  rw [all_bind, all_ite_iff]
  simp only [all_pure, implies_true, and_true]
  exact imp_congr_right fun _ => List.forall_mem_singleton

/-- What one round makes of the loading. -/
def segmentLoaded (b : Image) (virtBase physBase : ℕ) (s : Loading) (i : ℕ) : Loading × EfiStatus :=
  if Loads b i then
    if Checked b i then (placed b virtBase physBase s i, .success) else (s, .loadError)
  else (s, .success)

theorem value_loadSegment {i : ℕ} (hi : i < phnum b) (s : Loading) :
    (loadSegment b virtBase physBase s i).value = segmentLoaded b virtBase physBase s i := by
  unfold loadSegment segmentLoaded
  rw [value_bind, value_getPhdr hi]
  dsimp only
  rw [value_bind, value_loadable]
  by_cases hloads : Loads b i
  · rw [if_pos hloads, if_pos (decide_eq_true hloads), value_bind, value_bind, value_bind]
    by_cases hcheck : Checked b i
    · have hno : ¬u64 ((b.read (phdrAt b i) ElfPhdr.offset).value +
          (b.read (phdrAt b i) ElfPhdr.filesz).value) > b.size := not_lt.2 hcheck
      rw [if_pos hcheck, if_neg hno, value_bind, value_bind, value_pure]
      rfl
    · have hyes : u64 ((b.read (phdrAt b i) ElfPhdr.offset).value +
          (b.read (phdrAt b i) ElfPhdr.filesz).value) > b.size := not_le.1 hcheck
      rw [if_neg hcheck, if_pos hyes, value_pure]
  · rw [if_neg hloads, if_neg (by simpa using hloads), value_pure]

/-- What is read of the file for a segment, beside its header's size and address. -/
def DataInFile (b : Image) (i : ℕ) : Prop :=
  FieldInFile b i ElfPhdr.offset ∧ FieldInFile b i ElfPhdr.filesz ∧ (Checked b i →
    0 < ph b i ElfPhdr.filesz → InFile b ⟨u64 (ph b i ElfPhdr.offset), ph b i ElfPhdr.filesz⟩)

theorem all_loadSegment (hsize : ElfEhdr.size ≤ b.size) {i : ℕ} (hi : i < phnum b) (s : Loading) :
    All (InFile b) (loadSegment b virtBase physBase s i) ↔
      HeaderInFile b i ∧ (Loads b i → DataInFile b i) := by
  unfold loadSegment HeaderInFile DataInFile
  rw [all_bind, value_getPhdr hi]
  dsimp only
  rw [all_bind, all_loadable, value_loadable, all_ite_iff, decide_eq_true_iff]
  simp only [all_bind, all_getPhdr hsize, all_pure, all_place, all_ite_iff, all_read, implies_true,
    true_and, and_true]
  rw [and_assoc]
  refine and_congr_right fun hkind => ?_
  rw [← forall_and]
  refine forall_congr' fun hloads => ?_
  have hmemsz := hkind.2 hloads.1
  have hcheck : (¬u64 ((b.read (phdrAt b i) ElfPhdr.offset).value +
      (b.read (phdrAt b i) ElfPhdr.filesz).value) > b.size) ↔ Checked b i := not_lt
  rw [hcheck]
  constructor
  · rintro ⟨hvaddr, hoffset, hfilesz, hdata⟩
    exact ⟨hvaddr, hoffset, hfilesz, fun hc => (hdata hc).2⟩
  · rintro ⟨hvaddr, hoffset, hfilesz, hdata⟩
    exact ⟨hvaddr, hoffset, hfilesz, fun hc => ⟨hmemsz, hdata hc⟩⟩

/-! ## All segments -/

/-- The loop is still running when it comes to `i`. -/
def Reached (b : Image) (i : ℕ) : Prop :=
  ∀ j < i, Loads b j → Checked b j

/-- The state in which the loop goes on after `i`, if it does. -/
def goesOn (b : Image) (virtBase physBase : ℕ) (s : Loading) (i : ℕ) : Loading :=
  if Loads b i then placed b virtBase physBase s i else s

theorem segmentLoaded_of_passed {i : ℕ} (h : Loads b i → Checked b i) (s : Loading) :
    segmentLoaded b virtBase physBase s i = (goesOn b virtBase physBase s i, .success) := by
  unfold segmentLoaded goesOn
  by_cases hloads : Loads b i
  · rw [if_pos hloads, if_pos hloads, if_pos (h hloads)]
  · rw [if_neg hloads, if_neg hloads]

theorem segmentLoaded_of_failed {i : ℕ} (h : ¬(Loads b i → Checked b i)) (s : Loading) :
    segmentLoaded b virtBase physBase s i = (s, .loadError) := by
  obtain ⟨hloads, hcheck⟩ := Classical.not_imp.1 h
  rw [segmentLoaded, if_pos hloads, if_neg hcheck]

theorem value_loadSegments_cons {i : ℕ} (hi : i < phnum b) (is : List ℕ) (s : Loading) :
    (loadSegments b virtBase physBase (i :: is) s).value =
      if Loads b i → Checked b i then
        (loadSegments b virtBase physBase is (goesOn b virtBase physBase s i)).value
      else (s, .loadError) := by
  rw [loadSegments, value_bind, value_loadSegment hi]
  by_cases hpass : Loads b i → Checked b i
  · rw [if_pos hpass, segmentLoaded_of_passed hpass]
  · rw [if_neg hpass, segmentLoaded_of_failed hpass]
    rfl

theorem all_loadSegments_cons (hsize : ElfEhdr.size ≤ b.size) {i : ℕ} (hi : i < phnum b)
    (is : List ℕ) (s : Loading) :
    All (InFile b) (loadSegments b virtBase physBase (i :: is) s) ↔
      (HeaderInFile b i ∧ (Loads b i → DataInFile b i)) ∧ ((Loads b i → Checked b i) →
        All (InFile b) (loadSegments b virtBase physBase is (goesOn b virtBase physBase s i))) := by
  rw [loadSegments, all_bind, all_loadSegment hsize hi, value_loadSegment hi]
  refine and_congr_right fun _ => ?_
  by_cases hpass : Loads b i → Checked b i
  · rw [segmentLoaded_of_passed hpass]
    exact ⟨fun h _ => h, fun h => h hpass⟩
  · rw [segmentLoaded_of_failed hpass]
    exact ⟨fun _ h => absurd h hpass, fun _ => all_pure _⟩

/-- What is read and written for a segment stays where it should. -/
def SegmentSafe (b : Image) (virtBase physBase : ℕ) (dest : Region) (i : ℕ) : Prop :=
  DataInFile b i ∧ (Checked b i → ∀ w ∈ segmentWrites b virtBase physBase i, w.Within dest)

theorem writes_goesOn {P : Region → Prop} (s : Loading) (i : ℕ) :
    (∀ w ∈ (goesOn b virtBase physBase s i).writes, P w) ↔
      (∀ w ∈ s.writes, P w) ∧ (Loads b i → ∀ w ∈ segmentWrites b virtBase physBase i, P w) := by
  unfold goesOn
  by_cases hloads : Loads b i
  · rw [if_pos hloads, writes_placed, List.forall_mem_append]
    exact and_congr_right fun _ => ⟨fun h _ => h, fun h => h hloads⟩
  · rw [if_neg hloads]
    exact (and_iff_left fun h => absurd h hloads).symm

/-- The loop is safe just where every segment is that it comes to. -/
theorem loadSegments_safe_iff (hsize : ElfEhdr.size ≤ b.size) {dest : Region} (n : ℕ) :
    ∀ (k : ℕ) (s : Loading), k + n ≤ phnum b →
      (All (InFile b) (loadSegments b virtBase physBase (List.range' k n) s) ∧
        (∀ w ∈ (loadSegments b virtBase physBase (List.range' k n) s).value.1.writes,
          w.Within dest) ↔
      (∀ w ∈ s.writes, w.Within dest) ∧ ∀ i, k ≤ i → i < k + n →
        (∀ j, k ≤ j → j < i → Loads b j → Checked b j) →
          HeaderInFile b i ∧ (Loads b i → SegmentSafe b virtBase physBase dest i)) := by
  induction n with
  | zero =>
    intro k s _
    exact ⟨fun h => ⟨h.2, fun i hki hik => absurd hik (by omega)⟩, fun h => ⟨all_pure _, h.1⟩⟩
  | succ n ih =>
    intro k s hk
    rw [List.range'_succ, all_loadSegments_cons hsize (by omega), value_loadSegments_cons (by omega)]
    by_cases hpass : Loads b k → Checked b k
    · have hrest := ih (k + 1) (goesOn b virtBase physBase s k) (by omega)
      rw [writes_goesOn] at hrest
      rw [if_pos hpass, forall_prop_of_true hpass, and_assoc, hrest]
      constructor
      · rintro ⟨⟨hhead, hdata⟩, ⟨hs, hwrites⟩, hall⟩
        refine ⟨hs, fun i hki hik hreach => ?_⟩
        rcases eq_or_lt_of_le hki with rfl | hlt
        · exact ⟨hhead, fun hl => ⟨hdata hl, fun _ => hwrites hl⟩⟩
        · exact hall i hlt (by omega) fun j hj => hreach j (by omega)
      · rintro ⟨hs, hall⟩
        obtain ⟨hhead, hsafe⟩ := hall k (le_refl k) (by omega) fun j hj hjk => absurd hjk (by omega)
        refine ⟨⟨hhead, fun hl => (hsafe hl).1⟩, ⟨hs, fun hl => (hsafe hl).2 (hpass hl)⟩,
          fun i hki hik hreach => hall i (by omega) (by omega) fun j hj hji => ?_⟩
        rcases eq_or_lt_of_le hj with rfl | hlt
        · exact hpass
        · exact hreach j hlt hji
    · simp only [if_neg hpass]
      constructor
      · rintro ⟨⟨⟨hhead, hdata⟩, -⟩, hs⟩
        refine ⟨hs, fun i hki hik hreach => ?_⟩
        rcases eq_or_lt_of_le hki with rfl | hlt
        · obtain ⟨-, hcheck⟩ := Classical.not_imp.1 hpass
          exact ⟨hhead, fun hl => ⟨hdata hl, fun h => absurd h hcheck⟩⟩
        · exact absurd (hreach k (le_refl k) hlt) hpass
      · rintro ⟨hs, hall⟩
        obtain ⟨hhead, hsafe⟩ := hall k (le_refl k) (by omega) fun j hj hjk => absurd hjk (by omega)
        exact ⟨⟨⟨hhead, fun hl => (hsafe hl).1⟩, fun h => absurd h hpass⟩, hs⟩

/-! ## Sound files -/

theorem forall_mem_ite_singleton {P : Region → Prop} {c : Prop} [Decidable c] {r : Region} :
    (∀ w ∈ if c then [r] else [], P w) ↔ (c → P r) := by
  by_cases h : c
  · rw [if_pos h, List.forall_mem_singleton, forall_prop_of_true h]
  · rw [if_neg h]
    exact ⟨fun _ hc => absurd hc h, fun _ w hw => absurd hw List.not_mem_nil⟩

/-- The data of a segment ends in the file, and its place in the destination. -/
def Fits (b : Image) (virtBase len i : ℕ) : Prop :=
  ph b i ElfPhdr.offset + ph b i ElfPhdr.filesz ≤ b.size ∧
    ph b i ElfPhdr.vaddr - virtBase + max (ph b i ElfPhdr.filesz) (ph b i ElfPhdr.memsz) ≤ len

theorem segmentSafe_iff {i len : ℕ} (hbase : virtBase ≤ ph b i ElfPhdr.vaddr)
    (hmemsz : 0 < ph b i ElfPhdr.memsz) (hdest : physBase + len ≤ 2 ^ 64) (hlen : len < 2 ^ 64) :
    SegmentSafe b virtBase physBase ⟨physBase, len⟩ i ↔ FieldInFile b i ElfPhdr.offset ∧
      FieldInFile b i ElfPhdr.filesz ∧ (Checked b i → Fits b virtBase len i) := by
  have hoffset := ph_lt (b := b) i (show ElfPhdr.offset.width = 8 from rfl)
  have hvaddr := ph_lt (b := b) i (show ElfPhdr.vaddr.width = 8 from rfl)
  have hfilesz := ph_lt (b := b) i (show ElfPhdr.filesz.width = 8 from rfl)
  have hsize := b.size_lt
  unfold SegmentSafe DataInFile segmentWrites destAddr Checked Fits
  rw [and_assoc, and_assoc]
  refine and_congr_right fun _ => and_congr_right fun _ => ?_
  rw [← forall_and]
  refine forall_congr' fun hcheck => ?_
  rw [List.forall_mem_append, forall_mem_ite_singleton, forall_mem_ite_singleton]
  simp only [InFile, Image.Holds, Region.Within]
  generalize ph b i ElfPhdr.offset = offset at *
  generalize ph b i ElfPhdr.vaddr = vaddr at *
  generalize ph b i ElfPhdr.filesz = filesz at *
  generalize ph b i ElfPhdr.memsz = memsz at *
  unfold u64 at *
  constructor
  · rintro ⟨hdata, hcopy, hzero⟩
    by_cases hfile : 0 < filesz
    · have hdata := hdata hfile
      have hcopy := hcopy hfile
      by_cases hmore : memsz > filesz
      · have hzero := hzero hmore
        omega
      · omega
    · have hzero := hzero (by omega)
      omega
  · rintro ⟨hdata, hplace⟩
    exact ⟨fun _ => by omega, fun _ => by omega, fun _ => by omega⟩

/-! ## Contents -/

/-- Where a segment is placed. -/
def placeOf (b : Image) (virtBase physBase i : ℕ) : Region :=
  ⟨destAddr b virtBase physBase i, max (ph b i ElfPhdr.filesz) (ph b i ElfPhdr.memsz)⟩

/-- The bytes of the file, and zeros behind them, where the segment is placed. -/
def Contains (b : Image) (virtBase physBase : ℕ) (m : Memory) (i : ℕ) : Prop :=
  (∀ k < ph b i ElfPhdr.filesz,
    m (destAddr b virtBase physBase i + k) = b.mem (ph b i ElfPhdr.offset + k)) ∧
  ∀ k, ph b i ElfPhdr.filesz ≤ k → k < ph b i ElfPhdr.memsz →
    m (destAddr b virtBase physBase i + k) = 0

theorem Contains.congr {m m' : Memory} {i : ℕ} (h : Contains b virtBase physBase m i)
    (hm : ∀ x ∈ placeOf b virtBase physBase i, m' x = m x) :
    Contains b virtBase physBase m' i := by
  have hin : ∀ k < max (ph b i ElfPhdr.filesz) (ph b i ElfPhdr.memsz),
      m' (destAddr b virtBase physBase i + k) = m (destAddr b virtBase physBase i + k) :=
    fun k hk => hm _ ⟨Nat.le_add_right _ _, Nat.add_lt_add_left hk _⟩
  constructor
  · intro k hk
    rw [hin k (hk.trans_le (Nat.le_max_left _ _))]
    exact h.1 k hk
  · intro k hfile hmem
    rw [hin k (hmem.trans_le (Nat.le_max_right _ _))]
    exact h.2 k hfile hmem

/-- The segment does not reach beyond the end of the address space. -/
def Placeable (b : Image) (virtBase physBase i : ℕ) : Prop :=
  destAddr b virtBase physBase i + max (ph b i ElfPhdr.filesz) (ph b i ElfPhdr.memsz) ≤ 2 ^ 64

/-- The memory once a segment has been placed. -/
theorem memory_placed {i : ℕ} (h : Placeable b virtBase physBase i) (s : Loading) (x : ℕ) :
    (placed b virtBase physBase s i).memory x =
      if destAddr b virtBase physBase i ≤ x ∧
          x < destAddr b virtBase physBase i + ph b i ElfPhdr.filesz then
        b.mem (ph b i ElfPhdr.offset + (x - destAddr b virtBase physBase i))
      else if x ∈ placeOf b virtBase physBase i then 0 else s.memory x := by
  have hcopy : ∀ dst src n : ℕ, (copyData b s dst src n).value.memory =
      s.memory.write dst (b.mem.bytes src n) := by
    intro dst src n
    unfold copyData
    by_cases hn : 0 < n
    · rw [if_pos hn]
      rfl
    · rw [if_neg hn, value_pure, Nat.eq_zero_of_not_pos hn]
      exact funext fun x => (if_neg fun h => absurd h.2 (not_lt.2 h.1)).symm
  have hwrite : ∀ dst src n x : ℕ, s.memory.write dst (b.mem.bytes src n) x =
      if dst ≤ x ∧ x < dst + n then b.mem (src + (x - dst)) else s.memory x := by
    intro dst src n x
    rw [Memory.write, Memory.length_bytes]
    by_cases hx : dst ≤ x ∧ x < dst + n
    · have hlt : x - dst < n := by omega
      rw [if_pos hx, if_pos hx, Memory.bytes, List.getD_eq_getElem?_getD, List.getElem?_map,
        List.getElem?_range hlt, Option.map_some, Option.getD_some]
    · rw [if_neg hx, if_neg hx]
  unfold placed place
  rw [value_bind, value_pure]
  unfold Placeable at h
  simp only [placeOf, Region.mem_def]
  generalize destAddr b virtBase physBase i = dest at *
  generalize ph b i ElfPhdr.filesz = filesz at *
  generalize ph b i ElfPhdr.memsz = memsz at *
  by_cases hmore : memsz > filesz
  · have hstart : u64 (dest + filesz) = dest + filesz := Nat.mod_eq_of_lt (by omega)
    rw [if_pos hmore, hstart]
    change ((copyData b s dest _ filesz).value.memory.fill (dest + filesz) (memsz - filesz) 0) x = _
    rw [hcopy, Memory.fill, hwrite]
    by_cases hfile : dest ≤ x ∧ x < dest + filesz
    · rw [if_neg (by omega), if_pos hfile, if_pos hfile]
    · rw [if_neg hfile, if_neg hfile]
      exact if_congr (by omega) rfl rfl
  · rw [if_neg hmore]
    change (copyData b s dest _ filesz).value.memory x = _
    rw [hcopy, hwrite]
    by_cases hfile : dest ≤ x ∧ x < dest + filesz
    · rw [if_pos hfile, if_pos hfile]
    · rw [if_neg hfile, if_neg hfile, if_neg (by omega)]

theorem contains_placed {i : ℕ} (h : Placeable b virtBase physBase i) (s : Loading) :
    Contains b virtBase physBase (placed b virtBase physBase s i).memory i := by
  constructor
  · intro k hk
    rw [memory_placed h, if_pos (by omega), Nat.add_sub_cancel_left]
  · intro k hfile hmem
    rw [memory_placed h, if_neg (by omega), if_pos]
    simp only [placeOf, Region.mem_def]
    omega

theorem memory_placed_outside {i x : ℕ} (h : Placeable b virtBase physBase i) (s : Loading)
    (hx : x ∉ placeOf b virtBase physBase i) :
    (placed b virtBase physBase s i).memory x = s.memory x := by
  rw [memory_placed h, if_neg, if_neg hx]
  simp only [placeOf, Region.mem_def] at hx
  omega

/-- The loop ends well where every data offset passes its test. -/
theorem loadSegments_success_iff (n : ℕ) : ∀ (k : ℕ) (s : Loading), k + n ≤ phnum b →
    ((loadSegments b virtBase physBase (List.range' k n) s).value.2 = .success ↔
      ∀ i, k ≤ i → i < k + n → Loads b i → Checked b i) := by
  induction n with
  | zero => exact fun k s _ => ⟨fun _ i hki hik => absurd hik (by omega), fun _ => rfl⟩
  | succ n ih =>
    intro k s hk
    rw [List.range'_succ, value_loadSegments_cons (by omega)]
    by_cases hpass : Loads b k → Checked b k
    · rw [if_pos hpass, ih (k + 1) _ (by omega)]
      constructor
      · intro hall i hki hik
        rcases eq_or_lt_of_le hki with rfl | hlt
        · exact hpass
        · exact hall i hlt (by omega)
      · exact fun hall i hki hik => hall i (by omega) (by omega)
    · rw [if_neg hpass]
      exact iff_of_false (by simp) fun hall => hpass (hall k (le_refl k) (by omega))

/-- A loop that fails nowhere changes the places of the segments only. -/
theorem loadSegments_frame {x : ℕ} (n : ℕ) : ∀ (k : ℕ) (s : Loading), k + n ≤ phnum b →
    (∀ i, k ≤ i → i < k + n → Loads b i → Checked b i ∧ Placeable b virtBase physBase i ∧
      x ∉ placeOf b virtBase physBase i) →
    (loadSegments b virtBase physBase (List.range' k n) s).value.1.memory x = s.memory x := by
  induction n with
  | zero => exact fun _ _ _ _ => rfl
  | succ n ih =>
    intro k s hk hall
    have hhead := hall k (le_refl k) (by omega)
    rw [List.range'_succ, value_loadSegments_cons (by omega), if_pos fun hl => (hhead hl).1,
      ih (k + 1) _ (by omega) fun i hki hik => hall i (by omega) (by omega)]
    unfold goesOn
    by_cases hloads : Loads b k
    · rw [if_pos hloads, memory_placed_outside (hhead hloads).2.1 s (hhead hloads).2.2]
    · rw [if_neg hloads]

/-- A loop that fails nowhere gives every segment its contents, if they lie apart. -/
theorem loadSegments_contains (n : ℕ) : ∀ (k : ℕ) (s : Loading), k + n ≤ phnum b →
    (∀ i, k ≤ i → i < k + n → Loads b i → Checked b i ∧ Placeable b virtBase physBase i) →
    (∀ i j, i < j → j < k + n → Loads b i → Loads b j → ∀ x ∈ placeOf b virtBase physBase i,
      x ∉ placeOf b virtBase physBase j) →
    ∀ i, k ≤ i → i < k + n → Loads b i → Contains b virtBase physBase
      (loadSegments b virtBase physBase (List.range' k n) s).value.1.memory i := by
  induction n with
  | zero => exact fun k s _ _ _ i hki hik => absurd hik (by omega)
  | succ n ih =>
    intro k s hk hall hapart i hki hik hloads
    have hhead := hall k (le_refl k) (by omega)
    rw [List.range'_succ, value_loadSegments_cons (by omega), if_pos fun hl => (hhead hl).1]
    rcases eq_or_lt_of_le hki with rfl | hlt
    · rw [goesOn, if_pos hloads]
      refine (contains_placed (hhead hloads).2 s).congr fun x hx => ?_
      refine loadSegments_frame n (k + 1) _ (by omega) fun j hkj hjn hj => ?_
      obtain ⟨hcheck, hplace⟩ := hall j (by omega) (by omega) hj
      exact ⟨hcheck, hplace, hapart k j hkj (by omega) hloads hj x hx⟩
    · exact ih (k + 1) _ (by omega) (fun j hkj hjn => hall j (by omega) (by omega))
        (fun j l hjl hl => hapart j l hjl (by omega)) i hlt (by omega) hloads

/-! ## The whole file -/

variable {virtSize : ℕ}

/-- The loop over all segments. -/
def segmentsLoaded (b : Image) (virtBase physBase : ℕ) (m : Memory) : Loading × EfiStatus :=
  (loadSegments b virtBase physBase (List.range' 0 (phnum b)) ⟨m, [], 0⟩).value

theorem value_loadAt (hcalc : (calculateSize b).value = .ok (virtBase, virtSize)) (m : Memory) :
    (loadAt b physBase m).value = finish (b.header ElfEhdr.entry) virtBase virtSize physBase
      (segmentsLoaded b virtBase physBase m) := by
  have hvalid := (calculateSize_ok.1 hcalc).1
  have hnum : (b.read 0 ElfEhdr.phnum).value = phnum b := rfl
  unfold loadAt segmentsLoaded
  rw [value_bind, if_neg (by rw [hvalid]; decide), value_bind, hcalc]
  dsimp only
  rw [value_bind, value_bind, hnum, value_bind, value_bind, List.range_eq_range', value_pure]
  rfl

theorem loadAt_loading (hcalc : (calculateSize b).value = .ok (virtBase, virtSize)) (m : Memory) :
    (loadAt b physBase m).value.1 = (segmentsLoaded b virtBase physBase m).1 := by
  rw [value_loadAt hcalc]
  generalize segmentsLoaded b virtBase physBase m = r
  obtain ⟨s, status⟩ := r
  cases status <;> rfl

theorem loadAt_ok_iff (hcalc : (calculateSize b).value = .ok (virtBase, virtSize)) (m : Memory) :
    (∃ result, (loadAt b physBase m).value.2 = .ok result) ↔
      ∀ i < phnum b, Loads b i → Checked b i := by
  have hstatus : (segmentsLoaded b virtBase physBase m).2 = .success ↔
      ∀ i, 0 ≤ i → i < 0 + phnum b → Loads b i → Checked b i :=
    loadSegments_success_iff (phnum b) 0 _ (Nat.zero_add _).le
  simp only [Nat.zero_le, true_imp_iff, Nat.zero_add] at hstatus
  rw [← hstatus, value_loadAt hcalc]
  unfold segmentsLoaded
  generalize (loadSegments b virtBase physBase _ _).value = r
  obtain ⟨s, status⟩ := r
  cases status with
  | success => exact ⟨fun _ => rfl, fun _ => ⟨_, rfl⟩⟩
  | loadError => exact iff_of_false (fun ⟨_, h⟩ => by cases h) fun h => by cases h
  | notFound => exact iff_of_false (fun ⟨_, h⟩ => by cases h) fun h => by cases h

theorem all_loadAt (hcalc : (calculateSize b).value = .ok (virtBase, virtSize)) (m : Memory) :
    All (InFile b) (loadAt b physBase m) ↔ (∀ i < phnum b, HeaderInFile b i) ∧
      All (InFile b) (loadSegments b virtBase physBase (List.range' 0 (phnum b)) ⟨m, [], 0⟩) := by
  have hvalid := (calculateSize_ok.1 hcalc).1
  have hsize := size_of_isValid hvalid
  have hnum : (b.read 0 ElfEhdr.phnum).value = phnum b := rfl
  have hcount : (∀ i < phnum b, HeaderInFile b i) →
      All (InFile b) ((List.range' 0 (phnum b)).foldlM (countLoadable b) 0) := by
    intro hall
    refine all_foldlM _ (fun n i hi => ?_) 0
    have hi : i < phnum b := by simpa using hi
    unfold countLoadable
    rw [all_bind, value_getPhdr hi]
    dsimp only
    rw [all_bind, all_loadable]
    exact ⟨all_getPhdr hsize i, (hall i hi).1, all_pure _⟩
  unfold loadAt
  rw [all_bind, if_neg (by rw [hvalid]; decide), all_bind, hcalc, all_calculateSize hvalid]
  dsimp only
  rw [all_bind, all_bind, hnum, all_bind, all_bind, List.range_eq_range']
  constructor
  · rintro ⟨-, hhead, -, -, -, hsegments, -⟩
    exact ⟨hhead, hsegments⟩
  · rintro ⟨hhead, hsegments⟩
    exact ⟨all_isValid, hhead, all_header hsize (by decide), all_header hsize (by decide),
      hcount hhead, hsegments, all_pure _⟩

/-- A segment takes an address, in the file as in memory. -/
def Covers (b : Image) (i x : ℕ) : Prop :=
  u64 (x + 2 ^ 64 - ph b i ElfPhdr.vaddr) < max (ph b i ElfPhdr.filesz) (ph b i ElfPhdr.memsz)

/-- The segments do not overlap. -/
def Apart (b : Image) : Prop :=
  ∀ i < phnum b, ∀ j < phnum b, i ≠ j → IsLoad b i → IsLoad b j →
    ∀ x < 2 ^ 64, Covers b i x → ¬Covers b j x

/-- The file and the destination are different parts of the memory. -/
structure Placed (b : Image) (buffer physBase virtSize : ℕ) : Prop where
  buffer_le : buffer + b.size ≤ 2 ^ 64
  dest_le : physBase + destSize virtSize ≤ 2 ^ 64
  apart : (Region.mk buffer b.size).Disjoint ⟨physBase, destSize virtSize⟩

/-- What is promised of `elf64_load_at`, whatever is in the memory before. -/
structure SafeAndExact (b : Image) (virtBase virtSize physBase : ℕ) : Prop where
  reads : ∀ m, All (InFile b) (loadAt b physBase m)
  writes : ∀ m, ∀ w ∈ (loadAt b physBase m).value.1.writes, w.Within ⟨physBase, destSize virtSize⟩
  contents : ∀ m result, (loadAt b physBase m).value.2 = .ok result → Apart b →
    ∀ i < phnum b, IsLoad b i →
      Contains b virtBase physBase (loadAt b physBase m).value.1.memory i

/-- The headers that are read lie in the file. A segment whose data offset passes its test has its
data in the file and fits in the destination, if the loader comes to it. Where the loader comes to the
end, the segments it has skipped have no data. -/
structure Sound (b : Image) (virtBase virtSize : ℕ) : Prop where
  headers : ∀ i < phnum b, HeaderInFile b i
  segments : ∀ i < phnum b, Loads b i → Reached b i → FieldInFile b i ElfPhdr.offset ∧
    FieldInFile b i ElfPhdr.filesz ∧ (Checked b i → Fits b virtBase (destSize virtSize) i)
  skipped : (∀ i < phnum b, Loads b i → Checked b i) → Apart b → ∀ i < phnum b, IsLoad b i →
    ph b i ElfPhdr.memsz = 0 → ph b i ElfPhdr.filesz = 0

theorem Placed.destSize_lt {buffer : ℕ} (h : Placed b buffer physBase virtSize)
    (hsize : ElfEhdr.size ≤ b.size) : destSize virtSize < 2 ^ 64 := by
  obtain ⟨h1, h2, h3⟩ := h
  have hpos : 0 < b.size := lt_of_lt_of_le (by decide) hsize
  simp only [Region.Disjoint] at h3
  omega

/-- Where a segment that fits is placed. -/
theorem destAddr_eq {i len : ℕ} (hbase : virtBase ≤ ph b i ElfPhdr.vaddr)
    (hmemsz : 0 < ph b i ElfPhdr.memsz) (hdest : physBase + len ≤ 2 ^ 64)
    (hfits : Fits b virtBase len i) :
    destAddr b virtBase physBase i = physBase + (ph b i ElfPhdr.vaddr - virtBase) := by
  have hvaddr := ph_lt (b := b) i (show ElfPhdr.vaddr.width = 8 from rfl)
  have hplace := hfits.2
  unfold destAddr u64
  omega

theorem placeable_of_fits {i len : ℕ} (hbase : virtBase ≤ ph b i ElfPhdr.vaddr)
    (hmemsz : 0 < ph b i ElfPhdr.memsz) (hdest : physBase + len ≤ 2 ^ 64)
    (hfits : Fits b virtBase len i) : Placeable b virtBase physBase i := by
  have hplace := hfits.2
  rw [Placeable, destAddr_eq hbase hmemsz hdest hfits]
  omega

/-- The addresses of the place of a segment are those of the segment, moved. -/
theorem covers_of_mem {i len x v : ℕ} (hbase : virtBase ≤ ph b i ElfPhdr.vaddr)
    (hmemsz : 0 < ph b i ElfPhdr.memsz) (hdest : physBase + len ≤ 2 ^ 64) (hlen : len < 2 ^ 64)
    (hfits : Fits b virtBase len i) (hx : x ∈ placeOf b virtBase physBase i)
    (hv : u64 (v + physBase) = u64 (x + virtBase)) : Covers b i v := by
  have hvaddr := ph_lt (b := b) i (show ElfPhdr.vaddr.width = 8 from rfl)
  have hplace := hfits.2
  simp only [placeOf, Region.mem_def] at hx
  rw [destAddr_eq hbase hmemsz hdest hfits] at hx
  unfold Covers u64 at *
  omega

/-- The loader is safe and exact just for sound files. -/
theorem loadAt_iff {buffer : ℕ} (hcalc : (calculateSize b).value = .ok (virtBase, virtSize))
    (hplaced : Placed b buffer physBase virtSize) :
    SafeAndExact b virtBase virtSize physBase ↔ Sound b virtBase virtSize := by
  have hsize := size_of_isValid (calculateSize_ok.1 hcalc).1
  have hlen := hplaced.destSize_lt hsize
  have hdest := hplaced.dest_le
  have hbase : ∀ i < phnum b, Loads b i → virtBase ≤ ph b i ElfPhdr.vaddr := by
    rw [(calculateSize_ok.1 hcalc).2.2.1]
    exact fun i => virtMin_le
  have hbase_lt : virtBase < 2 ^ 64 := (calculateSize_ok.1 hcalc).2.2.1 ▸ virtMin_lt b
  -- what is read and written, segment by segment
  have hsafe : ∀ m, (All (InFile b) (loadAt b physBase m) ∧
      ∀ w ∈ (loadAt b physBase m).value.1.writes, w.Within ⟨physBase, destSize virtSize⟩) ↔
      (∀ i < phnum b, HeaderInFile b i) ∧ ∀ i < phnum b, Loads b i → Reached b i →
        FieldInFile b i ElfPhdr.offset ∧ FieldInFile b i ElfPhdr.filesz ∧
          (Checked b i → Fits b virtBase (destSize virtSize) i) := by
    intro m
    rw [all_loadAt hcalc, loadAt_loading hcalc, and_assoc]
    refine and_congr_right fun hhead => ?_
    rw [segmentsLoaded, loadSegments_safe_iff hsize _ _ _ (Nat.zero_add _).le]
    constructor
    · rintro ⟨-, hall⟩ i hi hloads hreach
      exact (segmentSafe_iff (hbase i hi hloads) hloads.2 hdest hlen).1
        ((hall i (Nat.zero_le i) (by omega) fun j _ => hreach j).2 hloads)
    · intro hall
      refine ⟨fun w hw => absurd hw List.not_mem_nil, fun i _ hi hreach => ?_⟩
      rw [Nat.zero_add] at hi
      exact ⟨hhead i hi, fun hloads => (segmentSafe_iff (hbase i hi hloads) hloads.2 hdest hlen).2
        (hall i hi hloads fun j => hreach j (Nat.zero_le j))⟩
  -- the contents, where the loop comes to its end
  have hfits : ∀ i < phnum b, (∀ j < phnum b, Loads b j → Checked b j) →
      (∀ i < phnum b, Loads b i → Reached b i → FieldInFile b i ElfPhdr.offset ∧
        FieldInFile b i ElfPhdr.filesz ∧ (Checked b i → Fits b virtBase (destSize virtSize) i)) →
      Loads b i → Fits b virtBase (destSize virtSize) i :=
    fun i hi hchecked hall hloads =>
      (hall i hi hloads fun j hj => hchecked j (hj.trans hi)).2.2 (hchecked i hi hloads)
  constructor
  · intro h
    obtain ⟨hheaders, hsegments⟩ := (hsafe fun _ => 0).1 ⟨h.reads _, h.writes _⟩
    refine ⟨hheaders, hsegments, fun hchecked hapart i hi hload hmemsz => ?_⟩
    by_contra hfilesz
    have hfilesz := Nat.pos_of_ne_zero hfilesz
    -- a byte that is not the file's, where nothing is written
    let m : Memory := fun _ => if b.mem (ph b i ElfPhdr.offset) = 0 then 1 else 0
    have hm : ∀ x, m x ≠ b.mem (ph b i ElfPhdr.offset) := by
      intro x
      by_cases hzero : b.mem (ph b i ElfPhdr.offset) = 0
      · simp [m, hzero]
      · simpa [m, hzero] using Ne.symm hzero
    obtain ⟨result, hresult⟩ := (loadAt_ok_iff hcalc m).2 hchecked
    have hcontains := (h.contents m result hresult hapart i hi hload).1 0 hfilesz
    rw [loadAt_loading hcalc, Nat.add_zero, Nat.add_zero] at hcontains
    refine hm (destAddr b virtBase physBase i) (Eq.trans (Eq.symm ?_) hcontains)
    refine loadSegments_frame _ _ _ (Nat.zero_add _).le fun j _ hj hloads => ?_
    rw [Nat.zero_add] at hj
    have hfit := hfits j hj hchecked hsegments hloads
    refine ⟨hchecked j hj hloads, placeable_of_fits (hbase j hj hloads) hloads.2 hdest hfit,
      fun hx => ?_⟩
    have hvaddr := ph_lt (b := b) i (show ElfPhdr.vaddr.width = 8 from rfl)
    refine hapart i hi j hj ?_ hload hloads.1 (ph b i ElfPhdr.vaddr) hvaddr ?_
      (covers_of_mem (hbase j hj hloads) hloads.2 hdest hlen hfit hx ?_)
    · rintro rfl
      exact hloads.2.ne' hmemsz
    · unfold Covers u64
      omega
    · unfold destAddr u64
      omega
  · intro h
    have hboth := fun m => (hsafe m).2 ⟨h.headers, h.segments⟩
    refine ⟨fun m => (hboth m).1, fun m => (hboth m).2, fun m result hresult hapart i hi hload => ?_⟩
    have hchecked := (loadAt_ok_iff hcalc m).1 ⟨result, hresult⟩
    have hfit := fun j hj hloads => hfits j hj hchecked h.segments hloads
    rw [loadAt_loading hcalc]
    by_cases hloads : Loads b i
    · refine loadSegments_contains _ 0 _ (Nat.zero_add _).le (fun j _ hj hl => ?_)
        (fun j l hjl hl hloadj hloadl x hxj hxl => ?_) i (Nat.zero_le i) (by omega) hloads
      · have hj : j < phnum b := by omega
        exact ⟨hchecked j hj hl, placeable_of_fits (hbase j hj hl) hl.2 hdest (hfit j hj hl)⟩
      · have hl : l < phnum b := by omega
        have hj : j < phnum b := by omega
        have hv : u64 (u64 (x + virtBase + 2 ^ 64 - physBase) + physBase) = u64 (x + virtBase) := by
          unfold u64
          omega
        exact hapart j hj l hl hjl.ne hloadj.1 hloadl.1 _ (u64_lt _)
          (covers_of_mem (hbase j hj hloadj) hloadj.2 hdest hlen (hfit j hj hloadj) hxj hv)
          (covers_of_mem (hbase l hl hloadl) hloadl.2 hdest hlen (hfit l hl hloadl) hxl hv)
    · have hmemsz : ph b i ElfPhdr.memsz = 0 :=
        Nat.eq_zero_of_not_pos fun hpos => hloads ⟨hload, hpos⟩
      have hfilesz := h.skipped hchecked hapart i hi hload hmemsz
      refine ⟨fun k hk => absurd hk (by omega), fun k _ hk => absurd hk (by omega)⟩

/-! ## Well-formed files -/

/-- The headers lie in the file, and of each segment the data does too; it is no longer than the
segment, which ends in the address space. -/
structure WellFormed (b : Image) : Prop where
  table : b.header ElfEhdr.phoff + phnum b * b.header ElfEhdr.phentsize ≤ b.size
  entry : ElfPhdr.size ≤ b.header ElfEhdr.phentsize
  data : ∀ i < phnum b, IsLoad b i → ph b i ElfPhdr.offset + ph b i ElfPhdr.filesz ≤ b.size
  filesz : ∀ i < phnum b, IsLoad b i → ph b i ElfPhdr.filesz ≤ ph b i ElfPhdr.memsz
  memory : ∀ i < phnum b, IsLoad b i → ph b i ElfPhdr.vaddr + ph b i ElfPhdr.memsz < 2 ^ 64

theorem virtMax_lt (b : Image) : (extent b).virtMax < 2 ^ 64 := by
  have hfold : ∀ (is : List ℕ) (e : Extent), e.virtMax < 2 ^ 64 →
      (is.foldl (extended b) e).virtMax < 2 ^ 64 := by
    intro is
    induction is with
    | nil => exact fun e he => he
    | cons i is ih =>
      intro e he
      refine ih _ ?_
      unfold extended
      split
      · exact Nat.max_lt.2 ⟨u64_lt _, he⟩
      · exact he
  exact hfold _ _ (by norm_num)

theorem WellFormed.fieldInFile (h : WellFormed b) {i : ℕ} (hi : i < phnum b) {f : StructField}
    (hf : f.Inside ElfPhdr.size) : FieldInFile b i f := by
  have htable := h.table
  have hentry := h.entry
  have hlast : i * b.header ElfEhdr.phentsize + b.header ElfEhdr.phentsize ≤
      phnum b * b.header ElfEhdr.phentsize :=
    (Nat.succ_mul _ _).symm.trans_le (Nat.mul_le_mul_right _ hi)
  have hsize := b.size_lt
  unfold StructField.Inside at hf
  unfold FieldInFile InFile Image.Holds phdrAt u64
  dsimp only
  omega

/-- A well-formed file is sound. -/
theorem WellFormed.sound (h : WellFormed b)
    (hcalc : (calculateSize b).value = .ok (virtBase, virtSize)) : Sound b virtBase virtSize := by
  obtain ⟨-, -, hbase, hsize⟩ := calculateSize_ok.1 hcalc
  refine ⟨fun i hi => ⟨⟨h.fieldInFile hi (by decide), fun _ => h.fieldInFile hi (by decide)⟩,
    fun _ => h.fieldInFile hi (by decide)⟩, fun i hi hloads _ => ⟨h.fieldInFile hi (by decide),
    h.fieldInFile hi (by decide), fun _ => ⟨h.data i hi hloads.1, ?_⟩⟩, fun _ _ i hi hload hmemsz =>
    Nat.le_zero.1 ((h.filesz i hi hload).trans_eq hmemsz)⟩
  have hmin := virtMin_le hi hloads
  have hmax := le_virtMax hi hloads
  have hlt := virtMax_lt b
  have hfilesz := h.filesz i hi hloads.1
  have hmemory := h.memory i hi hloads.1
  rw [max_eq_right hfilesz, hsize, hbase, destSize]
  unfold u64 at *
  omega

/-- A file of two segments, the second with 16 zero bytes behind its data. -/
def twoSegments : Image where
  cells := (((Memory.write (fun _ => 0) 0 [0x7F, 0x45, 0x4C, 0x46, 2, 1, 1]).assign 0
    [(ElfEhdr.type, etExec), (ElfEhdr.machine, emX8664), (ElfEhdr.version, 1), (ElfEhdr.phoff, 64),
      (ElfEhdr.ehsize, 64), (ElfEhdr.phentsize, 56), (ElfEhdr.phnum, 2)]).assign 64
    [(ElfPhdr.type, ptLoad), (ElfPhdr.vaddr, 0x400000), (ElfPhdr.filesz, 176),
      (ElfPhdr.memsz, 176), (ElfPhdr.align, 4096)]).assign 120
    [(ElfPhdr.type, ptLoad), (ElfPhdr.offset, 176), (ElfPhdr.vaddr, 0x401000), (ElfPhdr.filesz, 8),
      (ElfPhdr.memsz, 24), (ElfPhdr.align, 4096)]
  size := 184
  size_lt := by decide

theorem loadAt_twoSegments : (calculateSize twoSegments).value = .ok (0x400000, 0x1018) ∧
    SafeAndExact twoSegments 0x400000 0x1018 0x100000 := by
  have hcalc : (calculateSize twoSegments).value = .ok (0x400000, 0x1018) := by
    decide
  have hplaced : Placed twoSegments 0 0x100000 0x1018 := by
    refine ⟨?_, ?_, ?_⟩ <;> decide
  have hwell : WellFormed twoSegments := by
    refine ⟨?_, ?_, ?_, ?_, ?_⟩ <;> decide
  exact ⟨hcalc, (loadAt_iff hcalc hplaced).2 (hwell.sound hcalc)⟩

/-- A file of one segment, with nothing but zeros behind its headers. -/
def oneSegment (filesz memsz size : ℕ) (h : size < 2 ^ 64) : Image where
  cells := ((Memory.write (fun _ => 0) 0 [0x7F, 0x45, 0x4C, 0x46, 2, 1, 1]).assign 0
    [(ElfEhdr.type, etExec), (ElfEhdr.machine, emX8664), (ElfEhdr.version, 1), (ElfEhdr.phoff, 64),
      (ElfEhdr.ehsize, 64), (ElfEhdr.phentsize, 56), (ElfEhdr.phnum, 1)]).assign 64
    [(ElfPhdr.type, ptLoad), (ElfPhdr.filesz, filesz), (ElfPhdr.memsz, memsz),
      (ElfPhdr.align, 4096)]
  size := size
  size_lt := h

/-- Data that is longer than its segment is written beyond the destination. -/
theorem not_safe_overlong :
    (calculateSize (oneSegment 5000 1 5000 (by decide))).value = .ok (0, 1) ∧
      Placed (oneSegment 5000 1 5000 (by decide)) 0 0x100000 1 ∧
      ¬SafeAndExact (oneSegment 5000 1 5000 (by decide)) 0 1 0x100000 := by
  have hplaced : Placed (oneSegment 5000 1 5000 (by decide)) 0 0x100000 1 := by
    refine ⟨?_, ?_, ?_⟩ <;> decide
  refine ⟨by decide, hplaced, fun h => ?_⟩
  have hwrites : (loadAt (oneSegment 5000 1 5000 (by decide)) 0x100000 fun _ => 0).value.1.writes =
      [⟨0x100000, 5000⟩] := by
    decide
  have hwithin := h.writes (fun _ => 0) ⟨0x100000, 5000⟩ (hwrites ▸ List.mem_singleton_self _)
  exact absurd hwithin (by decide)

end Elf64

end Seraph
