import Mathlib.Data.List.Pairwise
import Seraph.SoaArray

/-!
# The layout of arrays by fields

The field arrays lie in the arena behind the array of pointers, apart from each other, where no
product of a field size and the capacity wraps around (`allocFields_layout`). So the pointers stay
while an element is scattered, its cells and no others change (`SoAArray.Laid.scatter_same`,
`SoAArray.Laid.scatter_other`), and gathering brings back what is in them
(`SoAArray.Laid.gather_eq`).
-/

namespace Seraph

open ByteMem Memory Runs

/-! ## Copies in pieces -/

/-- A piece of a copy from one memory to another. -/
structure Piece where
  dst : ℕ
  src : ℕ
  len : ℕ

/-- The bytes that a piece fills. -/
def Piece.region (p : Piece) : Region :=
  ⟨p.dst, p.len⟩

/-- The pieces one after the other. -/
def copyPieces (src : Memory) (ps : List Piece) (m : Memory) : Memory :=
  ps.foldl (fun m p => memcpyFrom m p.dst src p.src p.len) m

section

variable {m src : Memory} {ps : List Piece} {p : Piece} {x : ℕ}

theorem memcpyFrom_of_mem (m src : Memory) {dst start n : ℕ} (h : dst ≤ x ∧ x < dst + n) :
    memcpyFrom m dst src start n x = src (start + (x - dst)) :=
  if_pos h

theorem memcpyFrom_of_not_mem (m src : Memory) {dst start n : ℕ} (h : ¬ (dst ≤ x ∧ x < dst + n)) :
    memcpyFrom m dst src start n x = m x :=
  if_neg h

/-- The other bytes keep their values. -/
theorem copyPieces_of_not_mem (h : ∀ p ∈ ps, x ∉ p.region) : copyPieces src ps m x = m x := by
  induction ps generalizing m with
  | nil => rfl
  | cons p ps ih =>
    rw [copyPieces, List.foldl_cons, ← copyPieces, ih fun q hq => h q (List.mem_cons_of_mem p hq)]
    exact memcpyFrom_of_not_mem _ _ (h p List.mem_cons_self)

theorem changesOnly_copyPieces (m src : Memory) (ps : List Piece) :
    ChangesOnly (ps.map Piece.region) m (copyPieces src ps m) :=
  fun _ hx => copyPieces_of_not_mem fun p hp => hx p.region (List.mem_map_of_mem hp)

/-- Pieces that are apart all arrive. -/
theorem copyPieces_of_mem (hapart : ps.Pairwise fun p q => p.region.Disjoint q.region)
    (hp : p ∈ ps) {j : ℕ} (hj : j < p.len) :
    copyPieces src ps m (p.dst + j) = src (p.src + j) := by
  induction ps generalizing m with
  | nil => cases hp
  | cons q ps ih =>
    obtain ⟨hq, hrest⟩ := List.pairwise_cons.1 hapart
    rw [copyPieces, List.foldl_cons, ← copyPieces]
    rcases List.mem_cons.1 hp with rfl | hp
    · have hin : p.dst ≤ p.dst + j ∧ p.dst + j < p.dst + p.len := by omega
      rw [copyPieces_of_not_mem fun r hr => (hq r hr).not_mem hin, memcpyFrom_of_mem _ _ hin,
        Nat.add_sub_cancel_left]
    · exact ih hrest hp

/-- Pieces that agree with one memory fill in its bytes, whether they are apart or not. -/
theorem copyPieces_of_agree {e : Memory}
    (hagree : ∀ p ∈ ps, ∀ j < p.len, src (p.src + j) = e (p.dst + j)) (x : ℕ) :
    copyPieces src ps m x =
      if ps.any fun p => decide (p.dst ≤ x ∧ x < p.dst + p.len) then e x else m x := by
  induction ps generalizing m with
  | nil => rfl
  | cons p ps ih =>
    rw [copyPieces, List.foldl_cons, ← copyPieces,
      ih fun q hq => hagree q (List.mem_cons_of_mem p hq), List.any_cons]
    by_cases hin : p.dst ≤ x ∧ x < p.dst + p.len
    · have hbyte := hagree p List.mem_cons_self (x - p.dst) (by omega)
      rw [Nat.add_sub_cancel' hin.1] at hbyte
      rw [memcpyFrom_of_mem _ _ hin, hbyte, ite_self, decide_eq_true hin, Bool.true_or,
        if_pos rfl]
    · rw [memcpyFrom_of_not_mem _ _ hin, decide_eq_false hin, Bool.false_or]

end

/-! ## What the arena writes -/

namespace Arena

variable {arena : Arena} {size align : ℕ}

/-- A call writes into its block only. -/
theorem alloc_bytes (arena : Arena) (size align : ℕ) :
    ChangesOnly [⟨(arena.alloc size align).2, size⟩] arena.bytes
      (arena.alloc size align).1.bytes := by
  unfold alloc
  split
  · exact .refl _ _
  · split
    · exact .refl _ _
    · generalize (if align = 0 then arena.alignment else align) = eff
      dsimp only
      split
      · exact .refl _ _
      · split
        · exact .refl _ _
        · split
          · exact .refl _ _
          · dsimp only
            split
            · exact changesOnly_fill _ _ _ _
            · exact .refl _ _

/-- What a call keeps of an arena : everything up to its pointer, which only moves up. -/
structure Grows (arena arena' : Arena) : Prop where
  wellFormed : arena'.WellFormed
  memory : arena'.memory = arena.memory
  generation : arena'.generation = arena.generation
  used : arena.used ≤ arena'.used
  bytes : ∀ x < arena.memory + arena.used, arena'.bytes x = arena.bytes x

theorem Grows.refl (h : arena.WellFormed) : arena.Grows arena :=
  ⟨h, rfl, rfl, le_rfl, fun _ _ => rfl⟩

theorem Placed.grows {r : Arena × ℕ} (hr : arena.Placed size align r) (h : arena.WellFormed)
    (hbytes : ChangesOnly [⟨r.2, size⟩] arena.bytes r.1.bytes) : arena.Grows r.1 := by
  have hwell := hr.wellFormed h
  obtain ⟨offset, allocCount, bytes, -, hle, -, -, heq⟩ := hr
  rw [heq] at hbytes hwell ⊢
  refine ⟨hwell, rfl, rfl, by dsimp only; omega, fun x hx => hbytes x fun q hq => ?_⟩
  rw [List.mem_singleton.1 hq, Region.mem_def]
  dsimp only
  omega

end Arena

/-- A call that asks for a block writes into this block only. -/
theorem ArenaOp.step_bytes {arena : Arena} {op : ArenaOp} {size align : ℕ}
    (hop : op.request = some (size, align)) :
    ChangesOnly [⟨(op.step arena).2, size⟩] arena.bytes (op.step arena).1.bytes := by
  cases op with
  | alloc size' align' =>
    cases hop
    exact arena.alloc_bytes size'.toNat align'.toNat
  | allocArray elemSize count align' =>
    cases hop
    unfold step Arena.allocArray
    dsimp only
    split
    · exact .refl _ _
    · split
      · exact .refl _ _
      · refine (arena.alloc_bytes _ align'.toNat).mono fun r hr => ?_
        rw [List.mem_singleton.1 hr]
        exact ⟨_, List.mem_singleton_self _, le_rfl, Nat.add_le_add_left (Nat.mod_le _ _) _⟩
  | calloc size' align' =>
    cases hop
    unfold step Arena.calloc
    dsimp only
    split
    · exact (arena.alloc_bytes _ _).comp (changesOnly_fill _ _ _ _)
    · exact arena.alloc_bytes _ _
  | reset => cases hop

/-- A call that is no reset. -/
theorem ArenaOp.step_grows {arena : Arena} (h : arena.WellFormed) {op : ArenaOp}
    (hop : op ≠ .reset) : arena.Grows (op.step arena).1 := by
  obtain ⟨⟨size, align⟩, hreq⟩ : ∃ r, op.request = some r := by
    cases op with
    | reset => exact absurd rfl hop
    | _ => exact ⟨_, rfl⟩
  rcases step_request h hreq with heq | hplaced
  · rw [heq]
    exact .refl h
  · exact hplaced.grows h (step_bytes hreq)

/-! ## The layout -/

/-- The array of pointers, and the field arrays. -/
def regions (m : Memory) (table count capacity : ℕ) (fs : List (FieldDesc × ℕ)) : List Region :=
  ⟨table, count * 8⟩ :: fs.map fun f => ⟨fieldArray m table f.2, f.1.size * capacity⟩

/-- Two field arrays have no byte in common. -/
def FieldsApart (m : Memory) (table capacity : ℕ) (f g : FieldDesc × ℕ) : Prop :=
  (Region.mk (fieldArray m table f.2) (f.1.size * capacity)).Disjoint
    ⟨fieldArray m table g.2, g.1.size * capacity⟩

instance (m : Memory) (table capacity : ℕ) : Std.Symm (FieldsApart m table capacity) :=
  ⟨fun _ _ => Region.Disjoint.symm⟩

/-- They lie in the arena below its pointer, apart from each other. -/
structure FieldsLaidOut (arena : Arena) (table count capacity : ℕ) (fs : List (FieldDesc × ℕ)) :
    Prop where
  apart : (regions arena.bytes table count capacity fs).Pairwise Region.Disjoint
  inside : ∀ r ∈ regions arena.bytes table count capacity fs,
    r.Within ⟨arena.memory, arena.used⟩
  index : ∀ f ∈ fs, f.2 < count

section

variable {arena arena' : Arena} {table count capacity : ℕ} {fs : List (FieldDesc × ℕ)}
  {f : FieldDesc × ℕ} {m m' : Memory}

/-- A pointer depends on the array of pointers only. -/
theorem fieldArray_congr {i : ℕ} (hi : i < count) (hlt : table + count * 8 < 2 ^ 64)
    (hm : ∀ x ∈ Region.mk table (count * 8), m' x = m x) :
    fieldArray m' table i = fieldArray m table i := by
  unfold fieldArray
  rw [u64_of_lt (by omega)]
  refine load_congr fun x hx => hm x ?_
  rw [Region.mem_def] at hx ⊢
  dsimp only at hx ⊢
  omega

namespace FieldsLaidOut

theorem table_within (h : FieldsLaidOut arena table count capacity fs) :
    arena.memory ≤ table ∧ table + count * 8 ≤ arena.memory + arena.used :=
  h.inside _ List.mem_cons_self

/-- A field array lies in the arena, apart from the array of pointers. -/
theorem field_within (h : FieldsLaidOut arena table count capacity fs) (hf : f ∈ fs) :
    arena.memory ≤ fieldArray arena.bytes table f.2 ∧
      fieldArray arena.bytes table f.2 + f.1.size * capacity ≤ arena.memory + arena.used ∧
      (Region.mk table (count * 8)).Disjoint
        ⟨fieldArray arena.bytes table f.2, f.1.size * capacity⟩ := by
  have hmem : (⟨fieldArray arena.bytes table f.2, f.1.size * capacity⟩ : Region) ∈
      fs.map fun f => ⟨fieldArray arena.bytes table f.2, f.1.size * capacity⟩ :=
    List.mem_map_of_mem (f := fun f : FieldDesc × ℕ =>
      Region.mk (fieldArray arena.bytes table f.2) (f.1.size * capacity)) hf
  obtain ⟨hlow, hhigh⟩ := h.inside _ (List.mem_cons_of_mem _ hmem)
  exact ⟨hlow, hhigh, (List.pairwise_cons.1 h.apart).1 _ hmem⟩

/-- A layout depends on the array of pointers only. -/
theorem congr (h : FieldsLaidOut arena table count capacity fs) (hwell : arena.WellFormed)
    (hmemory : arena'.memory = arena.memory) (hused : arena.used ≤ arena'.used)
    (hm : ∀ x ∈ Region.mk table (count * 8), arena'.bytes x = arena.bytes x) :
    FieldsLaidOut arena' table count capacity fs := by
  have hends := hwell.ends
  have hle := hwell.used_le
  have htable := h.table_within
  have hregions : regions arena'.bytes table count capacity fs =
      regions arena.bytes table count capacity fs := by
    unfold regions
    refine congrArg _ (List.map_congr_left fun f hf => ?_)
    rw [fieldArray_congr (h.index f hf) (by omega) hm]
  refine ⟨?_, fun r hr => ?_, h.index⟩
  · rw [hregions]
    exact h.apart
  · rw [hregions] at hr
    refine (h.inside r hr).trans ⟨hmemory.le, ?_⟩
    rw [hmemory]
    exact Nat.add_le_add_left hused _

/-- Calls of other users keep the layout. -/
theorem grows (h : FieldsLaidOut arena table count capacity fs) (hwell : arena.WellFormed)
    (hg : arena.Grows arena') : FieldsLaidOut arena' table count capacity fs :=
  h.congr hwell hg.memory hg.used fun x hx => hg.bytes x (by
    have htable := h.table_within
    rw [Region.mem_def] at hx
    dsimp only at hx
    omega)

end FieldsLaidOut

/-! ## Making an array -/

theorem Arena.WellFormed.withBytes (h : arena.WellFormed) (m : Memory) :
    { arena with bytes := m }.WellFormed :=
  ⟨h.memory_pos, h.capacity_pos, h.ends, h.used_le, h.alignment_lt, h.generation⟩

/-- A block from the arena becomes the next field array. -/
theorem FieldsLaidOut.add (h : FieldsLaidOut arena table count capacity fs)
    (hwell : arena.WellFormed) {r : Arena × ℕ} {align : ℕ}
    (hr : arena.Placed (f.1.size * capacity) align r)
    (hbytes : ChangesOnly [⟨r.2, f.1.size * capacity⟩] arena.bytes r.1.bytes) (hf : f.2 < count)
    (hnew : ∀ d ∈ fs, d.2 ≠ f.2) :
    FieldsLaidOut { r.1 with bytes := r.1.bytes.store (u64 (table + f.2 * 8)) 8 r.2 } table count
      capacity (fs ++ [f]) := by
  have hgrows := hr.grows hwell hbytes
  obtain ⟨htable, htable'⟩ := h.table_within
  have hends := hwell.ends
  have hused := hwell.used_le
  rw [u64_of_lt (n := table + f.2 * 8) (by omega)]
  have hptr : arena.memory + arena.used ≤ r.2 ∧ r.2 + f.1.size * capacity =
      r.1.memory + r.1.used ∧ r.2 < 2 ^ 64 := by
    obtain ⟨offset, allocCount, bytes, hpos, hle, hfits, -, rfl⟩ := hr
    dsimp only
    omega
  have hold : ∀ d ∈ fs, fieldArray (r.1.bytes.store (table + f.2 * 8) 8 r.2) table d.2 =
      fieldArray arena.bytes table d.2 := fun d hd => by
    have hdlt := h.index d hd
    have hne := hnew d hd
    unfold fieldArray
    rw [u64_of_lt (n := table + d.2 * 8) (by omega), load_store_of_disjoint _ (by omega)]
    refine load_congr fun x hx => hgrows.bytes x ?_
    rw [Region.mem_def] at hx
    dsimp only at hx
    omega
  have hlast : fieldArray (r.1.bytes.store (table + f.2 * 8) 8 r.2) table f.2 = r.2 := by
    unfold fieldArray
    rw [u64_of_lt (n := table + f.2 * 8) (by omega), load_store_same]
    exact Nat.mod_eq_of_lt (by omega)
  have hregions : regions (r.1.bytes.store (table + f.2 * 8) 8 r.2) table count capacity
      (fs ++ [f]) = regions arena.bytes table count capacity fs ++
        [⟨r.2, f.1.size * capacity⟩] := by
    unfold regions
    rw [List.map_append, List.cons_append, List.map_singleton, hlast]
    refine congrArg _ (congrArg (· ++ _) (List.map_congr_left fun d hd => ?_))
    rw [hold d hd]
  refine ⟨?_, fun q hq => ?_, fun d hd => ?_⟩
  · rw [hregions]
    refine List.pairwise_append.2 ⟨h.apart, List.pairwise_singleton _ _, fun q hq q' hq' => ?_⟩
    obtain ⟨-, hend⟩ := h.inside q hq
    rw [List.mem_singleton.1 hq']
    exact .inl (by dsimp only at hend ⊢; omega)
  · rw [hregions] at hq
    rcases List.mem_append.1 hq with hq | hq
    · refine (h.inside q hq).trans ⟨hgrows.memory.le, ?_⟩
      dsimp only
      rw [hgrows.memory]
      exact Nat.add_le_add_left hgrows.used _
    · rw [List.mem_singleton.1 hq]
      refine ⟨?_, hptr.2.1.le⟩
      dsimp only
      rw [hgrows.memory]
      omega
  · rcases List.mem_append.1 hd with hd | hd
    · exact h.index d hd
    · rw [List.mem_singleton.1 hd]
      exact hf

/-- The array of pointers, when there are no field arrays. -/
theorem Arena.Placed.layout {r : Arena × ℕ} {align : ℕ}
    (hr : arena.Placed (count * 8) align r) (hwell : arena.WellFormed) :
    FieldsLaidOut r.1 r.2 count capacity [] := by
  have hends := hwell.ends
  obtain ⟨offset, allocCount, bytes, hpos, hle, hfits, -, rfl⟩ := hr
  refine ⟨List.pairwise_singleton _ _, fun q hq => ?_, fun f hf => absurd hf List.not_mem_nil⟩
  rw [List.mem_singleton.1 hq]
  exact ⟨Nat.le_add_right _ _, by dsimp only; omega⟩

/-- The field arrays are laid out one after the other, where no product wraps around. -/
theorem allocFields_layout {rest : List (FieldDesc × ℕ)}
    (hproducts : ∀ f ∈ rest, f.1.size * capacity < 2 ^ 64)
    (h : FieldsLaidOut arena table count capacity fs) (hwell : arena.WellFormed)
    (hindex : ∀ f ∈ rest, f.2 < count) (hnodup : ((fs ++ rest).map Prod.snd).Nodup)
    (hok : (allocFields table capacity arena rest).2 = true) :
    FieldsLaidOut (allocFields table capacity arena rest).1 table count capacity (fs ++ rest) ∧
      (allocFields table capacity arena rest).1.WellFormed ∧
      (allocFields table capacity arena rest).1.generation = arena.generation := by
  induction rest generalizing arena fs with
  | nil =>
    rw [List.append_nil]
    exact ⟨h, hwell, rfl⟩
  | cons f rest ih =>
    obtain ⟨field, i⟩ := f
    unfold allocFields at hok ⊢
    dsimp only at hok ⊢
    have hproduct := hproducts _ List.mem_cons_self
    dsimp only at hproduct
    rw [u64_of_lt hproduct] at hok ⊢
    split
    · next hvoid =>
      rw [if_pos hvoid] at hok
      cases hok
    · next hvoid =>
      rw [if_neg hvoid] at hok
      have hplaced := (Arena.alloc_cases hwell hproduct field.align_lt).resolve_left
        fun heq => hvoid (by rw [heq])
      have hbytes := arena.alloc_bytes (field.size * capacity) field.align
      have hgrows := hplaced.grows hwell hbytes
      rw [List.append_cons] at hnodup
      have hnew : ∀ d ∈ fs, d.2 ≠ i := fun d hd heq => by
        rw [List.map_append, List.map_append, List.append_assoc, List.nodup_append] at hnodup
        exact hnodup.2.2 _ (List.mem_map_of_mem hd) _ List.mem_cons_self heq
      have hadd := h.add (f := (field, i)) hwell hplaced hbytes (hindex _ List.mem_cons_self) hnew
      have hrest := ih (fun g hg => hproducts g (List.mem_cons_of_mem _ hg)) hadd
        (hgrows.wellFormed.withBytes _) (fun g hg => hindex g (List.mem_cons_of_mem _ hg)) hnodup
        hok
      rw [List.append_cons]
      exact ⟨hrest.1, hrest.2.1, hrest.2.2.trans hgrows.generation⟩

/-! ## Scattering and gathering -/

/-- Elements of one array are apart. -/
theorem elements_apart (base size : ℕ) {i i' : ℕ} (hne : i ≠ i') :
    (Region.mk (base + i * size) size).Disjoint ⟨base + i' * size, size⟩ := by
  unfold Region.Disjoint
  dsimp only
  rcases Nat.lt_or_gt_of_ne hne with hlt | hlt
  · have hle := Nat.mul_le_mul_right size (Nat.succ_le_of_lt hlt)
    rw [Nat.succ_mul] at hle
    exact .inl (by omega)
  · have hle := Nat.mul_le_mul_right size (Nat.succ_le_of_lt hlt)
    rw [Nat.succ_mul] at hle
    exact .inr (by omega)

/-- The fields are told apart by their indices. -/
theorem zipIdx_index_nodup (fields : List FieldDesc) : (fields.zipIdx.map Prod.snd).Nodup := by
  rw [List.zipIdx_map_snd]
  exact List.nodup_range' _

namespace SoAArray

variable {array : SoAArray} {arena : Arena} {m e : Memory} {i index : ℕ} {f : FieldDesc × ℕ}

/-- The array of pointers and the field arrays of an array. -/
def Laid (array : SoAArray) (arena : Arena) : Prop :=
  FieldsLaidOut arena array.fieldArrays array.schema.fields.length array.capacity
    array.schema.fields.zipIdx

/-- Field `f` of element `i`. -/
def cell (array : SoAArray) (m : Memory) (i : ℕ) (f : FieldDesc × ℕ) : Region :=
  ⟨fieldArray m array.fieldArrays f.2 + i * f.1.size, f.1.size⟩

/-- A cell lies in its field array. -/
theorem cell_within (hi : i < array.capacity) :
    (array.cell m i f).Within
      ⟨fieldArray m array.fieldArrays f.2, f.1.size * array.capacity⟩ := by
  have hle : (i + 1) * f.1.size ≤ f.1.size * array.capacity := by
    rw [Nat.mul_comm]
    exact Nat.mul_le_mul_left _ hi
  rw [Nat.succ_mul] at hle
  exact ⟨Nat.le_add_right _ _, by unfold cell; dsimp only; omega⟩

namespace Laid

variable (h : array.Laid arena) (hwell : arena.WellFormed)

include h

include hwell in
theorem place_eq (hf : f ∈ array.schema.fields.zipIdx) (hi : i < array.capacity) :
    array.place arena.bytes i f = (array.cell arena.bytes i f).start := by
  obtain ⟨-, hend, -⟩ := h.field_within hf
  obtain ⟨-, hcell⟩ := cell_within (m := arena.bytes) (f := f) hi
  have hends := hwell.ends
  have hused := hwell.used_le
  unfold cell at hcell ⊢
  dsimp only at hcell ⊢
  unfold place
  rw [u64_of_lt (n := i * f.1.size) (by omega), u64_of_lt (by omega)]

/-- Cells of different fields or different elements are apart. -/
theorem cells_apart {i' : ℕ} {f' : FieldDesc × ℕ} (hf : f ∈ array.schema.fields.zipIdx)
    (hf' : f' ∈ array.schema.fields.zipIdx) (hi : i < array.capacity) (hi' : i' < array.capacity)
    (hne : i ≠ i' ∨ f ≠ f') :
    (array.cell arena.bytes i f).Disjoint (array.cell arena.bytes i' f') := by
  by_cases heq : f = f'
  · subst heq
    exact elements_apart _ _ (hne.resolve_right (not_not.2 rfl))
  · have hfields : array.schema.fields.zipIdx.Pairwise
        (FieldsApart arena.bytes array.fieldArrays array.capacity) := by
      have hrest := (List.pairwise_cons.1 h.apart).2
      rw [List.pairwise_map] at hrest
      exact hrest
    have hpair := hfields.forall hf hf' heq
    exact ((hpair.mono (cell_within hi')).symm.mono (cell_within hi)).symm

end Laid

/-- The pieces that scatter an element. -/
def pieces (array : SoAArray) (m : Memory) (i : ℕ) : List Piece :=
  array.schema.fields.zipIdx.map fun f => ⟨(array.cell m i f).start, f.1.offset, f.1.size⟩

theorem mem_pieces {p : Piece} : p ∈ array.pieces m i ↔ ∃ f ∈ array.schema.fields.zipIdx,
    ⟨(array.cell m i f).start, f.1.offset, f.1.size⟩ = p :=
  List.mem_map

namespace Laid

variable (h : array.Laid arena) (hwell : arena.WellFormed)

include h

theorem pieces_apart (hi : i < array.capacity) :
    (array.pieces arena.bytes i).Pairwise fun p q => p.region.Disjoint q.region := by
  have hindex := List.pairwise_map.1 (zipIdx_index_nodup array.schema.fields)
  exact List.pairwise_map.2 (hindex.imp_of_mem fun hf hg hne =>
    h.cells_apart hf hg hi hi (.inr fun heq => hne (heq ▸ rfl)))

/-- The array of pointers is apart from a cell. -/
theorem table_apart (hf : f ∈ array.schema.fields.zipIdx) (hi : i < array.capacity) :
    (Region.mk array.fieldArrays (array.schema.fields.length * 8)).Disjoint
      (array.cell arena.bytes i f) :=
  (h.field_within hf).2.2.mono (cell_within hi)

include hwell

/-- While an element is scattered, the pointers stay. -/
theorem scatter_eq (hi : i < array.capacity) :
    array.scatter arena.bytes i e = copyPieces e (array.pieces arena.bytes i) arena.bytes := by
  have hends := hwell.ends
  have hused := hwell.used_le
  obtain ⟨-, htable⟩ := h.table_within
  have hsteps : ∀ (fs : List (FieldDesc × ℕ)) (m : Memory), fs ⊆ array.schema.fields.zipIdx →
      (∀ x ∈ Region.mk array.fieldArrays (array.schema.fields.length * 8),
        m x = arena.bytes x) →
      fs.foldl (fun m f => memcpyFrom m (array.place m i f) e f.1.offset f.1.size) m =
        copyPieces e (fs.map fun f => ⟨(array.cell arena.bytes i f).start, f.1.offset, f.1.size⟩)
          m := by
    intro fs
    induction fs with
    | nil => exact fun m _ _ => rfl
    | cons f fs ih =>
      intro m hsub hm
      obtain ⟨hf, hrest⟩ := List.cons_subset.1 hsub
      have hplace : array.place m i f = (array.cell arena.bytes i f).start := by
        rw [← h.place_eq hwell hf hi]
        unfold place
        rw [fieldArray_congr (h.index f hf) (by omega) hm]
      rw [List.foldl_cons, List.map_cons, copyPieces, List.foldl_cons, ← copyPieces, hplace]
      refine ih _ hrest fun x hx => ?_
      have hout := (h.table_apart hf hi).not_mem hx
      exact (memcpyFrom_of_not_mem m e hout).trans (hm x hx)
  exact hsteps _ _ (List.Subset.refl _) fun _ _ => rfl

/-- Scattering writes into the field arrays only. -/
theorem changesOnly_scatter (hi : i < array.capacity) :
    ChangesOnly (array.storage arena.bytes) arena.bytes (array.scatter arena.bytes i e) := by
  rw [h.scatter_eq hwell hi]
  refine (changesOnly_copyPieces _ _ _).mono fun r hr => ?_
  obtain ⟨p, hp, rfl⟩ := List.mem_map.1 hr
  obtain ⟨f, hf, rfl⟩ := mem_pieces.1 hp
  exact ⟨_, List.mem_map_of_mem hf, cell_within hi⟩

/-- The array of pointers is not written. -/
theorem scatter_table (hi : i < array.capacity) :
    ∀ x ∈ Region.mk array.fieldArrays (array.schema.fields.length * 8),
      array.scatter arena.bytes i e x = arena.bytes x := by
  intro x hx
  rw [h.scatter_eq hwell hi]
  refine copyPieces_of_not_mem fun p hp => ?_
  obtain ⟨f, hf, rfl⟩ := mem_pieces.1 hp
  exact (h.table_apart hf hi).not_mem hx

/-- The pointers are those from before. -/
theorem cell_scatter (hf : f ∈ array.schema.fields.zipIdx) (hi : i < array.capacity) (j : ℕ) :
    array.cell (array.scatter arena.bytes i e) j f = array.cell arena.bytes j f := by
  have hends := hwell.ends
  have hused := hwell.used_le
  obtain ⟨-, htable⟩ := h.table_within
  unfold cell
  rw [fieldArray_congr (h.index f hf) (by omega) (h.scatter_table hwell hi)]

/-- Every field of the element arrives in its cell. -/
theorem scatter_same (hf : f ∈ array.schema.fields.zipIdx) (hi : i < array.capacity) {j : ℕ}
    (hj : j < f.1.size) :
    array.scatter arena.bytes i e ((array.cell arena.bytes i f).start + j) =
      e (f.1.offset + j) := by
  rw [h.scatter_eq hwell hi]
  exact copyPieces_of_mem (h.pieces_apart hi) (mem_pieces.2 ⟨f, hf, rfl⟩) hj

/-- The cells of other elements keep their bytes. -/
theorem scatter_other (hf : f ∈ array.schema.fields.zipIdx) (hi : i < array.capacity)
    (hindex : index < array.capacity) (hne : i ≠ index) {x : ℕ}
    (hx : x ∈ array.cell arena.bytes index f) :
    array.scatter arena.bytes i e x = arena.bytes x := by
  rw [h.scatter_eq hwell hi]
  refine copyPieces_of_not_mem fun p hp => ?_
  obtain ⟨g, hg, rfl⟩ := mem_pieces.1 hp
  exact (h.cells_apart hf hg hindex hi (.inl hne.symm)).not_mem hx

/-- Gathering fills in the fields of an element whose bytes are in its cells. -/
theorem gather_eq (hi : i < array.capacity) (out : Memory)
    (hcells : ∀ f ∈ array.schema.fields.zipIdx, ∀ j < f.1.size,
      arena.bytes ((array.cell arena.bytes i f).start + j) = e (f.1.offset + j)) :
    array.gather arena.bytes i out = filled array.schema.fields e out := by
  have hpieces : array.gather arena.bytes i out = copyPieces arena.bytes
      (array.schema.fields.zipIdx.map fun f =>
        ⟨f.1.offset, array.place arena.bytes i f, f.1.size⟩) out := by
    rw [copyPieces, List.foldl_map]
    rfl
  funext x
  rw [hpieces, copyPieces_of_agree (e := e)]
  · have hfields : array.schema.fields = array.schema.fields.zipIdx.map Prod.fst :=
      (List.zipIdx_map_fst _ _).symm
    unfold filled
    rw [hfields, List.any_map, List.any_map, ← hfields]
    rfl
  · intro p hp j hj
    obtain ⟨f, hf, rfl⟩ := List.mem_map.1 hp
    dsimp only at hj ⊢
    rw [h.place_eq hwell hf hi]
    exact hcells f hf j hj

end Laid

end SoAArray

end

end Seraph
