import Mathlib.Data.List.Perm.Subperm
import Seraph.FreeList
import Seraph.KernelHeapLists

/-!
# A slab of the kernel heap

`SlabAt m b size free` : the page at `b` is a slab of objects of one size, and `free` is its list
of free objects. It depends on the second half of the header and the first words of the free
objects alone (`SlabAt.congr`). Taking an object, putting one back and building a new slab keep
it (`slabAllocObject_spec`, `slabFreeObject_spec`, `slabAt_initSlab`).
-/

namespace Seraph

open ByteMem Memory FreeList

/-- `o` is one of the objects of the slab. -/
def IsObject (b size o : ℕ) : Prop :=
  ∃ i < 4048 / size, o = b + 32 + i * size

/-- The objects of a slab, in order. -/
def slabObjects (b size : ℕ) : List ℕ :=
  (List.range (4048 / size)).map fun i => b + 32 + i * size

/-- The successor of a free object. -/
def nextFree (m : Memory) (o : ℕ) : ℕ :=
  m.get o freeObjectNext

/-- A slab and its free objects. -/
structure SlabAt (m : Memory) (b size : ℕ) (free : List ℕ) : Prop where
  objectSize : m.get b SlabHeader.objectSize = size
  freeCount : m.get b SlabHeader.freeCount = free.length
  threads : Threads (nextFree m) 0 (m.get b SlabHeader.freeList) free
  objects : ∀ o ∈ free, IsObject b size o

variable {m m' : Memory} {b size o : ℕ} {free : List ℕ}

/-- Objects lie behind the header and inside the page. -/
theorem IsObject.bounds (h : IsObject b size o) (hsize : 16 ≤ size) :
    b + 32 ≤ o ∧ o + size ≤ b + 4080 := by
  obtain ⟨i, hi, rfl⟩ := h
  have hmul : (i + 1) * size ≤ 4048 := (Nat.mul_le_of_le_div _ _ _ hi)
  rw [Nat.succ_mul] at hmul
  omega

/-- Two objects of a slab are apart. -/
theorem IsObject.apart {o' : ℕ} (h : IsObject b size o) (h' : IsObject b size o') (hne : o ≠ o') :
    o + size ≤ o' ∨ o' + size ≤ o := by
  obtain ⟨i, -, rfl⟩ := h
  obtain ⟨j, -, rfl⟩ := h'
  rcases lt_trichotomy i j with hlt | rfl | hlt
  · have hmul := Nat.mul_le_mul_right size hlt
    rw [Nat.succ_mul] at hmul
    omega
  · exact absurd rfl hne
  · have hmul := Nat.mul_le_mul_right size hlt
    rw [Nat.succ_mul] at hmul
    omega

theorem mem_slabObjects : o ∈ slabObjects b size ↔ IsObject b size o := by
  simp [slabObjects, IsObject, eq_comm]

/-- A slab has few objects. -/
theorem length_le_of_objects (hnodup : free.Nodup) (hobjects : ∀ o ∈ free, IsObject b size o)
    (hsize : 16 ≤ size) : free.length ≤ 253 := by
  have hsub : free ⊆ slabObjects b size := fun o ho => mem_slabObjects.2 (hobjects o ho)
  have hle := (List.subperm_of_subset hnodup hsub).length_le
  rw [slabObjects, List.length_map, List.length_range] at hle
  have hdiv : 4048 / size ≤ 4048 / 16 := Nat.div_le_div_left hsize (by norm_num)
  omega

namespace SlabAt

/-- A slab depends on the second half of its header and the links of its free objects. -/
theorem congr (h : SlabAt m b size free) (hheader : ∀ x, b + 16 ≤ x → x < b + 32 → m' x = m x)
    (hfree : ∀ o ∈ free, ∀ x, o ≤ x → x < o + 8 → m' x = m x) : SlabAt m' b size free := by
  have hget : ∀ f : StructField, 16 ≤ f.off → f.Inside 32 → m'.get b f = m.get b f := by
    intro f hoff hf
    refine load_congr fun x hx => ?_
    simp only [Region.mem_def, StructField.Inside] at hx hf
    exact hheader x (by omega) (by omega)
  refine ⟨(hget _ (by decide) (by decide)).trans h.objectSize,
    (hget _ (by decide) (by decide)).trans h.freeCount, ?_, h.objects⟩
  rw [hget SlabHeader.freeList (by decide) (by decide)]
  exact h.threads.congr fun o ho => load_congr fun x hx => hfree o ho x hx.1 hx.2

theorem length_le (h : SlabAt m b size free) (hsize : 16 ≤ size) : free.length ≤ 253 :=
  length_le_of_objects h.threads.nodup h.objects hsize

/-- The links of the lists are no part of a slab. -/
theorem of_linkWords (h : SlabAt m b size free) {rs : List ℕ}
    (hc : ChangesOnly (linkWords rs) m m') (hrs : SlabPages rs) (hb : b % 4096 = 0)
    (hsize : 16 ≤ size) : SlabAt m' b size free := by
  have hsame : ∀ x, b + 16 ≤ x → x < b + 4096 → m' x = m x := by
    intro x hlow hhigh
    refine hc x fun r hr hx => ?_
    obtain ⟨y, hy, rfl⟩ := List.mem_map.1 hr
    have hmod := (hrs y hy).1
    simp only [Region.mem_def] at hx
    omega
  refine h.congr (fun x h1 h2 => hsame x h1 (by omega)) fun o ho x h1 h2 => ?_
  have hobj := (h.objects o ho).bounds hsize
  exact hsame x (by omega) (by omega)

end SlabAt

/-- Writing behind the links of a header. -/
theorem get_set_object {f : StructField} (hf : f.Inside 32) (ho : b + 32 ≤ o) (v : ℕ) :
    nextFree (m.set b f v) o = nextFree m o := by
  refine load_store_of_disjoint m ?_
  simp only [StructField.Inside, freeObjectNext] at hf ⊢
  omega

/-- Writing a link of an object. -/
theorem get_set_header {f : StructField} (hf : f.Inside 32) (ho : b + 32 ≤ o) (v : ℕ) :
    (m.set o freeObjectNext v).get b f = m.get b f := by
  refine load_store_of_disjoint m ?_
  simp only [StructField.Inside, freeObjectNext] at hf ⊢
  omega

/-- A word behind the links of a header. -/
theorem changesOnly_headerWord (m : Memory) (b : ℕ) {f : StructField} (hoff : 16 ≤ f.off)
    (hf : f.Inside 32) (v : ℕ) : ChangesOnly [⟨b + 16, 16⟩] m (m.set b f v) := by
  refine (changesOnly_store m (b + f.off) f.width v).mono fun r hr => ?_
  rw [List.mem_singleton.1 hr]
  refine ⟨_, List.mem_singleton_self _, ?_⟩
  simp only [Region.Within, StructField.Inside] at hf ⊢
  omega

namespace KMalloc

/-- Taking the first free object. -/
theorem slabAllocObject_spec {k : KMalloc} (h : SlabAt k.mem b size (o :: free))
    (hsize : 16 ≤ size) (hb : b ≠ 0) : ∃ m, k.slabAllocObject b = ({ k with mem := m }, o) ∧
      SlabAt m b size free ∧ ChangesOnly [⟨b + 16, 16⟩] k.mem m := by
  obtain ⟨hhead, hrest⟩ := h.threads.chain
  obtain ⟨honot, hnodup⟩ := List.nodup_cons.1 h.threads.nodup
  have hobject := h.objects o List.mem_cons_self
  have ho := (hobject.bounds hsize).1
  have hcount : k.mem.get b SlabHeader.freeCount = free.length + 1 := h.freeCount
  have hlen : free.length + 1 ≤ 253 := h.length_le hsize
  have hnext : k.mem.get o freeObjectNext < 2 ^ 64 := get_lt _ _ _
  rw [slabAllocObject, if_neg (by rw [hhead]; omega)]
  simp only [hhead, get_set_apart k.mem b (f := SlabHeader.freeList)
    (g := SlabHeader.freeCount) (by decide)]
  refine ⟨_, rfl, ⟨?_, ?_, ⟨?_, hnodup⟩, fun x hx =>
    h.objects x (List.mem_cons_of_mem _ hx)⟩, ?_⟩
  · rw [get_set_apart _ _ (by decide), get_set_apart _ _ (by decide)]
    exact h.objectSize
  · rw [get_set_same, hcount]
    change (2 ^ 16 - 1 + (free.length + 1)) % 2 ^ 16 = free.length
    omega
  · rw [get_set_apart _ _ (by decide), get_set_same]
    have hmod : k.mem.get o freeObjectNext % 256 ^ 8 = nextFree k.mem o :=
      Nat.mod_eq_of_lt hnext
    rw [show SlabHeader.freeList.width = 8 from rfl, hmod]
    refine hrest.congr fun x hx => ?_
    have hx' := ((h.objects x (List.mem_cons_of_mem _ hx)).bounds hsize).1
    rw [get_set_object (by decide) hx', get_set_object (by decide) hx']
  · exact (changesOnly_headerWord k.mem b (by decide) (by decide) _).comp
      (changesOnly_headerWord _ b (by decide) (by decide) _)

/-- Putting an object back in front. -/
theorem slabFreeObject_spec {k : KMalloc} (h : SlabAt k.mem b size free)
    (hobject : IsObject b size o) (hnot : o ∉ free) (hsize : 16 ≤ size) (hb : b ≠ 0)
    (hlt : o < 2 ^ 64) : ∃ m, k.slabFreeObject b o = { k with mem := m } ∧
      SlabAt m b size (o :: free) ∧ ChangesOnly [⟨b + 16, 16⟩, ⟨o, 8⟩] k.mem m := by
  have ho := (hobject.bounds hsize).1
  have hnodup : (o :: free).Nodup := List.nodup_cons.2 ⟨hnot, h.threads.nodup⟩
  have hobjects : ∀ x ∈ o :: free, IsObject b size x := List.forall_mem_cons.2 ⟨hobject, h.objects⟩
  have hlen : free.length + 1 ≤ 253 := length_le_of_objects hnodup hobjects hsize
  have hhead : k.mem.get b SlabHeader.freeList < 2 ^ 64 := get_lt _ _ _
  -- the link of the object and the header do not meet
  obtain ⟨m₁, hm₁, hget, hself, hother⟩ : ∃ m₁ : Memory,
      m₁ = k.mem.set o freeObjectNext (k.mem.get b SlabHeader.freeList) ∧
      (∀ f : StructField, f.Inside 32 → m₁.get b f = k.mem.get b f) ∧
      nextFree m₁ o = k.mem.get b SlabHeader.freeList ∧
      ∀ x, IsObject b size x → x ≠ o → nextFree m₁ x = nextFree k.mem x := by
    refine ⟨_, rfl, fun f hf => get_set_header hf ho _, ?_, fun x hx hne => ?_⟩
    · rw [nextFree, get_set_same]
      exact Nat.mod_eq_of_lt hhead
    · refine load_store_of_disjoint _ ?_
      have hapart := hx.apart hobject hne
      simp only [freeObjectNext]
      omega
  rw [slabFreeObject, if_neg (by omega), ← hm₁]
  simp only [get_set_apart m₁ b (f := SlabHeader.freeList) (g := SlabHeader.freeCount) (by decide)]
  refine ⟨_, rfl, ⟨?_, ?_, ⟨⟨?_, ?_⟩, hnodup⟩, hobjects⟩, ?_⟩
  · rw [get_set_apart _ _ (by decide), get_set_apart _ _ (by decide), hget _ (by decide)]
    exact h.objectSize
  · rw [get_set_same, hget _ (by decide), h.freeCount]
    exact Nat.mod_eq_of_lt (show free.length + 1 < 2 ^ 16 by omega)
  · rw [get_set_apart _ _ (by decide), get_set_same]
    exact Nat.mod_eq_of_lt hlt
  · rw [get_set_object (by decide) ho, get_set_object (by decide) ho, hself]
    refine h.threads.chain.congr fun x hx => ?_
    have hx' := ((h.objects x hx).bounds hsize).1
    rw [get_set_object (by decide) hx', get_set_object (by decide) hx']
    exact hother x (h.objects x hx) fun heq => hnot (heq ▸ hx)
  · have hfirst : ChangesOnly [⟨b + 16, 16⟩, ⟨o, 8⟩] k.mem m₁ := by
      rw [hm₁]
      exact (changesOnly_store _ _ _ _).mono fun r hr => ⟨⟨o, 8⟩, by simp, by
        rw [List.mem_singleton.1 hr]
        exact ⟨le_rfl, le_rfl⟩⟩
    refine hfirst.comp (((changesOnly_headerWord m₁ b (by decide) (by decide) _).comp
      (changesOnly_headerWord _ b (by decide) (by decide) _)).mono fun r hr => ?_)
    exact ⟨r, List.mem_cons.2 (.inl (List.mem_singleton.1 hr)), le_rfl, le_rfl⟩

end KMalloc

/-! ## A new slab -/

/-- Object number `i`. -/
def objectAt (b size i : ℕ) : ℕ :=
  b + 32 + i * size

/-- The memory while the free list of a new slab is built : the first `i` objects are linked. -/
structure Linking (m₀ : Memory) (b size i : ℕ) (s : Memory × ℕ) : Prop where
  last : s.2 = if i = 0 then 0 else objectAt b size (i - 1)
  next : ∀ j < i,
    nextFree s.1 (objectAt b size j) = if j + 1 < i then objectAt b size (j + 1) else 0
  first : s.1.get b SlabHeader.freeList = if i = 0 then 0 else objectAt b size 0
  header : ∀ f : StructField, 24 ≤ f.off → f.Inside 32 → s.1.get b f = m₀.get b f
  changes : ChangesOnly [⟨b + 16, 4080⟩] m₀ s.1

/-- Objects with different numbers do not meet. -/
theorem objectAt_apart (hsize : 16 ≤ size) {i j : ℕ} (hne : i ≠ j) :
    objectAt b size i + 8 ≤ objectAt b size j ∨ objectAt b size j + 8 ≤ objectAt b size i := by
  simp only [objectAt]
  rcases Nat.lt_or_gt_of_ne hne with hlt | hlt
  · have hmul := Nat.mul_le_mul_right size hlt
    rw [Nat.succ_mul] at hmul
    omega
  · have hmul := Nat.mul_le_mul_right size hlt
    rw [Nat.succ_mul] at hmul
    omega

theorem slabObjectArea_eq (hb : b % 4096 = 0) (hlt : b + 4096 < 2 ^ 64) :
    slabObjectArea b = b + 32 := by
  have hsum : u64 (b + SlabHeader.size + 15) = b + 47 := u64_of_lt (n := b + 47) (by omega)
  have hclear : (b + 47) &&& (2 ^ 64 - 1 - 15) = (b + 47) / 16 * 16 :=
    and_clear_low (k := 4) (by omega) (by norm_num)
  rw [slabObjectArea, hsum, hclear]
  omega

theorem nextFree_set {x o v : ℕ} (h : x + 8 ≤ o ∨ o + 8 ≤ x) :
    nextFree (m.set o freeObjectNext v) x = nextFree m x :=
  load_store_of_disjoint m h

theorem nextFree_set_same {o v : ℕ} (hv : v < 2 ^ 64) :
    nextFree (m.set o freeObjectNext v) o = v := by
  rw [nextFree, get_set_same]
  exact Nat.mod_eq_of_lt hv

/-- One object more. -/
theorem linking_linkObject {m₀ : Memory} {i : ℕ} {s : Memory × ℕ} (hb : b % 4096 = 0)
    (hlt : b + 4096 < 2 ^ 64) (hsize : 16 ≤ size) (hi : i < 4048 / size)
    (h : Linking m₀ b size i s) : Linking m₀ b size (i + 1) (linkObject b size s i) := by
  have hbounds : ∀ j ≤ i, b + 32 ≤ objectAt b size j ∧ objectAt b size j + 16 ≤ b + 4096 := by
    intro j hj
    have hobject : IsObject b size (objectAt b size j) := ⟨j, by omega, rfl⟩
    have hle := hobject.bounds hsize
    omega
  obtain ⟨hlow, hhigh⟩ := hbounds i le_rfl
  have hobj : u64 (slabObjectArea b + i * size) = objectAt b size i := by
    rw [slabObjectArea_eq hb hlt]
    exact u64_of_lt (show objectAt b size i < 2 ^ 64 by omega)
  -- the new object ends the list
  obtain ⟨m₁, hm₁, hself, hold, hheader, hchanges⟩ : ∃ m₁,
      m₁ = s.1.set (objectAt b size i) freeObjectNext 0 ∧ nextFree m₁ (objectAt b size i) = 0 ∧
      (∀ j < i, nextFree m₁ (objectAt b size j) = nextFree s.1 (objectAt b size j)) ∧
      (∀ f : StructField, f.Inside 32 → m₁.get b f = s.1.get b f) ∧
      ChangesOnly [⟨b + 16, 4080⟩] m₀ m₁ := by
    refine ⟨_, rfl, nextFree_set_same (by norm_num), fun j hj =>
      nextFree_set (objectAt_apart hsize hj.ne), fun f hf => get_set_header hf hlow 0,
      h.changes.comp ?_⟩
    refine (changesOnly_store _ _ _ _).mono fun r hr => ⟨_, List.mem_singleton_self _, ?_⟩
    rw [List.mem_singleton.1 hr]
    simp only [Region.Within, freeObjectNext]
    omega
  have hround : linkObject b size s i = (if s.2 ≠ 0 then
      m₁.set s.2 freeObjectNext (objectAt b size i)
      else m₁.set b SlabHeader.freeList (objectAt b size i), objectAt b size i) := by
    rw [hm₁, ← hobj, linkObject]
  rw [hround]
  cases i with
  | zero =>
    rw [h.last.trans (if_pos rfl), if_neg (by simp)]
    refine ⟨rfl, fun j hj => ?_, ?_, fun f hoff hf => ?_, ?_⟩
    · obtain rfl : j = 0 := by omega
      rw [if_neg (by omega), get_set_object (by decide) hlow, hself]
    · rw [if_neg (by omega), get_set_same]
      exact Nat.mod_eq_of_lt (show objectAt b size 0 < 2 ^ 64 by omega)
    · have hapart : SlabHeader.freeList.Apart f := .inl hoff
      rw [get_set_apart _ _ hapart, hheader f hf, h.header f hoff hf]
    · refine hchanges.comp ((changesOnly_headerWord m₁ b (by decide) (by decide) _).mono
        fun r hr => ⟨_, List.mem_singleton_self _, ?_⟩)
      rw [List.mem_singleton.1 hr]
      exact ⟨le_rfl, by dsimp only; omega⟩
  | succ i =>
    obtain ⟨hlow', hhigh'⟩ := hbounds i (by omega)
    have hlast : s.2 = objectAt b size i := h.last.trans (if_neg (Nat.succ_ne_zero i))
    rw [hlast, if_pos (by omega)]
    refine ⟨rfl, fun j hj => ?_, ?_, fun f hoff hf => ?_, ?_⟩
    · rcases Nat.lt_or_ge j i with hlt' | hge
      · rw [nextFree_set (objectAt_apart hsize hlt'.ne), hold j (by omega), h.next j (by omega),
          if_pos (by omega), if_pos (by omega)]
      · rcases Nat.eq_or_lt_of_le hge with rfl | hgt
        · rw [nextFree_set_same (by omega), if_pos (by omega)]
        · obtain rfl : j = i + 1 := by omega
          rw [nextFree_set (objectAt_apart hsize (by omega)), hself, if_neg (by omega)]
    · rw [get_set_header (by decide) hlow', hheader _ (by decide), h.first, if_neg (by omega),
        if_neg (by omega)]
    · rw [get_set_header hf hlow', hheader f hf, h.header f hoff hf]
    · refine hchanges.comp ((changesOnly_store _ _ _ _).mono fun r hr =>
        ⟨_, List.mem_singleton_self _, ?_⟩)
      rw [List.mem_singleton.1 hr]
      simp only [Region.Within, freeObjectNext]
      omega

/-- The loop that builds the free list. -/
theorem linking_foldl {m₀ : Memory} (hb : b % 4096 = 0) (hlt : b + 4096 < 2 ^ 64)
    (hsize : 16 ≤ size) (hfirst : m₀.get b SlabHeader.freeList = 0) :
    ∀ n ≤ 4048 / size,
      Linking m₀ b size n ((List.range n).foldl (linkObject b size) (m₀, 0)) := by
  intro n hn
  induction n with
  | zero =>
    exact ⟨rfl, fun j hj => absurd hj (Nat.not_lt_zero j), hfirst, fun _ _ _ => rfl,
      ChangesOnly.refl _ _⟩
  | succ n ih =>
    rw [List.range_succ, List.foldl_append]
    exact linking_linkObject hb hlt hsize hn (ih (by omega))

/-- The links that are built go through the objects in order. -/
theorem Linking.chain {m₀ : Memory} {n : ℕ} {s : Memory × ℕ} (h : Linking m₀ b size n s) :
    ∀ k i, i + k = n → Chain (nextFree s.1) 0 (if k = 0 then 0 else objectAt b size i)
      ((List.range' i k).map (objectAt b size))
  | 0, _, _ => rfl
  | k + 1, i, hik => by
    refine ⟨if_neg (Nat.succ_ne_zero k), ?_⟩
    have hrest := h.chain k (i + 1) (by omega)
    rw [h.next i (by omega)]
    cases k with
    | zero => rwa [if_neg (by omega)]
    | succ k => rwa [if_pos (by omega)]

/-- A new slab has all its objects free. -/
theorem slabAt_initSlab (m : Memory) (hb : b % 4096 = 0) (hlt : b + 4096 < 2 ^ 64)
    (hsize : 16 ≤ size) (hsize' : size ≤ 2048) :
    SlabAt (initSlab m b size) b size (slabObjects b size) ∧
      ChangesOnly [⟨b, 4096⟩] m (initSlab m b size) := by
  have hper : slabObjectsPerPage size = 4048 / size := by
    have hle : 4048 / size ≤ 4048 := Nat.div_le_self _ _
    exact u16_of_lt (n := 4048 / size) (by omega)
  have hdiv : 4048 / size ≤ 4048 / 16 := Nat.div_le_div_left hsize (by norm_num)
  have hpos : 0 < 4048 / size := Nat.div_pos (by omega) (by omega)
  obtain ⟨m₁, hm₁⟩ : ∃ m₁, m₁ = (m.fill b SlabHeader.size 0).assign b
    [(SlabHeader.objectSize, size), (SlabHeader.objectCount, 4048 / size)] := ⟨_, rfl⟩
  obtain ⟨m₂, hm₂⟩ : ∃ m₂, m₂ = m₁.assign b
    [(SlabHeader.freeCount, m₁.get b SlabHeader.objectCount), (SlabHeader.flags, 0)] := ⟨_, rfl⟩
  have hinit : initSlab m b size = ((List.range (m₂.get b SlabHeader.objectCount)).foldl
      (linkObject b size) (m₂, 0)).1 := by
    rw [initSlab, hper, hm₂, hm₁]
  have hcount : m₁.get b SlabHeader.objectCount = 4048 / size := by
    rw [hm₁, assign, assign, assign, get_set_same]
    exact Nat.mod_eq_of_lt (show 4048 / size < 2 ^ 16 by omega)
  have hwords : m₂.get b SlabHeader.objectSize = size ∧
      m₂.get b SlabHeader.objectCount = 4048 / size ∧
      m₂.get b SlabHeader.freeCount = 4048 / size ∧ m₂.get b SlabHeader.freeList = 0 := by
    have hsmall : 4048 / size % 256 ^ 2 = 4048 / size :=
      Nat.mod_eq_of_lt (show 4048 / size < 2 ^ 16 by omega)
    have hsmall' : size % 256 ^ 2 = size := Nat.mod_eq_of_lt (show size < 2 ^ 16 by omega)
    have hzero : (m.fill b SlabHeader.size 0).get b SlabHeader.freeList = 0 :=
      load_fill_zero m (Nat.le_add_right _ _) (by
        simp only [SlabHeader.freeList, SlabHeader.size]; omega)
    rw [hm₂, hcount, hm₁]
    simp (disch := decide) only [assign, get_set_apart, get_set_same, hzero]
    exact ⟨hsmall', hsmall, hsmall, trivial⟩
  obtain ⟨hsz, hoc, hfc, hfl⟩ := hwords
  have hlink := linking_foldl hb hlt hsize hfl (4048 / size) le_rfl
  rw [hinit, hoc]
  refine ⟨⟨?_, ?_, ⟨?_, ?_⟩, fun o ho => mem_slabObjects.1 ho⟩, ?_⟩
  · exact (hlink.header _ (by decide) (by decide)).trans hsz
  · rw [hlink.header _ (by decide) (by decide), hfc, slabObjects, List.length_map,
      List.length_range]
  · have hchain := hlink.chain (4048 / size) 0 (Nat.zero_add _)
    rw [hlink.first]
    rwa [← List.range_eq_range'] at hchain
  · refine List.nodup_range.map fun i j hij => ?_
    have hmul : i * size = j * size := by
      omega
    exact Nat.eq_of_mul_eq_mul_right (by omega) hmul
  · have hheader : ChangesOnly [⟨b, 32⟩] m m₂ := by
      rw [hm₂, hm₁]
      refine ((changesOnly_fill m b SlabHeader.size 0).comp (changesOnly_assign b _ _ ?_)).comp
        (changesOnly_assign b _ _ ?_)
      all_goals simp [StructField.Inside, SlabHeader.objectSize, SlabHeader.objectCount,
        SlabHeader.freeCount, SlabHeader.flags, SlabHeader.size]
    refine (hheader.mono fun r hr => ?_).comp (hlink.changes.mono fun r hr => ?_)
    all_goals
      rw [List.mem_singleton.1 hr]
      refine ⟨_, List.mem_singleton_self _, ?_⟩
      simp only [Region.Within]
      omega

end Seraph
