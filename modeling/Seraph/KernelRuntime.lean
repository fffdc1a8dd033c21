import Seraph.KernelHeapCalls
import Seraph.WriteLog

/-!
# The runtime of the kernel

`memset`, `memcpy`, `memmove`, `strncpy` and the aligned allocations that the kernel links against.
A pointer is an address, and what a routine does to memory is the run of bytes that it lays down
(`memset_eq`, `memcpy_eq`, `memmove_eq`).

`strncpy` counts the null that ends a string as no byte of the destination, so that it writes one
byte more than it should (`strncpy_eq_padded_iff`). A block of `aligned_alloc` is what is asked for
where the alignment is above 16, the allocator has a block, and the size of that block does not wrap
around (`alignedAlloc_large`, `alignedAlloc_small`).
-/

namespace Seraph

open ByteMem Memory KMalloc

/-! ## The routines -/

/-- Where a loop ends : the memory, the destination, the source if there is one, and how many bytes
are left. -/
structure RunLoop where
  ram : Traced
  d : ℕ
  s : ℕ
  count : ℕ

/-- `while (count--) *d++ = v;`. -/
def fillBytes (v : UInt8) : (count : ℕ) → Traced → (d : ℕ) → Traced
  | 0, ram, _ => ram
  | count + 1, ram, d => fillBytes v count (ram.store d 1 v.toNat) (d + 1)

/-- The bytes of `memset` before the first multiple of 8. -/
def zeroHead : (count : ℕ) → Traced → (d : ℕ) → RunLoop
  | 0, ram, d => ⟨ram, d, 0, 0⟩
  | count + 1, ram, d =>
    if d &&& 7 ≠ 0 then zeroHead count (ram.store d 1 0) (d + 1) else ⟨ram, d, 0, count + 1⟩

/-- The words of `memset`. -/
def zeroWords : (count : ℕ) → Traced → (d : ℕ) → RunLoop
  | count + 8, ram, d => zeroWords count (ram.store d 8 0) (d + 8)
  | count, ram, d => ⟨ram, d, 0, count⟩

/-- `memset`. -/
def memset (ram : Traced) (dest : ℕ) (val : ℤ) (count : ℕ) : Traced :=
  let v := UInt8.ofInt val
  if v = 0 ∧ count ≥ 8 then
    let head := zeroHead count ram dest
    let words := zeroWords head.count head.ram head.d
    fillBytes v words.count words.ram words.d
  else fillBytes v count ram dest

/-- `while (count--) *d++ = *s++;`. -/
def copyBytes : (count : ℕ) → Traced → (d s : ℕ) → Traced
  | 0, ram, _, _ => ram
  | count + 1, ram, d, s => copyBytes count (ram.store d 1 (ram.mem.load s 1)) (d + 1) (s + 1)

/-- The bytes of `memcpy` before the first multiple of 8. -/
def copyHead : (count : ℕ) → Traced → (d s : ℕ) → RunLoop
  | 0, ram, d, s => ⟨ram, d, s, 0⟩
  | count + 1, ram, d, s =>
    if d &&& 7 ≠ 0 then copyHead count (ram.store d 1 (ram.mem.load s 1)) (d + 1) (s + 1)
    else ⟨ram, d, s, count + 1⟩

/-- The words of `memcpy`. -/
def copyWords : (count : ℕ) → Traced → (d s : ℕ) → RunLoop
  | count + 8, ram, d, s => copyWords count (ram.store d 8 (ram.mem.load s 8)) (d + 8) (s + 8)
  | count, ram, d, s => ⟨ram, d, s, count⟩

/-- `memcpy`. -/
def memcpy (ram : Traced) (dest src count : ℕ) : Traced :=
  if count ≥ 8 ∧ dest &&& 7 = src &&& 7 then
    let head := copyHead count ram dest src
    let words := copyWords head.count head.ram head.d head.s
    copyBytes words.count words.ram words.d words.s
  else copyBytes count ram dest src

/-- `while (count--) *--d = *--s;`. -/
def copyDown : (count : ℕ) → Traced → (d s : ℕ) → Traced
  | 0, ram, _, _ => ram
  | count + 1, ram, d, s =>
    copyDown count (ram.store (d - 1) 1 (ram.mem.load (s - 1) 1)) (d - 1) (s - 1)

/-- `memmove`. -/
def memmove (ram : Traced) (dest src count : ℕ) : Traced :=
  if dest < src ∨ dest ≥ u64 (src + count) then memcpy ram dest src count
  else copyDown count ram (u64 (dest + count)) (u64 (src + count))

/-- `while (n && (*d++ = *src++)) n--;`. -/
def copyString : (n : ℕ) → Traced → (d src : ℕ) → RunLoop
  | 0, ram, d, src => ⟨ram, d, src, 0⟩
  | n + 1, ram, d, src =>
    let c := ram.mem src
    let ram := ram.store d 1 c.toNat
    if c ≠ 0 then copyString n ram (d + 1) (src + 1) else ⟨ram, d + 1, src + 1, n + 1⟩

/-- `strncpy`. -/
def strncpy (ram : Traced) (dest src n : ℕ) : Traced :=
  let copied := copyString n ram dest src
  fillBytes 0 copied.count copied.ram copied.d

/-- What `aligned_alloc` asks `kmalloc` for. -/
def alignedAllocRequest (alignment size : ℕ) : ℕ :=
  if alignment ≤ 16 then size else u64 (size + alignment - 1 + 8)

/-- `aligned_alloc`. A null pointer is 0. -/
def alignedAlloc (k : KMalloc) (alignment size : ℕ) (a : PageAnswers) : KMalloc × ℕ :=
  let raw := k.kmalloc (alignedAllocRequest alignment size) a
  if alignment ≤ 16 then raw
  else if raw.2 = 0 then (raw.1, 0)
  else
    let aligned := alignUp (raw.2 + 8) alignment
    ({ raw.1 with mem := raw.1.mem.store (rawAddress aligned) 8 raw.2 }, aligned)

/-- The pointer that `aligned_free` finds in front of a block. -/
def alignedRaw (m : Memory) (ptr : ℕ) : ℕ :=
  m.load (rawAddress ptr) 8

/-- `aligned_free`. -/
def alignedFree (k : KMalloc) (ptr : ℕ) (a : PageAnswers) : KMalloc :=
  if ptr = 0 then k else k.kfree (alignedRaw k.mem ptr) a

/-! ## Filling -/

theorem lay_const (ram : Traced) (d n k : ℕ) (v : UInt8) :
    (ram.lay d n fun _ => v).lay (d + n) k (fun _ => v) = ram.lay d (n + k) fun _ => v := by
  rw [ram.lay_lay]
  exact ram.lay_congr fun i _ => ite_self v

theorem fillBytes_eq (v : UInt8) (count : ℕ) (ram : Traced) (d : ℕ) :
    fillBytes v count ram d = ram.lay d count fun _ => v := by
  induction count generalizing ram d with
  | zero => exact (ram.lay_zero d _).symm
  | succ count ih => rw [fillBytes, ih, ram.store_byte, lay_const, Nat.add_comm 1]

/-- A loop has set the first bytes to 0, and knows how many are left. -/
def Zeroed (ram : Traced) (d count : ℕ) (l : RunLoop) : Prop :=
  ∃ i, i + l.count = count ∧ l.d = d + i ∧ l.ram = ram.lay d i fun _ => 0

theorem Zeroed.start (ram : Traced) (d count : ℕ) : Zeroed ram d count ⟨ram, d, 0, count⟩ :=
  ⟨0, Nat.zero_add _, rfl, (ram.lay_zero d _).symm⟩

theorem Zeroed.after {ram : Traced} {d n count : ℕ} {l : RunLoop}
    (h : Zeroed (ram.store d n 0) (d + n) count l) : Zeroed ram d (count + n) l := by
  obtain ⟨i, hcount, hd, hram⟩ := h
  refine ⟨n + i, by omega, by omega, ?_⟩
  rw [hram, ram.store_zero, lay_const]

theorem zeroHead_zeroed (count : ℕ) (ram : Traced) (d : ℕ) :
    Zeroed ram d count (zeroHead count ram d) := by
  induction count generalizing ram d with
  | zero => exact .start ram d 0
  | succ count ih =>
    rw [zeroHead]
    split
    · exact (ih _ _).after
    · exact .start ram d _

theorem zeroWords_zeroed (count : ℕ) (ram : Traced) (d : ℕ) :
    Zeroed ram d count (zeroWords count ram d) := by
  fun_induction zeroWords count ram d with
  | case1 count ram d ih => exact ih.after
  | case2 count ram d _ => exact .start ram d count

theorem memset_eq (ram : Traced) (dest : ℕ) (val : ℤ) (count : ℕ) :
    memset ram dest val count = ram.lay dest count fun _ => UInt8.ofInt val := by
  unfold memset
  dsimp only
  split
  · next hzero =>
    have hhead := zeroHead_zeroed count ram dest
    generalize zeroHead count ram dest = head at hhead ⊢
    have hwords := zeroWords_zeroed head.count head.ram head.d
    generalize zeroWords head.count head.ram head.d = words at hwords ⊢
    obtain ⟨i, hi, hd, hram⟩ := hhead
    obtain ⟨j, hj, hd', hram'⟩ := hwords
    rw [fillBytes_eq, hd', hram', hd, hram, hzero.1, lay_const, lay_const]
    congr 1
    omega
  · exact fillBytes_eq _ _ _ _

/-! ## Copying -/

/-- What a loop that copies upwards still has to read is not written over. -/
def Ahead (d s n : ℕ) : Prop :=
  d ≤ s ∨ s + n ≤ d

/-- A loop has copied the first bytes, and knows how many are left. -/
def Copied (ram : Traced) (d s count : ℕ) (l : RunLoop) : Prop :=
  ∃ i, i + l.count = count ∧ l.d = d + i ∧ l.s = s + i ∧ l.ram = ram.copy d s i

theorem Copied.start (ram : Traced) (d s count : ℕ) : Copied ram d s count ⟨ram, d, s, count⟩ :=
  ⟨0, Nat.zero_add _, rfl, rfl, (ram.copy_zero d s).symm⟩

theorem Copied.after {ram : Traced} {d s n count : ℕ} {l : RunLoop}
    (hahead : Ahead d s (count + n))
    (h : Copied (ram.store d n (ram.mem.load s n)) (d + n) (s + n) count l) :
    Copied ram d s (count + n) l := by
  obtain ⟨i, hcount, hd, hs, hram⟩ := h
  refine ⟨n + i, by omega, by omega, by omega, ?_⟩
  unfold Ahead at hahead
  rw [hram, ram.store_load, ram.copy_copy (by omega)]

theorem Ahead.after {d s n k : ℕ} (h : Ahead d s (n + k)) : Ahead (d + k) (s + k) n := by
  unfold Ahead at *
  omega

theorem copyBytes_eq {count : ℕ} (ram : Traced) {d s : ℕ} (h : Ahead d s count) :
    copyBytes count ram d s = ram.copy d s count := by
  induction count generalizing ram d s with
  | zero => exact (ram.copy_zero d s).symm
  | succ count ih =>
    rw [copyBytes, ih _ h.after, ram.store_load, ram.copy_copy, Nat.add_comm 1]
    rwa [Nat.add_comm 1]

theorem copyHead_copied {count : ℕ} (ram : Traced) {d s : ℕ} (h : Ahead d s count) :
    Copied ram d s count (copyHead count ram d s) := by
  induction count generalizing ram d s with
  | zero => exact .start ram d s 0
  | succ count ih =>
    rw [copyHead]
    split
    · exact .after h (ih _ h.after)
    · exact .start ram d s _

theorem copyWords_copied {count : ℕ} (ram : Traced) {d s : ℕ} (h : Ahead d s count) :
    Copied ram d s count (copyWords count ram d s) := by
  fun_induction copyWords count ram d s with
  | case1 count ram d s ih => exact .after h (ih h.after)
  | case2 count ram d s _ => exact .start ram d s count

theorem memcpy_eq (ram : Traced) {dest src count : ℕ} (h : Ahead dest src count) :
    memcpy ram dest src count = ram.copy dest src count := by
  unfold memcpy
  dsimp only
  split
  · have hhead := copyHead_copied ram h
    generalize copyHead count ram dest src = head at hhead ⊢
    obtain ⟨i, hi, hd, hs, hram⟩ := hhead
    unfold Ahead at h
    have hahead : Ahead head.d head.s head.count := by
      unfold Ahead
      omega
    have hwords := copyWords_copied head.ram hahead
    generalize copyWords head.count head.ram head.d head.s = words at hwords ⊢
    obtain ⟨j, hj, hd', hs', hram'⟩ := hwords
    rw [copyBytes_eq _ (by unfold Ahead; omega), hd', hs', hram', hd, hs, hram,
      ram.copy_copy (by omega), Nat.add_assoc, Nat.add_assoc, ram.copy_copy (by omega)]
    congr 1
    omega
  · exact copyBytes_eq ram h

theorem copyDown_eq {count : ℕ} (ram : Traced) {d s : ℕ} (h : s ≤ d) :
    copyDown count ram (d + count) (s + count) = ram.copy d s count := by
  induction count generalizing ram with
  | zero => exact (ram.copy_zero d s).symm
  | succ count ih =>
    rw [copyDown, ← Nat.add_assoc, ← Nat.add_assoc, Nat.add_sub_cancel, Nat.add_sub_cancel, ih,
      ram.store_load, ram.copy_copy_below h]

theorem memmove_eq (ram : Traced) {dest src count : ℕ} (hdest : dest + count < 2 ^ 64)
    (hsrc : src + count < 2 ^ 64) :
    memmove ram dest src count = ram.copy dest src count := by
  rw [memmove, u64_of_lt hdest, u64_of_lt hsrc]
  split
  · next hapart => exact memcpy_eq ram (by unfold Ahead; omega)
  · exact copyDown_eq ram (by omega)

/-! ## `strncpy` -/

/-- Byte `i` that a loop reads which copies upwards byte by byte : it may be a byte that it has
written itself. -/
def readAhead (m : Memory) (d s i : ℕ) : UInt8 :=
  m (s + i % (d - s))

theorem readAhead_eq (ram : Traced) (d s i : ℕ) :
    (ram.lay d i (readAhead ram.mem d s)).mem (s + i) = readAhead ram.mem d s i := by
  rcases Nat.lt_or_ge (s + i) d with hlt | hge
  · rw [ram.lay_outside _ (.inl hlt), readAhead, Nat.mod_eq_of_lt (by omega)]
  · rcases Nat.lt_or_ge s d with hsd | hds
    · have hback : s + i = d + (i - (d - s)) := by omega
      rw [hback, ram.lay_inside _ (by omega), readAhead, readAhead, ← Nat.mod_eq_sub_mod (by omega)]
    · rw [ram.lay_outside _ (.inr (by omega)), readAhead, Nat.sub_eq_zero_of_le hds, Nat.mod_zero]

/-- The bytes of a string up to a place, behind those that have been copied. -/
theorem lay_step (ram : Traced) (d i : ℕ) (f : ℕ → UInt8) :
    (ram.lay d i f).store (d + i) 1 (f i).toNat = ram.lay d (i + 1) f := by
  rw [Traced.store_byte, ram.lay_lay]
  refine ram.lay_congr fun j hj => ?_
  split
  · rfl
  · rw [show j = i by omega]

/-- A string without a null in the bytes that are left is copied to its end. -/
theorem copyString_full (ram : Traced) (d s : ℕ) {i n : ℕ}
    (h : ∀ j, i ≤ j → j < i + n → readAhead ram.mem d s j ≠ 0) :
    copyString n (ram.lay d i (readAhead ram.mem d s)) (d + i) (s + i) =
      ⟨ram.lay d (i + n) (readAhead ram.mem d s), d + (i + n), s + (i + n), 0⟩ := by
  induction n generalizing i with
  | zero => rfl
  | succ n ih =>
    have hnext := ih (i := i + 1) fun j hij hj => h j (by omega) (by omega)
    have hi := h i (Nat.le_refl i) (by omega)
    rw [copyString]
    simp only [readAhead_eq, if_pos hi, lay_step]
    rw [Nat.add_assoc, Nat.add_assoc, hnext, Nat.add_assoc, Nat.add_comm 1]

/-- The null that ends a string is copied, but not counted. -/
theorem copyString_ended (ram : Traced) (d s : ℕ) {i k n : ℕ} (hk : k < n)
    (h : ∀ j, i ≤ j → j < i + k → readAhead ram.mem d s j ≠ 0)
    (hnull : readAhead ram.mem d s (i + k) = 0) :
    copyString n (ram.lay d i (readAhead ram.mem d s)) (d + i) (s + i) =
      ⟨ram.lay d (i + k + 1) (readAhead ram.mem d s), d + (i + k + 1), s + (i + k + 1), n - k⟩ := by
  induction k generalizing i n with
  | zero =>
    obtain ⟨n, rfl⟩ := Nat.exists_eq_succ_of_ne_zero (Nat.pos_iff_ne_zero.1 hk)
    rw [Nat.add_zero] at hnull
    rw [copyString]
    simp only [readAhead_eq, lay_step, if_neg (not_not.2 hnull)]
    rfl
  | succ k ih =>
    obtain ⟨n, rfl⟩ := Nat.exists_eq_succ_of_ne_zero (show n ≠ 0 by omega)
    have hnext := ih (i := i + 1) (n := n) (by omega) (fun j hij hj => h j (by omega) (by omega))
      (by rw [← hnull]; congr 1; omega)
    have hi := h i (Nat.le_refl i) (by omega)
    rw [copyString]
    simp only [readAhead_eq, if_pos hi, lay_step]
    rw [Nat.add_assoc, Nat.add_assoc, hnext, show i + 1 + k + 1 = i + (k + 1) + 1 by omega,
      Nat.succ_sub_succ]

/-- A string of `n` bytes or more. -/
theorem strncpy_full (ram : Traced) {dest src n : ℕ}
    (h : ∀ i < n, readAhead ram.mem dest src i ≠ 0) :
    strncpy ram dest src n = ram.lay dest n (readAhead ram.mem dest src) := by
  have hcopied := copyString_full ram dest src (i := 0) (n := n) fun j _ hj => h j (by omega)
  rw [ram.lay_zero, Nat.zero_add, Nat.add_zero, Nat.add_zero] at hcopied
  rw [strncpy, hcopied]
  rfl

/-- A string that ends before : one byte more than `n` is written. -/
theorem strncpy_ended (ram : Traced) {dest src k n : ℕ} (hk : k < n)
    (h : ∀ i < k, readAhead ram.mem dest src i ≠ 0) (hnull : readAhead ram.mem dest src k = 0) :
    strncpy ram dest src n = ram.lay dest (n + 1) fun i =>
      if i < k + 1 then readAhead ram.mem dest src i else 0 := by
  have hcopied := copyString_ended ram dest src (i := 0) hk (fun j _ hj => h j (by omega))
    (by rwa [Nat.zero_add])
  rw [ram.lay_zero, Nat.zero_add, Nat.add_zero, Nat.add_zero] at hcopied
  rw [strncpy, hcopied]
  dsimp only
  rw [fillBytes_eq, ram.lay_lay]
  congr 1
  omega

/-- The string at `s`, with nulls behind it. -/
def padded (m : Memory) (s i : ℕ) : UInt8 :=
  if ∃ j ≤ i, m (s + j) = 0 then 0 else m (s + i)

theorem padded_ne {m : Memory} {s i : ℕ} (h : padded m s i ≠ 0) :
    m (s + i) ≠ 0 ∧ padded m s i = m (s + i) := by
  unfold padded at *
  split at h
  · exact absurd rfl h
  · next hnone => exact ⟨fun hnull => hnone ⟨i, Nat.le_refl i, hnull⟩, if_neg hnone⟩

theorem padded_full {m : Memory} {s n i : ℕ} (h : ∀ i < n, m (s + i) ≠ 0) (hi : i < n) :
    padded m s i = m (s + i) :=
  if_neg fun ⟨j, hj, hnull⟩ => h j (by omega) hnull

/-- `strncpy` pads the destination exactly if the string does not end in it, and is not written over
before it is read. -/
theorem strncpy_eq_padded_iff (m : Memory) (dest src n : ℕ) :
    strncpy (.ofMemory m) dest src n = (Traced.ofMemory m).lay dest n (padded m src) ↔
      ∀ i < n, m (src + i) ≠ 0 ∧ m (src + i % (dest - src)) = m (src + i) := by
  constructor
  · intro heq
    have hfull : ∀ i < n, readAhead m dest src i ≠ 0 := by
      by_contra hnot
      simp only [not_forall, not_not, exists_prop] at hnot
      obtain ⟨hk, hnull⟩ := Nat.find_spec hnot
      have hlong := strncpy_ended (.ofMemory m) hk (fun i hi hzero =>
        Nat.find_min hnot hi ⟨by omega, hzero⟩) hnull
      have hlast := congrArg (fun ram => ram.written (dest + n)) (heq.symm.trans hlong)
      simp [Traced.lay, Traced.ofMemory] at hlast
    rw [strncpy_full _ hfull] at heq
    intro i hi
    have hbyte := Traced.lay_inj _ heq hi
    obtain ⟨hne, hpadded⟩ := padded_ne (hbyte ▸ hfull i hi)
    exact ⟨hne, hbyte.trans hpadded⟩
  · intro h
    have hfull : ∀ i < n, readAhead m dest src i ≠ 0 := fun i hi => by
      rw [readAhead, (h i hi).2]
      exact (h i hi).1
    rw [strncpy_full _ hfull]
    refine Traced.lay_congr _ fun i hi => ?_
    rw [padded_full (fun i hi => (h i hi).1) hi]
    exact (h i hi).2

/-! ## Aligned blocks -/

/-- `kmalloc` has a block of this size : an object of a slab, or pages for it. -/
def KMalloc.Supplies (k : KMalloc) (size : ℕ) (a : PageAnswers) : Prop :=
  size ≠ 0 ∧ (kmallocSizeClassIndex size = none → largePages size ≠ 0) ∧
    (k.pagesWanted size ≠ 0 → a.Grants (k.pagesWanted size))

variable {limit : ℕ} {k : KMalloc} {g : HeapShape} {alignment size : ℕ} {a : PageAnswers}

theorem Holds.kmallocPages_ne_void (h : Holds limit k g) {n : ℕ}
    (hfits : n ≠ 0 → a.Grants n → k.heapEnd + n * 4096 ≤ limit) :
    (k.kmallocPages n a).2 ≠ voidU64 ↔ n ≠ 0 ∧ a.Grants n := by
  have hlimit := h.limit_lt
  have hvoid : voidU64 = 2 ^ 64 - 1 := rfl
  unfold KMalloc.kmallocPages
  by_cases hn : n = 0
  · rw [if_pos (.inr hn)]
    exact iff_of_false (fun hne => hne rfl) fun hsome => hsome.1 hn
  · rw [if_neg (by simp [h.initialized, hn])]
    by_cases hgrants : a.granted = true ∧ ∀ i < n, a.mapped i = true
    · have hle := hfits hn hgrants
      rw [if_pos hgrants]
      refine iff_of_true ?_ ⟨hn, hgrants⟩
      simp only [LargeHeader.size]
      rw [u64_of_lt (by omega)]
      omega
    · rw [if_neg hgrants]
      exact iff_of_false (fun hne => hne rfl) fun hsome => hgrants hsome.2

theorem Holds.kmalloc_ne_void (h : Holds limit k g) (hfits : k.Fits limit size a) :
    (k.kmalloc size a).2 ≠ voidU64 ↔ k.Supplies size a := by
  unfold KMalloc.kmalloc KMalloc.Supplies
  unfold KMalloc.Fits at hfits
  by_cases hzero : size = 0
  · rw [if_pos (.inr hzero)]
    exact iff_of_false (fun hne => hne rfl) fun hsome => hsome.1 hzero
  · rw [if_neg (by simp [h.initialized, hzero])]
    unfold KMalloc.pagesWanted at hfits ⊢
    rw [if_neg hzero] at hfits ⊢
    cases hclass : kmallocSizeClassIndex size with
    | none =>
      rw [hclass] at hfits
      dsimp only at hfits ⊢
      rw [h.kmallocPages_ne_void hfits]
      exact ⟨fun hsome => ⟨hzero, fun _ => hsome.1, fun _ => hsome.2⟩,
        fun hsome => ⟨hsome.2.1 rfl, hsome.2.2 (hsome.2.1 rfl)⟩⟩
    | some idx =>
      rw [hclass] at hfits
      dsimp only at hfits ⊢
      obtain ⟨hidx, -⟩ := sizeClassIndex_spec hclass
      by_cases hhead : (k.caches idx).partialSlabs = 0
      · rw [if_pos hhead] at hfits ⊢
        rw [if_pos hhead]
        by_cases hgrants : a.Grants 1
        · obtain ⟨hptr, g', hnew, hblock⟩ :=
            h.allocates_newSlab hclass hgrants (hfits one_ne_zero hgrants)
          have hne : k.heapEnd ≠ 0 := by
            have hbase := h.base_le
            have hpos : 0 < kheapBase := by decide
            omega
          rw [hptr, if_neg hne]
          exact iff_of_true (hnew.holds.ptr_spec hblock).2.1 ⟨hzero, nofun, fun _ => hgrants⟩
        · have hfail : k.slabAllocNew idx a = (k, 0) := by
            refine if_pos ?_
            by_contra hnot
            simp only [Bool.or_eq_true, Bool.not_eq_true', not_or, Bool.not_eq_false] at hnot
            exact hgrants ⟨hnot.1, fun i hi => by rw [Nat.lt_one_iff.1 hi]; exact hnot.2⟩
          rw [hfail, if_pos rfl]
          exact iff_of_false (fun hne => hne rfl) fun hsome => hgrants (hsome.2.2 one_ne_zero)
      · rw [if_neg hhead, if_neg hhead, if_neg hhead]
        obtain ⟨hs, hfree⟩ := h.partial_head hidx hhead
        obtain ⟨-, g', hnew, hblock⟩ := h.allocates_object hs hclass hfree
        exact iff_of_true (hnew.holds.ptr_spec hblock).2.1
          ⟨hzero, nofun, fun hwanted => absurd rfl hwanted⟩

/-- A block of `aligned_alloc`, in the block `raw` of `kmalloc` : it is aligned and lies inside,
nothing else is written, and `aligned_free` finds `raw` whatever happens to the bytes of the block
and to those of other blocks. -/
structure GivesAligned (raw r : KMalloc × ℕ) (alignment size request : ℕ) : Prop where
  aligned : r.2 % alignment = 0
  inside : (Region.mk r.2 size).Within ⟨raw.2, blockBytes request⟩
  frame : ChangesOnly [⟨raw.2, blockBytes request⟩] raw.1.mem r.1.mem
  recovers : ∀ m : Memory, (∀ x ∈ Region.mk raw.2 (blockBytes request),
    x ∉ Region.mk r.2 size → m x = r.1.mem x) → alignedRaw m r.2 = raw.2

/-- `aligned_alloc` gives a block, or it has failed as `kmalloc` has. -/
def AlignedAllocOk (k : KMalloc) (alignment size : ℕ) (a : PageAnswers) : Prop :=
  let request := alignedAllocRequest alignment size
  let raw := k.kmalloc request a
  let r := alignedAlloc k alignment size a
  if raw.2 = voidU64 then (r.2 = 0 ∨ r.2 = voidU64) ∧ r.1.mem = raw.1.mem
  else GivesAligned raw r alignment size request

/-- What `kmalloc` gives. -/
theorem Holds.raw_spec (h : Holds limit k g) (hserved : k.Served limit size a)
    (hvoid : (k.kmalloc size a).2 ≠ voidU64) :
    kheapBase + 32 ≤ (k.kmalloc size a).2 ∧ (k.kmalloc size a).2 + blockBytes size ≤ limit ∧
      size ≤ blockBytes size ∧ (k.kmalloc size a).2 % 16 = 0 := by
  obtain ⟨g', hnew, hblock⟩ := h.kmalloc hserved.fits
  have hoffered := hblock hvoid
  have hbounds := hnew.holds.bounds hoffered
  have hend := hnew.holds.end_le
  obtain ⟨-, n, hn, hroom⟩ := hnew.new hvoid
  have hsame : n = blockBytes size := by
    rw [← hnew.holds.usableSize_eq hn, hnew.holds.usableSize_eq hoffered]
  have hle := hroom (hserved.no_wrap hvoid)
  refine ⟨hbounds.1, by omega, by omega, ?_⟩
  rcases hoffered with ⟨s, hs, ⟨i, -, hi⟩, -, -⟩ | ⟨l, hl, hptr, -⟩
  · obtain ⟨hidx, hmod, -⟩ := hnew.holds.slab s hs
    have hclasses : ∀ idx < kmallocNumSlabs, kmallocSizeClass idx % 16 = 0 := by decide
    have hmul : i * kmallocSizeClass s.2 % 16 = 0 := by
      rw [Nat.mul_mod, hclasses _ hidx, Nat.mul_zero, Nat.zero_mod]
    omega
  · have hmod := (hnew.holds.large l hl).2.1
    simp only [LargeHeader.size] at hptr
    omega

theorem rawAddress_eq {ptr : ℕ} (h : 8 ≤ ptr) (hlt : ptr < 2 ^ 64) : rawAddress ptr = ptr - 8 := by
  unfold rawAddress u64
  omega

/-- For an alignment up to 16 the block is that of `kmalloc`, and what is in front of it belongs to
others. -/
theorem alignedAlloc_small (h : Holds heapMax k g)
    (hserved : k.Served heapMax (alignedAllocRequest alignment size) a) (hle : alignment ≤ 16) :
    AlignedAllocOk k alignment size a ↔ ¬ k.Supplies (alignedAllocRequest alignment size) a := by
  rw [← h.kmalloc_ne_void hserved.fits, not_not]
  unfold AlignedAllocOk alignedAlloc
  dsimp only
  rw [if_pos hle]
  split
  · next hvoid => exact iff_of_true ⟨.inr hvoid, rfl⟩ hvoid
  · next hvoid =>
    refine iff_of_false (fun hok => ?_) hvoid
    obtain ⟨hlow, hhigh, -, -⟩ := h.raw_spec hserved hvoid
    have hmax : heapMax < 2 ^ 64 := by decide
    generalize k.kmalloc (alignedAllocRequest alignment size) a = raw at *
    have haddr : rawAddress raw.2 = raw.2 - 8 := rawAddress_eq (by omega) (by omega)
    have hword := hok.recovers (raw.1.mem.store (raw.2 - 8) 8 0) fun x hx _ => by
      simp only [Region.mem_def] at hx
      exact if_neg (by omega)
    rw [alignedRaw, haddr, load_store_same] at hword
    omega

/-- Rounding up behind the place for a pointer. -/
theorem alignUp_spec {raw j : ℕ} (hlt : raw + 8 + 2 ^ j < 2 ^ 64 + 1) :
    raw + 8 ≤ alignUp (raw + 8) (2 ^ j) ∧ alignUp (raw + 8) (2 ^ j) + 1 ≤ raw + 8 + 2 ^ j := by
  have hone := Nat.one_le_two_pow (n := j)
  have hj : j ≤ 64 := by
    by_contra hnot
    have hbig := Nat.pow_lt_pow_right (a := 2) (by decide) (Nat.not_le.1 hnot)
    omega
  have hle := Nat.div_mul_le_self (raw + 8 + 2 ^ j - 1) (2 ^ j)
  have hmod := Nat.div_add_mod (raw + 8 + 2 ^ j - 1) (2 ^ j)
  have hrem := Nat.mod_lt (raw + 8 + 2 ^ j - 1) (Nat.two_pow_pos j)
  rw [Nat.mul_comm] at hmod
  rw [alignUp_two_pow _ hj, u64_of_lt (by omega)]
  omega

theorem alignUp_mod (value : ℕ) {j : ℕ} (hj : j ≤ 64) : alignUp value (2 ^ j) % 2 ^ j = 0 := by
  rw [alignUp_two_pow value hj]
  exact Nat.mul_mod_left _ _

theorem alignUp_le (value : ℕ) {j : ℕ} (hj : j ≤ 64) :
    alignUp value (2 ^ j) ≤ u64 (value + 2 ^ j - 1) := by
  rw [alignUp_two_pow value hj]
  exact Nat.div_mul_le_self _ _

/-- For a larger alignment the block of `kmalloc` has room for the padding and the pointer, where
the sum does not wrap around. A block that `kmalloc` does not have is taken for one. -/
theorem alignedAlloc_large (h : Holds heapMax k g) {j : ℕ} (hj : j < 64) (hsize : size < 2 ^ 64)
    (hserved : k.Served heapMax (alignedAllocRequest (2 ^ j) size) a) (hlarge : 16 < 2 ^ j) :
    AlignedAllocOk k (2 ^ j) size a ↔
      k.Supplies (alignedAllocRequest (2 ^ j) size) a ∧ size + 2 ^ j + 7 < 2 ^ 64 := by
  have hpow : 2 ^ j ≤ 2 ^ 63 := Nat.pow_le_pow_right (by decide) (Nat.le_of_lt_succ hj)
  rw [← h.kmalloc_ne_void hserved.fits]
  have hrequest : alignedAllocRequest (2 ^ j) size = u64 (size + 2 ^ j - 1 + 8) :=
    if_neg (Nat.not_le.2 hlarge)
  have hspec := h.raw_spec hserved
  unfold AlignedAllocOk alignedAlloc
  dsimp only
  generalize k.kmalloc (alignedAllocRequest (2 ^ j) size) a = raw at *
  have hmax : heapMax < 2 ^ 64 := by decide
  have hmaxVoid : voidU64 = 2 ^ 64 - 1 := rfl
  rw [if_neg (Nat.not_le.2 hlarge)]
  split
  · next hvoid =>
    refine iff_of_false (fun hok => ?_) fun hsome => hsome.1 hvoid
    rw [hvoid, if_neg (by decide)] at hok
    -- the failure is rounded up to the alignment itself
    have hwrap : alignUp (voidU64 + 8) (2 ^ j) = 2 ^ j := by
      have hsum : u64 (voidU64 + 8 + 2 ^ j - 1) = 2 ^ j + 6 := by
        unfold u64
        omega
      have hdiv : (2 ^ j + 6) / 2 ^ j = 1 := Nat.div_eq_of_lt_le (by omega) (by omega)
      rw [alignUp_two_pow _ hj.le, hsum, hdiv, Nat.one_mul]
    rcases hok.1 with hnull | hnull
    · exact absurd (hwrap.symm.trans hnull) (by omega)
    · exact absurd (hwrap.symm.trans hnull) (by omega)
  · next hvoid =>
    obtain ⟨hlow, hhigh, hroom, -⟩ := hspec hvoid
    have hbase : 2 ^ 63 ≤ kheapBase := by decide
    rw [if_neg (show ¬ raw.2 = 0 by omega)]
    rw [hrequest] at hhigh hroom ⊢
    constructor
    · intro hok
      refine ⟨hvoid, Nat.lt_of_not_le fun hwraps => ?_⟩
      obtain ⟨hinside, hinside'⟩ := hok.inside
      dsimp only at hinside hinside'
      rcases Nat.lt_or_ge (raw.2 + 8 + 2 ^ j) (2 ^ 64 + 1) with hlt | hge
      · obtain ⟨hbelow, -⟩ := alignUp_spec hlt
        omega
      · have hle := alignUp_le (raw.2 + 8) hj.le
        have hsum : u64 (raw.2 + 8 + 2 ^ j - 1) = raw.2 + 8 + 2 ^ j - 1 - 2 ^ 64 := by
          unfold u64
          omega
        omega
    · rintro ⟨-, hfits⟩
      have hsum : u64 (size + 2 ^ j - 1 + 8) = size + 2 ^ j + 7 := by
        rw [u64_of_lt (by omega)]
        omega
      rw [hsum] at hhigh hroom ⊢
      obtain ⟨hbelow, habove⟩ := @alignUp_spec raw.2 j (by omega)
      have hmod := alignUp_mod (raw.2 + 8) hj.le
      generalize alignUp (raw.2 + 8) (2 ^ j) = p at hbelow habove hmod ⊢
      have haddr : rawAddress p = p - 8 := rawAddress_eq (by omega) (by omega)
      refine ⟨hmod, ⟨by dsimp only; omega, by dsimp only; omega⟩, ?_, ?_⟩
      · dsimp only
        refine (changesOnly_store raw.1.mem _ 8 raw.2).mono fun r hr => ?_
        rw [List.mem_singleton.1 hr]
        refine ⟨_, List.mem_singleton_self _, ?_⟩
        simp only [Region.Within]
        omega
      · intro m hm
        dsimp only at hm ⊢
        rw [alignedRaw, haddr, load_congr fun x hx => hm x ?_ ?_, haddr,
          load_store_of_lt _ (by omega)]
        · simp only [Region.mem_def] at hx ⊢
          omega
        · simp only [Region.mem_def] at hx ⊢
          omega

/-! ## Calls -/

/-- A call of a routine. -/
inductive RuntimeCall where
  | memset (dest : ℕ) (val : ℤ) (count : ℕ)
  | memcpy (dest src count : ℕ)
  | memmove (dest src count : ℕ)
  | strncpy (dest src n : ℕ)
  | alignedAlloc (alignment size : ℕ) (a : PageAnswers)

namespace RuntimeCall

/-- No range wraps around, and those of `memcpy` are apart. An alignment is a power of two, and the
heap has pages enough for what it is asked for. -/
def Legal (k : KMalloc) : RuntimeCall → Prop
  | .memset dest _ count => dest + count < 2 ^ 64
  | .memcpy dest src count => dest + count < 2 ^ 64 ∧ src + count < 2 ^ 64 ∧
      (Region.mk dest count).Disjoint ⟨src, count⟩
  | .memmove dest src count => dest + count < 2 ^ 64 ∧ src + count < 2 ^ 64
  | .strncpy dest src n => dest + n < 2 ^ 64 ∧ src + n < 2 ^ 64
  | .alignedAlloc alignment size a => (∃ j < 64, alignment = 2 ^ j) ∧ size < 2 ^ 64 ∧
      (∃ g, Holds heapMax k g) ∧ k.Served heapMax (alignedAllocRequest alignment size) a

/-- The bytes that a call is for are as they should be, and it has written no others. -/
def Correct (k : KMalloc) : RuntimeCall → Prop
  | .memset dest val count => Seraph.memset (.ofMemory k.mem) dest val count =
      (Traced.ofMemory k.mem).lay dest count fun _ => UInt8.ofInt val
  | .memcpy dest src count => Seraph.memcpy (.ofMemory k.mem) dest src count =
      (Traced.ofMemory k.mem).copy dest src count
  | .memmove dest src count => Seraph.memmove (.ofMemory k.mem) dest src count =
      (Traced.ofMemory k.mem).copy dest src count
  | .strncpy dest src n => Seraph.strncpy (.ofMemory k.mem) dest src n =
      (Traced.ofMemory k.mem).lay dest n (padded k.mem src)
  | .alignedAlloc alignment size a => AlignedAllocOk k alignment size a

/-- The source of `strncpy` has no null in the first `n` bytes, and is not written over before it is
read, unless by the same bytes. An alignment above 16 gets a block that `kmalloc` has, of a size
that does not wrap around ; a smaller one gets none. -/
def Sound (k : KMalloc) : RuntimeCall → Prop
  | .memset _ _ _ | .memcpy _ _ _ | .memmove _ _ _ => True
  | .strncpy dest src n =>
      ∀ i < n, k.mem (src + i) ≠ 0 ∧ k.mem (src + i % (dest - src)) = k.mem (src + i)
  | .alignedAlloc alignment size a =>
      if alignment ≤ 16 then ¬ k.Supplies size a
      else k.Supplies (alignedAllocRequest alignment size) a ∧ size + alignment + 7 < 2 ^ 64

/-- A call is correct exactly if it is sound. -/
theorem call_correct_iff {k : KMalloc} {c : RuntimeCall} (hlegal : c.Legal k) :
    c.Correct k ↔ c.Sound k := by
  cases c with
  | memset dest val count => exact iff_of_true (memset_eq _ dest val count) trivial
  | memcpy dest src count =>
    obtain ⟨-, -, hapart⟩ := hlegal
    exact iff_of_true (memcpy_eq _ (hapart.elim (fun h => .inl (by dsimp only at h; omega)) .inr))
      trivial
  | memmove dest src count => exact iff_of_true (memmove_eq _ hlegal.1 hlegal.2) trivial
  | strncpy dest src n => exact strncpy_eq_padded_iff k.mem dest src n
  | alignedAlloc alignment size a =>
    obtain ⟨⟨j, hj, rfl⟩, hsize, ⟨g, hheap⟩, hserved⟩ := hlegal
    change AlignedAllocOk k (2 ^ j) size a ↔ if 2 ^ j ≤ 16 then _ else _
    by_cases hle : 2 ^ j ≤ 16
    · rw [if_pos hle, alignedAlloc_small hheap hserved hle, alignedAllocRequest, if_pos hle]
    · rw [if_neg hle]
      exact alignedAlloc_large hheap hj hsize hserved (Nat.not_le.1 hle)

/-- A string that fills its four bytes, and a block of 100 bytes with alignment 64 from a new
heap. -/
theorem correct_copyAndBlock :
    (strncpy 100 200 4).Correct (init fun _ => 97) ∧
      (alignedAlloc 64 100 ⟨true, fun _ => true, true, fun _ => 0⟩).Correct (init fun _ => 97) := by
  have hlegal : (alignedAlloc 64 100 ⟨true, fun _ => true, true, fun _ => 0⟩).Legal
      (init fun _ => 97) :=
    ⟨⟨6, by decide, rfl⟩, by decide, ⟨_, holds_init _ (by decide) (by decide)⟩,
      fun _ _ => by decide⟩
  refine ⟨(call_correct_iff (c := strncpy 100 200 4) ⟨by decide, by decide⟩).2 fun _ _ =>
    ⟨(by decide : (97 : UInt8) ≠ 0), rfl⟩, (call_correct_iff hlegal).2 ⟨⟨?_, ?_, ?_⟩, by decide⟩⟩
  · decide
  · decide
  · exact fun _ => ⟨rfl, fun _ _ => rfl⟩

/-- An empty string that is copied to four bytes comes to five. -/
theorem not_correct_strncpy : ¬ ∀ (k : KMalloc) (c : RuntimeCall), c.Legal k → c.Correct k := by
  intro h
  have hcopy := h (init fun _ => 0) (strncpy 100 200 4) ⟨by decide, by decide⟩
  have hlast : (Seraph.strncpy (.ofMemory fun _ => 0) 100 200 4).written 104 = false :=
    congrArg (fun ram => ram.written 104) hcopy
  revert hlast
  decide

end RuntimeCall

end Seraph
