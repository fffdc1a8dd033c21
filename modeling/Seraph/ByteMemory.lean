import Mathlib.Data.Nat.Notation
import Mathlib.Data.List.Basic
import Mathlib.Tactic.Ring
import Mathlib.Tactic.NormNum

/-!
# Byte memories

A memory is a byte at every address. `load` reads a little-endian number of a given
width and `store` writes one; `fill`, `copy` and `write` are `memset`, `memcpy` and a
list of bytes. A `Region` is an interval of addresses. `ChangesOnly rs m m'` says that
`m'` differs from `m` in no byte outside the regions of `rs`, and every operation here
has one such frame law. A load depends on its own bytes only (`load_congr`), so a load
disjoint from the regions of a step has the same value after it (`ChangesOnly.load`).

A `StructField` is an offset and a width inside a struct; `get`, `set` and `assign` read and
write the fields of the struct at a base address.
-/

namespace ByteMem

/-- A byte at every address. -/
abbrev Memory := ℕ → UInt8

/-- The addresses `[start, start + len)`. -/
structure Region where
  /-- First address. -/
  start : ℕ
  /-- Number of bytes. -/
  len : ℕ
deriving DecidableEq, Repr

namespace Region

instance : Membership ℕ Region where
  mem r a := r.start ≤ a ∧ a < r.start + r.len

theorem mem_def {a : ℕ} {r : Region} : a ∈ r ↔ r.start ≤ a ∧ a < r.start + r.len :=
  Iff.rfl

instance (a : ℕ) (r : Region) : Decidable (a ∈ r) :=
  inferInstanceAs (Decidable (_ ∧ _))

/-- One region ends before the other begins. -/
def Disjoint (r s : Region) : Prop :=
  r.start + r.len ≤ s.start ∨ s.start + s.len ≤ r.start

instance (r s : Region) : Decidable (r.Disjoint s) :=
  inferInstanceAs (Decidable (_ ∨ _))

/-- Every address of `r` lies between the ends of `s`. -/
def Within (r s : Region) : Prop :=
  s.start ≤ r.start ∧ r.start + r.len ≤ s.start + s.len

instance (r s : Region) : Decidable (r.Within s) :=
  inferInstanceAs (Decidable (_ ∧ _))

theorem Disjoint.symm {r s : Region} (h : r.Disjoint s) : s.Disjoint r :=
  Or.symm h

theorem Disjoint.mono {r s t : Region} (h : r.Disjoint s) (ht : t.Within s) : r.Disjoint t := by
  unfold Disjoint Within at *
  omega

theorem Disjoint.not_mem {r s : Region} (h : r.Disjoint s) {a : ℕ} (ha : a ∈ r) : a ∉ s := by
  simp only [mem_def, Disjoint] at *
  omega

theorem disjoint_of_not_mem {r s : Region} (hr : 0 < r.len) (hs : 0 < s.len)
    (h : ∀ x ∈ r, x ∉ s) : r.Disjoint s := by
  by_contra hnot
  simp only [Disjoint, not_or, not_le] at hnot
  refine h (max r.start s.start) ?_ ?_
  all_goals
    simp only [mem_def]
    omega

theorem Within.trans {r s t : Region} (h : r.Within s) (h' : s.Within t) : r.Within t := by
  unfold Within at *
  omega

theorem Within.mem {r s : Region} (h : r.Within s) {a : ℕ} (ha : a ∈ r) : a ∈ s := by
  simp only [mem_def, Within] at *
  omega

end Region

namespace Memory

/-- Little-endian number of `n` bytes at `a`. -/
def load (m : Memory) (a : ℕ) : ℕ → ℕ
  | 0 => 0
  | n + 1 => (m a).toNat + 256 * load m (a + 1) n

/-- Write the `n` low bytes of `v` at `a`, least significant first. -/
def store (m : Memory) (a n v : ℕ) : Memory :=
  fun x => if a ≤ x ∧ x < a + n then UInt8.ofNat (v / 256 ^ (x - a)) else m x

/-- Set the `n` bytes at `a` to `b`. -/
def fill (m : Memory) (a n : ℕ) (b : UInt8) : Memory :=
  fun x => if a ≤ x ∧ x < a + n then b else m x

/-- Copy the `n` bytes at `src` to `dst`. -/
def copy (m : Memory) (dst src n : ℕ) : Memory :=
  fun x => if dst ≤ x ∧ x < dst + n then m (src + (x - dst)) else m x

/-- Write the bytes of `bs` at `a`. -/
def write (m : Memory) (a : ℕ) (bs : List UInt8) : Memory :=
  fun x => if a ≤ x ∧ x < a + bs.length then bs.getD (x - a) 0 else m x

/-! ## Loads -/

theorem load_lt (m : Memory) : ∀ a n : ℕ, load m a n < 256 ^ n
  | _, 0 => by simp [load]
  | a, n + 1 => by
    have ih := load_lt m (a + 1) n
    have hb : (m a).toNat < 256 := (m a).toNat_lt
    rw [load, pow_succ]
    omega

/-- A load depends on the bytes it reads. -/
theorem load_congr {m m' : Memory} : ∀ {a n : ℕ}, (∀ x ∈ Region.mk a n, m' x = m x) →
    load m' a n = load m a n
  | _, 0, _ => rfl
  | a, n + 1, h => by
    have ha : m' a = m a := h a ⟨le_refl a, by simp⟩
    have ih : load m' (a + 1) n = load m (a + 1) n := by
      refine load_congr fun x hx => h x ?_
      simp only [Region.mem_def] at hx ⊢
      omega
    rw [load, load, ha, ih]

/-- A store and a load of the same bytes. -/
theorem load_store_same (m : Memory) : ∀ a n v : ℕ, load (store m a n v) a n = v % 256 ^ n
  | _, 0, v => by simp [load, Nat.mod_one]
  | a, n + 1, v => by
    have hhd : (store m a (n + 1) v a).toNat = v % 256 := by simp [store]
    have htl : load (store m a (n + 1) v) (a + 1) n =
        load (store m (a + 1) n (v / 256)) (a + 1) n := by
      refine load_congr fun x hx => ?_
      simp only [Region.mem_def] at hx
      have h1 : a ≤ x ∧ x < a + (n + 1) := by omega
      have h2 : x - a = (x - (a + 1)) + 1 := by omega
      rw [store, store, if_pos h1, if_pos hx, h2, pow_succ', Nat.div_div_eq_div_mul]
    rw [load, hhd, htl, load_store_same, pow_succ', Nat.mod_mul]

theorem load_store_of_lt (m : Memory) {a n v : ℕ} (h : v < 256 ^ n) :
    load (store m a n v) a n = v := by
  rw [load_store_same, Nat.mod_eq_of_lt h]

theorem load_store_of_disjoint (m : Memory) {a n v b k : ℕ} (h : b + k ≤ a ∨ a + n ≤ b) :
    load (store m a n v) b k = load m b k := by
  refine load_congr fun x hx => ?_
  simp only [Region.mem_def] at hx
  exact if_neg (by omega)

theorem load_fill_of_disjoint (m : Memory) {a n b k : ℕ} {c : UInt8}
    (h : b + k ≤ a ∨ a + n ≤ b) : load (fill m a n c) b k = load m b k := by
  refine load_congr fun x hx => ?_
  simp only [Region.mem_def] at hx
  exact if_neg (by omega)

/-- A load inside zeroed bytes. -/
theorem load_fill_zero (m : Memory) {a n : ℕ} : ∀ {b k : ℕ}, a ≤ b → b + k ≤ a + n →
    load (fill m a n 0) b k = 0
  | _, 0, _, _ => rfl
  | b, k + 1, h1, h2 => by
    have hb : fill m a n 0 b = 0 := if_pos (by omega)
    rw [load, hb, load_fill_zero m (by omega) (by omega)]
    rfl

theorem load_copy_of_disjoint (m : Memory) {dst src n b k : ℕ}
    (h : b + k ≤ dst ∨ dst + n ≤ b) : load (copy m dst src n) b k = load m b k := by
  refine load_congr fun x hx => ?_
  simp only [Region.mem_def] at hx
  exact if_neg (by omega)

/-- A load inside a copy reads the source. -/
theorem load_copy_inside (m : Memory) {dst src n : ℕ} : ∀ {b k : ℕ}, dst ≤ b →
    b + k ≤ dst + n → load (copy m dst src n) b k = load m (src + (b - dst)) k
  | _, 0, _, _ => rfl
  | b, k + 1, h1, h2 => by
    have hb : copy m dst src n b = m (src + (b - dst)) := if_pos (by omega)
    have htl : src + (b + 1 - dst) = src + (b - dst) + 1 := by omega
    rw [load, load, hb, load_copy_inside m (by omega) (by omega), htl]

/-! ## Frames -/

/-- Every byte outside the regions of `rs` is the same in `m'` as in `m`. -/
def ChangesOnly (rs : List Region) (m m' : Memory) : Prop :=
  ∀ a, (∀ r ∈ rs, a ∉ r) → m' a = m a

namespace ChangesOnly

theorem refl (rs : List Region) (m : Memory) : ChangesOnly rs m m :=
  fun _ _ => rfl

theorem trans {rs ss : List Region} {m m' m'' : Memory} (h : ChangesOnly rs m m')
    (h' : ChangesOnly ss m' m'') : ChangesOnly (rs ++ ss) m m'' := by
  intro a ha
  rw [h' a fun r hr => ha r (List.mem_append_right _ hr),
    h a fun r hr => ha r (List.mem_append_left _ hr)]

/-- A frame may be enlarged, region by region. -/
theorem mono {rs ss : List Region} {m m' : Memory} (h : ChangesOnly rs m m')
    (hs : ∀ r ∈ rs, ∃ s ∈ ss, r.Within s) : ChangesOnly ss m m' := by
  intro a ha
  refine h a fun r hr hmem => ?_
  obtain ⟨s, hs, hw⟩ := hs r hr
  exact ha s hs (hw.mem hmem)

/-- Two steps inside one frame. -/
theorem comp {rs : List Region} {m m' m'' : Memory} (h : ChangesOnly rs m m')
    (h' : ChangesOnly rs m' m'') : ChangesOnly rs m m'' :=
  fun a ha => (h' a ha).trans (h a ha)

/-- A load disjoint from the frame keeps its value. -/
theorem load {rs : List Region} {m m' : Memory} (h : ChangesOnly rs m m') {a n : ℕ}
    (hd : ∀ r ∈ rs, (Region.mk a n).Disjoint r) : m'.load a n = m.load a n :=
  load_congr fun x hx => h x fun r hr => (hd r hr).not_mem hx

end ChangesOnly

theorem changesOnly_store (m : Memory) (a n v : ℕ) :
    ChangesOnly [⟨a, n⟩] m (store m a n v) :=
  fun _ hx => if_neg (hx ⟨a, n⟩ (List.mem_singleton_self _))

theorem changesOnly_fill (m : Memory) (a n : ℕ) (b : UInt8) :
    ChangesOnly [⟨a, n⟩] m (fill m a n b) :=
  fun _ hx => if_neg (hx ⟨a, n⟩ (List.mem_singleton_self _))

theorem changesOnly_copy (m : Memory) (dst src n : ℕ) :
    ChangesOnly [⟨dst, n⟩] m (copy m dst src n) :=
  fun _ hx => if_neg (hx ⟨dst, n⟩ (List.mem_singleton_self _))

theorem changesOnly_write (m : Memory) (a : ℕ) (bs : List UInt8) :
    ChangesOnly [⟨a, bs.length⟩] m (write m a bs) :=
  fun _ hx => if_neg (hx ⟨a, bs.length⟩ (List.mem_singleton_self _))

/-! ## Fields of a struct -/

end Memory

/-- Where a number sits in a struct: byte offset and width. -/
structure StructField where
  /-- Offset from the base of the struct. -/
  off : ℕ
  /-- Width in bytes. -/
  width : ℕ
deriving DecidableEq, Repr

namespace StructField

/-- Two fields of one struct that share no byte. -/
def Apart (f g : StructField) : Prop :=
  f.off + f.width ≤ g.off ∨ g.off + g.width ≤ f.off

instance (f g : StructField) : Decidable (f.Apart g) :=
  inferInstanceAs (Decidable (_ ∨ _))

/-- The field lies in the first `size` bytes. -/
def Inside (f : StructField) (size : ℕ) : Prop :=
  f.off + f.width ≤ size

instance (f : StructField) (size : ℕ) : Decidable (f.Inside size) :=
  inferInstanceAs (Decidable (_ ≤ _))

end StructField

namespace Memory

/-- StructField `f` of the struct at `base`. -/
def get (m : Memory) (base : ℕ) (f : StructField) : ℕ :=
  m.load (base + f.off) f.width

/-- Write field `f` of the struct at `base`. -/
def set (m : Memory) (base : ℕ) (f : StructField) (v : ℕ) : Memory :=
  m.store (base + f.off) f.width v

/-- Write several fields of the struct at `base`, in order. -/
def assign (m : Memory) (base : ℕ) : List (StructField × ℕ) → Memory
  | [] => m
  | (f, v) :: fs => assign (m.set base f v) base fs

theorem get_lt (m : Memory) (base : ℕ) (f : StructField) : m.get base f < 256 ^ f.width :=
  load_lt m _ _

theorem get_set_same (m : Memory) (base : ℕ) (f : StructField) (v : ℕ) :
    (m.set base f v).get base f = v % 256 ^ f.width :=
  load_store_same m _ _ _

theorem get_set_apart (m : Memory) (base : ℕ) {f g : StructField} (h : f.Apart g) (v : ℕ) :
    (m.set base f v).get base g = m.get base g := by
  refine load_store_of_disjoint m ?_
  unfold StructField.Apart at h
  omega

/-- A field of a struct that has been copied. -/
theorem get_copy (m : Memory) (dst src : ℕ) {f : StructField} {n : ℕ} (h : f.Inside n) :
    (m.copy dst src n).get dst f = m.get src f := by
  have hin : (m.copy dst src n).load (dst + f.off) f.width =
      m.load (src + (dst + f.off - dst)) f.width :=
    load_copy_inside m (Nat.le_add_right _ _)
      ((Nat.add_assoc _ _ _).trans_le (Nat.add_le_add_left h dst))
  rwa [Nat.add_sub_cancel_left] at hin

theorem get_assign_apart (base : ℕ) {g : StructField} :
    ∀ (fs : List (StructField × ℕ)) (m : Memory), (∀ p ∈ fs, p.1.Apart g) →
      (m.assign base fs).get base g = m.get base g
  | [], _, _ => rfl
  | (f, v) :: fs, m, h => by
    rw [assign, get_assign_apart base fs _ fun p hp => h p (List.mem_cons_of_mem _ hp)]
    exact get_set_apart m base (h (f, v) List.mem_cons_self) v

theorem changesOnly_set (m : Memory) (base : ℕ) {f : StructField} {n : ℕ} (h : f.Inside n)
    (v : ℕ) : ChangesOnly [⟨base, n⟩] m (m.set base f v) := by
  refine (changesOnly_store m (base + f.off) f.width v).mono fun r hr => ?_
  rw [List.mem_singleton.1 hr]
  refine ⟨_, List.mem_singleton_self _, ?_⟩
  simp only [Region.Within, StructField.Inside] at h ⊢
  omega

/-- Assigning fields that lie in the `len` bytes at offset `lo` of the struct. -/
theorem changesOnly_assign_within (base lo len : ℕ) :
    ∀ (fs : List (StructField × ℕ)) (m : Memory),
      (∀ p ∈ fs, lo ≤ p.1.off ∧ p.1.off + p.1.width ≤ lo + len) →
      ChangesOnly [⟨base + lo, len⟩] m (m.assign base fs)
  | [], _, _ => ChangesOnly.refl _ _
  | (f, v) :: fs, m, h => by
    obtain ⟨h1, h2⟩ := h (f, v) List.mem_cons_self
    have hset : ChangesOnly [⟨base + lo, len⟩] m (m.set base f v) := by
      refine (changesOnly_store m (base + f.off) f.width v).mono fun r hr => ?_
      rw [List.mem_singleton.1 hr]
      refine ⟨_, List.mem_singleton_self _, ?_⟩
      simp only [Region.Within] at h1 h2 ⊢
      omega
    exact hset.comp
      (changesOnly_assign_within base lo len fs _ fun p hp => h p (List.mem_cons_of_mem _ hp))

theorem changesOnly_assign (base : ℕ) {n : ℕ} (fs : List (StructField × ℕ)) (m : Memory)
    (h : ∀ p ∈ fs, p.1.Inside n) : ChangesOnly [⟨base, n⟩] m (m.assign base fs) := by
  refine changesOnly_assign_within base 0 n fs m fun p hp => ⟨Nat.zero_le _, ?_⟩
  rw [Nat.zero_add]
  exact h p hp

/-- A field whose struct is disjoint from the frame keeps its value. -/
theorem ChangesOnly.get {rs : List Region} {m m' : Memory} (h : ChangesOnly rs m m')
    {base n : ℕ} {f : StructField} (hf : f.Inside n)
    (hd : ∀ r ∈ rs, (Region.mk base n).Disjoint r) : m'.get base f = m.get base f := by
  refine h.load fun r hr => ?_
  have := hd r hr
  simp only [Region.Disjoint, StructField.Inside] at this hf ⊢
  omega

/-! ## Equal regions of two memories -/

/-- The `n` bytes at `b` of `m'` are those at `a` of `m`. -/
def SameBytes (m : Memory) (a : ℕ) (m' : Memory) (b n : ℕ) : Prop :=
  ∀ i < n, m' (b + i) = m (a + i)

namespace SameBytes

theorem refl (m : Memory) (a n : ℕ) : SameBytes m a m a n :=
  fun _ _ => rfl

theorem trans {m m' m'' : Memory} {a b c n : ℕ} (h : SameBytes m a m' b n)
    (h' : SameBytes m' b m'' c n) : SameBytes m a m'' c n :=
  fun i hi => (h' i hi).trans (h i hi)

/-- A step whose frame avoids the second copy keeps it equal. -/
theorem frame {rs : List Region} {m m' m'' : Memory} {a b n : ℕ} (h : SameBytes m a m' b n)
    (hc : ChangesOnly rs m' m'') (hd : ∀ r ∈ rs, (Region.mk b n).Disjoint r) :
    SameBytes m a m'' b n := by
  intro i hi
  rw [hc (b + i) fun r hr => (hd r hr).not_mem ⟨by simp, by simpa using hi⟩]
  exact h i hi

/-- Copying the second copy elsewhere. -/
theorem copy {m m' : Memory} {a b n : ℕ} (h : SameBytes m a m' b n) (dst : ℕ) :
    SameBytes m a (m'.copy dst b n) dst n := by
  intro i hi
  have hcopy : m'.copy dst b n (dst + i) = m' (b + i) := by
    rw [Memory.copy, if_pos ⟨by omega, by omega⟩, Nat.add_sub_cancel_left]
  rw [hcopy]
  exact h i hi

end SameBytes

end Memory

end ByteMem
