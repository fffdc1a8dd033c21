import Mathlib.Data.Nat.Basic
import Seraph.ByteMemory

/-!
# Memories that log what is written

A `Traced` memory knows which of its bytes have been written, so that two routines with equal
results have also written the same bytes. `lay` puts a run of bytes at an address, and is what
stores add up to : two runs that meet are one (`lay_lay`, `lay_lay_below`). A run that is copied
piece by piece is the run that was there before, as long as no piece is read after it has been
written over (`copy_copy`, `copy_copy_below`).
-/

namespace ByteMem

open Memory

/-- Byte `i` of a number that is loaded. -/
theorem Memory.load_byte (m : Memory) : ∀ {a n i : ℕ}, i < n →
    UInt8.ofNat (m.load a n / 256 ^ i) = m (a + i)
  | a, n + 1, 0, _ => by simp [load]
  | a, n + 1, i + 1, h => by
    have hb : (m a).toNat < 256 := (m a).toNat_lt
    have hdiv : ((m a).toNat + 256 * m.load (a + 1) n) / 256 = m.load (a + 1) n := by omega
    rw [load, pow_succ', ← Nat.div_div_eq_div_mul, hdiv, load_byte m (Nat.lt_of_succ_lt_succ h),
      Nat.add_right_comm, Nat.add_assoc]

/-- A memory, and which of its bytes have been written. -/
structure Traced where
  mem : Memory
  written : ℕ → Bool

namespace Traced

/-- Nothing has been written yet. -/
def ofMemory (m : Memory) : Traced :=
  ⟨m, fun _ => false⟩

/-- Write the `n` low bytes of `v` at `a`. -/
def store (t : Traced) (a n v : ℕ) : Traced :=
  ⟨t.mem.store a n v, fun x => decide (a ≤ x ∧ x < a + n) || t.written x⟩

/-- Write the `n` bytes of `f` at `a`. -/
def lay (t : Traced) (a n : ℕ) (f : ℕ → UInt8) : Traced :=
  ⟨fun x => if a ≤ x ∧ x < a + n then f (x - a) else t.mem x,
    fun x => decide (a ≤ x ∧ x < a + n) || t.written x⟩

/-- Write the `n` bytes that are at `s` now at `d`. -/
def copy (t : Traced) (d s n : ℕ) : Traced :=
  t.lay d n fun i => t.mem (s + i)

variable (t : Traced)

theorem lay_inside {a n i : ℕ} (f : ℕ → UInt8) (h : i < n) : (t.lay a n f).mem (a + i) = f i := by
  simp only [lay]
  rw [if_pos (by omega), Nat.add_sub_cancel_left]

theorem lay_outside {a n x : ℕ} (f : ℕ → UInt8) (h : x < a ∨ a + n ≤ x) :
    (t.lay a n f).mem x = t.mem x :=
  if_neg (by omega)

theorem eq_of_bytes {t t' : Traced} (hmem : ∀ x, t.mem x = t'.mem x)
    (hwritten : ∀ x, t.written x = t'.written x) : t = t' :=
  (Traced.mk.injEq ..).mpr ⟨funext hmem, funext hwritten⟩

theorem lay_zero (a : ℕ) (f : ℕ → UInt8) : t.lay a 0 f = t := by
  have hnone : ∀ x, ¬ (a ≤ x ∧ x < a + 0) := fun x hx => by omega
  refine eq_of_bytes (fun x => if_neg (hnone x)) fun x => ?_
  simp only [lay, hnone x, decide_false, Bool.false_or]

theorem lay_congr {a n : ℕ} {f g : ℕ → UInt8} (h : ∀ i < n, f i = g i) :
    t.lay a n f = t.lay a n g := by
  refine eq_of_bytes (fun x => ?_) fun _ => rfl
  simp only [lay]
  split
  · rw [h _ (by omega)]
  · rfl

/-- Two runs of one length are equal exactly if their bytes are. -/
theorem lay_inj {a n : ℕ} {f g : ℕ → UInt8} (h : t.lay a n f = t.lay a n g) {i : ℕ} (hi : i < n) :
    f i = g i := by
  rw [← t.lay_inside f hi, h, t.lay_inside g hi]

/-- A run behind another. -/
theorem lay_lay (a n k : ℕ) (f g : ℕ → UInt8) :
    (t.lay a n f).lay (a + n) k g = t.lay a (n + k) fun i => if i < n then f i else g (i - n) := by
  refine eq_of_bytes (fun x => ?_) fun x => ?_
  · simp only [lay]
    by_cases h1 : a ≤ x ∧ x < a + n
    · rw [if_neg (by omega), if_pos h1, if_pos (by omega), if_pos (by omega)]
    · by_cases h2 : a + n ≤ x ∧ x < a + n + k
      · rw [if_pos h2, if_pos (by omega), if_neg (by omega), Nat.sub_sub]
      · rw [if_neg h2, if_neg h1, if_neg (by omega)]
  · simp only [lay, ← Bool.or_assoc, ← Bool.decide_or]
    congr 2
    exact propext ⟨fun h => by omega, fun h => by omega⟩

/-- A run in front of another. -/
theorem lay_lay_below (a n k : ℕ) (f g : ℕ → UInt8) :
    (t.lay (a + k) n f).lay a k g = t.lay a (k + n) fun i => if i < k then g i else f (i - k) := by
  refine eq_of_bytes (fun x => ?_) fun x => ?_
  · simp only [lay]
    by_cases h1 : a ≤ x ∧ x < a + k
    · rw [if_pos h1, if_pos (by omega), if_pos (by omega)]
    · by_cases h2 : a + k ≤ x ∧ x < a + k + n
      · rw [if_neg h1, if_pos h2, if_pos (by omega), if_neg (by omega), Nat.sub_sub]
      · rw [if_neg h1, if_neg h2, if_neg (by omega)]
  · simp only [lay, ← Bool.or_assoc, ← Bool.decide_or]
    congr 2
    exact propext ⟨fun h => by omega, fun h => by omega⟩

theorem store_eq (a n v : ℕ) : t.store a n v = t.lay a n fun i => UInt8.ofNat (v / 256 ^ i) :=
  rfl

/-- A number that is loaded and stored is a run of bytes that is copied. -/
theorem store_load (d s n : ℕ) : t.store d n (t.mem.load s n) = t.copy d s n :=
  t.lay_congr fun _ hi => load_byte t.mem hi

theorem store_zero (a n : ℕ) : t.store a n 0 = t.lay a n fun _ => 0 := by
  rw [store_eq]
  refine t.lay_congr fun i _ => ?_
  rw [Nat.zero_div]
  rfl

theorem store_byte (a : ℕ) (v : UInt8) : t.store a 1 v.toNat = t.lay a 1 fun _ => v := by
  rw [store_eq]
  refine t.lay_congr fun i hi => ?_
  simp [Nat.lt_one_iff.1 hi]

theorem copy_zero (d s : ℕ) : t.copy d s 0 = t :=
  t.lay_zero d _

/-- Copying upwards, where what is still to be read is not written over. -/
theorem copy_copy {d s k n : ℕ} (h : d ≤ s ∨ s + (k + n) ≤ d) :
    (t.copy d s k).copy (d + k) (s + k) n = t.copy d s (k + n) := by
  rw [copy, copy, lay_lay]
  refine t.lay_congr fun i hi => ?_
  split
  · rfl
  · rw [t.lay_outside _ (by omega)]
    congr 1
    omega

/-- Copying downwards, where what is still to be read is not written over. -/
theorem copy_copy_below {d s k n : ℕ} (h : s ≤ d) :
    (t.copy (d + k) (s + k) n).copy d s k = t.copy d s (k + n) := by
  rw [copy, copy, lay_lay_below]
  refine t.lay_congr fun i hi => ?_
  split
  · rw [t.lay_outside _ (by omega)]
  · congr 1
    omega

end Traced

end ByteMem
