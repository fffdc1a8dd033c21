import Mathlib.Data.List.Nodup
import Mathlib.Data.Nat.Notation

/-!
# Sliding windows

A window of `w` bits remembers which of the last numbers below a greatest one, `last`, have been
seen : bit `i` stands for `last - i` (`Covers`). It stays true to what has been seen when the
greatest number goes up (`Covers.advance`), also by more than the window is wide (`Covers.jump`),
and when a number inside is marked (`Covers.mark`).
-/

namespace SlidingWindow

/-- `last` is the greatest number seen, and the bits are the numbers seen near it. -/
structure Covers {w : ℕ} (bits : BitVec w) (last : ℕ) (seen : List ℕ) : Prop where
  last_mem : last ∈ seen
  le_last : ∀ n ∈ seen, n ≤ last
  bit : ∀ i < w, bits.getLsbD i = decide (i ≤ last ∧ last - i ∈ seen)

variable {w : ℕ} {bits : BitVec w} {last n : ℕ} {seen : List ℕ}

/-- A number in the window has been seen if its bit is set. -/
theorem Covers.mem_iff (h : Covers bits last seen) (hle : n ≤ last) (hlt : last - n < w) :
    n ∈ seen ↔ bits.getLsbD (last - n) = true := by
  rw [h.bit _ hlt, decide_eq_true_iff, Nat.sub_sub_self hle]
  exact ⟨fun hn => ⟨by omega, hn⟩, fun hn => hn.2⟩

theorem getLsbD_one (hw : 0 < w) (i : ℕ) : (1#w).getLsbD i = decide (i = 0) := by
  rw [BitVec.getLsbD_one, decide_eq_true hw, Bool.true_and]

/-- The first number. -/
theorem Covers.first (hw : 0 < w) (n : ℕ) : Covers (1#w) n [n] := by
  refine ⟨List.mem_singleton_self n, fun m hm => Nat.le_of_eq (List.mem_singleton.1 hm),
    fun i _ => ?_⟩
  rw [getLsbD_one hw, decide_eq_decide, List.mem_singleton]
  omega

/-- The greatest number goes up inside the window. -/
theorem Covers.advance (h : Covers bits last seen) (hw : 0 < w) (hlt : last < n) :
    Covers (bits <<< (n - last) ||| 1#w) n (n :: seen) := by
  refine ⟨List.mem_cons_self, fun m hm => ?_, fun i hi => ?_⟩
  · rcases List.mem_cons.1 hm with rfl | hm
    · exact Nat.le_refl m
    · exact Nat.le_trans (h.le_last m hm) (Nat.le_of_lt hlt)
  · rw [BitVec.getLsbD_or, BitVec.getLsbD_shiftLeft, getLsbD_one hw, decide_eq_true hi,
      Bool.true_and, Bool.eq_iff_iff]
    simp only [Bool.or_eq_true, Bool.and_eq_true, Bool.not_eq_true', decide_eq_true_eq,
      decide_eq_false_iff_not, List.mem_cons]
    rcases Nat.lt_or_ge i (n - last) with hnear | hfar
    · have hnot : n - i ∉ seen := fun hm => by
        have := h.le_last _ hm
        omega
      simp only [hnear, not_true_eq_false, false_and, false_or, hnot, or_false]
      omega
    · rw [h.bit _ (by omega), decide_eq_true_iff]
      have hback : last - (i - (n - last)) = n - i := by omega
      rw [hback]
      constructor
      · rintro (⟨-, hle, hm⟩ | rfl)
        · exact ⟨by omega, .inr hm⟩
        · exact ⟨by omega, .inl rfl⟩
      · rintro ⟨hle, heq | hm⟩
        · exact .inr (by omega)
        · exact .inl ⟨by omega, by omega, hm⟩

/-- The greatest number goes up by the width of the window or more. -/
theorem Covers.jump (h : Covers bits last seen) (hw : 0 < w) (hge : last + w ≤ n) :
    Covers (1#w) n (n :: seen) := by
  have hadvance := h.advance hw (n := n) (by omega)
  have hzero : bits <<< (n - last) = 0#w := BitVec.shiftLeft_eq_zero (by omega)
  rwa [hzero, BitVec.zero_or] at hadvance

/-- A number in the window is marked. -/
theorem Covers.mark (h : Covers bits last seen) (hle : n ≤ last) (hlt : last - n < w) :
    Covers (bits ||| 1#w <<< (last - n)) last (n :: seen) := by
  refine ⟨List.mem_cons_of_mem n h.last_mem, fun m hm => ?_, fun i hi => ?_⟩
  · rcases List.mem_cons.1 hm with rfl | hm
    · exact hle
    · exact h.le_last m hm
  · rw [BitVec.getLsbD_or, h.bit i hi, BitVec.getLsbD_shiftLeft, getLsbD_one (by omega),
      decide_eq_true hi, Bool.true_and, Bool.eq_iff_iff]
    simp only [Bool.or_eq_true, Bool.and_eq_true, Bool.not_eq_true', decide_eq_true_eq,
      decide_eq_false_iff_not, List.mem_cons]
    constructor
    · rintro (⟨hi', hm⟩ | ⟨hge, heq⟩)
      · exact ⟨hi', .inr hm⟩
      · exact ⟨by omega, .inl (by omega)⟩
    · rintro ⟨hi', heq | hm⟩
      · exact .inr ⟨by omega, by omega⟩
      · exact .inl ⟨hi', hm⟩

end SlidingWindow
