import Mathlib.Data.List.Range
import Mathlib.Data.Nat.Notation

/-!
# Functions of a stream of blocks

A message is a function on places, cut into blocks of `n` ; `absorb` runs a function of a state and
a block over its first blocks. A context that takes the message piece by piece has the state after
the whole blocks of what it has seen, and the rest in a buffer (`Holds`). It keeps this when a piece
is copied behind the rest (`Holds.copy`), when this completes a block (`Holds.complete`), and when
whole blocks are taken from the input itself (`Holds.blocks`).
-/

namespace BlockStream

variable {σ α : Type*}

/-- Block `k` of a message. -/
def block (n : ℕ) (msg : ℕ → α) (k : ℕ) : ℕ → α :=
  fun j => msg (k * n + j)

/-- The state after the first `k` blocks. -/
def absorb (f : σ → (ℕ → α) → σ) (n : ℕ) (s : σ) (msg : ℕ → α) (k : ℕ) : σ :=
  (List.range k).foldl (fun s i => f s (block n msg i)) s

/-- Copy `c` elements of `src` to place `a`. -/
def put (buffer : ℕ → α) (a : ℕ) (src : ℕ → α) (c : ℕ) : ℕ → α :=
  fun j => if a ≤ j ∧ j < a + c then src (j - a) else buffer j

/-- `f` reads the first `n` elements of a block. -/
def Reads (f : σ → (ℕ → α) → σ) (n : ℕ) : Prop :=
  ∀ s b b', (∀ j < n, b j = b' j) → f s b = f s b'

/-- The state and the buffer after the first `len` elements of a message. -/
structure Holds (f : σ → (ℕ → α) → σ) (n : ℕ) (s₀ : σ) (msg : ℕ → α) (len : ℕ) (s : σ)
    (buffer : ℕ → α) : Prop where
  state : s = absorb f n s₀ msg (len / n)
  buffer : ∀ j < len % n, buffer j = msg (len / n * n + j)

variable {f : σ → (ℕ → α) → σ} {n : ℕ} {s s₀ : σ} {msg msg' : ℕ → α} {len : ℕ} {buffer : ℕ → α}

theorem absorb_succ (f : σ → (ℕ → α) → σ) (n : ℕ) (s : σ) (msg : ℕ → α) (k : ℕ) :
    absorb f n s msg (k + 1) = f (absorb f n s msg k) (block n msg k) := by
  rw [absorb, List.range_succ, List.foldl_append]
  rfl

/-- Only the blocks that are run over matter. -/
theorem absorb_congr (hf : Reads f n) {k : ℕ} (h : ∀ i < k * n, msg i = msg' i) :
    absorb f n s msg k = absorb f n s msg' k := by
  induction k with
  | zero => rfl
  | succ k ih =>
    have hk : (k + 1) * n = k * n + n := Nat.succ_mul k n
    rw [absorb_succ, absorb_succ, ih fun i hi => h i (by omega)]
    exact hf _ _ _ fun j hj => h _ (by omega)

/-- Running over the first blocks, and then over those that follow. -/
theorem absorb_add (f : σ → (ℕ → α) → σ) (n : ℕ) (s : σ) (msg : ℕ → α) (k l : ℕ) :
    absorb f n s msg (k + l) =
      absorb f n (absorb f n s msg k) (fun j => msg (k * n + j)) l := by
  induction l with
  | zero => rfl
  | succ l ih =>
    rw [← Nat.add_assoc, absorb_succ, absorb_succ, ih]
    congr 1
    funext j
    rw [block, block, Nat.add_mul, Nat.add_assoc]

theorem absorb_succ' (f : σ → (ℕ → α) → σ) (n : ℕ) (s : σ) (msg : ℕ → α) (k : ℕ) :
    absorb f n s msg (k + 1) = absorb f n (f s msg) (fun j => msg (n + j)) k := by
  have hfirst : absorb f n s msg 1 = f s msg := by
    rw [absorb_succ]
    congr 1
    funext j
    rw [block, Nat.zero_mul, Nat.zero_add]
  rw [Nat.add_comm k 1, absorb_add, hfirst, Nat.one_mul]

@[simp] theorem put_zero (buffer : ℕ → α) (a : ℕ) (src : ℕ → α) : put buffer a src 0 = buffer := by
  funext j
  exact if_neg (by omega)

namespace Holds

theorem empty (f : σ → (ℕ → α) → σ) (n : ℕ) (s₀ : σ) (msg buffer : ℕ → α) :
    Holds f n s₀ msg 0 s₀ buffer :=
  ⟨by rw [Nat.zero_div]; rfl, fun j hj => by simp at hj⟩

/-- The message behind what has been seen does not matter. -/
theorem congr (hf : Reads f n) (h : Holds f n s₀ msg len s buffer)
    (hmsg : ∀ i < len, msg i = msg' i) : Holds f n s₀ msg' len s buffer := by
  have hle : len / n * n ≤ len := Nat.div_mul_le_self len n
  refine ⟨h.state.trans (absorb_congr hf fun i hi => hmsg i (by omega)), fun j hj => ?_⟩
  have hsum : len / n * n + len % n = len := Nat.div_add_mod' len n
  rw [h.buffer j hj, hmsg _ (by omega)]

/-- A piece that does not complete the block is copied behind the rest. -/
theorem copy (h : Holds f n s₀ msg len s buffer) {d : ℕ → α} {c : ℕ}
    (hsrc : ∀ j < c, d j = msg (len + j)) (hlt : len % n + c < n) :
    Holds f n s₀ msg (len + c) s (put buffer (len % n) d c) := by
  have hsum : len / n * n + len % n = len := Nat.div_add_mod' len n
  have hlen : len + c = len % n + c + n * (len / n) := by
    rw [Nat.mul_comm]
    omega
  have hpos : 0 < n := by omega
  have hdiv : (len + c) / n = len / n := by
    rw [hlen, Nat.add_mul_div_left _ _ hpos, Nat.div_eq_of_lt hlt, Nat.zero_add]
  have hmod : (len + c) % n = len % n + c := by
    rw [hlen, Nat.add_mul_mod_self_left, Nat.mod_eq_of_lt hlt]
  refine ⟨by rw [hdiv, h.state], fun j hj => ?_⟩
  rw [hmod] at hj
  rw [hdiv, put]
  split
  · next hin =>
    rw [hsrc _ (by omega)]
    congr 1
    omega
  · next hin => exact h.buffer j (by omega)

/-- A piece that completes the block is copied behind the rest, and the block is taken. -/
theorem complete (hf : Reads f n) (h : Holds f n s₀ msg len s buffer) {d : ℕ → α} {c : ℕ}
    (hsrc : ∀ j < c, d j = msg (len + j)) (heq : len % n + c = n) (hpos : 0 < n)
    (buffer' : ℕ → α) :
    Holds f n s₀ msg (len + c) (f s (put buffer (len % n) d c)) buffer' := by
  have hsum : len / n * n + len % n = len := Nat.div_add_mod' len n
  have hlen : len + c = (len / n + 1) * n := by
    rw [Nat.succ_mul]
    omega
  refine ⟨?_, fun j hj => ?_⟩
  · rw [hlen, Nat.mul_div_cancel _ hpos, absorb_succ, ← h.state]
    refine hf _ _ _ fun j hj => ?_
    rw [put, block]
    split
    · next hin =>
      rw [hsrc _ (by omega)]
      congr 1
      omega
    · next hin => exact h.buffer j (by omega)
  · rw [hlen, Nat.mul_mod_left] at hj
    exact absurd hj (Nat.not_lt_zero j)

/-- Whole blocks are taken from the input itself. -/
theorem blocks (hf : Reads f n) (h : Holds f n s₀ msg len s buffer) {d : ℕ → α} {k : ℕ}
    (hsrc : ∀ j < k * n, d j = msg (len + j)) (hmod : len % n = 0) (hpos : 0 < n)
    (buffer' : ℕ → α) :
    Holds f n s₀ msg (len + k * n) (absorb f n s d k) buffer' := by
  have hlen : len / n * n = len := Nat.div_mul_cancel (Nat.dvd_of_mod_eq_zero hmod)
  have hdiv : (len + k * n) / n = len / n + k := Nat.add_mul_div_right _ _ hpos
  refine ⟨?_, fun j hj => ?_⟩
  · rw [hdiv, absorb_add, ← h.state, hlen]
    exact absorb_congr hf hsrc
  · rw [Nat.add_mul_mod_self_right, hmod] at hj
    exact absurd hj (Nat.not_lt_zero j)

/-- Behind whole blocks, the whole blocks of the input are taken and its rest is copied. -/
theorem input (hf : Reads f n) (h : Holds f n s₀ msg len s buffer) {d : ℕ → α} {c : ℕ}
    (hsrc : ∀ j < c, d j = msg (len + j)) (hmod : len % n = 0) (hpos : 0 < n) :
    Holds f n s₀ msg (len + c) (absorb f n s d (c / n))
      (put buffer 0 (fun j => d (c / n * n + j)) (c % n)) := by
  have hsum : c / n * n + c % n = c := Nat.div_add_mod' c n
  have hrest : c % n < n := Nat.mod_lt c hpos
  have hblocks := h.blocks hf (d := d) (k := c / n) (fun j hj => hsrc j (by omega)) hmod hpos
    buffer
  have hzero : (len + c / n * n) % n = 0 := by rw [Nat.add_mul_mod_self_right, hmod]
  have hcopy := hblocks.copy (d := fun j => d (c / n * n + j)) (c := c % n)
    (fun j hj => by rw [hsrc _ (by omega), Nat.add_assoc]) (by omega)
  rwa [hzero, Nat.add_assoc, hsum] at hcopy

end Holds

end BlockStream
