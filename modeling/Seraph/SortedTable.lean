import Mathlib.Logic.Function.Basic
import Mathlib.Data.Nat.Basic
import Mathlib.Order.Lattice

/-!
# Tables sorted by key

The first `n` slots of a table hold entries whose keys increase strictly (`Sorted`), so the
table is a map from keys to values (`get`), with a default for the keys it has not. A slot may
be overwritten by an entry with the same key, and an entry may be inserted in the gap where
its key belongs (`Gap`, `insertAt`). Two tables are merged or compared with one position in
each : at a `Cut` the keys before the positions are below the keys from there on, so the maps
of the parts before the positions agree with the whole maps on the keys seen so far.
-/

namespace SortedTable

variable {E κ : Type*} [LinearOrder κ] {key : E → κ} {a b : ℕ → E} {n m i j : ℕ} {k : κ} {e : E}

/-- The keys of the first `n` slots increase strictly. -/
def Sorted (key : E → κ) (a : ℕ → E) (n : ℕ) : Prop :=
  ∀ i j, i < j → j < n → key (a i) < key (a j)

theorem Sorted.congr (h : Sorted key a n) (heq : ∀ i < n, b i = a i) : Sorted key b n := by
  intro i j hij hj
  rw [heq i (hij.trans hj), heq j hj]
  exact h i j hij hj

/-- A key is in one slot only. -/
theorem Sorted.injective (h : Sorted key a n) (hi : i < n) (hj : j < n)
    (heq : key (a i) = key (a j)) : i = j := by
  rcases Nat.lt_trichotomy i j with hij | hij | hij
  · exact absurd heq (h i j hij hj).ne
  · exact hij
  · exact absurd heq.symm (h j i hij hi).ne

/-- Appending an entry with a larger key. -/
theorem Sorted.push (h : Sorted key a n) (hkey : ∀ i < n, key (a i) < key e) :
    Sorted key (Function.update a n e) (n + 1) := by
  intro i j hij hj
  have hi : i < n := by omega
  rw [Function.update_of_ne hi.ne]
  rcases Nat.lt_or_ge j n with hjn | hjn
  · rw [Function.update_of_ne hjn.ne]
    exact h i j hij hjn
  · obtain rfl : j = n := by omega
    rw [Function.update_self]
    exact hkey i hi

/-- Overwriting a slot with an entry of the same key. -/
theorem Sorted.overwrite (h : Sorted key a n) (hkey : key e = key (a i)) :
    Sorted key (Function.update a i e) n := by
  have hkeys : ∀ j, key (Function.update a i e j) = key (a j) := by
    intro j
    rcases eq_or_ne j i with rfl | hj
    · rw [Function.update_self, hkey]
    · rw [Function.update_of_ne hj]
  intro p q hpq hq
  rw [hkeys, hkeys]
  exact h p q hpq hq

/-! ## The map of a table -/

section Get

variable {α : Type*} {val : E → α} {zero : α}

/-- The value of a key in the first `n` slots, `zero` if it is in none. -/
def get (key : E → κ) (val : E → α) (zero : α) (a : ℕ → E) : ℕ → κ → α
  | 0, _ => zero
  | n + 1, k => if key (a n) = k then val (a n) else get key val zero a n k

attribute [local simp] get

theorem get_congr (heq : ∀ i < n, b i = a i) (k : κ) :
    get key val zero b n k = get key val zero a n k := by
  induction n with
  | zero => rfl
  | succ n ih =>
    rw [get, get, heq n (Nat.lt_succ_self n), ih fun i hi => heq i (Nat.lt_succ_of_lt hi)]

/-- The value of a key that is in no slot. -/
theorem get_eq_zero (h : ∀ i < n, key (a i) ≠ k) : get key val zero a n k = zero := by
  induction n with
  | zero => rfl
  | succ n ih =>
    rw [get, if_neg (h n (Nat.lt_succ_self n))]
    exact ih fun i hi => h i (Nat.lt_succ_of_lt hi)

/-- A key that is in none of the last slots. -/
theorem get_eq_part (hm : m ≤ n) (h : ∀ i, m ≤ i → i < n → key (a i) ≠ k) :
    get key val zero a n k = get key val zero a m k := by
  induction n with
  | zero =>
    obtain rfl := Nat.le_zero.1 hm
    rfl
  | succ n ih =>
    rcases Nat.eq_or_lt_of_le hm with rfl | hlt
    · rfl
    · rw [get, if_neg (h n (by omega) (Nat.lt_succ_self n))]
      exact ih (by omega) fun i hi hin => h i hi (Nat.lt_succ_of_lt hin)

/-- The value of a key that is in a slot. -/
theorem Sorted.get_eq (val : E → α) (zero : α) (h : Sorted key a n) (hi : i < n) :
    get key val zero a n (key (a i)) = val (a i) := by
  rw [get_eq_part (m := i + 1) hi fun j hj hjn => (h i j hj hjn).ne', get, if_pos rfl]

/-- Where the value is not the default, the key is in a slot. -/
theorem exists_of_get_ne (h : get key val zero a n k ≠ zero) : ∃ i < n, key (a i) = k := by
  by_contra hnone
  simp only [not_exists, not_and] at hnone
  exact h (get_eq_zero hnone)

theorem get_succ (a : ℕ → E) (n : ℕ) : get key val zero a (n + 1) =
    Function.update (get key val zero a n) (key (a n)) (val (a n)) := by
  funext k
  rw [get, Function.update_apply]
  simp only [eq_comm]

theorem get_push (a : ℕ → E) (n : ℕ) (e : E) (k : κ) :
    get key val zero (Function.update a n e) (n + 1) k =
      if key e = k then val e else get key val zero a n k := by
  rw [get, Function.update_self,
    get_congr fun i hi => Function.update_of_ne (Nat.ne_of_lt hi) e a]

theorem get_overwrite (h : Sorted key a n) (hi : i < n) (hkey : key e = key (a i)) (k : κ) :
    get key val zero (Function.update a i e) n k =
      if key e = k then val e else get key val zero a n k := by
  have hsorted := h.overwrite hkey
  split
  · next hk =>
    have := hsorted.get_eq val zero hi
    rwa [Function.update_self, hk] at this
  · next hk =>
    clear hsorted h
    induction n with
    | zero => exact absurd hi (Nat.not_lt_zero i)
    | succ n ih =>
      rw [get, get]
      rcases Nat.lt_or_ge i n with hin | hin
      · rw [Function.update_of_ne hin.ne', ih hin]
      · obtain rfl : i = n := by omega
        rw [Function.update_self, if_neg hk, if_neg (hkey ▸ hk),
          get_congr fun j hj => Function.update_of_ne (Nat.ne_of_lt hj) e a]

end Get

/-! ## Inserting an entry -/

/-- Move the entries from slot `i` on up by one, and write `e` to the slot. -/
def insertAt (a : ℕ → E) (n i : ℕ) (e : E) : ℕ → E :=
  Function.update (fun j => if i < j ∧ j ≤ n then a (j - 1) else a j) i e

/-- The key belongs before slot `i`, and is in no slot. -/
structure Gap (key : E → κ) (a : ℕ → E) (n : ℕ) (k : κ) (i : ℕ) : Prop where
  le : i ≤ n
  below : ∀ j < i, key (a j) < k
  above : ∀ j, i ≤ j → j < n → k < key (a j)

theorem Gap.key_ne (h : Gap key a n k i) (hj : j < n) : key (a j) ≠ k := by
  rcases Nat.lt_or_ge j i with hji | hij
  · exact (h.below j hji).ne
  · exact (h.above j hij hj).ne'

theorem insertAt_of_lt (hj : j < i) : insertAt a n i e j = a j := by
  rw [insertAt, Function.update_of_ne hj.ne, if_neg fun h => absurd h.1 (by omega)]

theorem insertAt_self : insertAt a n i e i = e :=
  Function.update_self _ _ _

theorem insertAt_of_gt (hi : i < j) (hj : j ≤ n) : insertAt a n i e j = a (j - 1) := by
  rw [insertAt, Function.update_of_ne hi.ne', if_pos ⟨hi, hj⟩]

/-- The slots of the table with an entry inserted. -/
theorem insertAt_cases (a : ℕ → E) (e : E) (hj : j ≤ n) :
    j < i ∧ insertAt a n i e j = a j ∨ j = i ∧ insertAt a n i e j = e ∨
      i < j ∧ insertAt a n i e j = a (j - 1) := by
  rcases Nat.lt_trichotomy j i with h | rfl | h
  · exact .inl ⟨h, insertAt_of_lt h⟩
  · exact .inr (.inl ⟨rfl, insertAt_self⟩)
  · exact .inr (.inr ⟨h, insertAt_of_gt h hj⟩)

theorem Sorted.insertAt (h : Sorted key a n) (hgap : Gap key a n (key e) i) :
    Sorted key (insertAt a n i e) (n + 1) := by
  intro p q hpq hq
  rcases insertAt_cases (i := i) a e (by omega : p ≤ n) with ⟨hp, hpe⟩ | ⟨hp, hpe⟩ | ⟨hp, hpe⟩
  · rcases insertAt_cases (i := i) a e (by omega : q ≤ n) with ⟨hqi, hqe⟩ | ⟨-, hqe⟩ | ⟨hqi, hqe⟩
    · rw [hpe, hqe]
      exact h p q hpq (hqi.trans_le hgap.le)
    · rw [hpe, hqe]
      exact hgap.below p hp
    · rw [hpe, hqe]
      exact h p (q - 1) (by omega) (by omega)
  · rcases insertAt_cases (i := i) a e (by omega : q ≤ n) with ⟨hqi, hqe⟩ | ⟨hqi, hqe⟩ | ⟨hqi, hqe⟩
    · omega
    · omega
    · rw [hpe, hqe]
      exact hgap.above (q - 1) (by omega) (by omega)
  · rw [hpe, insertAt_of_gt (by omega) (by omega)]
    exact h (p - 1) (q - 1) (by omega) (by omega)

theorem get_insertAt {α : Type*} {val : E → α} {zero : α} (h : Sorted key a n)
    (hgap : Gap key a n (key e) i) (k : κ) :
    get key val zero (insertAt a n i e) (n + 1) k =
      if key e = k then val e else get key val zero a n k := by
  have hsorted := h.insertAt hgap
  split
  · next hk =>
    have hget := hsorted.get_eq val zero (Nat.lt_succ_of_le hgap.le)
    rwa [insertAt_self, hk] at hget
  · next hk =>
    by_cases hslot : ∃ j < n, key (a j) = k
    · obtain ⟨j, hj, rfl⟩ := hslot
      rw [h.get_eq val zero hj]
      rcases Nat.lt_or_ge j i with hji | hij
      · have hget := hsorted.get_eq val zero (Nat.lt_succ_of_lt hj)
        rwa [insertAt_of_lt hji] at hget
      · have hget := hsorted.get_eq val zero (Nat.succ_lt_succ hj)
        rwa [insertAt_of_gt (Nat.lt_succ_of_le hij) hj, Nat.succ_sub_one] at hget
    · simp only [not_exists, not_and] at hslot
      rw [get_eq_zero hslot, get_eq_zero]
      intro j hj
      rcases insertAt_cases (i := i) a e (by omega : j ≤ n) with ⟨hji, he⟩ | ⟨-, he⟩ | ⟨hji, he⟩
      · rw [he]
        exact hslot j (hji.trans_le hgap.le)
      · rwa [he]
      · rw [he]
        exact hslot (j - 1) (by omega)

/-! ## Two positions -/

/-- The keys before the positions `i` and `j` are below the keys from there on. -/
structure Cut (key : E → κ) (a b : ℕ → E) (n m i j : ℕ) : Prop where
  left_le : i ≤ n
  right_le : j ≤ m
  left : ∀ p < i, ∀ q, j ≤ q → q < m → key (a p) < key (b q)
  right : ∀ q < j, ∀ p, i ≤ p → p < n → key (b q) < key (a p)

namespace Cut

theorem start (key : E → κ) (a b : ℕ → E) (n m : ℕ) : Cut key a b n m 0 0 :=
  ⟨Nat.zero_le n, Nat.zero_le m, fun p hp => absurd hp (Nat.not_lt_zero p),
    fun q hq => absurd hq (Nat.not_lt_zero q)⟩

theorem symm (h : Cut key a b n m i j) : Cut key b a m n j i :=
  ⟨h.right_le, h.left_le, h.right, h.left⟩

/-- The next entry of the first table goes before the rest of the second. -/
theorem step_left (h : Cut key a b n m i j) (hb : Sorted key b m) (hi : i < n)
    (hlt : j < m → key (a i) < key (b j)) : Cut key a b n m (i + 1) j := by
  refine ⟨hi, h.right_le, fun p hp q hjq hq => ?_, fun q hq p hp => h.right q hq p (by omega)⟩
  rcases Nat.lt_succ_iff_lt_or_eq.1 hp with hp | rfl
  · exact h.left p hp q hjq hq
  · have hj := hlt (hjq.trans_lt hq)
    rcases Nat.eq_or_lt_of_le hjq with rfl | hjq
    · exact hj
    · exact hj.trans (hb j q hjq hq)

/-- The next entries have the same key. -/
theorem step_both (h : Cut key a b n m i j) (ha : Sorted key a n) (hb : Sorted key b m)
    (hi : i < n) (hj : j < m) (heq : key (a i) = key (b j)) :
    Cut key a b n m (i + 1) (j + 1) := by
  refine ⟨hi, hj, fun p hp q hjq hq => ?_, fun q hq p hip hp => ?_⟩
  · rcases Nat.lt_succ_iff_lt_or_eq.1 hp with hp | rfl
    · exact h.left p hp q (by omega) hq
    · rw [heq]
      exact hb j q hjq hq
  · rcases Nat.lt_succ_iff_lt_or_eq.1 hq with hq | rfl
    · exact h.right q hq p (by omega) hp
    · rw [← heq]
      exact ha i p hip hp

variable {α : Type*} {val : E → α} {zero : α}

/-- The key of the next entry of the first table has not been seen. -/
theorem get_next (h : Cut key a b n m i j) (ha : Sorted key a n) (hi : i < n) :
    get key val zero a i (key (a i)) = zero ∧ get key val zero b j (key (a i)) = zero :=
  ⟨get_eq_zero fun p hp => (ha p i hp hi).ne, get_eq_zero fun q hq => (h.right q hq i le_rfl hi).ne⟩

/-- On a key that has been seen in the first table, both maps are those of the parts before
the positions. -/
theorem get_seen (val : E → α) (zero : α) (h : Cut key a b n m i j) (ha : Sorted key a n)
    {p : ℕ} (hp : p < i) :
    get key val zero a n (key (a p)) = get key val zero a i (key (a p)) ∧
      get key val zero b m (key (a p)) = get key val zero b j (key (a p)) :=
  ⟨get_eq_part h.left_le fun q hq hqn => (ha p q (hp.trans_le hq) hqn).ne',
    get_eq_part h.right_le fun q hq hqm => (h.left p hp q hq hqm).ne'⟩

end Cut

/-! ## Maps that change on one key -/

section Maps

variable {α : Type*} {f g : κ → α}

/-- Writing values to a key where two maps agree adds one place where they may differ. -/
theorem exists_lt_update [Preorder α] (h : f k = g k) (x y : α) :
    (∃ l, Function.update g k y l < Function.update f k x l) ↔ (∃ l, g l < f l) ∨ y < x := by
  constructor
  · rintro ⟨l, hl⟩
    rcases eq_or_ne l k with rfl | hne
    · rw [Function.update_self, Function.update_self] at hl
      exact .inr hl
    · rw [Function.update_of_ne hne, Function.update_of_ne hne] at hl
      exact .inl ⟨l, hl⟩
  · rintro (⟨l, hl⟩ | hlt)
    · have hne : l ≠ k := by
        rintro rfl
        exact absurd (h ▸ hl) (lt_irrefl _)
      refine ⟨l, ?_⟩
      rwa [Function.update_of_ne hne, Function.update_of_ne hne]
    · refine ⟨k, ?_⟩
      rwa [Function.update_self, Function.update_self]

/-- The join of maps with values written to one key. -/
theorem sup_update [SemilatticeSup α] (f g : κ → α) (k : κ) (x y : α) :
    Function.update f k x ⊔ Function.update g k y = Function.update (f ⊔ g) k (x ⊔ y) := by
  funext l
  rcases eq_or_ne l k with rfl | hne
  · simp only [Pi.sup_apply, Function.update_self]
  · simp only [Pi.sup_apply, Function.update_of_ne hne]

end Maps

end SortedTable
