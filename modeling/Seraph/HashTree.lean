import Mathlib.Data.List.Basic
import Mathlib.Data.Nat.Log
import Mathlib.Data.Set.Function

/-!
# Hash trees

A level of a tree over a list hashes its elements in pairs, the last one with itself where their
number is odd. `(level h)^[d]` is `d` levels, and `padded d` is the list of `2 ^ d` leaves that
they hash. Where `h` is injective on the pairs that two trees of `d` levels hash, they have the same
root if and only if they have the same padded leaves (`levels_eq_iff`), and lists of one length
with the same padded leaves are equal (`eq_of_padded`).
-/

namespace HashTree

/-- Neighbours in pairs, a last element without a neighbour with itself. -/
def pairs {α : Type*} : List α → List (α × α)
  | [] => []
  | [a] => [(a, a)]
  | a :: b :: rest => (a, b) :: pairs rest

/-- The leaves that `d` levels over a list hash. -/
def padded : {α : Type*} → ℕ → List α → List α
  | _, 0, leaves => leaves
  | _, d + 1, leaves => (padded d (pairs leaves)).flatMap fun p => [p.1, p.2]

variable {α β : Type*} (h : α → α → α)

/-- The next level. -/
def level (leaves : List α) : List α :=
  (pairs leaves).map (Function.uncurry h)

/-- The pairs hashed in `d` levels. -/
def hashed : ℕ → List α → List (α × α)
  | 0, _ => []
  | d + 1, leaves => pairs leaves ++ hashed d (level h leaves)

/-! ## Pairs -/

@[simp] theorem length_pairs (leaves : List α) :
    (pairs leaves).length = (leaves.length + 1) / 2 := by
  fun_induction pairs leaves with
  | case1 => simp
  | case2 a => simp
  | case3 a b rest ih =>
    simp only [List.length_cons, ih]
    omega

@[simp] theorem length_level (leaves : List α) :
    (level h leaves).length = (leaves.length + 1) / 2 := by
  rw [level, List.length_map, length_pairs]

theorem getElem?_pairs (leaves : List α) (i : ℕ) :
    (pairs leaves)[i]? =
      leaves[2 * i]?.map fun a => (a, (leaves[2 * i + 1]?).getD a) := by
  fun_induction pairs leaves generalizing i with
  | case1 => rfl
  | case2 a =>
    cases i with
    | zero => rfl
    | succ i => simp [Nat.mul_add]
  | case3 a b rest ih =>
    cases i with
    | zero => rfl
    | succ i => simp [ih, Nat.mul_add]

theorem pairs_map (f : α → β) (leaves : List α) :
    pairs (leaves.map f) = (pairs leaves).map (Prod.map f f) := by
  fun_induction pairs leaves with
  | case1 => rfl
  | case2 a => rfl
  | case3 a b rest ih => rw [List.map_cons, List.map_cons, pairs, ih, List.map_cons]; rfl

theorem pairs_injective : ∀ {leaves leaves' : List α}, leaves.length = leaves'.length →
    pairs leaves = pairs leaves' → leaves = leaves'
  | [], [], _, _ => rfl
  | [a], [b], _, heq => by
    simp only [pairs, List.cons.injEq, Prod.mk.injEq, and_true] at heq
    rw [heq.1]
  | a :: b :: rest, c :: d :: rest', hlen, heq => by
    simp only [pairs, List.cons.injEq, Prod.mk.injEq] at heq
    obtain ⟨⟨rfl, rfl⟩, hrest⟩ := heq
    rw [pairs_injective (by simpa using hlen) hrest]
  | [], _ :: _, hlen, _ => by simp at hlen
  | _ :: _, [], hlen, _ => by simp at hlen
  | [_], _ :: _ :: _, hlen, _ => by simp at hlen
  | _ :: _ :: _, [_], hlen, _ => by simp at hlen

/-! ## Padding -/

/-- Pairs written out one after the other. -/
theorem flatMap_pair_injective : ∀ {ps ps' : List (α × α)},
    (ps.flatMap fun p => [p.1, p.2]) = (ps'.flatMap fun p => [p.1, p.2]) → ps = ps'
  | [], [], _ => rfl
  | (a, b) :: ps, (c, d) :: ps', heq => by
    simp only [List.flatMap_cons, List.cons_append, List.nil_append, List.cons.injEq] at heq
    obtain ⟨rfl, rfl, hrest⟩ := heq
    rw [flatMap_pair_injective hrest]
  | [], _ :: _, heq => by simp at heq
  | _ :: _, [], heq => by simp at heq

theorem padded_map (f : α → β) (d : ℕ) (leaves : List α) :
    padded d (leaves.map f) = (padded d leaves).map f := by
  induction d generalizing α β with
  | zero => rfl
  | succ d ih =>
    rw [padded, padded, pairs_map, ih, List.flatMap_map, List.map_flatMap]
    rfl

theorem mem_pairs {leaves : List α} {p : α × α} (hp : p ∈ pairs leaves) :
    p.1 ∈ leaves ∧ p.2 ∈ leaves := by
  fun_induction pairs leaves with
  | case1 => cases hp
  | case2 a => simp_all
  | case3 a b rest ih =>
    rcases List.mem_cons.1 hp with rfl | hp
    · simp
    · have := ih hp
      simp [this]

theorem mem_padded {d : ℕ} {leaves : List α} {a : α} (ha : a ∈ padded d leaves) : a ∈ leaves := by
  induction d generalizing α with
  | zero => exact ha
  | succ d ih =>
    obtain ⟨p, hp, hap⟩ := List.mem_flatMap.1 ha
    have hmem := mem_pairs (ih hp)
    rcases List.mem_pair.1 hap with rfl | rfl
    · exact hmem.1
    · exact hmem.2

/-- Lists of one length with the same padded leaves are equal. -/
theorem eq_of_padded {d : ℕ} {leaves leaves' : List α} (hlen : leaves.length = leaves'.length)
    (heq : padded d leaves = padded d leaves') : leaves = leaves' := by
  induction d generalizing α with
  | zero => exact heq
  | succ d ih =>
    refine pairs_injective hlen (ih ?_ (flatMap_pair_injective heq))
    rw [length_pairs, length_pairs, hlen]

/-- A function that separates the elements of two lists separates the lists. -/
theorem eq_of_map_eq {f : α → β} : ∀ {as bs : List α}, (∀ a ∈ as, ∀ b ∈ bs, f a = f b → a = b) →
    as.map f = bs.map f → as = bs
  | [], [], _, _ => rfl
  | a :: as, b :: bs, hf, heq => by
    rw [List.map_cons, List.map_cons, List.cons.injEq] at heq
    rw [hf a List.mem_cons_self b List.mem_cons_self heq.1,
      eq_of_map_eq (fun a ha b hb => hf a (List.mem_cons_of_mem _ ha) b (List.mem_cons_of_mem _ hb))
        heq.2]
  | [], _ :: _, _, heq => by simp at heq
  | _ :: _, [], _, heq => by simp at heq

/-! ## Levels -/

variable {h}

theorem hashed_levels_subset (d k : ℕ) (leaves : List α) :
    hashed h d ((level h)^[k] leaves) ⊆ hashed h (d + k) leaves := by
  induction k generalizing leaves with
  | zero => exact fun _ hp => hp
  | succ k ih => exact fun p hp => List.mem_append_right _ (ih (level h leaves) hp)

/-- The trees of `d` levels over two lists end in the same hashes where the padded leaves are the
same, and only there if `h` is injective on the pairs they hash. -/
theorem levels_eq_iff {d : ℕ} {leaves leaves' : List α}
    (hinj : Set.InjOn (Function.uncurry h)
      {p | p ∈ hashed h d leaves ∨ p ∈ hashed h d leaves'}) :
    (level h)^[d] leaves = (level h)^[d] leaves' ↔ padded d leaves = padded d leaves' := by
  induction d generalizing leaves leaves' with
  | zero => rfl
  | succ d ih =>
    have hnext : Set.InjOn (Function.uncurry h)
        {p | p ∈ hashed h d (level h leaves) ∨ p ∈ hashed h d (level h leaves')} :=
      hinj.mono fun p hp => hp.imp (List.mem_append_right _) (List.mem_append_right _)
    have hpairs : ∀ p ∈ padded d (pairs leaves), ∀ q ∈ padded d (pairs leaves'),
        Function.uncurry h p = Function.uncurry h q → p = q := fun p hp q hq =>
      hinj (Or.inl (List.mem_append_left _ (mem_padded hp)))
        (Or.inr (List.mem_append_left _ (mem_padded hq)))
    rw [Function.iterate_succ_apply, Function.iterate_succ_apply, ih hnext, level, level,
      padded_map, padded_map]
    constructor
    · intro heq
      rw [padded, padded, eq_of_map_eq hpairs heq]
    · intro heq
      rw [flatMap_pair_injective heq]

end HashTree
