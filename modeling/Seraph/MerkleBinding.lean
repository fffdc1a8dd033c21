import Seraph.HashTree
import Seraph.HashingAgreement
import Seraph.MerkleTree

/-!
# What a Merkle root binds

The in-place levels of `sha256MerkleRoot` are those of a hash tree (`sha256MerkleRoot_eq`). Two
lists of digests have the same root, where SHA-256 has no collision among what is hashed, if and
only if the lower tree has the padded leaves of the higher one from its height on ; then lists of
one length are equal (`sha256MerkleRoot_binds`).
-/

namespace Seraph

/-- SHA-256 of two digests, one after the other. -/
def pairHash (left right : List UInt8) : List UInt8 :=
  Sha256.hash (left ++ right)

theorem sha256HashPair_eq (stack : ℕ → UInt8) (left right : List UInt8) :
    sha256HashPair stack left right = pairHash left right := by
  have h : sha256HashPair stack left right = Sha256.hash [left, right].flatten :=
    sha256_stream stack [left, right]
  rwa [List.flatten_cons, List.flatten_singleton] at h

/-- The number of levels above the leaves. -/
def merkleDepth (leaves : List (List UInt8)) : ℕ :=
  Nat.clog 2 leaves.length

/-- The nodes `k` levels above the leaves. -/
def merkleNodes (k : ℕ) (leaves : List (List UInt8)) : List (List UInt8) :=
  (HashTree.level pairHash)^[k] leaves

/-- What SHA-256 is applied to under the root. -/
def merkleMessages (leaves : List (List UInt8)) : List (List UInt8) :=
  (HashTree.hashed pairHash (merkleDepth leaves) leaves).map fun p => p.1 ++ p.2

/-! ## The levels -/

section levels

variable {stack : ℕ → UInt8} {n : ℕ} {work : List (List UInt8)}

theorem getElem?_level (hn : n ≤ work.length) {j : ℕ} (hj : j * 2 < n) :
    (HashTree.level pairHash (work.take n))[j]? =
      some (pairHash (work.getD (j * 2) [])
        (if j * 2 + 1 < n then work.getD (j * 2 + 1) [] else work.getD (j * 2) [])) := by
  have hleft : work[j * 2]? = some (work.getD (j * 2) []) := by
    rw [List.getD, List.getElem?_eq_getElem (by omega), Option.getD_some]
  rw [HashTree.level, List.getElem?_map, HashTree.getElem?_pairs, Nat.mul_comm 2 j,
    List.getElem?_take_of_lt hj, hleft, List.getElem?_take, Option.map_some, Option.map_some]
  by_cases hodd : j * 2 + 1 < n
  · have hright : work[j * 2 + 1]? = some (work.getD (j * 2 + 1) []) := by
      rw [List.getD, List.getElem?_eq_getElem (by omega), Option.getD_some]
    rw [if_pos hodd, if_pos hodd, hright]
    rfl
  · rw [if_neg hodd, if_neg hodd]
    rfl

/-- The work buffer when the digests up to `j` of the next level are in place. -/
theorem merkleLevel_rounds (hn : n ≤ work.length) {j : ℕ} (hj : j ≤ (n + 1) / 2) :
    let s := (List.range j).foldl
      (fun work i =>
        let left := work.getD (i * 2) []
        let right := if i * 2 + 1 < n then work.getD (i * 2 + 1) [] else left
        work.set i (sha256HashPair stack left right))
      work
    s.length = work.length ∧
      ∀ i, s[i]? = if i < j then (HashTree.level pairHash (work.take n))[i]? else work[i]? := by
  induction j with
  | zero => simp
  | succ j ih =>
    obtain ⟨hlen, hs⟩ := ih (by omega)
    rw [List.range_succ, List.foldl_append]
    generalize (List.range j).foldl _ work = s at hlen hs
    refine ⟨by simp [hlen], fun i => ?_⟩
    have hleft : s.getD (j * 2) [] = work.getD (j * 2) [] := by
      rw [List.getD, List.getD, hs, if_neg (by omega)]
    have hright : s.getD (j * 2 + 1) [] = work.getD (j * 2 + 1) [] := by
      rw [List.getD, List.getD, hs, if_neg (by omega)]
    simp only [List.foldl_cons, List.foldl_nil, hleft, hright, List.getElem?_set, hlen,
      sha256HashPair_eq]
    by_cases hi : j = i
    · subst hi
      rw [if_pos rfl, if_pos (by omega), if_pos (Nat.lt_succ_self j), getElem?_level hn (by omega)]
    · rw [if_neg hi, hs]
      by_cases hlt : i < j
      · rw [if_pos hlt, if_pos (by omega)]
      · rw [if_neg hlt, if_neg (by omega)]

theorem length_merkleLevel (hn : n ≤ work.length) :
    (merkleLevel stack n work).length = work.length :=
  (merkleLevel_rounds hn le_rfl).1

/-- The next level, at the beginning of the work buffer. -/
theorem take_merkleLevel (hn : n ≤ work.length) :
    (merkleLevel stack n work).take ((n + 1) / 2) = HashTree.level pairHash (work.take n) := by
  have h := (@merkleLevel_rounds stack n work hn _ le_rfl).2
  refine List.ext_getElem? fun i => ?_
  rw [List.getElem?_take]
  by_cases hi : i < (n + 1) / 2
  · rw [if_pos hi]
    exact (h i).trans (if_pos hi)
  · rw [if_neg hi, List.getElem?_eq_none]
    rw [HashTree.length_level, List.length_take, min_eq_left hn]
    omega

end levels

/-! ## The root -/

theorem clog_halves {n : ℕ} (hn : 1 < n) : Nat.clog 2 n = Nat.clog 2 ((n + 1) / 2) + 1 :=
  Nat.clog_of_two_le one_lt_two hn

/-- The root is the one node of the last level. -/
theorem sha256MerkleRoot_eq (stack : ℕ → UInt8) {leaves : List (List UInt8)} (hne : leaves ≠ []) :
    merkleNodes (merkleDepth leaves) leaves = [sha256MerkleRoot stack leaves] := by
  have hpos := List.length_pos_iff.2 hne
  unfold sha256MerkleRoot
  rw [if_neg (by omega)]
  by_cases h1 : leaves.length = 1
  · obtain ⟨a, rfl⟩ := List.length_eq_one_iff.1 h1
    rfl
  rw [if_neg h1]
  -- the levels that are left take the nodes of the work buffer to those of the last level
  let I : ℕ × List (List UInt8) → Prop := fun s =>
    1 ≤ s.1 ∧ s.1 ≤ s.2.length ∧
      merkleNodes (Nat.clog 2 s.1) (s.2.take s.1) = merkleNodes (merkleDepth leaves) leaves
  have hround : ∀ s t, I s → merkleRound stack s = some t → I t ∧ t.1 - 1 < s.1 - 1 := by
    rintro ⟨n, work⟩ t ⟨hn, hle, hnodes⟩ ht
    unfold merkleRound at ht
    split_ifs at ht with hgt
    obtain rfl := Option.some.inj ht
    dsimp only at hn hle hnodes hgt ⊢
    refine ⟨⟨by dsimp only; omega, ?_, ?_⟩, by omega⟩
    · dsimp only
      rw [length_merkleLevel hle]
      omega
    · dsimp only
      rw [take_merkleLevel hle, ← hnodes, clog_halves hgt]
      rfl
  have hstart : I (leaves.length, leaves) := ⟨hpos, le_rfl, by rw [List.take_length]; rfl⟩
  obtain ⟨⟨hn, hle, hnodes⟩, -, hdone⟩ := Loops.loop_spec hround hstart
    (show leaves.length - 1 < leaves.length by omega)
  generalize Loops.loop (merkleRound stack) leaves.length (leaves.length, leaves) = s at *
  obtain ⟨n, work⟩ := s
  have hn1 : n = 1 := by
    unfold merkleRound at hdone
    split_ifs at hdone with hgt
    dsimp only at hgt hn
    omega
  subst hn1
  rw [← hnodes]
  cases work with
  | nil => simp at hle
  | cons a work => rfl

/-! ## Binding -/

/-- Digests of 32 bytes. -/
def Digests (leaves : List (List UInt8)) : Prop :=
  ∀ leaf ∈ leaves, leaf.length = digestSize

theorem digests_level {leaves : List (List UInt8)} :
    Digests (HashTree.level pairHash leaves) := by
  intro leaf hleaf
  obtain ⟨p, -, rfl⟩ := List.mem_map.1 hleaf
  exact length_hash _

/-- Both halves of what is hashed are digests. -/
theorem digests_hashed {d : ℕ} {leaves : List (List UInt8)} (h : Digests leaves)
    {p : List UInt8 × List UInt8} (hp : p ∈ HashTree.hashed pairHash d leaves) :
    p.1.length = digestSize ∧ p.2.length = digestSize := by
  induction d generalizing leaves with
  | zero => cases hp
  | succ d ih =>
    rcases List.mem_append.1 hp with hp | hp
    · exact ⟨h _ (HashTree.mem_pairs hp).1, h _ (HashTree.mem_pairs hp).2⟩
    · exact ih digests_level hp


/-- SHA-256 does not collide on what is hashed under two roots. -/
def NoCollision (leaves leaves' : List (List UInt8)) : Prop :=
  Set.InjOn Sha256.hash {m | m ∈ merkleMessages leaves ∨ m ∈ merkleMessages leaves'}

theorem mem_merkleMessages {leaves : List (List UInt8)} {p : List UInt8 × List UInt8}
    (hp : p ∈ HashTree.hashed pairHash (merkleDepth leaves) leaves) :
    p.1 ++ p.2 ∈ merkleMessages leaves :=
  List.mem_map_of_mem hp

theorem NoCollision.pairs {leaves leaves' : List (List UInt8)} (h : NoCollision leaves leaves')
    (hdigests : Digests leaves) (hdigests' : Digests leaves') :
    Set.InjOn (Function.uncurry pairHash)
      {p | p ∈ HashTree.hashed pairHash (merkleDepth leaves) leaves ∨
        p ∈ HashTree.hashed pairHash (merkleDepth leaves') leaves'} := by
  intro p hp q hq heq
  have hlen : p.1.length = q.1.length := by
    rcases hp with hp | hp <;> rcases hq with hq | hq
    · rw [(digests_hashed hdigests hp).1, (digests_hashed hdigests hq).1]
    · rw [(digests_hashed hdigests hp).1, (digests_hashed hdigests' hq).1]
    · rw [(digests_hashed hdigests' hp).1, (digests_hashed hdigests hq).1]
    · rw [(digests_hashed hdigests' hp).1, (digests_hashed hdigests' hq).1]
  have hmessage : p.1 ++ p.2 = q.1 ++ q.2 :=
    h (hp.imp mem_merkleMessages mem_merkleMessages) (hq.imp mem_merkleMessages mem_merkleMessages)
      heq
  obtain ⟨h1, h2⟩ := List.append_inj hmessage hlen
  exact Prod.ext h1 h2

theorem merkleRoot_eq_iff (stack stack' : ℕ → UInt8) {leaves leaves' : List (List UInt8)}
    (hne : leaves ≠ []) (hne' : leaves' ≠ []) (hdigests : Digests leaves)
    (hdigests' : Digests leaves') (hinj : NoCollision leaves leaves') :
    sha256MerkleRoot stack leaves = sha256MerkleRoot stack' leaves' ↔
      HashTree.padded (min (merkleDepth leaves) (merkleDepth leaves'))
          (merkleNodes (merkleDepth leaves - merkleDepth leaves') leaves) =
        HashTree.padded (min (merkleDepth leaves) (merkleDepth leaves'))
          (merkleNodes (merkleDepth leaves' - merkleDepth leaves) leaves') := by
  have hpairs := hinj.pairs hdigests hdigests'
  rw [← List.singleton_inj, ← sha256MerkleRoot_eq stack hne, ← sha256MerkleRoot_eq stack' hne']
  generalize merkleDepth leaves = d at *
  generalize merkleDepth leaves' = d' at *
  obtain ⟨c, k, k', hk, hk', hmin⟩ : ∃ c k k', d = c + k ∧ d' = c + k' ∧
      min d d' = c ∧ d - d' = k ∧ d' - d = k' := ⟨min d d', d - d', d' - d, by omega⟩
  obtain ⟨hmin, hsub, hsub'⟩ := hmin
  rw [hmin, hsub, hsub']
  subst hk hk'
  have hsame : Set.InjOn (Function.uncurry pairHash)
      {p | p ∈ HashTree.hashed pairHash c (merkleNodes k leaves) ∨
        p ∈ HashTree.hashed pairHash c (merkleNodes k' leaves')} :=
    hpairs.mono fun p hp =>
      hp.imp (HashTree.hashed_levels_subset c k leaves ·)
        (HashTree.hashed_levels_subset c k' leaves' ·)
  rw [← HashTree.levels_eq_iff hsame, merkleNodes, merkleNodes, Function.iterate_add_apply,
    Function.iterate_add_apply]
  rfl

/-- The same root only for the same list. -/
def RootBinds (leaves leaves' : List (List UInt8)) : Prop :=
  leaves ≠ [] → leaves' ≠ [] → Digests leaves → Digests leaves' → NoCollision leaves leaves' →
    ∀ stack stack', sha256MerkleRoot stack leaves = sha256MerkleRoot stack' leaves' →
      leaves = leaves'

/-- What two roots that are the same say of the lists. -/
theorem sha256MerkleRoot_binds (stack stack' : ℕ → UInt8) {leaves leaves' : List (List UInt8)}
    (hne : leaves ≠ []) (hne' : leaves' ≠ []) (hdigests : Digests leaves)
    (hdigests' : Digests leaves') (hinj : NoCollision leaves leaves') :
    (sha256MerkleRoot stack leaves = sha256MerkleRoot stack' leaves' ↔
      HashTree.padded (min (merkleDepth leaves) (merkleDepth leaves'))
          (merkleNodes (merkleDepth leaves - merkleDepth leaves') leaves) =
        HashTree.padded (min (merkleDepth leaves) (merkleDepth leaves'))
          (merkleNodes (merkleDepth leaves' - merkleDepth leaves) leaves')) ∧
    (leaves.length = leaves'.length →
      sha256MerkleRoot stack leaves = sha256MerkleRoot stack' leaves' → leaves = leaves') := by
  have hiff := merkleRoot_eq_iff stack stack' hne hne' hdigests hdigests' hinj
  refine ⟨hiff, fun hlen heq => ?_⟩
  have hdepth : merkleDepth leaves = merkleDepth leaves' := by
    rw [merkleDepth, merkleDepth, hlen]
  have hpadded := hiff.1 heq
  rw [hdepth, Nat.sub_self] at hpadded
  exact HashTree.eq_of_padded hlen hpadded

/-! ### Duplicated leaves -/

/-- Lists of digests of zeros. -/
def zeroLeaves (n : ℕ) : List (List UInt8) :=
  List.replicate n sha256Zero

theorem digests_zeroLeaves (n : ℕ) : Digests (zeroLeaves n) := by
  intro leaf hleaf
  rw [List.eq_of_mem_replicate hleaf]
  rfl

/-- The digest of 64 zeros. -/
def zeroPair : List UInt8 :=
  [0xf5, 0xa5, 0xfd, 0x42, 0xd1, 0x6a, 0x20, 0x30, 0x27, 0x98, 0xef, 0x6e, 0xd3, 0x09, 0x97, 0x9b,
    0x43, 0x00, 0x3d, 0x23, 0x20, 0xd9, 0xf0, 0xe8, 0xea, 0x98, 0x31, 0xa9, 0x27, 0x59, 0xfb, 0x4b]

theorem pairHash_zeros : pairHash sha256Zero sha256Zero = zeroPair := by
  rw [← sha256HashPair_eq fun _ => 0]
  decide +kernel

theorem pairHash_zeroPair_ne : pairHash zeroPair zeroPair ≠ zeroPair := by
  rw [← sha256HashPair_eq fun _ => 0]
  decide +kernel

theorem merkleMessages_zeros {n : ℕ} (hn : n = 3 ∨ n = 4) {m : List UInt8}
    (hm : m ∈ merkleMessages (zeroLeaves n)) :
    m = sha256Zero ++ sha256Zero ∨ m = zeroPair ++ zeroPair := by
  have hdepth : merkleDepth (zeroLeaves n) = 2 := by
    rw [merkleDepth, zeroLeaves, List.length_replicate]
    rcases hn with rfl | rfl <;> decide
  rw [merkleMessages, hdepth] at hm
  rcases hn with rfl | rfl <;>
    simpa [zeroLeaves, HashTree.hashed, HashTree.level, HashTree.pairs, List.replicate,
      Function.uncurry, pairHash_zeros, or_comm, or_left_comm, eq_comm] using hm

theorem noCollision_zeros : NoCollision (zeroLeaves 3) (zeroLeaves 4) := by
  have hmessage : ∀ m, m ∈ merkleMessages (zeroLeaves 3) ∨ m ∈ merkleMessages (zeroLeaves 4) →
      m = sha256Zero ++ sha256Zero ∨ m = zeroPair ++ zeroPair := fun m hm =>
    hm.elim (merkleMessages_zeros (Or.inl rfl)) (merkleMessages_zeros (Or.inr rfl))
  intro m hm m' hm' heq
  rcases hmessage m hm with rfl | rfl <;> rcases hmessage m' hm' with rfl | rfl
  · rfl
  · exact absurd (heq.symm.trans pairHash_zeros) pairHash_zeroPair_ne
  · exact absurd (heq.trans pairHash_zeros) pairHash_zeroPair_ne
  · rfl

theorem padded_zeros :
    HashTree.padded (min (merkleDepth (zeroLeaves 3)) (merkleDepth (zeroLeaves 4)))
        (merkleNodes (merkleDepth (zeroLeaves 3) - merkleDepth (zeroLeaves 4)) (zeroLeaves 3)) =
      HashTree.padded (min (merkleDepth (zeroLeaves 3)) (merkleDepth (zeroLeaves 4)))
        (merkleNodes (merkleDepth (zeroLeaves 4) - merkleDepth (zeroLeaves 3)) (zeroLeaves 4)) := by
  have h3 : merkleDepth (zeroLeaves 3) = 2 := by decide
  have h4 : merkleDepth (zeroLeaves 4) = 2 := by decide
  rw [h3, h4]
  rfl

theorem sha256MerkleRoot_binds_zeros :
    sha256MerkleRoot (fun _ => 0) (zeroLeaves 3) =
      sha256MerkleRoot (fun _ => 255) (zeroLeaves 4) :=
  (sha256MerkleRoot_binds (fun _ => 0) (fun _ => 255) (by decide) (by decide) (digests_zeroLeaves 3)
    (digests_zeroLeaves 4) noCollision_zeros).1.2 padded_zeros

theorem not_rootBinds_zeros : ¬RootBinds (zeroLeaves 3) (zeroLeaves 4) := by
  intro h
  have hroot := (merkleRoot_eq_iff (fun _ => 0) (fun _ => 0) (by decide) (by decide)
    (digests_zeroLeaves 3) (digests_zeroLeaves 4) noCollision_zeros).2 padded_zeros
  have heq := h (by decide) (by decide) (digests_zeroLeaves 3) (digests_zeroLeaves 4)
    noCollision_zeros _ _ hroot
  exact absurd (congrArg List.length heq) (by decide)

end Seraph
