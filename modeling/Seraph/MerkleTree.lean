import Seraph.Hashing

/-!
# Merkle trees

`sha256_merkle_root` : the leaves are copied into a work buffer and hashed in pairs, level by
level and in place, until one digest is left.
-/

namespace Seraph

/-- `SHA256_DIGEST_SIZE`. -/
def digestSize : ℕ :=
  32

/-- `sha256_clear`. -/
def sha256Zero : List UInt8 :=
  List.replicate digestSize 0

/-- `sha256_is_zero`. -/
def sha256IsZero (hash : List UInt8) : Bool :=
  hash.foldl (fun acc b => acc ||| b) 0 == 0

/-- `sha256_equal`. -/
def sha256Equal (a b : List UInt8) : Bool :=
  (a.zip b).foldl (fun diff p => diff ||| (p.1 ^^^ p.2)) 0 == 0

/-- `sha256_hash_pair`. -/
def sha256HashPair (stack : ℕ → UInt8) (left right : List UInt8) : List UInt8 :=
  sha256Final stack (sha256Update (sha256Update sha256Init left) right)

/-- One level of the tree : digest `i` of the next level replaces digest `i` of this one. -/
def merkleLevel (stack : ℕ → UInt8) (levelSize : ℕ) (work : List (List UInt8)) :
    List (List UInt8) :=
  (List.range ((levelSize + 1) / 2)).foldl
    (fun work i =>
      let left := work.getD (i * 2) []
      let right := if i * 2 + 1 < levelSize then work.getD (i * 2 + 1) [] else left
      work.set i (sha256HashPair stack left right))
    work

/-- A round of the loop over the levels. -/
def merkleRound (stack : ℕ → UInt8) (s : ℕ × List (List UInt8)) :
    Option (ℕ × List (List UInt8)) :=
  if s.1 > 1 then some ((s.1 + 1) / 2, merkleLevel stack s.1 s.2) else none

/-- `sha256_merkle_root`. -/
def sha256MerkleRoot (stack : ℕ → UInt8) (leaves : List (List UInt8)) : List UInt8 :=
  if leaves.length = 0 then sha256Zero
  else if leaves.length = 1 then leaves.getD 0 []
  else
    (Loops.loop (merkleRound stack) leaves.length (leaves.length, leaves)).2.getD 0 []

/-- `sha256_merkle_root_alloc`, with whether the work buffer is allocated. -/
def sha256MerkleRootAlloc (stack : ℕ → UInt8) (alloc : Bool) (leaves : List (List UInt8)) :
    Option (List UInt8) :=
  if leaves.length = 0 then some sha256Zero
  else if alloc then some (sha256MerkleRoot stack leaves)
  else none

end Seraph
