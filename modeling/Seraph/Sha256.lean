import Mathlib.Algebra.Group.Nat.Defs
import Seraph.BlockStream

/-!
# SHA-256

The hash function and its keyed form, on lists of bytes : `pad` brings a message to whole blocks of
64 bytes, `compress` takes one block into a state of eight words, and `hash` runs it over the padded
message. The constants are the first bits of the fractional parts of square and cube roots of primes
(`initial_spec`, `roundConstants_spec`). The length that ends a padded message is taken
mod `2 ^ 64`.
-/

namespace Sha256

open BlockStream

/-! ## Words -/

/-- Rotation to the right. -/
def rotr (x n : UInt32) : UInt32 :=
  x >>> n ||| x <<< (32 - n)

/-- Bits of `y` or of `z`, as `x` chooses. -/
def ch (x y z : UInt32) : UInt32 :=
  (x &&& y) ^^^ (~~~x &&& z)

/-- The bits that at least two of the words have. -/
def maj (x y z : UInt32) : UInt32 :=
  (x &&& y) ^^^ (x &&& z) ^^^ (y &&& z)

/-- The upper-case sigma of the first working variable. -/
def bigSigma0 (x : UInt32) : UInt32 :=
  rotr x 2 ^^^ rotr x 13 ^^^ rotr x 22

/-- The upper-case sigma of the fifth one. -/
def bigSigma1 (x : UInt32) : UInt32 :=
  rotr x 6 ^^^ rotr x 11 ^^^ rotr x 25

/-- The lower-case sigma of the word 15 places back. -/
def smallSigma0 (x : UInt32) : UInt32 :=
  rotr x 7 ^^^ rotr x 18 ^^^ x >>> 3

/-- The lower-case sigma of the word 2 places back. -/
def smallSigma1 (x : UInt32) : UInt32 :=
  rotr x 17 ^^^ rotr x 19 ^^^ x >>> 10

/-- The big-endian word at place `a`. -/
def word (block : ℕ → UInt8) (a : ℕ) : UInt32 :=
  (block a).toUInt32 <<< 24 ||| (block (a + 1)).toUInt32 <<< 16 |||
    (block (a + 2)).toUInt32 <<< 8 ||| (block (a + 3)).toUInt32

/-- The four bytes of a word. -/
def wordBytes (w : UInt32) : List UInt8 :=
  [(w >>> 24).toUInt8, (w >>> 16).toUInt8, (w >>> 8).toUInt8, w.toUInt8]

/-- Byte `i` of the eight bytes of a length. -/
def lengthByte (n i : ℕ) : UInt8 :=
  UInt8.ofNat (n >>> (56 - 8 * i))

/-- The state, and the working variables. -/
structure Words where
  a : UInt32
  b : UInt32
  c : UInt32
  d : UInt32
  e : UInt32
  f : UInt32
  g : UInt32
  h : UInt32
deriving DecidableEq, Repr

/-- Addition word by word. -/
def Words.add (s w : Words) : Words :=
  ⟨s.a + w.a, s.b + w.b, s.c + w.c, s.d + w.d, s.e + w.e, s.f + w.f, s.g + w.g, s.h + w.h⟩

/-- The digest. -/
def Words.bytes (s : Words) : List UInt8 :=
  [s.a, s.b, s.c, s.d, s.e, s.f, s.g, s.h].flatMap wordBytes

/-! ## Constants -/

/-- The first 64 primes. -/
def primes : List ℕ :=
  [2, 3, 5, 7, 11, 13, 17, 19, 23, 29, 31, 37, 41, 43, 47, 53, 59, 61, 67, 71, 73, 79, 83, 89, 97,
    101, 103, 107, 109, 113, 127, 131, 137, 139, 149, 151, 157, 163, 167, 173, 179, 181, 191, 193,
    197, 199, 211, 223, 227, 229, 233, 239, 241, 251, 257, 263, 269, 271, 277, 281, 283, 293, 307,
    311]

/-- The state before the first block, from the square roots of the first eight primes. -/
def initial : Words :=
  ⟨0x6a09e667, 0xbb67ae85, 0x3c6ef372, 0xa54ff53a, 0x510e527f, 0x9b05688c, 0x1f83d9ab, 0x5be0cd19⟩

/-- The constants of the rounds, from the cube roots of the primes. -/
def roundConstants : List UInt32 :=
  [0x428a2f98, 0x71374491, 0xb5c0fbcf, 0xe9b5dba5, 0x3956c25b, 0x59f111f1,
    0x923f82a4, 0xab1c5ed5, 0xd807aa98, 0x12835b01, 0x243185be, 0x550c7dc3,
    0x72be5d74, 0x80deb1fe, 0x9bdc06a7, 0xc19bf174, 0xe49b69c1, 0xefbe4786,
    0x0fc19dc6, 0x240ca1cc, 0x2de92c6f, 0x4a7484aa, 0x5cb0a9dc, 0x76f988da,
    0x983e5152, 0xa831c66d, 0xb00327c8, 0xbf597fc7, 0xc6e00bf3, 0xd5a79147,
    0x06ca6351, 0x14292967, 0x27b70a85, 0x2e1b2138, 0x4d2c6dfc, 0x53380d13,
    0x650a7354, 0x766a0abb, 0x81c2c92e, 0x92722c85, 0xa2bfe8a1, 0xa81a664b,
    0xc24b8b70, 0xc76c51a3, 0xd192e819, 0xd6990624, 0xf40e3585, 0x106aa070,
    0x19a4c116, 0x1e376c08, 0x2748774c, 0x34b0bcb5, 0x391c0cb3, 0x4ed8aa4a,
    0x5b9cca4f, 0x682e6ff3, 0x748f82ee, 0x78a5636f, 0x84c87814, 0x8cc70208,
    0x90befffa, 0xa4506ceb, 0xbef9a3f7, 0xc67178f2]

/-- The 32 bits behind the point of the `k`-th root of `p`, whose whole part is less than 32. -/
def IsRootBits (k p : ℕ) (w : UInt32) : Prop :=
  ∃ i < 32, (i * 2 ^ 32 + w.toNat) ^ k ≤ p * 2 ^ (32 * k) ∧
    p * 2 ^ (32 * k) < (i * 2 ^ 32 + w.toNat + 1) ^ k

instance (k p : ℕ) (w : UInt32) : Decidable (IsRootBits k p w) :=
  inferInstanceAs (Decidable (∃ i < 32, _))

theorem roundConstants_spec : List.Forall₂ (IsRootBits 3) primes roundConstants := by
  decide

theorem initial_spec : List.Forall₂ (IsRootBits 2) (primes.take 8)
    [initial.a, initial.b, initial.c, initial.d, initial.e, initial.f, initial.g, initial.h] := by
  decide

/-! ## Compression -/

/-- The message schedule. -/
def schedule (block : ℕ → UInt8) (t : ℕ) : UInt32 :=
  if t < 16 then word block (t * 4)
  else smallSigma1 (schedule block (t - 2)) + schedule block (t - 7) +
    smallSigma0 (schedule block (t - 15)) + schedule block (t - 16)

/-- One round, with the sum of its constant and its word of the schedule. -/
def round (w : Words) (k x : UInt32) : Words :=
  let t1 := w.h + bigSigma1 w.e + ch w.e w.f w.g + k + x
  let t2 := bigSigma0 w.a + maj w.a w.b w.c
  ⟨t1 + t2, w.a, w.b, w.c, w.d + t1, w.e, w.f, w.g⟩

/-- The state after a block. -/
def compress (s : Words) (block : ℕ → UInt8) : Words :=
  s.add ((List.range 64).foldl (fun w t => round w (roundConstants.getD t 0) (schedule block t)) s)

theorem word_congr {b b' : ℕ → UInt8} {a : ℕ} (h : ∀ j < a + 4, b j = b' j) :
    word b a = word b' a := by
  rw [word, word, h a (by omega), h (a + 1) (by omega), h (a + 2) (by omega), h (a + 3) (by omega)]

theorem schedule_lt (block : ℕ → UInt8) {t : ℕ} (h : t < 16) :
    schedule block t = word block (t * 4) := by
  rw [schedule.eq_def, if_pos h]

theorem schedule_ge (block : ℕ → UInt8) {t : ℕ} (h : 16 ≤ t) :
    schedule block t = smallSigma1 (schedule block (t - 2)) + schedule block (t - 7) +
      smallSigma0 (schedule block (t - 15)) + schedule block (t - 16) := by
  rw [schedule.eq_def, if_neg (Nat.not_lt.2 h)]

theorem schedule_congr {b b' : ℕ → UInt8} (h : ∀ j < 64, b j = b' j) (t : ℕ) :
    schedule b t = schedule b' t := by
  induction t using Nat.strong_induction_on with
  | _ t ih =>
    rcases Nat.lt_or_ge t 16 with ht | ht
    · rw [schedule_lt b ht, schedule_lt b' ht]
      exact word_congr fun j hj => h j (by omega)
    · rw [schedule_ge b ht, schedule_ge b' ht, ih (t - 2) (by omega), ih (t - 7) (by omega),
        ih (t - 15) (by omega), ih (t - 16) (by omega)]

theorem reads_compress : Reads compress 64 := by
  intro s b b' h
  rw [compress, compress, funext (schedule_congr h)]

/-! ## Messages -/

/-- How many zeros follow the bit that ends the message. -/
def padZeros (n : ℕ) : ℕ :=
  (119 - n % 64) % 64

/-- A message with its padding : a one, zeros, and the length in bits. -/
def pad (m : List UInt8) : List UInt8 :=
  m ++ 0x80 :: (List.replicate (padZeros m.length) 0 ++
    (List.range 8).map (lengthByte (8 * m.length)))

/-- The bytes of a message, with zeros behind it. -/
def bytesAt (m : List UInt8) : ℕ → UInt8 :=
  fun i => m.getD i 0

/-- The digest of a message. -/
def hash (m : List UInt8) : List UInt8 :=
  (absorb compress 64 initial (bytesAt (pad m)) ((pad m).length / 64)).bytes

/-- A key on a whole block. -/
def blockKey (key : List UInt8) : List UInt8 :=
  let k := if key.length > 64 then hash key else key
  k ++ List.replicate (64 - k.length) 0

/-- HMAC with SHA-256. -/
def hmac (key m : List UInt8) : List UInt8 :=
  let k := blockKey key
  hash (k.map (0x5c ^^^ ·) ++ hash (k.map (0x36 ^^^ ·) ++ m))

end Sha256
