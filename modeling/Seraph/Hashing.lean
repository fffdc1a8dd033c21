import Seraph.Loops
import Seraph.Sha256
import Seraph.Words

/-!
# The hash functions

SHA-256 is implemented in three files, with the same constants, the same `sha256_transform` and
contexts of the same kind : for the whole system (`sha256`), for the frames of Aether
(`aetherSha256`) and for proof blobs (`proofSha256Update`, which counts bytes where the others count
bits). The first two also have HMAC. What C leaves on the stack where a buffer is not initialised is
the parameter `stack`. Messages, keys and contexts that are NULL are left out.
-/

namespace Seraph

open BlockStream
open Sha256 (Words bytesAt initial lengthByte roundConstants smallSigma0 smallSigma1 word)

/-- `SHA256_Context`, `Aether_SHA256_Context`, `SHA256_CTX`. -/
structure HashContext where
  state : Words
  count : ℕ
  buffer : ℕ → UInt8

/-! ### One block -/

/-- The array `W` of `sha256_transform`. -/
def messageSchedule (block : ℕ → UInt8) : List UInt32 :=
  (List.range' 16 48).foldl
    (fun w i => w ++ [smallSigma1 (w.getD (i - 2) 0) + w.getD (i - 7) 0 +
      smallSigma0 (w.getD (i - 15) 0) + w.getD (i - 16) 0])
    ((List.range 16).map fun i => word block (i * 4))

/-- `sha256_transform`. -/
def sha256Transform (state : Words) (block : ℕ → UInt8) : Words :=
  let w := messageSchedule block
  state.add ((List.range 64).foldl
    (fun v i => Sha256.round v (roundConstants.getD i 0) (w.getD i 0)) state)

/-! ### `crypto/sha256.c` -/

/-- `sha256_init`. -/
def sha256Init : HashContext :=
  ⟨initial, 0, fun _ => 0⟩

/-- A round of the loop over whole blocks. -/
def sha256Round (s : Words × List UInt8) : Option (Words × List UInt8) :=
  if s.2.length ≥ 64 then some (sha256Transform s.1 (bytesAt s.2), s.2.drop 64) else none

/-- The end of `sha256_update` : whole blocks come from the input, the rest goes to the buffer. -/
def sha256Blocks (ctx : HashContext) (input : List UInt8) : HashContext :=
  let s := Loops.loop sha256Round (input.length + 1) (ctx.state, input)
  { ctx with
    state := s.1
    buffer := if s.2.length > 0 then put ctx.buffer 0 (bytesAt s.2) s.2.length else ctx.buffer }

/-- `sha256_update`. -/
def sha256Update (ctx : HashContext) (data : List UInt8) : HashContext :=
  if data.length = 0 then ctx
  else
    let bufferFill := ctx.count / 8 % 64
    let ctx := { ctx with count := u64 (ctx.count + u64 (data.length * 8)) }
    if bufferFill > 0 then
      let needed := 64 - bufferFill
      if data.length ≥ needed then
        let buffer := put ctx.buffer bufferFill (bytesAt data) needed
        sha256Blocks { ctx with state := sha256Transform ctx.state buffer, buffer := buffer }
          (data.drop needed)
      else { ctx with buffer := put ctx.buffer bufferFill (bytesAt data) data.length }
    else sha256Blocks ctx data

/-- `sha256_final`. -/
def sha256Final (stack : ℕ → UInt8) (ctx : HashContext) : List UInt8 :=
  let bufferFill := ctx.count / 8 % 64
  let finalblock := put stack 0 ctx.buffer bufferFill
  let finalblock := put finalblock bufferFill (fun _ => 0x80) 1
  let bufferFill := bufferFill + 1
  let padLen := if bufferFill > 56 then 128 - bufferFill else 64 - bufferFill
  let finalblock := put finalblock bufferFill (fun _ => 0) (padLen - 8)
  let finalblock := put finalblock (bufferFill + padLen - 8) (lengthByte ctx.count) 8
  let state := sha256Transform ctx.state finalblock
  let state :=
    if bufferFill > 56 then sha256Transform state fun j => finalblock (64 + j) else state
  state.bytes

/-- `sha256`. -/
def sha256 (stack : ℕ → UInt8) (data : List UInt8) : List UInt8 :=
  sha256Final stack (sha256Update sha256Init data)

/-- `hmac_sha256`. -/
def hmacSha256 (stack : ℕ → UInt8) (key data : List UInt8) : List UInt8 :=
  let k := if key.length > 64 then sha256 stack key else key
  let kIpad := put (fun _ => 0x36) 0 (fun i => 0x36 ^^^ bytesAt k i) k.length
  let kOpad := put (fun _ => 0x5c) 0 (fun i => 0x5c ^^^ bytesAt k i) k.length
  let ctx := sha256Update sha256Init ((List.range 64).map kIpad)
  let innerHash := sha256Final stack (sha256Update ctx data)
  let ctx := sha256Update sha256Init ((List.range 64).map kOpad)
  sha256Final stack (sha256Update ctx innerHash)

/-! ### Padding in the buffer of the context -/

/-- `aether_sha256_final`, and `sha256_final` of `proof_blob.c`, from the place behind the message
and its length in bits. -/
def finalInBuffer (state : Words) (buffer : ℕ → UInt8) (idx bits : ℕ) : List UInt8 :=
  let buffer := put buffer idx (fun _ => 0x80) 1
  let idx := idx + 1
  let s :=
    if idx > 56 then
      let buffer := put buffer idx (fun _ => 0) (64 - idx)
      (sha256Transform state buffer, buffer, 0)
    else (state, buffer, idx)
  let buffer := put s.2.1 s.2.2 (fun _ => 0) (56 - s.2.2)
  let buffer := put buffer 56 (lengthByte bits) 8
  (sha256Transform s.1 buffer).bytes

/-! ### `aether_security.c` -/

/-- `aether_sha256_init`. -/
def aetherSha256Init : HashContext :=
  ⟨initial, 0, fun _ => 0⟩

/-- The variables of the loop of `aether_sha256_update`. -/
structure AetherFill where
  state : Words
  buffer : ℕ → UInt8
  bufIdx : ℕ
  bytes : List UInt8

/-- A round of the loop. -/
def aetherFillRound (s : AetherFill) : Option AetherFill :=
  if s.bytes.length > 0 then
    let toCopy := if 64 - s.bufIdx > s.bytes.length then s.bytes.length else 64 - s.bufIdx
    let buffer := put s.buffer s.bufIdx (bytesAt s.bytes) toCopy
    let bufIdx := s.bufIdx + toCopy
    if bufIdx = 64 then
      some ⟨sha256Transform s.state buffer, buffer, 0, s.bytes.drop toCopy⟩
    else some ⟨s.state, buffer, bufIdx, s.bytes.drop toCopy⟩
  else none

/-- `aether_sha256_update`. -/
def aetherSha256Update (ctx : HashContext) (data : List UInt8) : HashContext :=
  if data.length = 0 then ctx
  else
    let s := Loops.loop aetherFillRound (data.length + 1)
      ⟨ctx.state, ctx.buffer, ctx.count / 8 % 64, data⟩
    ⟨s.state, u64 (ctx.count + u64 (data.length * 8)), s.buffer⟩

/-- `aether_sha256_final`. -/
def aetherSha256Final (ctx : HashContext) : List UInt8 :=
  finalInBuffer ctx.state ctx.buffer (ctx.count / 8 % 64) ctx.count

/-- `aether_sha256`. -/
def aetherSha256 (data : List UInt8) : List UInt8 :=
  aetherSha256Final (aetherSha256Update aetherSha256Init data)

/-- `Aether_HMAC_Context`. -/
structure AetherHmacContext where
  shaCtx : HashContext
  keyPad : List UInt8

/-- `aether_hmac_sha256_init`. -/
def aetherHmacSha256Init (key : List UInt8) : AetherHmacContext :=
  let k := if key.length > 64 then aetherSha256 key else key
  let keyBlock := put (fun _ => 0) 0 (bytesAt k) k.length
  ⟨aetherSha256Update aetherSha256Init ((List.range 64).map fun i => keyBlock i ^^^ 0x36),
    (List.range 64).map fun i => keyBlock i ^^^ 0x5c⟩

/-- `aether_hmac_sha256_update`. -/
def aetherHmacSha256Update (ctx : AetherHmacContext) (data : List UInt8) : AetherHmacContext :=
  { ctx with shaCtx := aetherSha256Update ctx.shaCtx data }

/-- `aether_hmac_sha256_final`. -/
def aetherHmacSha256Final (ctx : AetherHmacContext) : List UInt8 :=
  let innerHash := aetherSha256Final ctx.shaCtx
  aetherSha256Final
    (aetherSha256Update (aetherSha256Update aetherSha256Init ctx.keyPad) innerHash)

/-- `aether_hmac_sha256`. -/
def aetherHmacSha256 (key data : List UInt8) : List UInt8 :=
  aetherHmacSha256Final (aetherHmacSha256Update (aetherHmacSha256Init key) data)

/-! ### `proof_blob.c` -/

/-- `sha256_init`. -/
def proofSha256Init (stack : ℕ → UInt8) : HashContext :=
  ⟨initial, 0, stack⟩

/-- A round of the loop over whole blocks, from place `i` of the input. -/
def proofSha256Round (data : List UInt8) (s : Words × ℕ) : Option (Words × ℕ) :=
  if s.2 + 64 ≤ data.length then
    some (sha256Transform s.1 fun j => bytesAt data (s.2 + j), s.2 + 64)
  else none

/-- The end of `sha256_update`, from place `i` of the input. -/
def proofSha256Blocks (ctx : HashContext) (data : List UInt8) (i : ℕ) : HashContext :=
  let s := Loops.loop (proofSha256Round data) (data.length + 1) (ctx.state, i)
  { ctx with
    state := s.1
    buffer :=
      if s.2 < data.length then
        put ctx.buffer 0 (fun j => bytesAt data (s.2 + j)) (data.length - s.2)
      else ctx.buffer }

/-- `sha256_update`. -/
def proofSha256Update (ctx : HashContext) (data : List UInt8) : HashContext :=
  let idx := ctx.count &&& 0x3F
  let ctx := { ctx with count := u64 (ctx.count + data.length) }
  if idx ≠ 0 then
    let left := 64 - idx
    if data.length < left then
      { ctx with buffer := put ctx.buffer idx (bytesAt data) data.length }
    else
      let buffer := put ctx.buffer idx (bytesAt data) left
      proofSha256Blocks { ctx with state := sha256Transform ctx.state buffer, buffer := buffer }
        data left
  else proofSha256Blocks ctx data 0

/-- `sha256_final`. -/
def proofSha256Final (ctx : HashContext) : List UInt8 :=
  finalInBuffer ctx.state ctx.buffer (ctx.count &&& 0x3F) (u64 (ctx.count * 8))

end Seraph
