import Seraph.Hashing
import Seraph.ProofTable
import Seraph.SbfFormat

/-!
# Proof blobs

`proof_blob.c` : a table of proofs in one buffer, with a hash index over it. A loaded blob points
into the buffer; its calls log what they read there. The walk along a chain of the index takes fuel :
a lookup that has not ended gives `none`, as does one whose division traps.
-/

namespace Seraph

open ByteMem ReadLog

/-! ## The format -/

namespace BlobHeader

/-- `sizeof(Seraph_Proof_Blob_Header)`. -/
def size : ℕ :=
  72

/-- `magic`. -/
def magic : StructField :=
  ⟨0, 8⟩

/-- `version`. -/
def version : StructField :=
  ⟨8, 4⟩

/-- `flags`. -/
def flags : StructField :=
  ⟨12, 4⟩

/-- `proof_count`. -/
def proofCount : StructField :=
  ⟨16, 4⟩

/-- `bucket_count`. -/
def bucketCount : StructField :=
  ⟨20, 4⟩

/-- `index_offset`. -/
def indexOffset : StructField :=
  ⟨24, 8⟩

/-- `proofs_offset`. -/
def proofsOffset : StructField :=
  ⟨32, 8⟩

/-- `checksum_offset`. -/
def checksumOffset : StructField :=
  ⟨40, 8⟩

/-- `module_hash`. -/
def moduleHash : StructField :=
  ⟨48, 8⟩

/-- `generation`. -/
def generation : StructField :=
  ⟨56, 8⟩

/-- `reserved`. -/
def reserved : StructField :=
  ⟨64, 8⟩

end BlobHeader

namespace BlobEntry

/-- `sizeof(Seraph_Proof_Blob_Index_Entry)`. -/
def size : ℕ :=
  16

/-- `code_hash`. -/
def codeHash : StructField :=
  ⟨0, 8⟩

/-- `proof_index`. -/
def proofIndex : StructField :=
  ⟨8, 4⟩

/-- `next`. -/
def next : StructField :=
  ⟨12, 4⟩

end BlobEntry

namespace BlobRecord

/-- `sizeof(Seraph_Proof_Blob_Record)`. -/
def size : ℕ :=
  40

/-- `kind`. -/
def kind : StructField :=
  ⟨0, 1⟩

/-- `status`. -/
def status : StructField :=
  ⟨1, 1⟩

/-- `flags`. -/
def flags : StructField :=
  ⟨2, 2⟩

/-- `location_offset`. -/
def locationOffset : StructField :=
  ⟨4, 4⟩

/-- `metadata`. -/
def metadata : StructField :=
  ⟨8, 8⟩

/-- `data.bounds.array_size`. -/
def arraySize : StructField :=
  ⟨16, 8⟩

/-- `data.bounds.index_min`. -/
def indexMin : StructField :=
  ⟨24, 8⟩

/-- `data.bounds.index_max`. -/
def indexMax : StructField :=
  ⟨32, 8⟩

/-- `data.effects.required_effects`. -/
def requiredEffects : StructField :=
  ⟨16, 4⟩

/-- `data.effects.allowed_effects`. -/
def allowedEffects : StructField :=
  ⟨20, 4⟩

/-- `data.permissions.required_perms`. -/
def requiredPerms : StructField :=
  ⟨16, 1⟩

/-- `data.permissions.granted_perms`. -/
def grantedPerms : StructField :=
  ⟨17, 1⟩

end BlobRecord

/-- `SERAPH_PROOF_BLOB_MAGIC`. -/
def blobMagic : ℕ :=
  0x464F525048505253

/-- `SERAPH_PROOF_BLOB_VERSION`. -/
def blobVersion : ℕ :=
  0x00010000

/-- `SERAPH_PROOF_BLOB_MIN_BUCKETS`. -/
def blobMinBuckets : ℕ :=
  16

/-- `SERAPH_PROOF_BLOB_EMPTY_BUCKET`. -/
def blobEmptyBucket : ℕ :=
  0xFFFFFFFF

/-- `SERAPH_PROOF_BLOB_CHECKSUM_SIZE`. -/
def blobChecksumSize : ℕ :=
  32

/-- `SERAPH_PROOF_BLOB_FLAG_RELEASE`. -/
def blobFlagRelease : ℕ :=
  0x8

/-- The value of a `Seraph_Proof_Kind`. -/
def ProofKind.code : ProofKind → ℕ
  | .bounds => 0x01
  | .void => 0x02
  | .effect => 0x03
  | .permission => 0x04
  | .generation => 0x05
  | .substrate => 0x06
  | .type => 0x07
  | .init => 0x08
  | .overflow => 0x09
  | .null => 0x0A
  | .invariant => 0x0B
  | .termination => 0x0C
  | .voidKind => 0xFF

/-- The value of a `Seraph_Proof_Status`. -/
def ProofStatus.code : ProofStatus → ℕ
  | .proven => 0x01
  | .assumed => 0x02
  | .runtime => 0x03
  | .failed => 0x04
  | .skipped => 0x05

/-! ## Loading -/

/-- `Seraph_Proof_Blob`. A pointer into the buffer is an address relative to its first byte. -/
structure ProofBlob where
  header : Image
  buckets : ℕ
  entries : ℕ
  proofs : ℕ
  checksum : ℕ
  verified : Bool
  queries : ℕ
  hits : ℕ
  misses : ℕ

namespace ProofBlob

/-- `sha256_init`, `sha256_update` and `sha256_final`, over one text. -/
def sha256 (stack : ℕ → UInt8) (data : List UInt8) : List UInt8 :=
  proofSha256Final (proofSha256Update (proofSha256Init stack) data)

/-- The pointers that `seraph_proof_blob_load` sets. -/
def mapped (data : Image) : ProofBlob where
  header := data
  buckets := data.header BlobHeader.indexOffset
  entries := u64 (data.header BlobHeader.indexOffset + data.header BlobHeader.bucketCount * 4)
  proofs := data.header BlobHeader.proofsOffset
  checksum := data.header BlobHeader.checksumOffset
  verified := false
  queries := 0
  hits := 0
  misses := 0

/-- `seraph_proof_blob_verify`, of a blob that is loaded. -/
def verify (stack : ℕ → UInt8) (blob : ProofBlob) : Logged Vbit := do
  let size ← blob.header.read 0 BlobHeader.checksumOffset
  let data ← blob.header.readBytes 0 ⟨0, size⟩
  let expected ← blob.header.readBytes blob.checksum ⟨0, blobChecksumSize⟩
  return if sha256 stack data = expected then .true else .false

/-- `seraph_proof_blob_load`, with the blob where it is loaded. -/
def load (stack : ℕ → UInt8) (data : Option Image) (verified : Bool) : Option ProofBlob × Vbit :=
  match data with
  | none => (none, .void)
  | some data =>
    if data.size < BlobHeader.size then (none, .false)
    else if data.header BlobHeader.magic ≠ blobMagic then (none, .false)
    else if data.header BlobHeader.version >>> 16 ≠ blobVersion >>> 16 then (none, .false)
    else if data.header BlobHeader.indexOffset ≥ data.size ∨
        data.header BlobHeader.proofsOffset ≥ data.size ∨
        data.header BlobHeader.checksumOffset ≥ data.size then (none, .false)
    else if data.size < u64 (data.header BlobHeader.checksumOffset + blobChecksumSize) then
      (none, .false)
    else if verified then
      if ((mapped data).verify stack).value ≠ .true then (none, .false)
      else (some { mapped data with verified := true }, .true)
    else (some (mapped data), .true)

/-! ## Lookup -/

/-- `&blob->entries[i]`. -/
def entry (blob : ProofBlob) (i : ℕ) : ℕ :=
  blob.entries + i * BlobEntry.size

/-- `&blob->proofs[i]`. -/
def proof (blob : ProofBlob) (i : ℕ) : ℕ :=
  blob.proofs + i * BlobRecord.size

/-- The walk along a chain, from an entry on : the record it finds, if any. -/
def walk (blob : ProofBlob) (hash kind : ℕ) : ℕ → ℕ → Logged (Option (Option ℕ))
  | 0, _ => pure none
  | fuel + 1, i =>
    if i = blobEmptyBucket then pure (some none)
    else do
      let codeHash ← blob.header.read (blob.entry i) BlobEntry.codeHash
      let found ← if codeHash = hash then do
          let index ← blob.header.read (blob.entry i) BlobEntry.proofIndex
          let k ← blob.header.read (blob.proof index) BlobRecord.kind
          pure (if k = kind then some (blob.proof index) else none)
        else pure none
      match found with
      | some record => return some (some record)
      | none => do
        let next ← blob.header.read (blob.entry i) BlobEntry.next
        walk blob hash kind fuel next

/-- The record that a lookup finds, if any. -/
def find (fuel : ℕ) (blob : ProofBlob) (hash kind : ℕ) : Logged (Option (Option ℕ)) := do
  let bucketCount ← blob.header.read 0 BlobHeader.bucketCount
  if bucketCount = 0 then return none
  else do
    let first ← blob.header.read (blob.buckets + u32 (hash % bucketCount) * 4) ⟨0, 4⟩
    blob.walk hash kind fuel first

/-- `seraph_proof_blob_query`. -/
def query (fuel : ℕ) (blob : ProofBlob) (hash kind : ℕ) : Logged (Option (ProofBlob × ℕ)) := do
  let blob := { blob with queries := u64 (blob.queries + 1) }
  let found ← blob.find fuel hash kind
  match found with
  | none => return none
  | some none => return some ({ blob with misses := u64 (blob.misses + 1) }, ProofStatus.skipped.code)
  | some (some record) => do
    let status ← blob.header.read record BlobRecord.status
    return some ({ blob with hits := u64 (blob.hits + 1) }, status)

/-- `seraph_proof_blob_get`. -/
def get (fuel : ℕ) (blob : ProofBlob) (hash kind : ℕ) : Logged (Option (Option ℕ)) :=
  blob.find fuel hash kind

/-- `Seraph_Proof_Blob_Stats`. -/
structure Stats where
  totalProofs : ℕ
  provenCount : ℕ
  runtimeCount : ℕ
  assumedCount : ℕ
  failedCount : ℕ
  queries : ℕ
  hits : ℕ
  misses : ℕ

/-- Count a proof of some status. -/
def Stats.countStatus (stats : Stats) (status : ℕ) : Stats :=
  if status = ProofStatus.proven.code then { stats with provenCount := stats.provenCount + 1 }
  else if status = ProofStatus.runtime.code then { stats with runtimeCount := stats.runtimeCount + 1 }
  else if status = ProofStatus.assumed.code then { stats with assumedCount := stats.assumedCount + 1 }
  else if status = ProofStatus.failed.code then { stats with failedCount := stats.failedCount + 1 }
  else stats

/-- `seraph_proof_blob_stats`. -/
def stats (blob : ProofBlob) : Logged Stats := do
  let proofCount ← blob.header.read 0 BlobHeader.proofCount
  (List.range proofCount).foldlM
    (fun stats i => do
      let status ← blob.header.read (blob.proof i) BlobRecord.status
      return stats.countStatus status)
    ⟨proofCount, 0, 0, 0, 0, blob.queries, blob.hits, blob.misses⟩

end ProofBlob

/-! ## Generation -/

/-- `Seraph_Proof`, as far as a blob holds it. -/
structure BlobProof where
  kind : ProofKind
  status : ProofStatus
  offset : UInt32
  metadata : UInt64
  arraySize : UInt64
  indexMin : UInt64
  indexMax : UInt64
  requiredEffects : UInt32
  allowedEffects : UInt32
  requiredPerms : UInt8
  grantedPerms : UInt8
deriving DecidableEq, Repr

/-- `SERAPH_FNV64_OFFSET`. -/
def fnv64Offset : ℕ :=
  0xcbf29ce484222325

/-- `SERAPH_FNV64_PRIME`. -/
def fnv64Prime : ℕ :=
  0x100000001b3

/-- `seraph_proof_location_hash`. -/
def proofLocationHash (moduleHash functionHash offset exprIndex : ℕ) : ℕ :=
  [moduleHash, functionHash, offset, exprIndex].foldl
    (fun hash x => u64 ((hash ^^^ x) * fnv64Prime)) fnv64Offset

/-- `Seraph_Proof_Blob_Builder`, with the number of requests for memory it has made. `proof_count` is
the length of the list. -/
structure BlobBuilder where
  buffer : Option Memory
  capacity : ℕ
  moduleHash : ℕ
  flags : ℕ
  proofs : List (ℕ × BlobProof)
  tempCapacity : ℕ
  requests : ℕ

namespace BlobBuilder

/-- `malloc` or `realloc` of a size, where `alloc` says which requests get memory. A `realloc` to
nothing gives NULL. -/
def grants (alloc : ℕ → ℕ → Bool) (request size : ℕ) : Bool :=
  size ≠ 0 && alloc request size

/-- `seraph_proof_blob_builder_init`. -/
def init (alloc : ℕ → ℕ → Bool) (buffer : Option Memory) (capacity moduleHash : ℕ) :
    Option BlobBuilder :=
  if grants alloc 0 (256 * BlobRecord.size) && grants alloc 1 (256 * 8) then
    some ⟨buffer, capacity, moduleHash, 0, [], 256, 2⟩
  else none

/-- Make room for one more proof. -/
def grow (alloc : ℕ → ℕ → Bool) (builder : BlobBuilder) : Option BlobBuilder :=
  if builder.proofs.length ≥ builder.tempCapacity then
    let newCapacity := u32 (builder.tempCapacity * 2)
    if grants alloc builder.requests (newCapacity * BlobRecord.size) &&
        grants alloc (builder.requests + 1) (newCapacity * 8) then
      some { builder with tempCapacity := newCapacity, requests := builder.requests + 2 }
    else none
  else some builder

/-- `seraph_proof_blob_builder_add`. -/
def add (alloc : ℕ → ℕ → Bool) (builder : BlobBuilder) (locationHash : ℕ) (proof : BlobProof) :
    Option BlobBuilder :=
  (builder.grow alloc).map fun builder =>
    { builder with proofs := builder.proofs ++ [(locationHash, proof)] }

/-- `calculate_bucket_count`. -/
def calculateBucketCount (proofCount : ℕ) : ℕ :=
  let buckets := u32 (proofCount * 4) / 3
  let buckets := if buckets < blobMinBuckets then blobMinBuckets else buckets
  let buckets := buckets - 1
  let buckets := buckets ||| buckets >>> 1
  let buckets := buckets ||| buckets >>> 2
  let buckets := buckets ||| buckets >>> 4
  let buckets := buckets ||| buckets >>> 8
  let buckets := buckets ||| buckets >>> 16
  u32 (buckets + 1)

/-- The record of a proof, as `seraph_proof_blob_builder_add` packs it. -/
def writeRecord (m : Memory) (a : ℕ) (proof : BlobProof) : Memory :=
  let m := (m.fill a BlobRecord.size 0).assign a
    [(BlobRecord.kind, proof.kind.code), (BlobRecord.status, proof.status.code),
      (BlobRecord.flags, 0), (BlobRecord.locationOffset, proof.offset.toNat),
      (BlobRecord.metadata, proof.metadata.toNat)]
  match proof.kind with
  | .bounds => m.assign a
    [(BlobRecord.arraySize, proof.arraySize.toNat), (BlobRecord.indexMin, proof.indexMin.toNat),
      (BlobRecord.indexMax, proof.indexMax.toNat)]
  | .effect => m.assign a
    [(BlobRecord.requiredEffects, proof.requiredEffects.toNat),
      (BlobRecord.allowedEffects, proof.allowedEffects.toNat)]
  | .permission => m.assign a
    [(BlobRecord.requiredPerms, proof.requiredPerms.toNat),
      (BlobRecord.grantedPerms, proof.grantedPerms.toNat)]
  | _ => m

/-- `buckets[i]`, where the index follows the header. -/
def bucketAddress (i : ℕ) : ℕ :=
  BlobHeader.size + i * 4

/-- Put an entry in front of the chain of its bucket. -/
def addEntry (bucketCount : ℕ) (m : Memory) (entry : ℕ × ℕ) : Memory :=
  let bucket := u32 (entry.1 % bucketCount)
  let a := BlobHeader.size + bucketCount * 4 + entry.2 * BlobEntry.size
  let m := m.set a BlobEntry.codeHash entry.1
  let m := m.set a BlobEntry.proofIndex entry.2
  let m := m.set a BlobEntry.next (m.load (bucketAddress bucket) 4)
  m.store (bucketAddress bucket) 4 entry.2

/-- `seraph_proof_blob_builder_finalize`, with the buffer it leaves. `generation` is
`g_proof_blob_generation`. -/
def finalize (stack : ℕ → UInt8) (generation : ℕ) (builder : BlobBuilder) : ℕ × Option Memory :=
  let proofCount := builder.proofs.length
  let bucketCount := calculateBucketCount proofCount
  let indexSize := bucketCount * 4 + proofCount * BlobEntry.size
  let proofsSize := proofCount * BlobRecord.size
  let totalSize := BlobHeader.size + indexSize + proofsSize + blobChecksumSize
  match builder.buffer with
  | none => (totalSize, none)
  | some m =>
    if totalSize > builder.capacity then (0, some m)
    else
      let indexOffset := BlobHeader.size
      let proofsOffset := indexOffset + indexSize
      let checksumOffset := proofsOffset + proofsSize
      let m := m.assign 0
        [(BlobHeader.magic, blobMagic), (BlobHeader.version, blobVersion),
          (BlobHeader.flags, builder.flags ||| blobFlagRelease),
          (BlobHeader.proofCount, proofCount), (BlobHeader.bucketCount, bucketCount),
          (BlobHeader.indexOffset, indexOffset), (BlobHeader.proofsOffset, proofsOffset),
          (BlobHeader.checksumOffset, checksumOffset),
          (BlobHeader.moduleHash, builder.moduleHash), (BlobHeader.generation, generation),
          (BlobHeader.reserved, 0)]
      let m := (List.range bucketCount).foldl
        (fun m i => m.store (bucketAddress i) 4 blobEmptyBucket) m
      let m := (builder.proofs.map Prod.fst).zipIdx.foldl (addEntry bucketCount) m
      let m := (builder.proofs.map Prod.snd).zipIdx.foldl
        (fun m p => writeRecord m (proofsOffset + p.2 * BlobRecord.size) p.1) m
      let checksum := ProofBlob.sha256 stack (m.bytes 0 checksumOffset)
      (totalSize, some (m.write checksumOffset checksum))

end BlobBuilder

/-- `seraph_proof_blob_generate`, with the buffer it leaves. -/
def proofBlobGenerate (alloc : ℕ → ℕ → Bool) (stack : ℕ → UInt8) (generation : ℕ)
    (buffer : Option Memory) (capacity : ℕ) (table : Option (List BlobProof)) (moduleHash : ℕ) :
    ℕ × Option Memory :=
  match table with
  | none => (0, buffer)
  | some proofs =>
    let builder := proofs.foldl
      (fun builder proof => builder.bind fun builder =>
        builder.add alloc (proofLocationHash moduleHash 0 proof.offset.toNat 0) proof)
      (BlobBuilder.init alloc buffer capacity moduleHash)
    match builder with
    | none => (0, buffer)
    | some builder => builder.finalize stack generation

end Seraph
