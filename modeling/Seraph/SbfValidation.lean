import Seraph.MerkleBinding
import Seraph.SbfLoaderSafety

/-!
# What SBF validation vouches for

With the default configuration a file is valid if the bytes behind its header have the content hash
of the header, the hashes of its proofs have the root of the header, and its table of proofs counts
no failed one (`validate_validated`). So a section behind the header lies in the bytes of the
content hash. The header itself is in no hash : a valid file stays valid with another entry point
(`not_vouched_provenFile`).
-/

namespace Seraph

open ByteMem ReadLog

/-- `SBF_PROOF_PROVEN`. -/
def sbfProofProven : ℕ := 1

/-- `SBF_PROOF_FAILED`. -/
def sbfProofFailed : ℕ := 4

/-! ## Comparing digests -/

theorem foldl_diff_eq_zero {ps : List (UInt8 × UInt8)} {diff : UInt8} :
    ps.foldl (fun diff p => diff ||| (p.1 ^^^ p.2)) diff = 0 ↔
      diff = 0 ∧ ∀ p ∈ ps, p.1 = p.2 := by
  induction ps generalizing diff with
  | nil => simp
  | cons p ps ih => simp [ih, and_assoc]

/-- Digests of one length that compare equal are equal. -/
theorem eq_of_sha256Equal {a b : List UInt8} (hlen : a.length = b.length)
    (h : sha256Equal a b = true) : a = b := by
  have hall := (foldl_diff_eq_zero.1 (beq_iff_eq.1 h)).2
  refine List.ext_getElem hlen fun i hi hi' => ?_
  exact hall (a[i], b[i]) (List.mem_iff_getElem.2 ⟨i, by simp [hi, hi'], by simp⟩)

theorem digests_merkleNodes {leaves : List (List UInt8)} (h : Digests leaves) (k : ℕ) :
    Digests (merkleNodes k leaves) := by
  cases k with
  | zero => exact h
  | succ k =>
    rw [merkleNodes, Function.iterate_succ_apply']
    exact digests_level

theorem length_sha256MerkleRoot (stack : ℕ → UInt8) {leaves : List (List UInt8)}
    (hne : leaves ≠ []) (h : Digests leaves) :
    (sha256MerkleRoot stack leaves).length = digestSize := by
  have hnodes := digests_merkleNodes h (merkleDepth leaves)
  rw [sha256MerkleRoot_eq stack hne] at hnodes
  exact hnodes _ (List.mem_singleton_self _)

namespace Loader

variable {l : Loader}

/-! ## What a reader of a valid file expects -/

/-- The bytes of a field of the header. -/
def headerBytes (l : Loader) (f : StructField) : List UInt8 :=
  l.image.mem.bytes f.off f.width

/-- The bytes behind the header. -/
def body (l : Loader) : List UInt8 :=
  l.image.mem.bytes sbfHeaderSize (l.image.size - sbfHeaderSize)

/-- The byte at an address is one of those that the content hash of the header is of. -/
def HashCovers (l : Loader) (a : ℕ) : Prop :=
  Sha256.hash l.body = l.headerBytes SbfHeader.contentHash ∧ sbfHeaderSize ≤ a ∧ a < l.image.size

/-- The status of the proof at an address. -/
def proofStatus (l : Loader) (p : ℕ) : ℕ :=
  l.image.mem.get p SbfProofEntry.status

/-- The hash of the proof at an address. -/
def proofHash (l : Loader) (p : ℕ) : List UInt8 :=
  l.image.mem.bytes (p + SbfProofEntry.hash.off) SbfProofEntry.hash.width

/-- The number of proofs with a status. -/
def statusCount (l : Loader) (status : ℕ) : ℕ :=
  (List.range l.getProofCount).countP fun i => (l.getProof i).map l.proofStatus = some status

/-- The counters of the table of proofs are the numbers of proofs with these statuses. -/
def TrueCounters (l : Loader) : Prop :=
  ∀ t, l.getProofTable = some t →
    l.image.mem.get t SbfProofTable.provenCount = l.statusCount sbfProofProven ∧
      l.image.mem.get t SbfProofTable.failedCount = l.statusCount sbfProofFailed

/-- The hash of proof `i` is leaf `i` of the tree whose root the header has. -/
def RootCovers (l : Loader) (i p : ℕ) : Prop :=
  ∃ leaves, leaves[i]? = some (l.proofHash p) ∧ leaves.length = l.getProofCount ∧
    merkleNodes (merkleDepth leaves) leaves = [l.headerBytes SbfHeader.proofRoot]

/-- The file is loaded and is valid with the default configuration. -/
def Accepted (stack : ℕ → UInt8) (b : Image) : Prop :=
  ((create defaultLoaderConfig).loadBuffer (some b) .reference).2 = .ok ∧
    (((create defaultLoaderConfig).loadBuffer (some b) .reference).1.validate stack
      (some fun _ => 0) true).value.2 = .valid

/-- A field of the header is authenticated : no file that differs in it only is accepted, too. -/
def Authenticated (stack : ℕ → UInt8) (b : Image) (f : StructField) : Prop :=
  ∀ b' : Image, b'.size = b.size →
    (∀ a, a < f.off ∨ f.off + f.width ≤ a → b'.cells a = b.cells a) → Accepted stack b' →
      b'.header f = b.header f

/-- The proofs are covered by the root and none has failed, the counters are true, the entry point,
which is a virtual address, is in the bytes of the content hash or is authenticated, and the
sections lie in these bytes. -/
structure Vouched (stack : ℕ → UInt8) (l : Loader) : Prop where
  proofs : ∀ i p, l.getProof i = some p → l.RootCovers i p
  unfailed : ∀ i p, l.getProof i = some p → l.proofStatus p ≠ sbfProofFailed
  counters : l.TrueCounters
  entryPoint : (∀ j < SbfHeader.entryPoint.width, l.HashCovers (SbfHeader.entryPoint.off + j)) ∨
    Authenticated stack l.image SbfHeader.entryPoint
  sections : ∀ s ∈ SbfSection.all, l.image.header s.offset ≠ 0 →
    ∀ j < l.image.header s.size, l.HashCovers (l.image.header s.offset + j)

/-! ## What the loader has checked -/

/-- What `validate` looks at with the default configuration, and what it means for the sections
that begin behind the header and do not wrap around the address space. -/
structure Validated (l : Loader) : Prop where
  content : Sha256.hash l.body = l.headerBytes SbfHeader.contentHash
  root : ∀ i p, l.getProof i = some p → l.RootCovers i p
  noneCounted : ∀ t, l.getProofTable = some t → l.image.mem.get t SbfProofTable.failedCount = 0
  sections : ∀ s ∈ SbfSection.all, sbfHeaderSize ≤ l.image.header s.offset →
    l.image.header s.offset + l.image.header s.size < 2 ^ 64 →
      ∀ j < l.image.header s.size, l.HashCovers (l.image.header s.offset + j)

theorem value_readHeaderBytes {l' : Loader} (hsame : l.SameFile l') (h : l.header = some 0)
    (f : StructField) : (l'.readHeaderBytes f).value = l.headerBytes f := by
  rw [readHeaderBytes, hsame.header, h]
  change l'.image.mem.bytes (0 + f.off) f.width = _
  rw [Nat.zero_add, hsame.image]
  rfl

/-- The content hash, where its check succeeds. -/
theorem content_of_verified (h : l.Located) (stack : ℕ → UInt8)
    (hok : (l.verifyContentHash stack).value.2 = true) :
    Sha256.hash l.body = l.headerBytes SbfHeader.contentHash := by
  unfold verifyContentHash at hok
  split at hok
  · exact absurd hok Bool.false_ne_true
  case isFalse hloaded =>
  split at hok
  · exact absurd hok Bool.false_ne_true
  have hheader := h.header (by simpa using hloaded)
  simp only [Logged.value_bind, Logged.value_pure, Image.value_readBytes] at hok
  have hbytes : ∀ l', l.SameFile l' → (l'.readHeaderBytes SbfHeader.contentHash).value =
      l.headerBytes SbfHeader.contentHash := fun _ hsame => value_readHeaderBytes hsame hheader _
  rw [sha256_eq, hbytes] at hok
  · exact eq_of_sha256Equal (by rw [length_hash]; exact (Memory.length_bytes _ _ _).symm) hok
  · exact ⟨rfl, rfl, rfl, rfl⟩

/-- A list of digests that is written behind others leaves them. -/
theorem bytes_write {m : Memory} {bs : List UInt8} {a k n : ℕ} (h : k + n ≤ a) :
    (m.write a bs).bytes k n = m.bytes k n :=
  Memory.bytes_congr fun i hi => if_neg (by omega)

theorem bytes_write_same {m : Memory} {bs : List UInt8} {a : ℕ} :
    (m.write a bs).bytes a bs.length = bs := by
  refine List.ext_getElem (Memory.length_bytes _ _ _) fun i hi hi' => ?_
  simp [Memory.bytes, Memory.write, hi']

/-- The leaves are the hashes of the proofs, if their size does not wrap. -/
theorem value_proofHashes (b : Image) (proofs : ℕ) {count : ℕ} (hcount : count < 2 ^ 27)
    (block : Memory) :
    (proofHashes b proofs count block).value = (List.range count).map fun i =>
      b.mem.bytes (proofs + i * SbfProofEntry.size + SbfProofEntry.hash.off)
        SbfProofEntry.hash.width := by
  simp only [proofHashes, Logged.value_bind, Logged.value_pure, Logged.value_foldlM,
    Image.value_readBytes]
  refine List.map_congr_left fun i hi => ?_
  have hi' : i < count := List.mem_range.1 hi
  -- the first `n` leaves are in place
  have hplaced : ∀ n ≤ count, i < n → ((List.range n).foldl (fun block j =>
      block.write (leafOffset j) (b.mem.bytes
        (proofs + j * SbfProofEntry.size + SbfProofEntry.hash.off) SbfProofEntry.hash.width))
          block).bytes (i * digestSize) digestSize =
      b.mem.bytes (proofs + i * SbfProofEntry.size + SbfProofEntry.hash.off)
        SbfProofEntry.hash.width := by
    intro n hn hin
    induction n with
    | zero => omega
    | succ n ih =>
      have hoffset : leafOffset n = n * digestSize := by
        unfold leafOffset digestSize u32
        omega
      rw [List.range_succ, List.foldl_append, List.foldl_cons, List.foldl_nil, hoffset]
      rcases Nat.lt_succ_iff_lt_or_eq.1 hin with hlt | rfl
      · rw [bytes_write (by unfold digestSize; omega)]
        exact ih (by omega) hlt
      · have hlen : digestSize = (b.mem.bytes
            (proofs + i * SbfProofEntry.size + SbfProofEntry.hash.off)
              SbfProofEntry.hash.width).length := (Memory.length_bytes _ _ _).symm
        rw [hlen, bytes_write_same]
  exact hplaced count le_rfl hi'

/-- An address that wraps refers to the same bytes. -/
theorem bytes_u64 (b : Image) (a k n : ℕ) : b.mem.bytes (u64 a + k) n = b.mem.bytes (a + k) n := by
  refine Memory.bytes_congr fun i _ => ?_
  simp only [Image.mem]
  congr 1
  unfold u64
  omega

theorem eq_of_merkleRootAlloc {stack : ℕ → UInt8} {leaves : List (List UInt8)}
    (hne : leaves ≠ []) {workAlloc : Bool} {root : List UInt8}
    (h : sha256MerkleRootAlloc stack workAlloc leaves = some root) :
    root = sha256MerkleRoot stack leaves := by
  unfold sha256MerkleRootAlloc at h
  split_ifs at h with h0
  · exact absurd (List.length_eq_zero_iff.1 h0) hne
  · exact (Option.some.inj h).symm

/-- The proofs, where the check of their root succeeds. -/
theorem root_of_verified {l' : Loader} (h : l.Located) (hsame : l.SameFile l')
    (stack : ℕ → UInt8) {block : Option Memory} {workAlloc : Bool}
    (hok : (l'.verifyProofRoot stack block workAlloc).value.2 = true)
    (hfew : l.getProofCount < 2 ^ 27) {i p : ℕ} (hp : l.getProof i = some p) :
    l.RootCovers i p := by
  have hloaded : l.loaded = true := by
    by_contra hne
    simp [getProof, getEntry, hne] at hp
  have hheader := h.header hloaded
  rw [h.getProof_eq] at hp
  obtain ⟨a, ha, hi, rfl⟩ := (tableEntry_eq_some hloaded).1 hp
  replace hi : i < l.image.mem.get a SbfProofTable.entryCount := hi
  obtain ⟨-, -, -, -, htable, hproofs, -⟩ := h.places
  have htable' : l'.proofTable = some a := hsame.proofTable.trans (htable.trans ha)
  have hproofs' : l'.proofs = some (u64 (a + SbfProofTable.size)) :=
    hsame.proofs.trans
      (hproofs.trans (Image.entries_eq_some.2 ⟨a, ha, Nat.zero_lt_of_lt hi, rfl⟩))
  have hcount := (h.getProofCount_eq hloaded).2 a ha
  set count := l.image.mem.get a SbfProofTable.entryCount with hcountEq
  set leaves := (List.range count).map fun i =>
    l.image.mem.bytes (u64 (a + SbfProofTable.size) + i * SbfProofEntry.size +
      SbfProofEntry.hash.off) SbfProofEntry.hash.width with hleaves
  have hlength : leaves.length = count := by simp [hleaves]
  have hdigests : Digests leaves := by
    intro leaf hleaf
    obtain ⟨j, -, rfl⟩ := List.mem_map.1 hleaf
    exact Memory.length_bytes _ _ _
  have hne : leaves ≠ [] := List.ne_nil_of_length_pos (by rw [hlength]; exact Nat.zero_lt_of_lt hi)
  refine ⟨leaves, ?_, hlength.trans hcount.symm, ?_⟩
  · rw [hleaves, List.getElem?_map, List.getElem?_range hi, Option.map_some, proofHash, bytes_u64]
    rfl
  have hvalue := value_proofHashes l.image (u64 (a + SbfProofTable.size)) (hcount ▸ hfew)
  simp only [verifyProofRoot, hsame.loaded, hloaded, htable', hsame.image, hproofs',
    Bool.not_true, Bool.false_eq_true, if_false, Logged.value_bind, Image.value_read,
    ← hcountEq] at hok
  rw [if_neg (Nat.ne_of_gt (Nat.zero_lt_of_lt hi))] at hok
  split at hok
  · exact absurd hok Bool.false_ne_true
  simp only [Logged.value_bind, Option.getD_some, hvalue] at hok
  split at hok
  · exact absurd hok Bool.false_ne_true
  case h_2 root hroot =>
    have hroot' := eq_of_merkleRootAlloc hne hroot
    rw [Logged.value_bind, value_readHeaderBytes hsame hheader] at hok
    have hequal := eq_of_sha256Equal (by
      rw [hroot', length_sha256MerkleRoot stack hne hdigests]
      exact (Memory.length_bytes _ _ _).symm) hok
    rw [sha256MerkleRoot_eq stack hne, ← hroot', hequal]

theorem checkContentHash_default (hconfig : l.config = defaultLoaderConfig) (stack : ℕ → UInt8) :
    l.checkContentHash stack = l.verifyContentHash stack := by
  rw [checkContentHash, hconfig]
  rfl

theorem verifyContentHash_config (stack : ℕ → UInt8) (l : Loader) :
    (l.verifyContentHash stack).value.1.config = l.config := by
  unfold verifyContentHash
  split
  · rfl
  split <;> rfl

theorem verifyProofRoot_config (stack : ℕ → UInt8) (l : Loader) (block : Option Memory)
    (workAlloc : Bool) :
    (l.verifyProofRoot stack block workAlloc).value.1.config = l.config := by
  unfold verifyProofRoot
  split
  · rfl
  split
  · rfl
  simp only [Logged.value_bind]
  split
  · rfl
  split
  · rfl
  simp only [Logged.value_bind]
  split <;> rfl

/-- A section behind the header that passes its check is in the bytes of the content hash. -/
theorem hashCovers_section (h : l.Located)
    (hcontent : Sha256.hash l.body = l.headerBytes SbfHeader.contentHash) {s : SectionFields}
    (hs : s ∈ SbfSection.all) (hstart : sbfHeaderSize ≤ l.image.header s.offset)
    (hwrap : l.image.header s.offset + l.image.header s.size < 2 ^ 64) :
    ∀ j < l.image.header s.size, l.HashCovers (l.image.header s.offset + j) := by
  intro j hj
  have hcheck := h.checked s hs
  have hne : l.image.header s.offset ≠ 0 := by
    unfold sbfHeaderSize at hstart
    omega
  rw [Image.checkSection, u64_of_lt hwrap] at hcheck
  have hend : l.image.header s.offset + l.image.header s.size ≤ l.image.size := by
    simpa [hne] using hcheck
  exact ⟨hcontent, by omega, by omega⟩

/-- What a file that the default configuration takes for valid has passed. -/
theorem validated_of_manifest (h : l.Located) (hloaded : l.loaded = true)
    (hconfig : l.config = defaultLoaderConfig) {stack : ℕ → UInt8} {m : ℕ}
    {block : Option Memory} {workAlloc : Bool}
    (hvalid : (l.validateManifest stack m block workAlloc).value.2 = .valid)
    (hfew : l.getProofCount < 2 ^ 27) : l.Validated := by
  have hreject : ∀ (l' : Loader) r e, r ≠ .valid →
      ¬(pure (l'.reject r e) : Logged (Loader × ValidationResult)).value.2 = .valid :=
    fun _ _ _ hne => hne
  simp only [validateManifest, Logged.value_bind] at hvalid
  split at hvalid
  · exact absurd hvalid (hreject _ _ _ (by decide))
  rw [checkContentHash_default hconfig, Logged.value_bind] at hvalid
  have hsame := verifyContentHash_same stack l
  have hconfig' := (verifyContentHash_config stack l).trans hconfig
  have hcontent := content_of_verified h stack
  obtain ⟨c, hc⟩ : ∃ c, (l.verifyContentHash stack).value = c := ⟨_, rfl⟩
  rw [hc] at hvalid hsame hconfig' hcontent
  split at hvalid
  · exact absurd hvalid (hreject _ _ _ (by decide))
  case isFalse hok =>
  simp only [Logged.value_bind] at hvalid
  have hroot : (checkProofRoot stack c.1 block workAlloc).value.2 = true →
      ∀ i p, l.getProof i = some p → l.RootCovers i p := by
    intro hverified i p hp
    have htable : c.1.proofTable.isSome := by
      rw [hsame.proofTable]
      by_contra hnone
      rw [Option.not_isSome_iff_eq_none] at hnone
      simp [getProof, getEntry, hnone] at hp
    rw [checkProofRoot, hconfig', htable] at hverified
    exact root_of_verified h hsame stack hverified hfew hp
  have hsame' := hsame.trans (checkProofRoot_same stack c.1 block workAlloc)
  have hconfig'' : (checkProofRoot stack c.1 block workAlloc).value.1.config =
      defaultLoaderConfig := by
    unfold checkProofRoot
    split
    · exact (verifyProofRoot_config stack c.1 block workAlloc).trans hconfig'
    · exact hconfig'
  obtain ⟨r, hr⟩ : ∃ r, (checkProofRoot stack c.1 block workAlloc).value = r := ⟨_, rfl⟩
  rw [hr] at hvalid hsame' hconfig'' hroot
  split at hvalid
  · exact absurd hvalid (hreject _ _ _ (by decide))
  case isFalse hok' =>
  simp only [Logged.value_bind] at hvalid
  split at hvalid
  · exact absurd hvalid (hreject _ _ _ (by decide))
  case isFalse hfailed =>
  have hcovered := hcontent (by simpa using hok)
  refine ⟨hcovered, hroot (by simpa using hok'), fun t ht => ?_, fun s hs hstart hwrap =>
    hashCovers_section h hcovered hs hstart hwrap⟩
  have htable : r.1.proofTable = some t := by
    rw [hsame'.proofTable]
    simpa [getProofTable, hloaded] using ht
  rw [failedProofsRejected, hconfig''] at hfailed
  simp only [defaultLoaderConfig, if_true, hasFailedProofs, htable, hsame'.loaded, hloaded,
    Bool.not_true, Bool.false_eq_true, if_false, Logged.value_bind, Logged.value_pure,
    Image.value_read, hsame'.image] at hfailed
  simpa using hfailed

theorem validated_of_valid (h : l.Located) (hconfig : l.config = defaultLoaderConfig)
    {stack : ℕ → UInt8} {block : Option Memory} {workAlloc : Bool}
    (hvalid : (l.validate stack block workAlloc).value.2 = .valid)
    (hfew : l.getProofCount < 2 ^ 27) : l.Validated := by
  unfold validate at hvalid
  split at hvalid
  · exact absurd hvalid (by simp)
  case isFalse hloaded =>
  simp only [Logged.value_bind] at hvalid
  split at hvalid
  case isTrue hresult => exact absurd hvalid hresult
  split at hvalid
  · exact absurd hvalid (by simp [reject])
  · exact validated_of_manifest h (by simpa using hloaded) hconfig hvalid hfew

/-! ### The configuration -/

theorem parseBuffer_config (l : Loader) (size : ℕ) : (l.parseBuffer size).1.config = l.config := by
  unfold parseBuffer
  dsimp only
  split
  · rfl
  split
  · rfl
  split
  · rfl
  split
  · rfl
  case h_2 l' hparse =>
    simp only [parseSections, Option.bind_eq_bind, Option.bind_eq_some_iff,
      Option.guard_eq_some'] at hparse
    obtain ⟨_, -, _, -, _, -, _, -, _, -, _, -, hl'⟩ := hparse
    cases hl'
    rfl

theorem loadBuffer_config (l : Loader) (data : Option Image) (copy : Copy) :
    (l.loadBuffer data copy).1.config = l.config := by
  unfold Loader.loadBuffer
  cases data with
  | none => rfl
  | some d =>
    dsimp only
    split
    · rfl
    split
    · exact parseBuffer_config l _
    split
    · rfl
    split
    · rfl
    · exact parseBuffer_config _ _

/-! ## What validation vouches for -/

/-- What a buffer has passed that is valid with the default configuration. -/
theorem validate_validated (stack : ℕ → UInt8) (data : Option Image) (copy : Copy)
    (block : Option Memory) (workAlloc : Bool)
    (hvalid : (((create defaultLoaderConfig).loadBuffer data copy).1.validate stack block
      workAlloc).value.2 = .valid)
    (hfew : ((create defaultLoaderConfig).loadBuffer data copy).1.getProofCount < 2 ^ 27) :
    ((create defaultLoaderConfig).loadBuffer data copy).1.Validated :=
  validated_of_valid ((located_create defaultLoaderConfig).loadBuffer data copy)
    (loadBuffer_config _ data copy) hvalid hfew

/-! ### Two proven proofs -/

/-- The Merkle root of the hashes of the file below, as a number. -/
def provenRoot : ℕ :=
  0x86fa78a44d84549a69b56b29e3e0becc8e5bc2e201eb236434cee40ab7c52572

/-- The content hash of the file below, as a number. -/
def provenHash : ℕ :=
  0x1954bb4d636ac3b7959e3600dc1bab999a5a5a69663214014467321a9316cc3b

/-- A header with an entry point, a manifest, and a table of two proofs that have been proven. -/
def provenFile (entry : ℕ) : Image where
  cells :=
    (((((Memory.assign (fun _ => 0) 0
              [(SbfHeader.magic, sbfMagic), (SbfHeader.version, sbfVersion),
                (SbfHeader.headerSize, sbfHeaderSize), (SbfHeader.totalSize, 672),
                (SbfHeader.proofRoot, provenRoot), (SbfHeader.contentHash, provenHash),
                (SbfHeader.manifestOffset, 256), (SbfHeader.manifestSize, sbfManifestSize),
                (SbfHeader.proofsOffset, 512), (SbfHeader.proofsSize, 160)]).assign 256
            [(SbfManifest.magic, sbfManifestMagic)]).assign 512
          [(SbfProofTable.magic, sbfProofMagic), (SbfProofTable.entryCount, 2),
            (SbfProofTable.provenCount, 2)]).assign 560
        [(SbfProofEntry.kind, 1), (SbfProofEntry.status, sbfProofProven),
          (SbfProofEntry.hash, 7)]).assign 616
      [(SbfProofEntry.kind, 1), (SbfProofEntry.status, sbfProofProven),
        (SbfProofEntry.hash, 8)]).set 0 SbfHeader.entryPoint entry
  size := 672
  size_lt := by decide

theorem accepted_provenFile : Accepted (fun _ => 0) (provenFile 0) := by
  unfold Accepted
  decide +kernel

/-- The entry point can be exchanged. -/
theorem accepted_otherEntry : Accepted (fun _ => 0) (provenFile 4096) := by
  unfold Accepted
  decide +kernel

/-- The two proofs of the file are covered. -/
theorem validate_validated_provenFile :
    ((create defaultLoaderConfig).loadBuffer (some (provenFile 0)) .reference).1.Validated ∧
      ((create defaultLoaderConfig).loadBuffer (some (provenFile 0)) .reference).1.getProof 1 =
        some 616 :=
  ⟨validate_validated (fun _ => 0) (some (provenFile 0)) .reference (some fun _ => 0) true
    accepted_provenFile.2 (by decide +kernel), by decide +kernel⟩

theorem image_parseBuffer {size : ℕ} (h : (l.parseBuffer size).2 = .ok) :
    (l.parseBuffer size).1.image = l.image := by
  unfold parseBuffer at h ⊢
  dsimp only at h ⊢
  split at h
  · cases h
  split at h
  · cases h
  split at h
  · cases h
  split at h
  · cases h
  case h_2 h₁ h₂ h₃ _ l' hparse =>
    obtain ⟨-, hdata, -⟩ := parseSections_some hparse
    rw [if_neg h₁, if_neg h₂, if_neg h₃]
    change l'.image = l.image
    rw [image, hdata, image]

/-- What is loaded by reference is the buffer. -/
theorem image_loadBuffer {config : LoaderConfig} {b : Image}
    (h : ((create config).loadBuffer (some b) .reference).2 = .ok) :
    ((create config).loadBuffer (some b) .reference).1.image = b := by
  have hsize : ¬b.size < sbfHeaderSize := by
    intro hlt
    simp [Loader.loadBuffer, hlt, fail] at h
  have hload : (create config).loadBuffer (some b) .reference =
      { create config with data := some b, ownsData := false }.parseBuffer b.size := by
    simp [Loader.loadBuffer, hsize, create, Copy.store]
  rw [hload] at h ⊢
  exact image_parseBuffer h

/-- The file is accepted, but nothing keeps its entry point. -/
theorem not_vouched_provenFile : Accepted (fun _ => 0) (provenFile 0) ∧
    ¬((create defaultLoaderConfig).loadBuffer (some (provenFile 0)) .reference).1.Vouched
      fun _ => 0 := by
  refine ⟨accepted_provenFile, fun h => ?_⟩
  rcases h.entryPoint with hcovered | hkept
  · exact absurd (hcovered 0 (by decide)).2.1 (by decide)
  · rw [image_loadBuffer accepted_provenFile.1] at hkept
    have hentry := hkept (provenFile 4096) rfl (fun a ha => ?_) accepted_otherEntry
    · exact absurd hentry (by decide +kernel)
    · have hout : ¬(0 + SbfHeader.entryPoint.off ≤ a ∧
          a < 0 + SbfHeader.entryPoint.off + SbfHeader.entryPoint.width) := by omega
      exact (if_neg hout).trans (if_neg hout).symm

end Loader

end Seraph
