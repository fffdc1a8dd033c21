import Seraph.MerkleTree
import Seraph.Runs
import Seraph.SbfFormat

/-!
# The SBF loader

`sbf_loader.c` : a file is loaded from a buffer or from disk, its sections are located, and it is
validated. A pointer into the file is an address relative to the first byte of the file, `none` is
NULL. `validate` and what it calls log the regions of the file they read. Where the loader cannot
allocate memory is a parameter, and so is what it finds in the memory it allocates.
-/

namespace Seraph

open ByteMem ReadLog

/-- `SBF_Load_Error`. -/
inductive LoadError where
  | ok
  | alloc
  | io
  | truncated
  | invalidMagic
  | invalidVersion
  | hashMismatch
  | proofRoot
  | proofFailed
  | manifest
  | signature
  | section
  | notLoaded
  | alreadyLoaded
deriving DecidableEq, Repr

/-- `SBF_Validation_Result`. -/
inductive ValidationResult where
  | valid
  | invalidMagic
  | invalidVersion
  | invalidSize
  | hashMismatch
  | proofRootMismatch
  | proofFailed
  | manifestInvalid
  | signatureInvalid
  | capsInvalid
  | effectsInvalid
  | sectionOverlap
  | alignment
  | truncated
deriving DecidableEq, Repr

/-- `SBF_Loader_Config`. -/
structure LoaderConfig where
  verifyContentHash : Bool
  verifyProofRoot : Bool
  verifySignature : Bool
  rejectFailedProofs : Bool
  requireSigned : Bool
  minKernelVersion : ℕ
  maxKernelVersion : ℕ

/-- `default_config`. -/
def defaultLoaderConfig : LoaderConfig where
  verifyContentHash := true
  verifyProofRoot := true
  verifySignature := true
  rejectFailedProofs := true
  requireSigned := false
  minKernelVersion := 0
  maxKernelVersion := 0

/-- `SBF_Loader`. `data` is the file with its size, `none` while `data` is NULL. -/
structure Loader where
  config : LoaderConfig
  loaded : Bool
  lastError : LoadError
  validationResult : ValidationResult
  data : Option Image
  ownsData : Bool
  header : Option ℕ
  manifest : Option ℕ
  code : Option ℕ
  rodata : Option ℕ
  dataSection : Option ℕ
  proofTable : Option ℕ
  proofs : Option ℕ
  capTable : Option ℕ
  caps : Option ℕ
  effectTable : Option ℕ
  effects : Option ℕ
  stringTable : Option ℕ
  strings : Option ℕ
  computedContentHash : List UInt8
  computedProofRoot : List UInt8

namespace Loader

/-- `sbf_loader_create_with_config`. -/
def create (config : LoaderConfig) : Loader where
  config := config
  loaded := false
  lastError := .ok
  validationResult := .valid
  data := none
  ownsData := false
  header := none
  manifest := none
  code := none
  rodata := none
  dataSection := none
  proofTable := none
  proofs := none
  capTable := none
  caps := none
  effectTable := none
  effects := none
  stringTable := none
  strings := none
  computedContentHash := sha256Zero
  computedProofRoot := sha256Zero

/-- What `loader->data` points to. -/
def image (l : Loader) : Image :=
  l.data.getD ⟨fun _ => 0, 0, by decide⟩

/-- `return (loader->last_error = e)`. -/
def fail (l : Loader) (e : LoadError) : Loader × LoadError :=
  ({ l with lastError := e }, e)

/-- `sbf_loader_unload`. -/
def unload (l : Loader) : Loader :=
  { l with
    data := none
    ownsData := false
    loaded := false
    header := none
    manifest := none
    code := none
    rodata := none
    dataSection := none
    proofTable := none
    proofs := none
    capTable := none
    caps := none
    effectTable := none
    effects := none
    stringTable := none
    strings := none
    computedContentHash := sha256Zero
    computedProofRoot := sha256Zero }

end Loader

/-! ## Sections -/

/-- Where the header has the offset and the size of a section. -/
structure SectionFields where
  offset : StructField
  size : StructField
deriving DecidableEq, Repr

namespace SbfSection

/-- The manifest. -/
def manifest : SectionFields := ⟨SbfHeader.manifestOffset, SbfHeader.manifestSize⟩

/-- The code. -/
def code : SectionFields := ⟨SbfHeader.codeOffset, SbfHeader.codeSize⟩

/-- The constants. -/
def rodata : SectionFields := ⟨SbfHeader.rodataOffset, SbfHeader.rodataSize⟩

/-- The initialised data. -/
def data : SectionFields := ⟨SbfHeader.dataOffset, SbfHeader.dataSize⟩

/-- The proof table. -/
def proofs : SectionFields := ⟨SbfHeader.proofsOffset, SbfHeader.proofsSize⟩

/-- The capability table. -/
def caps : SectionFields := ⟨SbfHeader.capsOffset, SbfHeader.capsSize⟩

/-- The effect table. -/
def effects : SectionFields := ⟨SbfHeader.effectsOffset, SbfHeader.effectsSize⟩

/-- The string table. -/
def strings : SectionFields := ⟨SbfHeader.stringsOffset, SbfHeader.stringsSize⟩

/-- The sections `parse_sections` checks, in its order. -/
def all : List SectionFields :=
  [manifest, code, rodata, data, proofs, caps, effects, strings]

end SbfSection

namespace Image

/-- `CHECK_SECTION` : the sum is one of `uint64_t`. -/
def checkSection (b : Image) (s : SectionFields) : Bool :=
  b.header s.offset = 0 || u64 (b.header s.offset + b.header s.size) ≤ b.size

/-- The pointer to a section of at least `least` bytes. -/
def place (b : Image) (s : SectionFields) (least : ℕ) : Option ℕ :=
  if b.header s.offset ≠ 0 ∧ b.header s.size ≥ least then some (b.header s.offset) else none

/-- The magic number of a section, where there is one. -/
def checkMagic (b : Image) (s : SectionFields) (least : ℕ) (field : StructField) (magic : ℕ) :
    Bool :=
  match b.place s least with
  | none => true
  | some a => b.mem.get a field = magic

/-- The pointer to the entries of a table, where it has some. -/
def entries (b : Image) (s : SectionFields) (tableSize : ℕ) (entryCount : StructField) :
    Option ℕ :=
  match b.place s tableSize with
  | none => none
  | some a => if b.mem.get a entryCount > 0 then some (u64 (a + tableSize)) else none

end Image

namespace Loader

/-- `parse_sections` : `none` where it returns false. A pointer to a section that the file does not
have keeps its value. -/
def parseSections (l : Loader) : Option Loader := do
  let b := l.image
  guard (SbfSection.all.all b.checkSection)
  guard (b.checkMagic SbfSection.manifest sbfManifestSize SbfManifest.magic sbfManifestMagic)
  guard (b.checkMagic SbfSection.proofs SbfProofTable.size SbfProofTable.magic sbfProofMagic)
  guard (b.checkMagic SbfSection.caps SbfCapTable.size SbfCapTable.magic sbfCapMagic)
  guard (b.checkMagic SbfSection.effects SbfEffectTable.size SbfEffectTable.magic sbfEffectMagic)
  guard (b.checkMagic SbfSection.strings SbfStringTable.size SbfStringTable.magic sbfStringMagic)
  return { l with
    manifest := b.place SbfSection.manifest sbfManifestSize <|> l.manifest
    code := b.place SbfSection.code 1 <|> l.code
    rodata := b.place SbfSection.rodata 1 <|> l.rodata
    dataSection := b.place SbfSection.data 1 <|> l.dataSection
    proofTable := b.place SbfSection.proofs SbfProofTable.size <|> l.proofTable
    proofs :=
      b.entries SbfSection.proofs SbfProofTable.size SbfProofTable.entryCount <|> l.proofs
    capTable := b.place SbfSection.caps SbfCapTable.size <|> l.capTable
    caps := b.entries SbfSection.caps SbfCapTable.size SbfCapTable.entryCount <|> l.caps
    effectTable := b.place SbfSection.effects SbfEffectTable.size <|> l.effectTable
    effects :=
      b.entries SbfSection.effects SbfEffectTable.size SbfEffectTable.entryCount <|> l.effects
    stringTable := b.place SbfSection.strings SbfStringTable.size <|> l.stringTable
    strings :=
      ((b.place SbfSection.strings SbfStringTable.size).map fun a =>
        u64 (a + SbfStringTable.size)) <|> l.strings }

/-! ## Loading -/

/-- The end of `sbf_loader_load_buffer`, with `loader->data` set. -/
def parseBuffer (l : Loader) (size : ℕ) : Loader × LoadError :=
  let b := l.image
  let l := { l with header := some 0 }
  if b.header SbfHeader.magic ≠ sbfMagic then l.unload.fail .invalidMagic
  else if b.header SbfHeader.version >>> 16 ≠ sbfVersionMajor then l.unload.fail .invalidVersion
  else if b.header SbfHeader.totalSize > size then l.unload.fail .truncated
  else
    match l.parseSections with
    | none => l.unload.fail .section
    | some l => { l with loaded := true }.fail .ok

/-- What `copy` and `malloc` do with the buffer : the loader refers to it, copies it to a block of
memory that `around` surrounds, or finds no memory. -/
inductive Copy where
  | reference
  | copied (around : Memory)
  | outOfMemory

/-- The file the loader refers to, and whether it owns it. -/
def Copy.store (data : Image) : Copy → Option (Image × Bool)
  | .reference => some (data, false)
  | .copied around =>
    some ({ data with cells := fun a => if a < data.size then data.cells a else around a }, true)
  | .outOfMemory => none

/-- `sbf_loader_load_buffer`. -/
def loadBuffer (l : Loader) (data : Option Image) (copy : Copy) : Loader × LoadError :=
  match data with
  | none => l.fail .io
  | some d =>
    if d.size < sbfHeaderSize then l.fail .truncated
    else if l.data.isSome then l.parseBuffer d.size
    else if l.loaded then l.fail .alreadyLoaded
    else
      match copy.store d with
      | none => l.fail .alloc
      | some (b, owns) => { l with data := some b, ownsData := owns }.parseBuffer d.size

/-- `sbf_loader_load_file` : `file` is `none` where a step of the input fails, `alloc` says whether
there is memory for the file. -/
def loadFile (l : Loader) (file : Option Image) (alloc : Bool) : Loader × LoadError :=
  if l.loaded then l.fail .alreadyLoaded
  else
    match file with
    | none => l.fail .io
    | some f =>
      if f.size < sbfHeaderSize then l.fail .truncated
      else if !alloc then { l with data := none }.fail .alloc
      else { l with data := some f, ownsData := true }.loadBuffer (some f) .reference

/-! ## Validation -/

/-- `sbf_validate_header_quick`. -/
def validateHeaderQuick (b : Image) (hdr : Option ℕ) : Logged ValidationResult :=
  match hdr with
  | none => pure .invalidMagic
  | some hdr => do
    if (← b.read hdr SbfHeader.magic) ≠ sbfMagic then
      return .invalidMagic
    if (← b.read hdr SbfHeader.version) >>> 16 ≠ sbfVersionMajor then
      return .invalidVersion
    if (← b.read hdr SbfHeader.headerSize) < sbfHeaderSize then
      return .invalidSize
    return .valid

/-- `sbf_loader_validate_quick`. -/
def validateQuick (l : Loader) : Logged ValidationResult :=
  if !l.loaded then pure .invalidMagic else validateHeaderQuick l.image l.header

/-- A field of the header, where the loader has one. -/
def readHeader (l : Loader) (f : StructField) : Logged ℕ :=
  match l.header with
  | none => pure 0
  | some hdr => l.image.read hdr f

/-- The bytes of a field of the header, where the loader has one. -/
def readHeaderBytes (l : Loader) (f : StructField) : Logged (List UInt8) :=
  match l.header with
  | none => pure []
  | some hdr => l.image.readBytes hdr f

/-- `sbf_loader_verify_content_hash`. -/
def verifyContentHash (stack : ℕ → UInt8) (l : Loader) : Logged (Loader × Bool) :=
  if !l.loaded then pure (l, false)
  else if l.image.size ≤ sbfHeaderSize then pure (l, false)
  else do
    let content ← l.image.readBytes 0 ⟨sbfHeaderSize, l.image.size - sbfHeaderSize⟩
    let l := { l with computedContentHash := sha256 stack content }
    return (l, sha256Equal l.computedContentHash (← l.readHeaderBytes SbfHeader.contentHash))

/-- Where leaf `i` is copied to in the block for the leaves, and how long the block for `i` leaves
is : the product is one of `uint32_t`. -/
def leafOffset (i : ℕ) : ℕ :=
  u32 (i * digestSize)

/-- The leaves of the tree : the hashes of the first `count` proofs are copied to a block of memory,
and `sha256_merkle_root` reads them there by products of `size_t`. -/
def proofHashes (b : Image) (proofs count : ℕ) (block : Memory) : Logged (List (List UInt8)) := do
  let block ← (List.range count).foldlM
    (fun block i => do
      return block.write (leafOffset i)
        (← b.readBytes (proofs + i * SbfProofEntry.size) SbfProofEntry.hash))
    block
  return (List.range count).map fun i => block.bytes (i * digestSize) digestSize

/-- `sbf_loader_verify_proof_root`, with the memory from the block for the leaves on, if there is
one, and with whether there is memory for the work buffer of the tree. -/
def verifyProofRoot (stack : ℕ → UInt8) (l : Loader) (block : Option Memory) (workAlloc : Bool) :
    Logged (Loader × Bool) :=
  if !l.loaded then pure (l, false)
  else
    match l.proofTable with
    | none => do return (l, sha256IsZero (← l.readHeaderBytes SbfHeader.proofRoot))
    | some table => do
      let count ← l.image.read table SbfProofTable.entryCount
      if count = 0 then
        return (l, sha256IsZero (← l.readHeaderBytes SbfHeader.proofRoot))
      match block with
      | none => return (l, false)
      | some block =>
        let leaves ← proofHashes l.image (l.proofs.getD 0) count block
        match sha256MerkleRootAlloc stack workAlloc leaves with
        | none => return ({ l with computedProofRoot := sha256Zero }, false)
        | some root =>
          return ({ l with computedProofRoot := root },
            sha256Equal root (← l.readHeaderBytes SbfHeader.proofRoot))

/-- `sbf_loader_has_failed_proofs`. -/
def hasFailedProofs (l : Loader) : Logged Bool :=
  match l.proofTable with
  | none => pure false
  | some table =>
    if !l.loaded then pure false
    else do return (← l.image.read table SbfProofTable.failedCount) > 0

/-- The kernel version requirements of the manifest at `m` : true where they are not met. -/
def kernelVersionRejected (l : Loader) (m : ℕ) : Logged Bool := do
  if l.config.minKernelVersion > 0 then
    let newest ← l.image.read m SbfManifest.kernelMaxVersion
    if newest > 0 && newest < l.config.minKernelVersion then
      return true
  if l.config.maxKernelVersion > 0 then
    if (← l.image.read m SbfManifest.kernelMinVersion) > l.config.maxKernelVersion then
      return true
  return false

/-- Record why a file is not valid. -/
def reject (l : Loader) (r : ValidationResult) (e : LoadError) : Loader × ValidationResult :=
  ({ l with validationResult := r, lastError := e }, r)

/-- The check of the content hash, if configured. -/
def checkContentHash (stack : ℕ → UInt8) (l : Loader) : Logged (Loader × Bool) :=
  if l.config.verifyContentHash then l.verifyContentHash stack else pure (l, true)

/-- The check of the root of the proofs, if configured. -/
def checkProofRoot (stack : ℕ → UInt8) (l : Loader) (block : Option Memory) (workAlloc : Bool) :
    Logged (Loader × Bool) :=
  if l.config.verifyProofRoot && l.proofTable.isSome then
    l.verifyProofRoot stack block workAlloc
  else pure (l, true)

/-- Whether failed proofs reject the file, as configured. -/
def failedProofsRejected (l : Loader) : Logged Bool :=
  if l.config.rejectFailedProofs then l.hasFailedProofs else pure false

/-- Whether the missing flag of a signature rejects the file, as configured. -/
def unsignedRejected (l : Loader) : Logged Bool :=
  if l.config.requireSigned then do
    return (← l.readHeader SbfHeader.flags) &&& sbfFlagSigned = 0
  else pure false

/-- The check of a signature, which is not written yet but looks at the flags. -/
def checkSignature (l : Loader) : Logged ℕ :=
  if l.config.verifySignature then l.readHeader SbfHeader.flags else pure 0

/-- `sbf_loader_validate` of a file that has a manifest at `m`. -/
def validateManifest (stack : ℕ → UInt8) (l : Loader) (m : ℕ) (block : Option Memory)
    (workAlloc : Bool) :
    Logged (Loader × ValidationResult) := do
  if ← l.kernelVersionRejected m then
    return l.reject .invalidVersion .invalidVersion
  let (l, hashOk) ← l.checkContentHash stack
  if !hashOk then
    return l.reject .hashMismatch .hashMismatch
  let (l, rootOk) ← l.checkProofRoot stack block workAlloc
  if !rootOk then
    return l.reject .proofRootMismatch .proofRoot
  if ← l.failedProofsRejected then
    return l.reject .proofFailed .proofFailed
  if ← l.unsignedRejected then
    return l.reject .signatureInvalid .signature
  let _ ← l.checkSignature
  return ({ l with validationResult := .valid }, .valid)

/-- `sbf_loader_validate`. -/
def validate (stack : ℕ → UInt8) (l : Loader) (block : Option Memory) (workAlloc : Bool) :
    Logged (Loader × ValidationResult) :=
  if !l.loaded then pure ({ l with lastError := .notLoaded }, .invalidMagic)
  else do
    let result ← l.validateQuick
    if result ≠ .valid then
      return ({ l with validationResult := result }, result)
    match l.manifest with
    | none => return l.reject .manifestInvalid .manifest
    | some m => l.validateManifest stack m block workAlloc

/-! ## Access -/

/-- `sbf_loader_get_header`. -/
def getHeader (l : Loader) : Option ℕ :=
  if l.loaded then l.header else none

/-- `sbf_loader_get_manifest`. -/
def getManifest (l : Loader) : Option ℕ :=
  if l.loaded then l.manifest else none

/-- A section with the size the header has for it. -/
def getSection (l : Loader) (pointer : Option ℕ) (size : StructField) : Option ℕ × ℕ :=
  if l.loaded then (pointer, l.image.header size) else (none, 0)

/-- `sbf_loader_get_code`. -/
def getCode (l : Loader) : Option ℕ × ℕ :=
  l.getSection l.code SbfHeader.codeSize

/-- `sbf_loader_get_rodata`. -/
def getRodata (l : Loader) : Option ℕ × ℕ :=
  l.getSection l.rodata SbfHeader.rodataSize

/-- `sbf_loader_get_data`. -/
def getData (l : Loader) : Option ℕ × ℕ :=
  l.getSection l.dataSection SbfHeader.dataSize

/-- `sbf_loader_get_bss_size`. -/
def getBssSize (l : Loader) : ℕ :=
  if l.loaded then l.image.header SbfHeader.bssSize else 0

/-- The number of entries of a table. -/
def getCount (l : Loader) (table : Option ℕ) (entryCount : StructField) : ℕ :=
  match table with
  | none => 0
  | some t => if l.loaded then l.image.mem.get t entryCount else 0

/-- Entry `index` of a table, if the table has so many. -/
def getEntry (l : Loader) (table entries : Option ℕ) (entryCount : StructField)
    (entrySize index : ℕ) : Option ℕ := do
  guard l.loaded
  let entries ← entries
  let t ← table
  guard (index < l.image.mem.get t entryCount)
  return u64 (entries + index * entrySize)

/-- `sbf_loader_get_proof_table`. -/
def getProofTable (l : Loader) : Option ℕ :=
  if l.loaded then l.proofTable else none

/-- `sbf_loader_get_proof`. -/
def getProof (l : Loader) (index : ℕ) : Option ℕ :=
  l.getEntry l.proofTable l.proofs SbfProofTable.entryCount SbfProofEntry.size index

/-- `sbf_loader_get_proof_count`. -/
def getProofCount (l : Loader) : ℕ :=
  l.getCount l.proofTable SbfProofTable.entryCount

/-- `sbf_loader_get_cap_table`. -/
def getCapTable (l : Loader) : Option ℕ :=
  if l.loaded then l.capTable else none

/-- `sbf_loader_get_capability`. -/
def getCapability (l : Loader) (index : ℕ) : Option ℕ :=
  l.getEntry l.capTable l.caps SbfCapTable.entryCount SbfCapTemplate.size index

/-- `sbf_loader_get_cap_count`. -/
def getCapCount (l : Loader) : ℕ :=
  l.getCount l.capTable SbfCapTable.entryCount

/-- The capability a field of the table has the index of. -/
def getCapabilityAt (l : Loader) (field : StructField) : Option ℕ := do
  guard l.loaded
  let t ← l.capTable
  l.getCapability (l.image.mem.get t field)

/-- `sbf_loader_get_code_cap`. -/
def getCodeCap (l : Loader) : Option ℕ :=
  l.getCapabilityAt SbfCapTable.codeCapIdx

/-- `sbf_loader_get_data_cap`. -/
def getDataCap (l : Loader) : Option ℕ :=
  l.getCapabilityAt SbfCapTable.dataCapIdx

/-- `sbf_loader_get_stack_cap`. -/
def getStackCap (l : Loader) : Option ℕ :=
  l.getCapabilityAt SbfCapTable.stackCapIdx

/-- `sbf_loader_get_effect_table`. -/
def getEffectTable (l : Loader) : Option ℕ :=
  if l.loaded then l.effectTable else none

/-- `sbf_loader_get_effect`. -/
def getEffect (l : Loader) (index : ℕ) : Option ℕ :=
  l.getEntry l.effectTable l.effects SbfEffectTable.entryCount SbfEffectEntry.size index

/-- `sbf_loader_get_effect_count`. -/
def getEffectCount (l : Loader) : ℕ :=
  l.getCount l.effectTable SbfEffectTable.entryCount

/-- `sbf_loader_get_string` : the size of the strings is what the table says less its header, in
`size_t`. -/
def getString (l : Loader) (offset : ℕ) : Option ℕ := do
  guard l.loaded
  let strings ← l.strings
  let t ← l.stringTable
  guard (offset < u64 (l.image.mem.get t SbfStringTable.totalSize + 2 ^ 64 - SbfStringTable.size))
  return u64 (strings + offset)

/-! ## Calls -/

/-- A call of the loader. -/
inductive LoaderCall where
  | loadBuffer (data : Option Image) (copy : Copy)
  | loadFile (file : Option Image) (alloc : Bool)
  | unload
  | validate (block : Option Memory) (workAlloc : Bool)

/-- The loader after a call, and the error of a load. -/
def call (stack : ℕ → UInt8) (l : Loader) : LoaderCall → Loader × Option LoadError
  | .loadBuffer data copy => ((l.loadBuffer data copy).1, some (l.loadBuffer data copy).2)
  | .loadFile file alloc => ((l.loadFile file alloc).1, some (l.loadFile file alloc).2)
  | .unload => (l.unload, none)
  | .validate block workAlloc => ((l.validate stack block workAlloc).value.1, none)

end Loader

end Seraph
