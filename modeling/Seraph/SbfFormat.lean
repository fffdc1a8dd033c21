import Seraph.ReadLog
import Seraph.Words

/-!
# The SBF binary format

The structs of an SBF file, as the compiler packs them, and the `Image` of a file in memory. An
address is relative to the first byte of the file and wraps at 64 bits, as the sum of a pointer and
an offset does; what lies in the memory behind the file is part of the image, since a bad offset
reads it. Fields that no modelled function reads are left out.
-/

namespace Seraph

open ByteMem ReadLog

/-! ## Structs of a file -/

/-- `SBF_MAGIC`. -/
def sbfMagic : ℕ := 0x00464253

/-- `SBF_MANIFEST_MAGIC`. -/
def sbfManifestMagic : ℕ := 0x4E464D53

/-- `SBF_PROOF_MAGIC`. -/
def sbfProofMagic : ℕ := 0x46525053

/-- `SBF_CAP_MAGIC`. -/
def sbfCapMagic : ℕ := 0x50414353

/-- `SBF_EFFECT_MAGIC`. -/
def sbfEffectMagic : ℕ := 0x46464553

/-- `SBF_STRING_MAGIC`. -/
def sbfStringMagic : ℕ := 0x52545353

/-- `SBF_VERSION_MAJOR`. -/
def sbfVersionMajor : ℕ := 1

/-- `SBF_VERSION` : 1.0.0. -/
def sbfVersion : ℕ := 0x10000

/-- `SBF_HEADER_SIZE`. -/
def sbfHeaderSize : ℕ := 256

/-- `SBF_MANIFEST_SIZE`. -/
def sbfManifestSize : ℕ := 256

/-- `SBF_FLAG_SIGNED`. -/
def sbfFlagSigned : ℕ := 2

/-! ### Fields of `SBF_Header`. -/

namespace SbfHeader

/-- `magic`. -/
def magic : StructField := ⟨0, 4⟩

/-- `version`. -/
def version : StructField := ⟨4, 4⟩

/-- `flags`. -/
def flags : StructField := ⟨8, 4⟩

/-- `header_size`. -/
def headerSize : StructField := ⟨12, 4⟩

/-- `total_size`. -/
def totalSize : StructField := ⟨16, 8⟩

/-- `entry_point`. -/
def entryPoint : StructField := ⟨24, 8⟩

/-- `proof_root`. -/
def proofRoot : StructField := ⟨32, 32⟩

/-- `content_hash`. -/
def contentHash : StructField := ⟨64, 32⟩

/-- `manifest_offset`. -/
def manifestOffset : StructField := ⟨96, 8⟩

/-- `manifest_size`. -/
def manifestSize : StructField := ⟨104, 8⟩

/-- `code_offset`. -/
def codeOffset : StructField := ⟨112, 8⟩

/-- `code_size`. -/
def codeSize : StructField := ⟨120, 8⟩

/-- `rodata_offset`. -/
def rodataOffset : StructField := ⟨128, 8⟩

/-- `rodata_size`. -/
def rodataSize : StructField := ⟨136, 8⟩

/-- `data_offset`. -/
def dataOffset : StructField := ⟨144, 8⟩

/-- `data_size`. -/
def dataSize : StructField := ⟨152, 8⟩

/-- `bss_size`. -/
def bssSize : StructField := ⟨160, 8⟩

/-- `proofs_offset`. -/
def proofsOffset : StructField := ⟨168, 8⟩

/-- `proofs_size`. -/
def proofsSize : StructField := ⟨176, 8⟩

/-- `caps_offset`. -/
def capsOffset : StructField := ⟨184, 8⟩

/-- `caps_size`. -/
def capsSize : StructField := ⟨192, 8⟩

/-- `effects_offset`. -/
def effectsOffset : StructField := ⟨200, 8⟩

/-- `effects_size`. -/
def effectsSize : StructField := ⟨208, 8⟩

/-- `strings_offset`. -/
def stringsOffset : StructField := ⟨216, 8⟩

/-- `strings_size`. -/
def stringsSize : StructField := ⟨224, 8⟩

end SbfHeader

/-! ### Fields of `SBF_Manifest`. -/

namespace SbfManifest

/-- `magic`. -/
def magic : StructField := ⟨0, 4⟩

/-- `kernel_min_version`. -/
def kernelMinVersion : StructField := ⟨8, 4⟩

/-- `kernel_max_version`. -/
def kernelMaxVersion : StructField := ⟨12, 4⟩

end SbfManifest

/-! ### Fields of `SBF_Proof_Table` and `SBF_Proof_Entry`. -/

namespace SbfProofTable

/-- `magic`. -/
def magic : StructField := ⟨0, 4⟩

/-- `entry_count`. -/
def entryCount : StructField := ⟨4, 4⟩

/-- `proven_count`. -/
def provenCount : StructField := ⟨8, 4⟩

/-- `failed_count`. -/
def failedCount : StructField := ⟨12, 4⟩

/-- `sizeof(SBF_Proof_Table)`. -/
def size : ℕ := 48

end SbfProofTable

namespace SbfProofEntry

/-- `kind`. -/
def kind : StructField := ⟨0, 4⟩

/-- `status`. -/
def status : StructField := ⟨4, 4⟩

/-- `hash`. -/
def hash : StructField := ⟨24, 32⟩

/-- `sizeof(SBF_Proof_Entry)`. -/
def size : ℕ := 56

end SbfProofEntry

/-! ### Fields of `SBF_Cap_Table` and `SBF_Cap_Template`. -/

namespace SbfCapTable

/-- `magic`. -/
def magic : StructField := ⟨0, 4⟩

/-- `entry_count`. -/
def entryCount : StructField := ⟨4, 4⟩

/-- `code_cap_idx`. -/
def codeCapIdx : StructField := ⟨8, 4⟩

/-- `data_cap_idx`. -/
def dataCapIdx : StructField := ⟨16, 4⟩

/-- `stack_cap_idx`. -/
def stackCapIdx : StructField := ⟨20, 4⟩

/-- `sizeof(SBF_Cap_Table)`. -/
def size : ℕ := 24

end SbfCapTable

namespace SbfCapTemplate

/-- `sizeof(SBF_Cap_Template)`. -/
def size : ℕ := 32

end SbfCapTemplate

/-! ### Fields of `SBF_Effect_Table` and `SBF_Effect_Entry`. -/

namespace SbfEffectTable

/-- `magic`. -/
def magic : StructField := ⟨0, 4⟩

/-- `entry_count`. -/
def entryCount : StructField := ⟨4, 4⟩

/-- `sizeof(SBF_Effect_Table)`. -/
def size : ℕ := 16

end SbfEffectTable

namespace SbfEffectEntry

/-- `sizeof(SBF_Effect_Entry)`. -/
def size : ℕ := 24

end SbfEffectEntry

/-! ### Fields of `SBF_String_Table`. -/

namespace SbfStringTable

/-- `magic`. -/
def magic : StructField := ⟨0, 4⟩

/-- `total_size`. -/
def totalSize : StructField := ⟨4, 4⟩

/-- `sizeof(SBF_String_Table)`. -/
def size : ℕ := 8

end SbfStringTable

/-! ## Files in memory -/

/-- A file of `size` bytes in memory : `cells` is the memory as seen from its first byte. -/
structure Image where
  cells : Memory
  size : ℕ
  /-- `size` is a `size_t`. -/
  size_lt : size < 2 ^ 64

namespace Image

/-- The byte at an address, which wraps at 64 bits. -/
def mem (b : Image) : Memory :=
  fun a => b.cells (u64 a)

/-- The `n` bytes at `a` lie in the file. -/
def Holds (b : Image) (a n : ℕ) : Prop :=
  a + n ≤ b.size

/-- A string at `a` ends in the file : the first NUL from `a` on is one of its bytes. -/
def HoldsString (b : Image) (a : ℕ) : Prop :=
  ∃ k, a ≤ k ∧ k < b.size ∧ b.mem k = 0

instance (b : Image) (a n : ℕ) : Decidable (b.Holds a n) :=
  inferInstanceAs (Decidable (_ ≤ _))

/-- A field of the header, which is at the start of the file. -/
def header (b : Image) (f : StructField) : ℕ :=
  b.mem.get 0 f

/-- Read a field of the struct at `base`. -/
def read (b : Image) (base : ℕ) (f : StructField) : Logged ℕ :=
  ⟨b.mem.get base f, [⟨u64 (base + f.off), f.width⟩]⟩

/-- Read the bytes of a field of the struct at `base`. -/
def readBytes (b : Image) (base : ℕ) (f : StructField) : Logged (List UInt8) :=
  ⟨b.mem.bytes (base + f.off) f.width, [⟨u64 (base + f.off), f.width⟩]⟩

theorem header_lt (b : Image) (f : StructField) : b.header f < 256 ^ f.width :=
  Memory.get_lt b.mem 0 f

@[simp] theorem value_read (b : Image) (base : ℕ) (f : StructField) :
    (b.read base f).value = b.mem.get base f :=
  rfl

@[simp] theorem value_readBytes (b : Image) (base : ℕ) (f : StructField) :
    (b.readBytes base f).value = b.mem.bytes (base + f.off) f.width :=
  rfl

end Image

end Seraph
