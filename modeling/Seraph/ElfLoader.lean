import Seraph.SbfFormat

/-!
# The boot ELF loader

`elf64_loader.c`. The file is an `Image` : what lies in the memory behind it can be read by a bad
offset. Every function logs the regions of the file that it reads, and `loadAt` keeps those of the
memory that it writes; the memory it writes to is not the file's. The pointers that are passed are
not NULL.
-/

namespace Seraph

open ByteMem ReadLog

/-! ## Structs of the file -/

/-! ### Fields of `Elf64_Ehdr`. -/

namespace ElfEhdr

/-- `e_ident[i]`. -/
def ident (i : ℕ) : StructField := ⟨i, 1⟩

/-- `e_type`. -/
def type : StructField := ⟨16, 2⟩

/-- `e_machine`. -/
def machine : StructField := ⟨18, 2⟩

/-- `e_version`. -/
def version : StructField := ⟨20, 4⟩

/-- `e_entry`. -/
def entry : StructField := ⟨24, 8⟩

/-- `e_phoff`. -/
def phoff : StructField := ⟨32, 8⟩

/-- `e_ehsize`. -/
def ehsize : StructField := ⟨52, 2⟩

/-- `e_phentsize`. -/
def phentsize : StructField := ⟨54, 2⟩

/-- `e_phnum`. -/
def phnum : StructField := ⟨56, 2⟩

/-- `sizeof(Elf64_Ehdr)`. -/
def size : ℕ := 64

end ElfEhdr

/-! ### Fields of `Elf64_Phdr`. -/

namespace ElfPhdr

/-- `p_type`. -/
def type : StructField := ⟨0, 4⟩

/-- `p_offset`. -/
def offset : StructField := ⟨8, 8⟩

/-- `p_vaddr`. -/
def vaddr : StructField := ⟨16, 8⟩

/-- `p_filesz`. -/
def filesz : StructField := ⟨32, 8⟩

/-- `p_memsz`. -/
def memsz : StructField := ⟨40, 8⟩

/-- `p_align`. -/
def align : StructField := ⟨48, 8⟩

/-- `sizeof(Elf64_Phdr)`. -/
def size : ℕ := 56

end ElfPhdr

/-- `ELFCLASS64`. -/
def elfClass64 : ℕ := 2

/-- `ELFDATA2LSB`. -/
def elfData2Lsb : ℕ := 1

/-- `ET_EXEC`. -/
def etExec : ℕ := 2

/-- `ET_DYN`. -/
def etDyn : ℕ := 3

/-- `EM_X86_64`. -/
def emX8664 : ℕ := 62

/-- `PT_LOAD`. -/
def ptLoad : ℕ := 1

/-- The values of `EFI_STATUS` that the loader returns. -/
inductive EfiStatus where
  | success
  | loadError
  | notFound
deriving DecidableEq, Repr

/-! ## Validation -/

namespace Elf64

/-- `elf64_is_valid`. -/
def isValid (b : Image) : Logged Bool := do
  if b.size < ElfEhdr.size then
    return false
  if (← b.read 0 (ElfEhdr.ident 0)) ≠ 0x7F then return false
  if (← b.read 0 (ElfEhdr.ident 1)) ≠ 'E'.toNat then return false
  if (← b.read 0 (ElfEhdr.ident 2)) ≠ 'L'.toNat then return false
  if (← b.read 0 (ElfEhdr.ident 3)) ≠ 'F'.toNat then return false
  if (← b.read 0 (ElfEhdr.ident 4)) ≠ elfClass64 then return false
  if (← b.read 0 (ElfEhdr.ident 5)) ≠ elfData2Lsb then return false
  if (← b.read 0 ElfEhdr.machine) ≠ emX8664 then return false
  let type ← b.read 0 ElfEhdr.type
  if type ≠ etExec ∧ type ≠ etDyn then return false
  let phnum ← b.read 0 ElfEhdr.phnum
  let phoff ← b.read 0 ElfEhdr.phoff
  if phnum = 0 ∨ phoff = 0 then return false
  let phentsize ← b.read 0 ElfEhdr.phentsize
  if u64 (phoff + phnum * phentsize) > b.size then return false
  return true

/-- `elf64_get_phdr` : the address of a program header, `none` is NULL. -/
def getPhdr (b : Image) (index : ℕ) : Logged (Option ℕ) := do
  if index ≥ (← b.read 0 ElfEhdr.phnum) then
    return none
  let phoff ← b.read 0 ElfEhdr.phoff
  let phentsize ← b.read 0 ElfEhdr.phentsize
  return some (u64 (phoff + index * phentsize))

/-- `phdr->p_type == PT_LOAD && phdr->p_memsz > 0`. -/
def loadable (b : Image) (phdr : ℕ) : Logged Bool := do
  if (← b.read phdr ElfPhdr.type) ≠ ptLoad then
    return false
  return 0 < (← b.read phdr ElfPhdr.memsz)

/-! ## Size calculation -/

/-- The variables of the loop over the segments. -/
structure Extent where
  virtMin : ℕ
  virtMax : ℕ
  foundLoadable : Bool
deriving DecidableEq, Repr

/-- One round of the loop. -/
def extend (b : Image) (e : Extent) (i : ℕ) : Logged Extent := do
  match ← getPhdr b i with
  | none => return e
  | some phdr =>
    if ← loadable b phdr then
      let vaddr ← b.read phdr ElfPhdr.vaddr
      let memsz ← b.read phdr ElfPhdr.memsz
      return ⟨if vaddr < e.virtMin then vaddr else e.virtMin,
        if u64 (vaddr + memsz) > e.virtMax then u64 (vaddr + memsz) else e.virtMax, true⟩
    else
      return e

/-- `elf64_calculate_size` : `virt_base` and `virt_size`. -/
def calculateSize (b : Image) : Logged (Except EfiStatus (ℕ × ℕ)) := do
  if !(← isValid b) then
    return .error .loadError
  let phnum ← b.read 0 ElfEhdr.phnum
  let e ← (List.range phnum).foldlM (extend b) ⟨2 ^ 64 - 1, 0, false⟩
  if !e.foundLoadable then
    return .error .notFound
  return .ok (e.virtMin, u64 (e.virtMax + 2 ^ 64 - e.virtMin))

/-! ## Loading -/

/-- `Elf64_LoadResult`. `segments` stays NULL. -/
structure LoadResult where
  entryPoint : ℕ
  virtBase : ℕ
  virtTop : ℕ
  physBase : ℕ
  totalSize : ℕ
  segmentCount : ℕ
deriving DecidableEq, Repr

/-- The memory, the regions of it that were written, and the number of segments. -/
structure Loading where
  memory : Memory
  writes : List Region
  segmentCount : ℕ

namespace Loading

/-- `efi_memcpy` of `n` bytes at `src` in the file. -/
def copyFile (s : Loading) (b : Image) (dst src n : ℕ) : Loading :=
  { s with
    memory := s.memory.write dst (b.mem.bytes src n)
    writes := s.writes ++ [⟨dst, n⟩] }

/-- `efi_memset` with zero. -/
def zero (s : Loading) (dst n : ℕ) : Loading :=
  { s with
    memory := s.memory.fill dst n 0
    writes := s.writes ++ [⟨dst, n⟩] }

end Loading

/-- `if (phdr->p_filesz > 0) efi_memcpy(...)`. -/
def copyData (b : Image) (s : Loading) (dst src n : ℕ) : Logged Loading :=
  if 0 < n then ⟨s.copyFile b dst src n, [⟨u64 src, n⟩]⟩ else pure s

/-- What a segment is loaded with, once its header has been read. -/
def place (b : Image) (s : Loading) (destAddr offset filesz memsz : ℕ) : Logged Loading := do
  let s ← copyData b s destAddr offset filesz
  let s := if memsz > filesz then s.zero (u64 (destAddr + filesz)) (memsz - filesz) else s
  return { s with segmentCount := s.segmentCount + 1 }

/-- One round of the loop that copies the segments, with whether it goes on. -/
def loadSegment (b : Image) (virtBase physBase : ℕ) (s : Loading) (i : ℕ) :
    Logged (Loading × EfiStatus) := do
  match ← getPhdr b i with
  | none => return (s, .success)
  | some phdr =>
    if ← loadable b phdr then
      let vaddr ← b.read phdr ElfPhdr.vaddr
      let offset ← b.read phdr ElfPhdr.offset
      let filesz ← b.read phdr ElfPhdr.filesz
      if u64 (offset + filesz) > b.size then
        return (s, .loadError)
      let memsz ← b.read phdr ElfPhdr.memsz
      let destAddr := u64 (physBase + u64 (vaddr + 2 ^ 64 - virtBase))
      return (← place b s destAddr offset filesz memsz, .success)
    else
      return (s, .success)

/-- One round of the loop that counts the loadable segments. -/
def countLoadable (b : Image) (n i : ℕ) : Logged ℕ := do
  match ← getPhdr b i with
  | none => return n
  | some phdr => return if ← loadable b phdr then n + 1 else n

/-- The loop that copies the segments. -/
def loadSegments (b : Image) (virtBase physBase : ℕ) :
    List ℕ → Loading → Logged (Loading × EfiStatus)
  | [], s => return (s, .success)
  | i :: is, s => do
    match ← loadSegment b virtBase physBase s i with
    | (s, .success) => loadSegments b virtBase physBase is s
    | (s, e) => return (s, e)

/-- What `elf64_load_at` returns after the loop. -/
def finish (entry virtBase virtSize physBase : ℕ) :
    Loading × EfiStatus → Loading × Except EfiStatus LoadResult
  | (s, .success) =>
    (s, .ok ⟨entry, virtBase, u64 (virtBase + virtSize), physBase, virtSize, s.segmentCount⟩)
  | (s, e) => (s, .error e)

/-- `elf64_load_at`. -/
def loadAt (b : Image) (physBase : ℕ) (memory : Memory) :
    Logged (Loading × Except EfiStatus LoadResult) := do
  let s : Loading := ⟨memory, [], 0⟩
  if !(← isValid b) then
    return (s, .error .loadError)
  match ← calculateSize b with
  | .error e => return (s, .error e)
  | .ok (virtBase, virtSize) =>
    let entry ← b.read 0 ElfEhdr.entry
    let phnum ← b.read 0 ElfEhdr.phnum
    let _loadCount ← (List.range phnum).foldlM (countLoadable b) 0
    return finish entry virtBase virtSize physBase
      (← loadSegments b virtBase physBase (List.range phnum) s)

end Elf64

end Seraph
