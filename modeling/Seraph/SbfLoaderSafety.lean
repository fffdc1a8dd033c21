import Mathlib.Data.Option.Basic
import Seraph.SbfLoader

/-!
# Memory safety of the SBF loader

A loader is `Located` if its pointers are the places of the sections of its file, and every call
keeps this (`located_run`). What such a loader gives out and reads lies in its file exactly when the
file is `Sound` (`Located.safe_iff`) : the check of a section adds offset and size in `uint64_t`,
the entry count of a table is not compared with the size of its section, and neither is the size the
string table has for itself, nor is the last string checked for its NUL. The block that the hashes
of the proofs are copied to is as long as a product of `uint32_t` says.
-/

namespace Seraph

open ByteMem ReadLog

/-! ## Files -/

/-- A table with entries : its section, the size of its header, its entry count and the size of an
entry. -/
structure TableFields where
  place : SectionFields
  size : ℕ
  entryCount : StructField
  entrySize : ℕ
deriving DecidableEq, Repr

namespace SbfTable

/-- The proof table. -/
def proofs : TableFields :=
  ⟨SbfSection.proofs, SbfProofTable.size, SbfProofTable.entryCount, SbfProofEntry.size⟩

/-- The capability table. -/
def caps : TableFields :=
  ⟨SbfSection.caps, SbfCapTable.size, SbfCapTable.entryCount, SbfCapTemplate.size⟩

/-- The effect table. -/
def effects : TableFields :=
  ⟨SbfSection.effects, SbfEffectTable.size, SbfEffectTable.entryCount, SbfEffectEntry.size⟩

/-- The tables with entries. -/
def all : List TableFields :=
  [proofs, caps, effects]

end SbfTable

/-- The sections, and how many bytes of each the loader asks for. -/
def sbfPlaces : List (SectionFields × ℕ) :=
  [(SbfSection.manifest, sbfManifestSize), (SbfSection.code, 1), (SbfSection.rodata, 1),
    (SbfSection.data, 1), (SbfSection.proofs, SbfProofTable.size),
    (SbfSection.caps, SbfCapTable.size), (SbfSection.effects, SbfEffectTable.size),
    (SbfSection.strings, SbfStringTable.size)]

namespace Image

/-- The number of bytes of strings, by what the string table at `a` says. -/
def stringBytes (b : Image) (a : ℕ) : ℕ :=
  u64 (b.mem.get a SbfStringTable.totalSize + 2 ^ 64 - SbfStringTable.size)

/-- What the loader relies on : no section wraps around the address space, the entries of a table
lie in the file, the size of the hashes of all proofs does not wrap, and a NUL of the file follows
the last string byte that a `uint32_t` reaches. -/
structure Sound (b : Image) : Prop where
  sections : ∀ s ∈ sbfPlaces, ∀ a, b.place s.1 s.2 = some a → a + b.header s.1.size < 2 ^ 64
  entries : ∀ t ∈ SbfTable.all, ∀ a, b.place t.place t.size = some a →
    a + t.size + b.mem.get a t.entryCount * t.entrySize ≤ b.size
  leaves : ∀ a, b.place SbfSection.proofs SbfProofTable.size = some a →
    b.mem.get a SbfProofTable.entryCount < 2 ^ 27
  strings : ∀ a, b.place SbfSection.strings SbfStringTable.size = some a → b.stringBytes a ≠ 0 →
    b.HoldsString (a + SbfStringTable.size + (min (b.stringBytes a) (2 ^ 32) - 1))

/-- The pointers of a loader of the file. -/
def pointers (b : Image) : List (Option ℕ) :=
  [b.place SbfSection.manifest sbfManifestSize, b.place SbfSection.code 1,
    b.place SbfSection.rodata 1, b.place SbfSection.data 1,
    b.place SbfSection.proofs SbfProofTable.size,
    b.entries SbfSection.proofs SbfProofTable.size SbfProofTable.entryCount,
    b.place SbfSection.caps SbfCapTable.size,
    b.entries SbfSection.caps SbfCapTable.size SbfCapTable.entryCount,
    b.place SbfSection.effects SbfEffectTable.size,
    b.entries SbfSection.effects SbfEffectTable.size SbfEffectTable.entryCount,
    b.place SbfSection.strings SbfStringTable.size,
    (b.place SbfSection.strings SbfStringTable.size).map fun a => u64 (a + SbfStringTable.size)]

theorem place_eq_some {b : Image} {s : SectionFields} {least a : ℕ} :
    b.place s least = some a ↔
      a = b.header s.offset ∧ a ≠ 0 ∧ least ≤ b.header s.size := by
  unfold place
  split
  case isTrue h =>
    constructor
    · intro ha
      cases ha
      exact ⟨rfl, h.1, h.2⟩
    · rintro ⟨rfl, -, -⟩
      rfl
  case isFalse h =>
    constructor
    · exact fun ha => absurd ha (Option.some_ne_none a).symm
    · rintro ⟨rfl, h0, hle⟩
      exact absurd ⟨h0, hle⟩ h

theorem entries_eq_some {b : Image} {s : SectionFields} {tableSize e : ℕ} {f : StructField} :
    b.entries s tableSize f = some e ↔
      ∃ a, b.place s tableSize = some a ∧ 0 < b.mem.get a f ∧ e = u64 (a + tableSize) := by
  unfold entries
  cases h : b.place s tableSize with
  | none => simp
  | some a => by_cases hpos : 0 < b.mem.get a f <;> simp [hpos, eq_comm]

/-- A section that passed the check and does not wrap lies in the file. -/
theorem holds_of_check {b : Image} {s : SectionFields} {least a : ℕ}
    (hcheck : b.checkSection s = true) (ha : b.place s least = some a)
    (hwrap : a + b.header s.size < 2 ^ 64) : b.Holds a (b.header s.size) := by
  obtain ⟨rfl, h0, -⟩ := place_eq_some.1 ha
  unfold checkSection at hcheck
  rw [u64_of_lt hwrap] at hcheck
  simpa [h0, Holds] using hcheck

theorem Holds.mono {b : Image} {a n a' n' : ℕ} (h : b.Holds a n) (hle : a' + n' ≤ a + n) :
    b.Holds a' n' :=
  le_trans hle h

/-- Where the entries of a table start in the file, all of them lie in it if the last one ends in
it. -/
theorem entries_held_iff {b : Image} {start count entrySize : ℕ} (hpos : 0 < entrySize)
    (hstart : start ≤ b.size) :
    (∀ i < count, b.Holds (u64 (start + i * entrySize)) entrySize) ↔
      start + count * entrySize ≤ b.size := by
  have hsize := b.size_lt
  constructor
  · intro h
    by_contra hout
    -- the first entry that does not end in the file starts in it, so its address does not wrap
    obtain ⟨i, hi, hin, hend⟩ : ∃ i, i < count ∧ start + i * entrySize ≤ b.size ∧
        b.size < start + i * entrySize + entrySize := by
      refine ⟨(b.size - start) / entrySize, ?_, ?_, ?_⟩
      · exact (Nat.div_lt_iff_lt_mul hpos).2 (by omega)
      · have := Nat.div_mul_le_self (b.size - start) entrySize
        omega
      · have := Nat.lt_div_mul_add hpos (a := b.size - start)
        omega
    have hheld := h i hi
    rw [u64_of_lt (by omega)] at hheld
    exact absurd hheld (by unfold Holds; omega)
  · intro h i hi
    have hle : i * entrySize + entrySize ≤ count * entrySize := by
      calc i * entrySize + entrySize = (i + 1) * entrySize := (Nat.succ_mul i entrySize).symm
        _ ≤ count * entrySize := Nat.mul_le_mul_right _ hi
    rw [u64_of_lt (by omega)]
    exact le_trans (by omega) h

/-- Every string that starts within `n` bytes from `start` ends in the file if the last one does. -/
theorem strings_held_iff {b : Image} {start n : ℕ} (hstart : start ≤ b.size) :
    (∀ o < n, b.HoldsString (u64 (start + o))) ↔ (n ≠ 0 → b.HoldsString (start + (n - 1))) := by
  have hsize := b.size_lt
  constructor
  · intro h hn
    have hin : start + (n - 1) < b.size := by
      by_contra hout
      -- a string that starts right behind the file
      obtain ⟨k, hk, hlt, -⟩ := h (b.size - start) (by omega)
      rw [u64_of_lt (by omega)] at hk
      omega
    have hlast := h (n - 1) (by omega)
    rwa [u64_of_lt (by omega)] at hlast
  · intro h o ho
    obtain ⟨k, hk, hlt, hnul⟩ := h (by omega)
    rw [u64_of_lt (by omega)]
    exact ⟨k, by omega, hlt, hnul⟩

end Image

/-! ## Located loaders -/

namespace Loader

/-- The pointers into the file. -/
def pointers (l : Loader) : List (Option ℕ) :=
  [l.manifest, l.code, l.rodata, l.dataSection, l.proofTable, l.proofs, l.capTable, l.caps,
    l.effectTable, l.effects, l.stringTable, l.strings]

/-- The pointers are the places of the sections of the file, which pass their checks. -/
structure Located (l : Loader) : Prop where
  loaded : l.loaded = l.data.isSome
  header : l.loaded = true → l.header = some 0
  size : l.loaded = true → sbfHeaderSize ≤ l.image.size
  checked : ∀ s ∈ SbfSection.all, l.image.checkSection s = true
  pointers : l.pointers = l.image.pointers

/-- A loader without a file. -/
theorem located_of_none {l : Loader} (hloaded : l.loaded = false) (hdata : l.data = none)
    (hpointers : l.pointers = List.replicate 12 none) : l.Located := by
  have himage : l.image = ⟨fun _ => 0, 0, by decide⟩ := by rw [image, hdata, Option.getD_none]
  refine ⟨by rw [hloaded, hdata, Option.isSome_none], fun h => ?_, fun h => ?_, ?_, ?_⟩
  · exact absurd (h.symm.trans hloaded) (by decide)
  · exact absurd (h.symm.trans hloaded) (by decide)
  · rw [himage]
    decide
  · rw [hpointers, himage]
    decide

theorem located_create (config : LoaderConfig) : (create config).Located :=
  located_of_none rfl rfl rfl

theorem located_unload (l : Loader) : l.unload.Located :=
  located_of_none rfl rfl rfl

/-- What a loader has located depends on these fields only. -/
theorem Located.congr {l l' : Loader} (h : l.Located) (hloaded : l'.loaded = l.loaded)
    (hdata : l'.data = l.data) (hheader : l'.header = l.header)
    (hpointers : l'.pointers = l.pointers) : l'.Located := by
  have himage : l'.image = l.image := by rw [image, image, hdata]
  refine ⟨by rw [hloaded, hdata, h.loaded], ?_, ?_, ?_, ?_⟩
  · rw [hloaded, hheader]
    exact h.header
  · rw [hloaded, himage]
    exact h.size
  · rw [himage]
    exact h.checked
  · rw [hpointers, himage]
    exact h.pointers

theorem Located.fail {l : Loader} (h : l.Located) (e : LoadError) : (l.fail e).1.Located :=
  h.congr rfl rfl rfl rfl

/-- What `parse_sections` has found where it returns true. -/
theorem parseSections_some {l l' : Loader} (h : l.parseSections = some l') :
    l'.loaded = l.loaded ∧ l'.data = l.data ∧ l'.header = l.header ∧
      (∀ s ∈ SbfSection.all, l.image.checkSection s = true) ∧
      l'.pointers = List.zipWith (fun p q => p <|> q) l.image.pointers l.pointers := by
  simp only [parseSections, Option.bind_eq_bind, Option.bind_eq_some_iff,
    Option.guard_eq_some'] at h
  obtain ⟨_, hall, _, -, _, -, _, -, _, -, _, -, h⟩ := h
  cases h
  refine ⟨rfl, rfl, rfl, List.all_eq_true.1 hall, ?_⟩
  simp only [pointers, Image.pointers, List.zipWith_cons_cons, List.zipWith_nil_left]

theorem parseBuffer_located {l : Loader} (hdata : l.data.isSome)
    (hsize : sbfHeaderSize ≤ l.image.size)
    (hpointers : l.pointers = List.replicate 12 none ∨ l.pointers = l.image.pointers) (size : ℕ) :
    (l.parseBuffer size).1.Located := by
  unfold parseBuffer
  dsimp only
  split
  · exact (located_unload _).fail _
  split
  · exact (located_unload _).fail _
  split
  · exact (located_unload _).fail _
  split
  · exact (located_unload _).fail _
  case h_2 l' hparse =>
    obtain ⟨-, hd, hh, hall, hp⟩ := parseSections_some hparse
    have himage : l'.image = l.image := by
      rw [image, image, hd]
    have hplaces : l'.pointers = l'.image.pointers := by
      rw [hp, himage]
      rcases hpointers with h | h
      · change List.zipWith _ l.image.pointers l.pointers = l.image.pointers
        rw [h]
        simp [Image.pointers]
      · change List.zipWith _ l.image.pointers l.pointers = l.image.pointers
        rw [h]
        simp [Image.pointers]
    refine Located.fail (l := { l' with loaded := true }) ⟨?_, fun _ => hh, fun _ => ?_, ?_, ?_⟩ _
    · exact (hd ▸ hdata).symm
    · change sbfHeaderSize ≤ l'.image.size
      rw [himage]
      exact hsize
    · intro s hs
      change l'.image.checkSection s = true
      rw [himage]
      exact hall s hs
    · exact hplaces

theorem Located.pointers_none {l : Loader} (h : l.Located) (hdata : l.data = none) :
    l.pointers = List.replicate 12 none := by
  rw [h.pointers, image, hdata, Option.getD_none]
  decide

/-- A file put into a loader that has none. -/
theorem Located.parse_new {l : Loader} (h : l.Located) (hdata : l.data = none) {b : Image}
    (hsize : sbfHeaderSize ≤ b.size) (owns : Bool) (size : ℕ) :
    ({ l with data := some b, ownsData := owns }.parseBuffer size).1.Located := by
  refine parseBuffer_located (l := { l with data := some b, ownsData := owns }) rfl hsize ?_ size
  exact Or.inl (h.pointers_none hdata)

/-- A loader that has a file parses it once more. -/
theorem Located.parse_again {l : Loader} (h : l.Located) (hdata : l.data.isSome) (size : ℕ) :
    (l.parseBuffer size).1.Located :=
  parseBuffer_located hdata (h.size (h.loaded.trans hdata)) (Or.inr h.pointers) size

theorem Copy.size_store {copy : Copy} {d b : Image} {owns : Bool}
    (h : copy.store d = some (b, owns)) : b.size = d.size := by
  cases copy with
  | reference =>
    cases h
    rfl
  | copied around =>
    cases h
    rfl
  | outOfMemory => cases h

theorem Located.loadBuffer {l : Loader} (h : l.Located) (data : Option Image) (copy : Copy) :
    (l.loadBuffer data copy).1.Located := by
  unfold Loader.loadBuffer
  cases data with
  | none => exact h.fail _
  | some d =>
    dsimp only
    split
    · exact h.fail _
    split
    case isTrue hdata => exact h.parse_again hdata _
    case isFalse hsize hdata =>
      have hnone : l.data = none := by simpa using hdata
      split
      · exact h.fail _
      split
      · exact h.fail _
      case h_2 b owns hstore =>
        have hb : sbfHeaderSize ≤ b.size := (Copy.size_store hstore).symm ▸ Nat.le_of_not_lt hsize
        exact h.parse_new hnone hb owns _

theorem Located.loadFile {l : Loader} (h : l.Located) (file : Option Image) (alloc : Bool) :
    (l.loadFile file alloc).1.Located := by
  unfold Loader.loadFile
  split
  · exact h.fail _
  case isFalse hloaded =>
    have hnone : l.data = none := by simpa [h.loaded] using hloaded
    cases file with
    | none => exact h.fail _
    | some f =>
      dsimp only
      split
      · exact h.fail _
      split
      · have hcleared : Located { l with data := none } := h.congr rfl hnone.symm rfl rfl
        exact hcleared.fail _
      case isFalse hsize _ =>
        have hbuffer : { l with data := some f, ownsData := true }.loadBuffer (some f) .reference =
            { l with data := some f, ownsData := true }.parseBuffer f.size := by
          simp [Loader.loadBuffer, hsize]
        rw [hbuffer]
        exact h.parse_new hnone (Nat.le_of_not_lt hsize) true _

/-! ## Reads of the validation -/

/-- Every read lies in the file of the loader. -/
def Reads {α : Type} (l : Loader) (m : Logged α) : Prop :=
  m.All fun r => l.image.Holds r.start r.len

theorem reads_pure {α : Type} (l : Loader) (a : α) : l.Reads (pure a) :=
  Logged.all_pure a

theorem Reads.bind {α β : Type} {l : Loader} {m : Logged α} {f : α → Logged β} (hm : l.Reads m)
    (hf : l.Reads (f m.value)) : l.Reads (m >>= f) :=
  Logged.all_bind.2 ⟨hm, hf⟩

theorem reads_ite {α : Type} {l : Loader} {c : Prop} [Decidable c] {m n : Logged α}
    (hm : c → l.Reads m) (hn : ¬c → l.Reads n) : l.Reads (if c then m else n) :=
  Logged.all_ite hm hn

/-- A read of bytes that lie in the file, at an address that does not wrap. -/
theorem reads_region {l : Loader} {a n : ℕ} (h : l.image.Holds a n) :
    ∀ r ∈ [Region.mk (u64 a) n], l.image.Holds r.start r.len := by
  intro r hr
  rw [List.mem_singleton.1 hr]
  exact le_trans (Nat.add_le_add_right (Nat.mod_le _ _) _) h

theorem reads_read {l : Loader} {base : ℕ} {f : StructField}
    (h : l.image.Holds (base + f.off) f.width) : l.Reads (l.image.read base f) :=
  reads_region h

theorem reads_readBytes {l : Loader} {base : ℕ} {f : StructField}
    (h : l.image.Holds (base + f.off) f.width) : l.Reads (l.image.readBytes base f) :=
  reads_region h

/-- A field of a struct that lies in the file. -/
theorem reads_field {l : Loader} {base n : ℕ} {f : StructField} (h : l.image.Holds base n)
    (hf : f.Inside n) : l.Reads (l.image.read base f) :=
  reads_read (h.mono (by unfold StructField.Inside at hf; omega))

/-- Two loaders of the same file. -/
structure SameFile (l l' : Loader) : Prop where
  loaded : l'.loaded = l.loaded
  data : l'.data = l.data
  header : l'.header = l.header
  pointers : l'.pointers = l.pointers

theorem SameFile.refl (l : Loader) : l.SameFile l :=
  ⟨rfl, rfl, rfl, rfl⟩

theorem SameFile.trans {k l m : Loader} (h : k.SameFile l) (h' : l.SameFile m) : k.SameFile m :=
  ⟨h'.loaded.trans h.loaded, h'.data.trans h.data, h'.header.trans h.header,
    h'.pointers.trans h.pointers⟩

theorem SameFile.image {l l' : Loader} (h : l.SameFile l') : l'.image = l.image := by
  rw [Loader.image, Loader.image, h.data]

theorem SameFile.proofTable {l l' : Loader} (h : l.SameFile l') : l'.proofTable = l.proofTable := by
  have hpointers := h.pointers
  simp only [Loader.pointers, List.cons.injEq] at hpointers
  exact hpointers.2.2.2.2.1

theorem SameFile.proofs {l l' : Loader} (h : l.SameFile l') : l'.proofs = l.proofs := by
  have hpointers := h.pointers
  simp only [Loader.pointers, List.cons.injEq] at hpointers
  exact hpointers.2.2.2.2.2.1

theorem Located.same {l l' : Loader} (h : l.Located) (hsame : l.SameFile l') : l'.Located :=
  h.congr hsame.loaded hsame.data hsame.header hsame.pointers

theorem Located.reads {α : Type} {l l' : Loader} (hsame : l.SameFile l') {m : Logged α}
    (h : l'.Reads m) : l.Reads m := by
  unfold Reads at *
  rwa [hsame.image] at h

/-- The pointers of a located loader, one by one. -/
theorem Located.places {l : Loader} (h : l.Located) :
    l.manifest = l.image.place SbfSection.manifest sbfManifestSize ∧
      l.code = l.image.place SbfSection.code 1 ∧
      l.rodata = l.image.place SbfSection.rodata 1 ∧
      l.dataSection = l.image.place SbfSection.data 1 ∧
      l.proofTable = l.image.place SbfSection.proofs SbfProofTable.size ∧
      l.proofs =
        l.image.entries SbfSection.proofs SbfProofTable.size SbfProofTable.entryCount ∧
      l.capTable = l.image.place SbfSection.caps SbfCapTable.size ∧
      l.caps = l.image.entries SbfSection.caps SbfCapTable.size SbfCapTable.entryCount ∧
      l.effectTable = l.image.place SbfSection.effects SbfEffectTable.size ∧
      l.effects =
        l.image.entries SbfSection.effects SbfEffectTable.size SbfEffectTable.entryCount ∧
      l.stringTable = l.image.place SbfSection.strings SbfStringTable.size ∧
      l.strings = (l.image.place SbfSection.strings SbfStringTable.size).map fun a =>
        u64 (a + SbfStringTable.size) := by
  have hpointers := h.pointers
  simp only [Loader.pointers, Image.pointers, List.cons.injEq, and_true] at hpointers
  exact hpointers

/-- Every section the loader refers to is checked. -/
theorem mem_all_of_places {s : SectionFields × ℕ} (hs : s ∈ sbfPlaces) : s.1 ∈ SbfSection.all := by
  revert s
  decide

/-- In a sound file, a section the loader refers to lies in the file. -/
theorem Located.holds_place {l : Loader} (h : l.Located) (hsound : l.image.Sound)
    {s : SectionFields × ℕ} (hs : s ∈ sbfPlaces) {a : ℕ} (ha : l.image.place s.1 s.2 = some a) :
    l.image.Holds a (l.image.header s.1.size) :=
  Image.holds_of_check (h.checked s.1 (mem_all_of_places hs)) ha (hsound.sections s hs a ha)

/-- So does the struct at its start. -/
theorem Located.holds_struct {l : Loader} (h : l.Located) (hsound : l.image.Sound)
    {s : SectionFields × ℕ} (hs : s ∈ sbfPlaces) {a : ℕ} (ha : l.image.place s.1 s.2 = some a) :
    l.image.Holds a s.2 :=
  (h.holds_place hsound hs ha).mono (Nat.add_le_add_left (Image.place_eq_some.1 ha).2.2 a)

/-- A field of the header. -/
theorem Located.reads_header {l : Loader} (h : l.Located) (hloaded : l.loaded = true)
    {f : StructField} (hf : f.Inside sbfHeaderSize) : l.Reads (l.image.read 0 f) := by
  refine reads_field (n := sbfHeaderSize) ?_ hf
  unfold Image.Holds
  rw [Nat.zero_add]
  exact h.size hloaded

theorem Located.reads_headerBytes {l : Loader} (h : l.Located) {f : StructField}
    (hloaded : l.loaded = true) (hf : f.Inside sbfHeaderSize) :
    l.Reads (l.readHeaderBytes f) := by
  rw [readHeaderBytes, h.header hloaded]
  refine reads_readBytes ?_
  have := h.size hloaded
  unfold StructField.Inside at hf
  unfold Image.Holds
  omega

theorem Located.reads_readHeader {l : Loader} (h : l.Located) {f : StructField}
    (hloaded : l.loaded = true) (hf : f.Inside sbfHeaderSize) : l.Reads (l.readHeader f) := by
  rw [readHeader, h.header hloaded]
  exact h.reads_header hloaded hf

theorem Located.reads_validateQuick {l : Loader} (h : l.Located) : l.Reads l.validateQuick := by
  unfold validateQuick
  refine reads_ite (fun _ => reads_pure l _) fun hloaded => ?_
  have hloaded : l.loaded = true := by simpa using hloaded
  rw [h.header hloaded]
  refine (h.reads_header hloaded (by decide)).bind (reads_ite (fun _ => reads_pure l _) fun _ => ?_)
  refine (h.reads_header hloaded (by decide)).bind (reads_ite (fun _ => reads_pure l _) fun _ => ?_)
  exact (h.reads_header hloaded (by decide)).bind
    (reads_ite (fun _ => reads_pure l _) fun _ => reads_pure l _)

theorem verifyContentHash_same (stack : ℕ → UInt8) (l : Loader) :
    l.SameFile (l.verifyContentHash stack).value.1 := by
  unfold verifyContentHash
  split
  · exact SameFile.refl l
  split
  · exact SameFile.refl l
  · exact ⟨rfl, rfl, rfl, rfl⟩

theorem Located.reads_verifyContentHash {l : Loader} (h : l.Located) (stack : ℕ → UInt8) :
    l.Reads (l.verifyContentHash stack) := by
  unfold verifyContentHash
  refine reads_ite (fun _ => reads_pure l _) fun hloaded => ?_
  refine reads_ite (fun _ => reads_pure l _) fun hsize => ?_
  have hloaded : l.loaded = true := by simpa using hloaded
  have hcontent : l.image.Holds (0 + sbfHeaderSize) (l.image.size - sbfHeaderSize) := by
    unfold Image.Holds
    omega
  refine Reads.bind (reads_readBytes hcontent) ?_
  exact (h.reads_headerBytes hloaded (by decide)).bind (reads_pure l _)

theorem verifyProofRoot_same (stack : ℕ → UInt8) (l : Loader) (block : Option Memory)
    (workAlloc : Bool) :
    l.SameFile (l.verifyProofRoot stack block workAlloc).value.1 := by
  unfold verifyProofRoot
  split
  · exact SameFile.refl l
  split
  · exact SameFile.refl l
  · simp only [Logged.value_bind]
    split
    · exact SameFile.refl l
    split
    · exact SameFile.refl l
    simp only [Logged.value_bind]
    split
    · exact ⟨rfl, rfl, rfl, rfl⟩
    · exact ⟨rfl, rfl, rfl, rfl⟩

theorem entrySize_pos {t : TableFields} (ht : t ∈ SbfTable.all) : 0 < t.entrySize := by
  revert t
  decide

/-- The hashes of the proofs, each read in its entry. -/
theorem reads_proofHashes {l : Loader} (hsound : l.image.Sound) {a : ℕ}
    (ha : l.image.place SbfSection.proofs SbfProofTable.size = some a) {count : ℕ}
    (hcount : count = l.image.mem.get a SbfProofTable.entryCount) (block : Memory) :
    l.Reads (proofHashes l.image (u64 (a + SbfProofTable.size)) count block) := by
  have hend : a + SbfProofTable.size + l.image.mem.get a SbfProofTable.entryCount *
      SbfProofEntry.size ≤ l.image.size := hsound.entries SbfTable.proofs (by decide) a ha
  have hsize := l.image.size_lt
  refine Reads.bind (Logged.all_foldlM _ (fun leaves i hi => ?_) _) (reads_pure l _)
  refine Reads.bind (reads_readBytes ?_) (reads_pure l _)
  rw [List.mem_range, hcount] at hi
  have hle : (i + 1) * SbfProofEntry.size ≤
      l.image.mem.get a SbfProofTable.entryCount * SbfProofEntry.size :=
    Nat.mul_le_mul_right _ hi
  rw [Nat.succ_mul] at hle
  rw [u64_of_lt (by omega)]
  have hhash : SbfProofEntry.hash.Inside SbfProofEntry.size := by decide
  unfold StructField.Inside at hhash
  unfold Image.Holds
  omega

theorem Located.reads_verifyProofRoot {l : Loader} (h : l.Located) (hsound : l.image.Sound)
    (stack : ℕ → UInt8) (block : Option Memory) (workAlloc : Bool) :
    l.Reads (l.verifyProofRoot stack block workAlloc) := by
  obtain ⟨-, -, -, -, htable, hproofs, -⟩ := h.places
  unfold verifyProofRoot
  refine reads_ite (fun _ => reads_pure l _) fun hloaded => ?_
  have hloaded : l.loaded = true := by simpa using hloaded
  have hroot := h.reads_headerBytes (f := SbfHeader.proofRoot) hloaded (by decide)
  split
  · exact hroot.bind (reads_pure l _)
  case h_2 table htab =>
    have hplace : l.image.place SbfSection.proofs SbfProofTable.size = some table :=
      htable.symm.trans htab
    have hheld := h.holds_struct hsound (s := (SbfSection.proofs, SbfProofTable.size)) (by decide)
      hplace
    refine (reads_field hheld (by decide)).bind (reads_ite (fun _ => ?_) fun hcount => ?_)
    · exact hroot.bind (reads_pure l _)
    have hentries : l.proofs = some (u64 (table + SbfProofTable.size)) :=
      hproofs.trans (Image.entries_eq_some.2 ⟨table, hplace, Nat.pos_of_ne_zero hcount, rfl⟩)
    rw [hentries, Option.getD_some]
    split
    · exact reads_pure l _
    refine (reads_proofHashes hsound hplace rfl _).bind ?_
    split
    · exact reads_pure l _
    · exact hroot.bind (reads_pure l _)

theorem Located.reads_hasFailedProofs {l : Loader} (h : l.Located) (hsound : l.image.Sound) :
    l.Reads l.hasFailedProofs := by
  unfold hasFailedProofs
  split
  · exact reads_pure l _
  case h_2 table htab =>
    have hplace := h.places.2.2.2.2.1.symm.trans htab
    have hheld := h.holds_struct hsound (s := (SbfSection.proofs, SbfProofTable.size)) (by decide)
      hplace
    exact reads_ite (fun _ => reads_pure l _) fun _ =>
      (reads_field hheld (by decide)).bind (reads_pure l _)

theorem reads_kernelVersionRejected {l : Loader} {m : ℕ} (h : l.image.Holds m sbfManifestSize) :
    l.Reads (l.kernelVersionRejected m) := by
  have hmax := reads_field (f := SbfManifest.kernelMaxVersion) h (by decide)
  have hmin := reads_field (f := SbfManifest.kernelMinVersion) h (by decide)
  have hnewer : l.Reads (do
      if l.config.maxKernelVersion > 0 then
        if (← l.image.read m SbfManifest.kernelMinVersion) > l.config.maxKernelVersion then
          return true
      return false) :=
    reads_ite (fun _ => hmin.bind (reads_ite (fun _ => reads_pure l _) fun _ => reads_pure l _))
      fun _ => reads_pure l _
  exact reads_ite (fun _ => hmax.bind (reads_ite (fun _ => reads_pure l _) fun _ => hnewer))
    fun _ => hnewer

theorem checkContentHash_same (stack : ℕ → UInt8) (l : Loader) :
    l.SameFile (l.checkContentHash stack).value.1 := by
  unfold checkContentHash
  split
  · exact verifyContentHash_same stack l
  · exact SameFile.refl l

theorem checkProofRoot_same (stack : ℕ → UInt8) (l : Loader) (block : Option Memory)
    (workAlloc : Bool) :
    l.SameFile (l.checkProofRoot stack block workAlloc).value.1 := by
  unfold checkProofRoot
  split
  · exact verifyProofRoot_same stack l _ _
  · exact SameFile.refl l

theorem Located.reads_validateManifest {l : Loader} (h : l.Located) (hsound : l.image.Sound)
    (hloaded : l.loaded = true) {m : ℕ} (hm : l.image.Holds m sbfManifestSize)
    (stack : ℕ → UInt8) (block : Option Memory) (workAlloc : Bool) :
    l.Reads (l.validateManifest stack m block workAlloc) := by
  unfold validateManifest
  refine (reads_kernelVersionRejected hm).bind (reads_ite (fun _ => reads_pure l _) fun _ => ?_)
  refine Reads.bind (reads_ite (fun _ => h.reads_verifyContentHash stack)
    fun _ => reads_pure l _) ?_
  -- the checks of the hashes change what the loader has computed, not its file
  have hsame := checkContentHash_same stack l
  generalize (l.checkContentHash stack).value = k at hsame ⊢
  refine reads_ite (fun _ => reads_pure l _) fun _ => Reads.bind ?_ ?_
  · exact Located.reads hsame (reads_ite
      (fun _ => (h.same hsame).reads_verifyProofRoot (hsame.image.symm ▸ hsound) stack _ _)
      fun _ => reads_pure k.1 _)
  have hsame := hsame.trans (checkProofRoot_same stack k.1 block workAlloc)
  generalize (k.1.checkProofRoot stack block workAlloc).value = n at hsame ⊢
  have hn := h.same hsame
  have hflags := Located.reads hsame
    (hn.reads_readHeader (f := SbfHeader.flags) (hsame.loaded.trans hloaded) (by decide))
  refine reads_ite (fun _ => reads_pure l _) fun _ => Reads.bind ?_ ?_
  · exact reads_ite
      (fun _ => Located.reads hsame (hn.reads_hasFailedProofs (hsame.image.symm ▸ hsound)))
      fun _ => reads_pure l _
  refine reads_ite (fun _ => reads_pure l _) fun _ => Reads.bind ?_ ?_
  · exact reads_ite (fun _ => hflags.bind (reads_pure l _)) fun _ => reads_pure l _
  refine reads_ite (fun _ => reads_pure l _) fun _ => Reads.bind ?_ (reads_pure l _)
  exact reads_ite (fun _ => hflags) fun _ => reads_pure l _

theorem Located.reads_validate {l : Loader} (h : l.Located) (hsound : l.image.Sound)
    (stack : ℕ → UInt8) (block : Option Memory) (workAlloc : Bool) :
    l.Reads (l.validate stack block workAlloc) := by
  unfold validate
  refine reads_ite (fun _ => reads_pure l _) fun hloaded => ?_
  refine h.reads_validateQuick.bind (reads_ite (fun _ => reads_pure l _) fun _ => ?_)
  split
  · exact reads_pure l _
  case h_2 m hm =>
    have hplace := h.places.1.symm.trans hm
    have hmanifest :=
      h.holds_struct hsound (s := (SbfSection.manifest, sbfManifestSize)) (by decide) hplace
    exact h.reads_validateManifest hsound (by simpa using hloaded) hmanifest stack _ _

theorem validateManifest_same (stack : ℕ → UInt8) (l : Loader) (m : ℕ)
    (block : Option Memory) (workAlloc : Bool) :
    l.SameFile (l.validateManifest stack m block workAlloc).value.1 := by
  have hhash := checkContentHash_same stack l
  have hroot := hhash.trans
    (checkProofRoot_same stack (l.checkContentHash stack).value.1 block workAlloc)
  simp only [validateManifest, Logged.value_bind]
  split
  · exact ⟨rfl, rfl, rfl, rfl⟩
  simp only [Logged.value_bind]
  split
  · exact hhash.trans ⟨rfl, rfl, rfl, rfl⟩
  simp only [Logged.value_bind]
  split
  · exact hroot.trans ⟨rfl, rfl, rfl, rfl⟩
  simp only [Logged.value_bind]
  split
  · exact hroot.trans ⟨rfl, rfl, rfl, rfl⟩
  simp only [Logged.value_bind]
  split
  · exact hroot.trans ⟨rfl, rfl, rfl, rfl⟩
  · exact hroot.trans ⟨rfl, rfl, rfl, rfl⟩

theorem validate_same (stack : ℕ → UInt8) (l : Loader) (block : Option Memory) (workAlloc : Bool) :
    l.SameFile (l.validate stack block workAlloc).value.1 := by
  unfold validate
  split
  · exact ⟨rfl, rfl, rfl, rfl⟩
  simp only [Logged.value_bind]
  split
  · exact ⟨rfl, rfl, rfl, rfl⟩
  split
  · exact ⟨rfl, rfl, rfl, rfl⟩
  · exact validateManifest_same stack l _ _ _

/-! ## Runs -/

/-- Every call keeps a loader located. -/
theorem Located.call {l : Loader} (h : l.Located) (stack : ℕ → UInt8) (c : LoaderCall) :
    (l.call stack c).1.Located := by
  cases c with
  | loadBuffer data copy => exact h.loadBuffer data copy
  | loadFile file alloc => exact h.loadFile file alloc
  | unload => exact located_unload l
  | validate block workAlloc => exact h.same (validate_same stack l block workAlloc)

theorem located_run (stack : ℕ → UInt8) (config : LoaderConfig) (calls : List LoaderCall) :
    (Runs.run (Loader.call stack) (create config) calls).Located :=
  Runs.run_invariant (I := Located) (fun _ c h => h.call stack c) (located_create config) calls

theorem parseBuffer_ok {l l' : Loader} {size : ℕ} (h : l.parseBuffer size = (l', .ok)) :
    l'.loaded = true := by
  unfold parseBuffer at h
  dsimp only at h
  split at h
  · cases h
  split at h
  · cases h
  split at h
  · cases h
  split at h
  · cases h
  · cases h
    rfl

theorem loadBuffer_ok {l l' : Loader} {data : Option Image} {copy : Copy}
    (h : l.loadBuffer data copy = (l', .ok)) : l'.loaded = true := by
  unfold Loader.loadBuffer at h
  split at h
  · cases h
  split at h
  · cases h
  split at h
  · exact parseBuffer_ok h
  split at h
  · cases h
  split at h
  · cases h
  · exact parseBuffer_ok h

/-! ## Safety -/

/-- The pointers to sections that the loader gives out, with the sizes reported for them. -/
def sectionPointers (l : Loader) : List (Option ℕ × ℕ) :=
  [(l.getManifest, l.image.header SbfHeader.manifestSize), l.getCode, l.getRodata, l.getData,
    (l.getProofTable, l.image.header SbfHeader.proofsSize),
    (l.getCapTable, l.image.header SbfHeader.capsSize),
    (l.getEffectTable, l.image.header SbfHeader.effectsSize),
    (l.stringTable, l.image.header SbfHeader.stringsSize)]

/-- What the loader gives out and what it reads to validate the file lies in the file, and the
hashes of the proofs are copied inside of the block for them. -/
structure Safe (stack : ℕ → UInt8) (l : Loader) : Prop where
  sections : ∀ p ∈ l.sectionPointers, ∀ a, p.1 = some a → l.image.Holds a p.2
  proofs : ∀ i a, l.getProof i = some a → l.image.Holds a SbfProofEntry.size
  capabilities : ∀ i a, l.getCapability i = some a → l.image.Holds a SbfCapTemplate.size
  effects : ∀ i a, l.getEffect i = some a → l.image.Holds a SbfEffectEntry.size
  strings : ∀ offset < 2 ^ 32, ∀ a, l.getString offset = some a → l.image.HoldsString a
  validated : ∀ block workAlloc,
    (l.validate stack block workAlloc).All fun r => l.image.Holds r.start r.len
  leaves : ∀ i < l.getProofCount, leafOffset i + digestSize ≤ leafOffset l.getProofCount

theorem Located.sectionPointers_eq {l : Loader} (h : l.Located) (hloaded : l.loaded = true) :
    l.sectionPointers =
      sbfPlaces.map fun s => (l.image.place s.1 s.2, l.image.header s.1.size) := by
  obtain ⟨h1, h2, h3, h4, h5, -, h6, -, h7, -, h8, -⟩ := h.places
  simp only [sectionPointers, getManifest, getCode, getRodata, getData, getProofTable, getCapTable,
    getEffectTable, getSection, hloaded, if_true, h1, h2, h3, h4, h5, h6, h7, h8]
  rfl

/-- Entry `i` of a table of the file. -/
def tableEntry (l : Loader) (t : TableFields) (i : ℕ) : Option ℕ :=
  l.getEntry (l.image.place t.place t.size) (l.image.entries t.place t.size t.entryCount)
    t.entryCount t.entrySize i

theorem Located.getProof_eq {l : Loader} (h : l.Located) (i : ℕ) :
    l.getProof i = l.tableEntry SbfTable.proofs i := by
  obtain ⟨-, -, -, -, htable, hentries, -⟩ := h.places
  rw [getProof, htable, hentries]
  rfl

theorem Located.getCapability_eq {l : Loader} (h : l.Located) (i : ℕ) :
    l.getCapability i = l.tableEntry SbfTable.caps i := by
  obtain ⟨-, -, -, -, -, -, htable, hentries, -⟩ := h.places
  rw [getCapability, htable, hentries]
  rfl

theorem Located.getEffect_eq {l : Loader} (h : l.Located) (i : ℕ) :
    l.getEffect i = l.tableEntry SbfTable.effects i := by
  obtain ⟨-, -, -, -, -, -, -, -, htable, hentries, -⟩ := h.places
  rw [getEffect, htable, hentries]
  rfl

theorem tableEntry_eq_some {l : Loader} (hloaded : l.loaded = true) {t : TableFields} {i e : ℕ} :
    l.tableEntry t i = some e ↔
      ∃ a, l.image.place t.place t.size = some a ∧ i < l.image.mem.get a t.entryCount ∧
        e = u64 (u64 (a + t.size) + i * t.entrySize) := by
  simp only [tableEntry, getEntry, hloaded, Option.bind_eq_bind, Option.bind_eq_some_iff,
    Option.guard_eq_some', Option.pure_def, Option.some.injEq, Image.entries_eq_some]
  constructor
  · rintro ⟨_, -, _, ⟨a, ha, -, rfl⟩, b, hb, _, hi, rfl⟩
    cases ha.symm.trans hb
    exact ⟨a, ha, hi, rfl⟩
  · rintro ⟨a, ha, hi, rfl⟩
    exact ⟨(), trivial, _, ⟨a, ha, Nat.zero_lt_of_lt hi, rfl⟩, a, ha, (), hi, rfl⟩

/-- The entries a table gives out lie in the file if the last one ends in it. -/
theorem entries_held_iff {l : Loader} (hloaded : l.loaded = true) {t : TableFields}
    (ht : t ∈ SbfTable.all)
    (hstart : ∀ a, l.image.place t.place t.size = some a → a + t.size ≤ l.image.size) :
    (∀ i e, l.tableEntry t i = some e → l.image.Holds e t.entrySize) ↔
      ∀ a, l.image.place t.place t.size = some a →
        a + t.size + l.image.mem.get a t.entryCount * t.entrySize ≤ l.image.size := by
  simp only [tableEntry_eq_some hloaded]
  constructor
  · intro hheld a ha
    refine (Image.entries_held_iff (entrySize_pos ht) (hstart a ha)).1 fun i hi => ?_
    have hentry := hheld i _ ⟨a, ha, hi, rfl⟩
    rwa [u64_of_lt (lt_of_le_of_lt (hstart a ha) l.image.size_lt)] at hentry
  · rintro hend i e ⟨a, ha, hi, rfl⟩
    rw [u64_of_lt (lt_of_le_of_lt (hstart a ha) l.image.size_lt)]
    exact (Image.entries_held_iff (entrySize_pos ht) (hstart a ha)).2 (hend a ha) i hi

theorem Located.getString_eq_some {l : Loader} (h : l.Located) (hloaded : l.loaded = true)
    {offset e : ℕ} :
    l.getString offset = some e ↔
      ∃ a, l.image.place SbfSection.strings SbfStringTable.size = some a ∧
        offset < l.image.stringBytes a ∧
        e = u64 (u64 (a + SbfStringTable.size) + offset) := by
  obtain ⟨-, -, -, -, -, -, -, -, -, -, htable, hstrings⟩ := h.places
  simp only [getString, hloaded, htable, hstrings, Option.bind_eq_bind, Option.bind_eq_some_iff,
    Option.guard_eq_some', Option.pure_def, Option.some.injEq, Option.map_eq_some_iff]
  constructor
  · rintro ⟨_, -, _, ⟨a, ha, rfl⟩, b, hb, _, hi, rfl⟩
    cases ha.symm.trans hb
    exact ⟨a, ha, hi, rfl⟩
  · rintro ⟨a, ha, hi, rfl⟩
    exact ⟨(), trivial, _, ⟨a, ha, rfl⟩, a, ha, (), hi, rfl⟩

theorem Located.strings_held_iff {l : Loader} (h : l.Located) (hloaded : l.loaded = true)
    (hstart : ∀ a, l.image.place SbfSection.strings SbfStringTable.size = some a →
      a + SbfStringTable.size ≤ l.image.size) :
    (∀ offset < 2 ^ 32, ∀ e, l.getString offset = some e → l.image.HoldsString e) ↔
      ∀ a, l.image.place SbfSection.strings SbfStringTable.size = some a →
        l.image.stringBytes a ≠ 0 → l.image.HoldsString
          (a + SbfStringTable.size + (min (l.image.stringBytes a) (2 ^ 32) - 1)) := by
  simp only [h.getString_eq_some hloaded]
  constructor
  · intro hheld a ha hne
    refine (Image.strings_held_iff (hstart a ha)).1 (fun o ho => ?_) (by omega)
    have hstring := hheld o (by omega) _ ⟨a, ha, by omega, rfl⟩
    rwa [u64_of_lt (lt_of_le_of_lt (hstart a ha) l.image.size_lt)] at hstring
  · rintro hend offset hoffset e ⟨a, ha, hlt, rfl⟩
    rw [u64_of_lt (lt_of_le_of_lt (hstart a ha) l.image.size_lt)]
    exact (Image.strings_held_iff (hstart a ha)).2 (fun _ => hend a ha (by omega)) offset (by omega)

/-- The leaves lie in their block exactly if its size does not wrap. -/
theorem leaves_fit_iff {count : ℕ} (hcount : count < 2 ^ 32) :
    (∀ i < count, leafOffset i + digestSize ≤ leafOffset count) ↔ count < 2 ^ 27 := by
  unfold leafOffset digestSize u32
  constructor
  · intro h
    by_contra hmany
    -- the leaf that starts where the block ends
    have hout := h (count * 32 % 2 ^ 32 / 32) (by omega)
    omega
  · intro hfew i hi
    omega

theorem Located.getProofCount_eq {l : Loader} (h : l.Located) (hloaded : l.loaded = true) :
    (l.image.place SbfSection.proofs SbfProofTable.size = none → l.getProofCount = 0) ∧
      ∀ a, l.image.place SbfSection.proofs SbfProofTable.size = some a →
        l.getProofCount = l.image.mem.get a SbfProofTable.entryCount := by
  obtain ⟨-, -, -, -, htable, -⟩ := h.places
  unfold getProofCount getCount
  rw [htable, hloaded]
  exact ⟨fun hnone => by rw [hnone], fun a ha => by rw [ha]; rfl⟩

theorem Located.leaves_iff {l : Loader} (h : l.Located) (hloaded : l.loaded = true) :
    (∀ i < l.getProofCount, leafOffset i + digestSize ≤ leafOffset l.getProofCount) ↔
      ∀ a, l.image.place SbfSection.proofs SbfProofTable.size = some a →
        l.image.mem.get a SbfProofTable.entryCount < 2 ^ 27 := by
  obtain ⟨hnone, hsome⟩ := h.getProofCount_eq hloaded
  cases hplace : l.image.place SbfSection.proofs SbfProofTable.size with
  | none =>
    rw [hnone hplace]
    exact iff_of_true (fun i hi => absurd hi (Nat.not_lt_zero i)) fun a ha => by cases ha
  | some a =>
    rw [hsome a hplace, leaves_fit_iff (l.image.mem.get_lt a SbfProofTable.entryCount)]
    exact ⟨fun hlt b hb => by cases hb; exact hlt, fun hall => hall a rfl⟩

theorem mem_places_of_tables {t : TableFields} (ht : t ∈ SbfTable.all) :
    (t.place, t.size) ∈ sbfPlaces := by
  revert t
  decide

/-- A located loader that has a file is safe exactly if the file is sound. -/
theorem Located.safe_iff {l : Loader} (h : l.Located) (hloaded : l.loaded = true)
    (stack : ℕ → UInt8) : l.Safe stack ↔ l.image.Sound := by
  have hproofs := h.getProof_eq
  have hcaps := h.getCapability_eq
  have heffects := h.getEffect_eq
  constructor
  · intro hsafe
    have hheld : ∀ s ∈ sbfPlaces, ∀ a, l.image.place s.1 s.2 = some a →
        l.image.Holds a (l.image.header s.1.size) := by
      intro s hs a ha
      refine hsafe.sections (l.image.place s.1 s.2, l.image.header s.1.size) ?_ a ha
      rw [h.sectionPointers_eq hloaded]
      exact List.mem_map_of_mem hs
    have hstart : ∀ s ∈ sbfPlaces, ∀ a, l.image.place s.1 s.2 = some a → l.image.Holds a s.2 :=
      fun s hs a ha =>
        (hheld s hs a ha).mono (Nat.add_le_add_left (Image.place_eq_some.1 ha).2.2 a)
    have hgets : ∀ t ∈ SbfTable.all, ∀ i e, l.tableEntry t i = some e →
        l.image.Holds e t.entrySize := by
      simp only [SbfTable.all, List.forall_mem_cons]
      refine ⟨fun i e he => hsafe.proofs i e ((hproofs i).trans he),
        fun i e he => hsafe.capabilities i e ((hcaps i).trans he),
        fun i e he => hsafe.effects i e ((heffects i).trans he), ?_⟩
      exact fun t ht => absurd ht List.not_mem_nil
    refine ⟨fun s hs a ha => lt_of_le_of_lt (hheld s hs a ha) l.image.size_lt, ?_,
      (h.leaves_iff hloaded).1 hsafe.leaves, ?_⟩
    · exact fun t ht =>
        (entries_held_iff hloaded ht (hstart _ (mem_places_of_tables ht))).1 (hgets t ht)
    · exact (h.strings_held_iff hloaded
        (hstart (SbfSection.strings, SbfStringTable.size) (by decide))).1 hsafe.strings
  · intro hsound
    have hgets : ∀ t ∈ SbfTable.all, ∀ i e, l.tableEntry t i = some e →
        l.image.Holds e t.entrySize := fun t ht =>
      (entries_held_iff hloaded ht fun a ha =>
        h.holds_struct hsound (mem_places_of_tables ht) ha).2 (hsound.entries t ht)
    refine ⟨?_, fun i e he => ?_, fun i e he => ?_, fun i e he => ?_, ?_,
      fun _ _ => h.reads_validate hsound stack _ _, (h.leaves_iff hloaded).2 hsound.leaves⟩
    · rw [h.sectionPointers_eq hloaded]
      intro p hp a ha
      obtain ⟨s, hs, rfl⟩ := List.mem_map.1 hp
      exact h.holds_place hsound hs ha
    · exact hgets SbfTable.proofs (by decide) i e ((hproofs i).symm.trans he)
    · exact hgets SbfTable.caps (by decide) i e ((hcaps i).symm.trans he)
    · exact hgets SbfTable.effects (by decide) i e ((heffects i).symm.trans he)
    · exact (h.strings_held_iff hloaded fun a ha => h.holds_struct hsound
        (s := (SbfSection.strings, SbfStringTable.size)) (by decide) ha).2 hsound.strings

/-- Whatever was called before, a load that returns OK leaves the loader safe exactly if the loaded
file is sound. -/
theorem loads_safe_iff (stack : ℕ → UInt8) (config : LoaderConfig) (calls : List LoaderCall)
    (data : Option Image) (copy : Copy) (l : Loader)
    (h : (Runs.run (Loader.call stack) (create config) calls).loadBuffer data copy = (l, .ok)) :
    ∃ b, l.data = some b ∧ (l.Safe stack ↔ b.Sound) := by
  have hlocated : l.Located := by
    have := (located_run stack config calls).loadBuffer data copy
    rwa [h] at this
  have hloaded := loadBuffer_ok h
  obtain ⟨b, hb⟩ := Option.isSome_iff_exists.1 (hlocated.loaded.symm.trans hloaded)
  have himage : l.image = b := by rw [image, hb, Option.getD_some]
  exact ⟨b, hb, himage ▸ hlocated.safe_iff hloaded stack⟩

/-- A file of a header and a table that counts one proof it does not have. -/
def uncheckedCount : Image where
  cells :=
    (Memory.assign (fun _ => 0) 0
        [(SbfHeader.magic, sbfMagic), (SbfHeader.version, sbfVersion),
          (SbfHeader.headerSize, sbfHeaderSize), (SbfHeader.totalSize, 304),
          (SbfHeader.proofsOffset, 256), (SbfHeader.proofsSize, SbfProofTable.size)]).assign 256
      [(SbfProofTable.magic, sbfProofMagic), (SbfProofTable.entryCount, 1)]
  size := 304
  size_lt := by decide

/-- The loader after loading this file. -/
def uncheckedLoader : Loader :=
  ((create defaultLoaderConfig).loadBuffer (some uncheckedCount) .reference).1

theorem uncheckedCount_loads :
    (create defaultLoaderConfig).loadBuffer (some uncheckedCount) .reference =
      (uncheckedLoader, .ok) :=
  Prod.ext rfl (by decide)

/-- The file is loaded, but its first proof is behind its end. -/
theorem not_safe_uncheckedCount :
    (create defaultLoaderConfig).loadBuffer (some uncheckedCount) .reference =
        (uncheckedLoader, .ok) ∧
      uncheckedLoader.getProof 0 = some 304 ∧ ¬uncheckedLoader.Safe fun _ => 0 := by
  have hproof : uncheckedLoader.getProof 0 = some 304 := by decide
  have hsize : uncheckedLoader.image.size = 304 := by decide
  refine ⟨uncheckedCount_loads, hproof, fun hsafe => ?_⟩
  have hheld := hsafe.proofs 0 304 hproof
  unfold Image.Holds at hheld
  rw [hsize] at hheld
  exact absurd hheld (by decide)

/-- The same file, as a load after none. -/
theorem loads_safe_uncheckedCount :
    ∃ b, uncheckedLoader.data = some b ∧ (uncheckedLoader.Safe (fun _ => 0) ↔ b.Sound) :=
  loads_safe_iff (fun _ => 0) defaultLoaderConfig [] (some uncheckedCount) .reference _
    uncheckedCount_loads

end Loader

end Seraph
