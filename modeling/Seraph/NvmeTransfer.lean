import Mathlib.Logic.Function.Basic
import Seraph.PrpEntries
import Seraph.Words

/-!
# NVMe transfers

`seraph_nvme_read` and `seraph_nvme_write` from `nvme.c`, and the helpers for PRP lists of
`nvme_cmd.c`, on pages of 4096 bytes and with virtual addresses for physical ones. The driver takes
the buffer for one that begins at a page and writes a list without a chain, and it checks a sum of
64 bits against the size of the namespace. `describes_iff` says which transfers come out right.
-/

namespace Seraph

namespace Nvme

open Prp

/-! ## Commands -/

/-- `Seraph_NVMe`, as far as the transfers read it. -/
structure Controller where
  initialized : Bool
  ns_id : BitVec 32
  ns_size : BitVec 64
  block_size : BitVec 32

/-- `Seraph_NVMe_Cmd`, as far as the transfers set it. -/
structure Cmd where
  opc : UInt8
  nsid : BitVec 32
  prp1 : BitVec 64
  prp2 : BitVec 64
  cdw10 : BitVec 32
  cdw11 : BitVec 32
  cdw12 : BitVec 32
deriving DecidableEq, Repr

/-- A command that transfers blocks. -/
def cmdTransfer (opc : UInt8) (nsid : BitVec 32) (lba : BitVec 64) (blocks : BitVec 16)
    (prp1 prp2 : BitVec 64) : Cmd :=
  ⟨opc, nsid, prp1, prp2, (lba &&& 0xFFFFFFFF).setWidth 32, (lba >>> 32).setWidth 32,
    blocks.setWidth 32⟩

/-- `seraph_nvme_cmd_read`. -/
def cmdRead := cmdTransfer 0x02

/-- `seraph_nvme_cmd_write`. -/
def cmdWrite := cmdTransfer 0x01

/-! ## Transfers -/

/-- The words of the memory. -/
abbrev Memory := ℕ → BitVec 64

/-- `nvme_alloc_dma` : memory from a page on that is in the address space, or NULL. -/
structure DmaAllocator where
  alloc : ℕ → Option (BitVec 64)
  aligned : ∀ size a, alloc size = some a → 4096 ∣ a.toNat
  room : ∀ size a, alloc size = some a → a.toNat + size ≤ 2 ^ 64

/-- The loop that fills a PRP list with page addresses. -/
def fillPrps (mem : Memory) (prp_list prp1 : BitVec 64) : ℕ → Memory
  | 0 => mem
  | i + 1 => Function.update (fillPrps mem prp_list prp1 i) (prp_list.toNat + 8 * i)
      (prp1 + BitVec.ofNat 64 ((i + 1) * 4096))

/-- What `seraph_nvme_read` and `seraph_nvme_write` have in common : the command they submit and the
memory then, if there is one. `seraph_nvme_submit` adds its number. The product is one of 32-bit
numbers, so that it stays below 2^64 - 4095. -/
def transfer (command : BitVec 32 → BitVec 64 → BitVec 16 → BitVec 64 → BitVec 64 → Cmd)
    (nvme : Option Controller) (lba : BitVec 64) (block_count : BitVec 32) (buffer : BitVec 64)
    (dma : DmaAllocator) (mem : Memory) : Option (Cmd × Memory) :=
  match nvme with
  | none => none
  | some nvme =>
    if nvme.initialized = false ∨ buffer = 0 then none
    else if block_count = 0 ∨ nvme.ns_size < lba + block_count.setWidth 64 then none
    else
      let transfer_size := block_count.toNat * nvme.block_size.toNat
      let prp1 := buffer
      let cmd := command nvme.ns_id lba ((block_count - 1).setWidth 16) prp1
      if 4096 < transfer_size then
        if transfer_size ≤ 8192 then some (cmd (prp1 + 4096), mem)
        else
          let num_prps := (transfer_size + 4095) / 4096 - 1
          match dma.alloc (num_prps * 8) with
          | none => none
          | some prp_list => some (cmd prp_list, fillPrps mem prp_list prp1 num_prps)
      else some (cmd 0, mem)

/-- `seraph_nvme_read`, up to the submission. -/
def read := transfer cmdRead

/-- `seraph_nvme_write`, up to the submission. -/
def write := transfer cmdWrite

/-! ## PRP lists -/

/-- `prp_list` and `count`. -/
structure PrpOut where
  prp_list : ℕ → BitVec 64
  count : BitVec 32

/-- `prp_list[count++] = entry`. -/
def PrpOut.push (out : PrpOut) (entry : BitVec 64) : PrpOut :=
  ⟨Function.update out.prp_list out.count.toNat entry, out.count + 1⟩

/-- The entries that have been written. -/
def PrpOut.entries (out : PrpOut) : List (BitVec 64) :=
  (List.range out.count.toNat).map out.prp_list

/-- The loop over the pages behind the first, each of which shortens the length. -/
def buildLoop (page_size : ℕ) : ℕ → BitVec 64 → ℕ → PrpOut → PrpOut
  | 0, _, _, out => out
  | fuel + 1, ptr, length, out =>
    if 0 < length then
      let this_page := if page_size < length then page_size else length
      buildLoop page_size fuel (ptr + BitVec.ofNat 64 this_page) (length - this_page) (out.push ptr)
    else out

/-- `seraph_nvme_build_prp_list`. -/
def buildPrpList (buffer : BitVec 64) (length page_size : ℕ) : PrpOut :=
  let out : PrpOut := ⟨fun _ => 0, 0⟩
  if buffer = 0 ∨ length = 0 then out
  else
    let offset := buffer.toNat % page_size
    let out := out.push buffer
    let first_page_remaining := page_size - offset
    if length ≤ first_page_remaining then out
    else
      buildLoop page_size length (buffer + BitVec.ofNat 64 first_page_remaining)
        (length - first_page_remaining) out

/-- `seraph_nvme_prp_count`. -/
def prpCount (offset length page_size : ℕ) : ℕ :=
  if length = 0 then 0
  else
    let first_page_len := page_size - offset % page_size
    if length ≤ first_page_len then 1
    else
      let remaining := length - first_page_len
      (1 + u64 (remaining + page_size - 1) / page_size % 2 ^ 32) % 2 ^ 32

/-! ## What is asked for -/

/-- The bytes of a transfer. -/
def transferSize (nvme : Controller) (block_count : BitVec 32) : ℕ :=
  block_count.toNat * nvme.block_size.toNat

/-- A command is right : it transfers the blocks, which are in the namespace, and what the
controller reads from its pointers are the bytes of the buffer, through the entries that are built
and counted for it. -/
structure Right (nvme : Controller) (block_count : BitVec 32) (buffer : BitVec 64) (cmd : Cmd)
    (mem : Memory) : Prop where
  blocks : cmd.cdw12.toNat % 2 ^ 16 + 1 = block_count.toNat
  range : cmd.cdw11.toNat * 2 ^ 32 + cmd.cdw10.toNat + block_count.toNat ≤ nvme.ns_size.toNat
  data : ∃ entries,
    Denotes 4096 (fun p => (mem p).toNat) cmd.prp1.toNat cmd.prp2.toNat
      (transferSize nvme block_count) entries ∧
    bytes 4096 entries (transferSize nvme block_count) =
      List.range' buffer.toNat (transferSize nvme block_count) ∧
    entries = (buildPrpList buffer (transferSize nvme block_count) 4096).entries.map BitVec.toNat ∧
    entries.length = prpCount (buffer.toNat % 4096) (transferSize nvme block_count) 4096

/-- Whatever the memory and the allocator are, the commands that are submitted are right. -/
def Describes (nvme : Controller) (lba : BitVec 64) (block_count : BitVec 32)
    (buffer : BitVec 64) : Prop :=
  ∀ submit ∈ [read, write], ∀ dma mem cmd mem',
    submit (some nvme) lba block_count buffer dma mem = some (cmd, mem') →
      Right nvme block_count buffer cmd mem'

/-- What the driver checks. -/
structure Accepted (nvme : Controller) (lba : BitVec 64) (block_count : BitVec 32)
    (buffer : BitVec 64) : Prop where
  initialized : nvme.initialized = true
  buffer_ne : buffer ≠ 0
  count_ne : block_count ≠ 0
  in_namespace : lba + block_count.setWidth 64 ≤ nvme.ns_size

/-- What the transfer needs : no more blocks than a command can have, blocks in the namespace, a
buffer in the address space, and one that is in a page, or begins at a page and takes no more than
one page of list. -/
structure Fitting (nvme : Controller) (lba : BitVec 64) (block_count : BitVec 32)
    (buffer : BitVec 64) : Prop where
  blocks : block_count.toNat ≤ 65536
  in_namespace : lba.toNat + block_count.toNat ≤ nvme.ns_size.toNat
  in_space : buffer.toNat + transferSize nvme block_count ≤ 2 ^ 64
  placed : buffer.toNat % 4096 + transferSize nvme block_count ≤ 4096 ∨
    buffer.toNat % 4096 = 0 ∧ transferSize nvme block_count ≤ 513 * 4096

/-! ## Commands that are submitted -/

section

variable {nvme : Controller} {lba : BitVec 64} {block_count : BitVec 32} {buffer : BitVec 64}
  {dma : DmaAllocator} {mem mem' : Memory} {opc : UInt8} {cmd : Cmd}

/-- The entries of a list for a buffer that begins at a page. -/
def listLength (size : ℕ) : ℕ :=
  (size + 4095) / 4096 - 1

/-- The command of a transfer with a second pointer. -/
def commandOf (opc : UInt8) (nvme : Controller) (lba : BitVec 64) (block_count : BitVec 32)
    (buffer prp2 : BitVec 64) : Cmd :=
  cmdTransfer opc nvme.ns_id lba ((block_count - 1).setWidth 16) buffer prp2

theorem accepted_of_transfer
    (h : transfer (cmdTransfer opc) (some nvme) lba block_count buffer dma mem = some (cmd, mem')) :
    Accepted nvme lba block_count buffer := by
  simp only [transfer] at h
  by_cases hready : nvme.initialized = false ∨ buffer = 0
  · rw [if_pos hready] at h
    exact absurd h (Option.some_ne_none _).symm
  by_cases hrange : block_count = 0 ∨ nvme.ns_size < lba + block_count.setWidth 64
  · rw [if_neg hready, if_pos hrange] at h
    exact absurd h (Option.some_ne_none _).symm
  rw [not_or] at hready hrange
  exact ⟨Bool.eq_true_of_not_eq_false hready.1, hready.2, hrange.1, BitVec.not_lt.mp hrange.2⟩

theorem transfer_eq (h : Accepted nvme lba block_count buffer) :
    transfer (cmdTransfer opc) (some nvme) lba block_count buffer dma mem =
      if 4096 < transferSize nvme block_count then
        if transferSize nvme block_count ≤ 8192 then
          some (commandOf opc nvme lba block_count buffer (buffer + 4096), mem)
        else (dma.alloc (listLength (transferSize nvme block_count) * 8)).map fun prp_list =>
          (commandOf opc nvme lba block_count buffer prp_list,
            fillPrps mem prp_list buffer (listLength (transferSize nvme block_count)))
      else some (commandOf opc nvme lba block_count buffer 0, mem) := by
  have hready : ¬(nvme.initialized = false ∨ buffer = 0) := by
    rw [not_or]
    exact ⟨by rw [h.initialized]; decide, h.buffer_ne⟩
  have hrange : ¬(block_count = 0 ∨ nvme.ns_size < lba + block_count.setWidth 64) := by
    rw [not_or]
    exact ⟨h.count_ne, BitVec.not_lt.mpr h.in_namespace⟩
  simp only [transfer, if_neg hready, if_neg hrange]
  cases halloc : dma.alloc (listLength (transferSize nvme block_count) * 8) with
  | none =>
    rw [listLength, transferSize] at halloc
    rw [halloc]
    rfl
  | some a =>
    rw [listLength, transferSize] at halloc
    rw [halloc]
    rfl

theorem toNat_slba : (commandOf opc nvme lba block_count buffer prp2).cdw11.toNat * 2 ^ 32 +
    (commandOf opc nvme lba block_count buffer prp2).cdw10.toNat = lba.toNat := by
  have hlow : (lba.toNat &&& 0xFFFFFFFF) = lba.toNat % 2 ^ 32 := Nat.and_two_pow_sub_one_eq_mod _ 32
  have hlt := lba.isLt
  simp only [commandOf, cmdTransfer, BitVec.toNat_setWidth, BitVec.toNat_ushiftRight,
    BitVec.toNat_and, Nat.shiftRight_eq_div_pow]
  rw [show BitVec.toNat (0xFFFFFFFF : BitVec 64) = 0xFFFFFFFF from rfl, hlow]
  omega

/-- A command can have up to 2^16 blocks. -/
theorem blocks_iff (h : block_count ≠ 0) {prp2 : BitVec 64} :
    (commandOf opc nvme lba block_count buffer prp2).cdw12.toNat % 2 ^ 16 + 1 = block_count.toNat ↔
      block_count.toNat ≤ 65536 := by
  have hpos : block_count.toNat ≠ 0 := fun hzero => h (BitVec.eq_of_toNat_eq hzero)
  have hlt := block_count.isLt
  have hsub : (block_count - 1).toNat = block_count.toNat - 1 := by
    rw [BitVec.toNat_sub, show (1 : BitVec 32).toNat = 1 from rfl]
    omega
  simp only [commandOf, cmdTransfer, BitVec.toNat_setWidth, hsub]
  omega

theorem fillPrps_at {prp_list prp1 : BitVec 64} {i n : ℕ} (hi : i < n) :
    fillPrps mem prp_list prp1 n (prp_list.toNat + 8 * i) =
      prp1 + BitVec.ofNat 64 ((i + 1) * 4096) := by
  induction n with
  | zero => exact absurd hi (Nat.not_lt_zero _)
  | succ n ih =>
    rw [fillPrps]
    rcases Nat.lt_succ_iff_lt_or_eq.mp hi with hlt | rfl
    · rw [Function.update_of_ne (by omega), ih hlt]
    · rw [Function.update_self]

theorem fillPrps_of_ne {prp_list prp1 : BitVec 64} {p n : ℕ}
    (hp : ∀ i < n, p ≠ prp_list.toNat + 8 * i) : fillPrps mem prp_list prp1 n p = mem p := by
  induction n with
  | zero => rfl
  | succ n ih =>
    rw [fillPrps, Function.update_of_ne (hp n (Nat.lt_succ_self n)),
      ih fun i hi => hp i (Nat.lt_succ_of_lt hi)]

end

/-! ## Lists that are built -/

theorem entries_push {out : PrpOut} (entry : BitVec 64) (h : out.count.toNat + 1 < 2 ^ 32) :
    (out.push entry).entries = out.entries ++ [entry] ∧
      (out.push entry).count.toNat = out.count.toNat + 1 := by
  have hcount : (out.count + 1).toNat = out.count.toNat + 1 := by
    rw [BitVec.toNat_add, show (1 : BitVec 32).toNat = 1 from rfl, Nat.mod_eq_of_lt h]
  refine ⟨?_, hcount⟩
  have hsame : ∀ i ∈ List.range out.count.toNat,
      Function.update out.prp_list out.count.toNat entry i = out.prp_list i := by
    intro i hi
    exact Function.update_of_ne (List.mem_range.mp hi).ne _ _
  have hlast : Function.update out.prp_list out.count.toNat entry out.count.toNat = entry :=
    Function.update_self ..
  simp only [PrpOut.entries, PrpOut.push, hcount, List.range_succ, List.map_append,
    List.map_singleton, hlast, List.map_congr_left hsame]

theorem buildLoop_succ {page_size fuel : ℕ} {ptr : BitVec 64} {length : ℕ} {out : PrpOut}
    (h : 0 < length) : buildLoop page_size (fuel + 1) ptr length out =
      buildLoop page_size fuel
        (ptr + BitVec.ofNat 64 (if page_size < length then page_size else length))
        (length - if page_size < length then page_size else length) (out.push ptr) := by
  rw [buildLoop, if_pos h]

theorem entries_buildLoop (fuel : ℕ) {ptr : BitVec 64} {length : ℕ} {out : PrpOut}
    (hfuel : length ≤ fuel) (hspace : ptr.toNat + length ≤ 2 ^ 64)
    (hcount : out.count.toNat + pages 4096 length < 2 ^ 32) :
    (buildLoop 4096 fuel ptr length out).entries.map BitVec.toNat =
      out.entries.map BitVec.toNat ++ cover 4096 (pages 4096 length) ptr.toNat := by
  have hzero : pages 4096 0 = 0 := pages_zero (by decide)
  induction fuel generalizing ptr length out with
  | zero =>
    rw [Nat.le_zero.mp hfuel, hzero, cover, List.append_nil]
    rfl
  | succ fuel ih =>
    rcases Nat.eq_zero_or_pos length with rfl | hpos
    · rw [buildLoop, if_neg (Nat.lt_irrefl 0), hzero, cover, List.append_nil]
    · rw [buildLoop_succ hpos]
      have hpages := pages_succ (by decide : 0 < 4096) hpos
      obtain ⟨hentries, hnext⟩ := entries_push ptr (show out.count.toNat + 1 < 2 ^ 32 by omega)
      rcases Nat.lt_or_ge 4096 length with hlong | hshort
      · have hptr : (ptr + BitVec.ofNat 64 4096).toNat = ptr.toNat + 4096 := by
          rw [BitVec.toNat_add, show (BitVec.ofNat 64 4096).toNat = 4096 from rfl,
            Nat.mod_eq_of_lt (by omega)]
        rw [if_pos hlong, ih (by omega) (by omega) (by omega), hentries, hptr, hpages, cover,
          List.map_append, List.map_singleton, List.append_assoc, List.singleton_append]
      · have hptr := (ptr + BitVec.ofNat 64 length).isLt
        rw [if_neg (by omega), Nat.sub_self, ih (by omega) (by omega) (by omega), hentries, hpages,
          Nat.sub_eq_zero_of_le hshort, hzero, cover, cover, cover, List.append_nil,
          List.map_append, List.map_singleton]

/-- The entries that are built for a buffer in the address space describe it. -/
theorem entries_buildPrpList {buffer : BitVec 64} {size : ℕ} (hne : buffer ≠ 0)
    (hspace : buffer.toNat + size ≤ 2 ^ 64)
    (hcount : pages 4096 (size - toEnd 4096 buffer.toNat) + 1 < 2 ^ 32) :
    (buildPrpList buffer size 4096).entries.map BitVec.toNat =
      entriesOf 4096 buffer.toNat size := by
  unfold buildPrpList entriesOf
  by_cases hsize : size = 0
  · rw [if_pos (Or.inr hsize), if_pos hsize]
    rfl
  rw [if_neg (by rw [not_or]; exact ⟨hne, hsize⟩), if_neg hsize]
  obtain ⟨hentries, hone⟩ := @entries_push ⟨fun _ => 0, 0⟩ buffer (by decide)
  have hfirst : ((⟨fun _ => 0, 0⟩ : PrpOut).push buffer).entries.map BitVec.toNat =
      [buffer.toNat] := by
    rw [hentries]
    rfl
  change List.map BitVec.toNat (PrpOut.entries (if size ≤ toEnd 4096 buffer.toNat then _ else
    buildLoop 4096 size (buffer + BitVec.ofNat 64 (toEnd 4096 buffer.toNat))
      (size - toEnd 4096 buffer.toNat) _)) = _
  rcases Nat.lt_or_ge (toEnd 4096 buffer.toNat) size with hlong | hshort
  · have hnext : (buffer + BitVec.ofNat 64 (toEnd 4096 buffer.toNat)).toNat =
        buffer.toNat + toEnd 4096 buffer.toNat := by
      rw [BitVec.toNat_add, BitVec.toNat_ofNat, Nat.mod_eq_of_lt (a := toEnd 4096 buffer.toNat),
        Nat.mod_eq_of_lt] <;> omega
    have hcount' : ((⟨fun _ => 0, 0⟩ : PrpOut).push buffer).count.toNat +
        pages 4096 (size - toEnd 4096 buffer.toNat) < 2 ^ 32 := by
      rw [hone, Nat.add_comm]
      exact hcount
    rw [if_neg (by omega), entries_buildLoop size (by omega) (by rw [hnext]; omega) hcount', hfirst,
      hnext]
    rfl
  · rw [if_pos hshort, hfirst, Nat.sub_eq_zero_of_le hshort, pages_zero (by decide), cover]

theorem length_entriesOf {address size : ℕ}
    (h : pages 4096 (size - toEnd 4096 address) + 1 < 2 ^ 32) (hsize : size ≤ 2 ^ 63) :
    (entriesOf 4096 address size).length = prpCount (address % 4096) size 4096 := by
  have hend : toEnd 4096 address = 4096 - address % 4096 % 4096 := by rw [Nat.mod_mod, toEnd]
  unfold entriesOf prpCount
  rw [hend] at h ⊢
  by_cases hzero : size = 0
  · rw [if_pos hzero, if_pos hzero]
    rfl
  rw [if_neg hzero, if_neg hzero, List.length_cons, length_cover]
  by_cases hshort : size ≤ 4096 - address % 4096 % 4096
  · rw [Nat.sub_eq_zero_of_le hshort, pages_zero (by decide)]
    exact (if_pos hshort).symm
  · have hsum : u64 (size - (4096 - address % 4096 % 4096) + 4096 - 1) =
        size - (4096 - address % 4096 % 4096) + 4096 - 1 := u64_of_lt (by omega)
    unfold pages at h ⊢
    refine Eq.trans ?_ (if_neg hshort).symm
    change _ = (1 + u64 (size - (4096 - address % 4096 % 4096) + 4096 - 1) / 4096 % 2 ^ 32) % 2 ^ 32
    rw [hsum]
    omega

/-! ## Right transfers -/

section

variable {nvme : Controller} {lba : BitVec 64} {block_count : BitVec 32} {buffer : BitVec 64}
  {mem : Words} {size prp1 prp2 : ℕ} {es : List ℕ} {cmd : Cmd}

/-- One pointer describes what is in one page, and the second one is not 0 by accident. -/
theorem mod_add_le_of_denotes (hsize : size ≤ 4096)
    (h : Denotes 4096 mem prp1 0 size es) (hbytes : bytes 4096 es size = List.range' prp1 size) :
    prp1 % 4096 + size ≤ 4096 := by
  by_contra hlong
  have hpos := toEnd_pos (by decide : 0 < 4096) prp1
  have hend : toEnd 4096 prp1 = 4096 - prp1 % 4096 := rfl
  rw [Denotes, if_neg (by omega), if_neg (by omega), if_pos (by omega)] at h
  have hmem : 0 ∈ bytes 4096 es size := by
    rw [h.2, bytes, bytes, List.mem_append, List.mem_append]
    refine Or.inr (Or.inl (List.mem_range'_1.mpr ⟨le_refl 0, ?_⟩))
    rw [toEnd_of_dvd (dvd_zero 4096)]
    omega
  rw [hbytes, List.mem_range'_1] at hmem
  omega

/-- A second pointer that is at the offset of the buffer is right only if that is 0. -/
theorem mod_eq_zero_of_denotes (hsize : 4096 < size) (h : Denotes 4096 mem prp1 prp2 size es)
    (hword : ¬4096 ∣ mem prp2)
    (hprp2 : prp2 % 4096 = prp1 % 4096 ∨ 8192 < size) : prp1 % 4096 = 0 := by
  by_contra hoffset
  have hend : toEnd 4096 prp1 = 4096 - prp1 % 4096 := rfl
  rw [Denotes, if_neg (by omega), if_neg (by omega)] at h
  split_ifs at h with hpage
  · omega
  · obtain ⟨-, es', hread, -⟩ := h
    exact hword (hread.inv (by omega)).1

/-- A right transfer is one of a buffer in the address space. -/
theorem Right.in_space {mem : Memory} (h : Right nvme block_count buffer cmd mem) :
    buffer.toNat + transferSize nvme block_count ≤ 2 ^ 64 := by
  obtain ⟨entries, hdenotes, hbytes, -, -⟩ := h.data
  have hentries := hdenotes.lt cmd.prp1.isLt cmd.prp2.isLt fun p => (mem p).isLt
  have hlt := buffer.isLt
  by_contra hlong
  have hlast : buffer.toNat + (transferSize nvme block_count - 1) ∈
      bytes 4096 entries (transferSize nvme block_count) := by
    rw [hbytes, List.mem_range'_1]
    omega
  have hend := bytes_lt (by decide) (by decide : 4096 ∣ 2 ^ 64) hentries hlast
  omega

/-- A list of more than 512 entries is chained. -/
theorem dvd_of_denotes (hsize : 513 * 4096 < size) (hprp1 : prp1 % 4096 = 0)
    (hprp2 : prp2 % 4096 = 0) (h : Denotes 4096 mem prp1 prp2 size es) :
    4096 ∣ mem (mem (prp2 + 8 * 511)) := by
  have hend : toEnd 4096 prp1 = 4096 := toEnd_of_dvd (Nat.dvd_of_mod_eq_zero hprp1)
  rw [Denotes, hend, if_neg (by omega), if_neg (by omega), if_neg (by omega)] at h
  obtain ⟨-, es', hread, -⟩ := h
  exact hread.chained (by decide) (by omega) (by omega)

/-- Memory from one of two pages on, which keeps away from an address. -/
def allocatorAt (page : BitVec 64) (h : 4096 ∣ page.toNat) : DmaAllocator where
  alloc size := if page.toNat + size ≤ 2 ^ 64 then some page else none
  aligned size a ha := by
    split_ifs at ha
    exact Option.some.inj ha ▸ h
  room size a ha := by
    split_ifs at ha with hroom
    exact Option.some.inj ha ▸ hroom

theorem fitting_of_right (hne : block_count ≠ 0) {opc : UInt8} {prp2 : BitVec 64} {mem : Memory}
    (h : Right nvme block_count buffer (commandOf opc nvme lba block_count buffer prp2) mem)
    (hplaced : buffer.toNat % 4096 + transferSize nvme block_count ≤ 4096 ∨
      buffer.toNat % 4096 = 0 ∧ transferSize nvme block_count ≤ 513 * 4096) :
    Fitting nvme lba block_count buffer :=
  ⟨(blocks_iff hne).mp h.blocks, @toNat_slba nvme lba block_count buffer opc prp2 ▸ h.range,
    h.in_space, hplaced⟩

theorem transferSize_lt (nvme : Controller) (block_count : BitVec 32) :
    transferSize nvme block_count < 2 ^ 64 - 4095 := by
  have hmul := Nat.mul_le_mul (Nat.le_sub_one_of_lt block_count.isLt)
    (Nat.le_sub_one_of_lt nvme.block_size.isLt)
  exact Nat.lt_of_le_of_lt hmul (by decide)

/-- Where a list is written for a buffer that does not begin at a page, or for one of more than 513
pages, its first entry is not at a page, or what is read behind its last one is the caller's. -/
theorem placed_of_list (h : Describes nvme lba block_count buffer)
    (hacc : Accepted nvme lba block_count buffer) (hsize : 8192 < transferSize nvme block_count) :
    Fitting nvme lba block_count buffer := by
  have hlt := transferSize_lt nvme block_count
  have hlen : listLength (transferSize nvme block_count) * 8 ≤ 2 ^ 55 := by
    unfold listLength
    omega
  -- the list is kept away from the page that the chain leads to
  obtain ⟨page, hpage, hroom, haway⟩ : ∃ page : BitVec 64, 4096 ∣ page.toNat ∧
      page.toNat + 2 ^ 55 ≤ 2 ^ 64 ∧ ((buffer + BitVec.ofNat 64 (512 * 4096)).toNat < page.toNat ∨
        page.toNat + 2 ^ 55 ≤ (buffer + BitVec.ofNat 64 (512 * 4096)).toNat) := by
    by_cases hlow : (buffer + BitVec.ofNat 64 (512 * 4096)).toNat < 2 ^ 60
    · exact ⟨0x1000000000000000, by decide, by decide, Or.inl hlow⟩
    · refine ⟨4096, by decide, by decide, Or.inr ?_⟩
      rw [show (4096 : BitVec 64).toNat = 4096 from rfl]
      omega
  have halloc : (allocatorAt page hpage).alloc (listLength (transferSize nvme block_count) * 8) =
      some page := if_pos (by omega)
  have hright := h read (List.mem_cons_self ..) (allocatorAt page hpage) (fun _ => 1) _ _
    ((transfer_eq hacc).trans (by rw [if_pos (by omega), if_neg (by omega), halloc]; rfl))
  have hlist : 2 ≤ listLength (transferSize nvme block_count) := by
    unfold listLength
    omega
  have hfirst := @fillPrps_at (fun _ => 1) page buffer 0 _ (Nat.lt_of_lt_of_le (by decide) hlist)
  obtain ⟨entries, hdenotes, -⟩ := hright.data
  have hoffset : buffer.toNat % 4096 = 0 := by
    by_contra hne
    refine hne (mod_eq_zero_of_denotes (by omega) hdenotes ?_ (Or.inr hsize))
    change ¬4096 ∣ (fillPrps (fun _ => 1) page buffer _ (page.toNat + 8 * 0)).toNat
    rw [hfirst, BitVec.toNat_add, Nat.zero_add, Nat.one_mul,
      show (BitVec.ofNat 64 4096).toNat = 4096 from rfl]
    omega
  refine fitting_of_right hacc.count_ne hright (Or.inr ⟨hoffset, ?_⟩)
  by_contra hlong
  have hmany : 511 < listLength (transferSize nvme block_count) := by
    unfold listLength
    omega
  have hchain := dvd_of_denotes (by omega) hoffset (Nat.mod_eq_zero_of_dvd hpage) hdenotes
  change 4096 ∣ (fillPrps (fun _ => 1) page buffer _
    (fillPrps (fun _ => 1) page buffer _ (page.toNat + 8 * 511)).toNat).toNat at hchain
  rw [fillPrps_at hmany, show 511 + 1 = 512 from rfl, fillPrps_of_ne (by intro i hi; omega)]
    at hchain
  exact absurd hchain (by decide)

/-- The transfers that are described right fit. -/
theorem fitting_of_describes (h : Describes nvme lba block_count buffer)
    (hacc : Accepted nvme lba block_count buffer) : Fitting nvme lba block_count buffer := by
  let dma : DmaAllocator := allocatorAt 0 (by decide)
  by_cases hone : transferSize nvme block_count ≤ 4096
  · have hright := h read (List.mem_cons_self ..) dma (fun _ => 1) _ _
      ((transfer_eq hacc).trans (if_neg (by omega)))
    obtain ⟨entries, hdenotes, hbytes, -⟩ := hright.data
    exact fitting_of_right hacc.count_ne hright
      (Or.inl (mod_add_le_of_denotes hone hdenotes hbytes))
  by_cases htwo : transferSize nvme block_count ≤ 8192
  · have hright := h read (List.mem_cons_self ..) dma (fun _ => 1) _ _
      ((transfer_eq hacc).trans (by rw [if_pos (by omega), if_pos htwo]))
    obtain ⟨entries, hdenotes, -⟩ := hright.data
    have hprp2 : (buffer + 4096).toNat % 4096 = buffer.toNat % 4096 := by
      rw [BitVec.toNat_add, show (4096 : BitVec 64).toNat = 4096 from rfl]
      omega
    have hoffset := mod_eq_zero_of_denotes (by omega) hdenotes
      (by decide) (Or.inl hprp2)
    exact fitting_of_right hacc.count_ne hright (Or.inr ⟨hoffset, by omega⟩)
  exact placed_of_list h hacc (by omega)

/-- The entries of a buffer that fits are the ones that are built and counted for it. -/
theorem data_of_denotes (hfit : Fitting nvme lba block_count buffer) (hne : buffer ≠ 0)
    (h : Denotes 4096 mem prp1 prp2 (transferSize nvme block_count)
      (entriesOf 4096 buffer.toNat (transferSize nvme block_count))) :
    ∃ entries, Denotes 4096 mem prp1 prp2 (transferSize nvme block_count) entries ∧
      bytes 4096 entries (transferSize nvme block_count) =
        List.range' buffer.toNat (transferSize nvme block_count) ∧
      entries =
        (buildPrpList buffer (transferSize nvme block_count) 4096).entries.map BitVec.toNat ∧
      entries.length = prpCount (buffer.toNat % 4096) (transferSize nvme block_count) 4096 := by
  have hend : toEnd 4096 buffer.toNat = 4096 - buffer.toNat % 4096 := rfl
  have hplaced := hfit.placed
  have hpages : pages 4096 (transferSize nvme block_count - toEnd 4096 buffer.toNat) + 1 <
      2 ^ 32 := by
    unfold pages
    omega
  exact ⟨_, h, bytes_entriesOf (by decide) _ _,
    (entries_buildPrpList hne hfit.in_space hpages).symm, length_entriesOf hpages (by omega)⟩

/-- What begins at a page and takes no more than two has its second page for its second pointer. -/
theorem entriesOf_two {address : ℕ} (haddress : address % 4096 = 0) (hlong : 4096 < size)
    (hsize : size ≤ 8192) : entriesOf 4096 address size = [address, address + 4096] := by
  have hend : toEnd 4096 address = 4096 := toEnd_of_dvd (Nat.dvd_of_mod_eq_zero haddress)
  rw [entriesOf, if_neg (by omega), hend, pages_succ (by decide) (by omega),
    show size - 4096 - 4096 = 0 by omega, pages_zero (by decide), cover, cover]

theorem right_of_fitting {opc : UInt8} {dma : DmaAllocator} {mem mem' : Memory}
    (hacc : Accepted nvme lba block_count buffer) (hfit : Fitting nvme lba block_count buffer)
    (h : transfer (cmdTransfer opc) (some nvme) lba block_count buffer dma mem =
      some (cmd, mem')) : Right nvme block_count buffer cmd mem' := by
  have hplaced := hfit.placed
  have hspace := hfit.in_space
  have hend : toEnd 4096 buffer.toNat = 4096 - buffer.toNat % 4096 := rfl
  have hblocks := fun prp2 : BitVec 64 =>
    (@blocks_iff nvme lba block_count buffer opc hacc.count_ne prp2).mpr hfit.blocks
  have hrange := fun prp2 : BitVec 64 =>
    (@toNat_slba nvme lba block_count buffer opc prp2).symm ▸ hfit.in_namespace
  rw [transfer_eq hacc] at h
  split_ifs at h with hlong hsize
  · -- two pages
    rw [Option.some.injEq, Prod.mk.injEq] at h
    obtain ⟨rfl, rfl⟩ := h
    refine ⟨hblocks _, hrange _, data_of_denotes hfit hacc.buffer_ne ?_⟩
    have hoffset : buffer.toNat % 4096 = 0 := by omega
    have hprp2 : (buffer + 4096).toNat = buffer.toNat + 4096 := by
      rw [BitVec.toNat_add, show (4096 : BitVec 64).toNat = 4096 from rfl,
        Nat.mod_eq_of_lt (by omega)]
    change Denotes 4096 _ buffer.toNat (buffer + 4096).toNat _ _
    rw [entriesOf_two hoffset hlong hsize, hprp2, Denotes, hend, if_neg (by omega),
      if_neg (by omega), if_pos (by omega)]
    exact ⟨by omega, rfl⟩
  · -- a list
    obtain ⟨prp_list, halloc, hcmd⟩ := Option.map_eq_some_iff.mp h
    rw [Prod.mk.injEq] at hcmd
    obtain ⟨rfl, rfl⟩ := hcmd
    refine ⟨hblocks _, hrange _, data_of_denotes hfit hacc.buffer_ne ?_⟩
    have hoffset : buffer.toNat % 4096 = 0 := by omega
    have haligned := dma.aligned _ _ halloc
    have hpages : pages 4096 (transferSize nvme block_count - 4096) =
        listLength (transferSize nvme block_count) := by
      unfold pages listLength
      omega
    have hlen : listLength (transferSize nvme block_count) ≤ 512 := by
      unfold listLength
      omega
    change Denotes 4096 _ buffer.toNat prp_list.toNat _ _
    rw [Denotes, hend, hoffset, if_neg (by omega), if_neg (by omega), if_neg (by omega), entriesOf,
      if_neg (by omega), hend, hoffset, Nat.sub_zero]
    refine ⟨by omega, _, reads_of_array (by decide) (by omega) (by rw [hpages]; omega)
      fun i hi => ?_, rfl⟩
    rw [hpages] at hi
    rw [fillPrps_at hi, BitVec.toNat_add, BitVec.toNat_ofNat]
    unfold listLength at hi
    omega
  · -- one page
    rw [Option.some.injEq, Prod.mk.injEq] at h
    obtain ⟨rfl, rfl⟩ := h
    refine ⟨hblocks _, hrange _, data_of_denotes hfit hacc.buffer_ne ?_⟩
    change Denotes 4096 _ buffer.toNat (0 : BitVec 64).toNat _ _
    rw [Denotes, entriesOf]
    split_ifs with hzero hshort
    · rfl
    · rw [Nat.sub_eq_zero_of_le hshort, pages_zero (by decide), cover]
    · omega
    · omega

/-- The transfers that are submitted are described right exactly if they fit. -/
theorem describes_iff (nvme : Controller) (lba : BitVec 64) (block_count : BitVec 32)
    (buffer : BitVec 64) : Describes nvme lba block_count buffer ↔
      (Accepted nvme lba block_count buffer → Fitting nvme lba block_count buffer) := by
  constructor
  · exact fitting_of_describes
  · intro hfit submit hsubmit dma mem cmd mem' h
    rw [List.mem_cons, List.mem_singleton] at hsubmit
    rcases hsubmit with rfl | rfl
    · exact right_of_fitting (accepted_of_transfer h) (hfit (accepted_of_transfer h)) h
    · exact right_of_fitting (accepted_of_transfer h) (hfit (accepted_of_transfer h)) h

end

/-- Eight blocks of 512 bytes, in a buffer that begins in the middle of a page : the second pointer
is 0. -/
theorem not_describes_offset : ¬Describes ⟨true, 1, 0x100000, 512⟩ 0 8 0x1800 := by
  intro h
  have hfit := fitting_of_describes h ⟨rfl, by decide, by decide, by decide⟩
  exact absurd hfit.placed (by decide)

end Nvme

end Seraph
