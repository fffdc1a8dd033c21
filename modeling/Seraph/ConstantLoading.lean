import Mathlib.Logic.Function.Basic
import Seraph.RiscvEncode

/-!
# Loading a constant on RISC-V

`rv_emit_li` loads 64 bits by additions to an upper immediate, or by chunks of 16 bits that are
shifted in. Whatever the register, the emitted words load one value, `loadedValue`
(`loads_rvEmitLi`). It is not always the constant : the low part of a constant of 32 bits is never
found to be negative, and a chunk is joined by an instruction that has room for 12 bits with a sign
(`loadedValue_eq_iff`).
-/

namespace Seraph

/-! ## Execution -/

/-- The integer registers. -/
abbrev RvRegs := RvReg → BitVec 64

/-- The number in a register ; the first one is always 0. -/
def RvRegs.read (regs : RvRegs) (r : RvReg) : BitVec 64 :=
  if r = 0 then 0 else regs r

/-- A register is set, except for the first one. -/
def RvRegs.write (regs : RvRegs) (r : RvReg) (x : BitVec 64) : RvRegs :=
  if r = 0 then regs else Function.update regs r x

/-- The registers after an instruction that the next one follows. -/
def RvInstr.exec (regs : RvRegs) : RvInstr → Option RvRegs
  | lui rd imm => some (regs.write rd (BitVec.ofInt 64 (imm * 2 ^ 12)))
  | addi rd rs1 imm => some (regs.write rd (regs.read rs1 + BitVec.ofInt 64 imm))
  | ori rd rs1 imm => some (regs.write rd (regs.read rs1 ||| BitVec.ofInt 64 imm))
  | slli rd rs1 shamt => some (regs.write rd (regs.read rs1 <<< shamt))
  | auipc _ _ | branch _ _ _ _ | jal _ _ | jalr _ _ _ => none

/-- Words are executed one after the other. -/
def rvRun (words : List (BitVec 32)) (regs : RvRegs) : Option RvRegs :=
  words.foldlM (fun regs word => (RvInstr.decode word).bind (RvInstr.exec regs)) regs

/-! ## The emitted words -/

/-- The number of chunks below the first one that is not zero, from `n` on. The source counts the
bits above them, `shift`. -/
def firstChunk (val : BitVec 64) : ℕ → ℕ
  | 0 => 0
  | n + 1 => if val.sshiftRight (16 * (n + 1)) = 0 then firstChunk val n else n + 1

/-- The chunk with `n` chunks below. -/
def chunkAt (val : BitVec 64) (n : ℕ) : BitVec 16 :=
  (val.sshiftRight (16 * n)).setWidth 16

/-- The first chunk is loaded. -/
def emitFirst (rd : RvReg) (chunk : BitVec 16) : List (BitVec 32) :=
  if -2048 ≤ chunk.toInt ∧ chunk.toInt < 2048 then
    [rvAddi rd 0 chunk]
  else
    [rvLui rd ((chunk.signExtend 32).sshiftRight 12 + if chunk &&& 0x800 ≠ 0 then 1 else 0)] ++
      if chunk &&& 0xFFF ≠ 0 then [rvAddi rd rd (chunk &&& 0xFFF)] else []

/-- The remaining chunks are shifted in. -/
def emitRest (rd : RvReg) (val : BitVec 64) : ℕ → List (BitVec 32)
  | 0 => []
  | n + 1 =>
    rvSlli rd rd 16 ::
      (if chunkAt val n ≠ 0 then [rvOri rd rd (chunkAt val n)] else []) ++ emitRest rd val n

/-- The words that `rv_emit_li` emits. -/
def rvEmitLi (rd : RvReg) (imm : BitVec 64) : List (BitVec 32) :=
  if -2048 ≤ imm.toInt ∧ imm.toInt < 2048 then
    [rvAddi rd 0 (imm.setWidth 16)]
  else if imm &&& 0xFFF = 0 ∧ -0x80000000 ≤ imm.toInt ∧ imm.toInt < 0x80000000 then
    [rvLui rd ((imm.sshiftRight 12).setWidth 32)]
  else if -0x80000000 ≤ imm.toInt ∧ imm.toInt < 0x80000000 then
    let hi := (imm.sshiftRight 12).setWidth 32
    let lo := (imm &&& 0xFFF).setWidth 16
    let hi := if lo.toInt < 0 then hi + 1 else hi
    [rvLui rd hi, rvAddi rd rd lo]
  else
    let first := firstChunk imm 3
    emitFirst rd (chunkAt imm first) ++ emitRest rd imm first

/-! ## Loads -/

/-- Words that set one register and nothing else. -/
def Loads (words : List (BitVec 32)) (rd : RvReg) (v : ℤ) : Prop :=
  ∀ regs : RvRegs, rvRun words regs = some (regs.write rd (BitVec.ofInt 64 v))

namespace RvRegs

variable (regs : RvRegs)

/-- Writes to the zero register are lost. -/
theorem write_zero (x : BitVec 64) : regs.write 0 x = regs :=
  if_pos rfl

/-- A register that is written has the value. -/
theorem read_write_same {r : RvReg} (h : r ≠ 0) (x : BitVec 64) : (regs.write r x).read r = x := by
  rw [read, write, if_neg h, if_neg h, Function.update_self]

/-- Other registers keep theirs. -/
theorem read_write_ne {r s : RvReg} (h : s ≠ r) (x : BitVec 64) :
    (regs.write r x).read s = regs.read s := by
  rw [read, read, write]
  split_ifs
  · rfl
  · rfl
  · rw [Function.update_of_ne h]

theorem write_write (r : RvReg) (x y : BitVec 64) :
    (regs.write r x).write r y = regs.write r y := by
  rw [write, write, write]
  split_ifs
  · rfl
  · rw [Function.update_idem]

end RvRegs

/-- Instructions run one after the other. -/
theorem rvRun_append (front back : List (BitVec 32)) (regs : RvRegs) :
    rvRun (front ++ back) regs = (rvRun front regs).bind (rvRun back) := by
  rw [rvRun, List.foldlM_append]
  rfl

theorem rvRun_singleton {word : BitVec 32} {instr : RvInstr}
    (h : RvInstr.decode word = some instr) (regs : RvRegs) :
    rvRun [word] regs = instr.exec regs := by
  rw [rvRun, List.foldlM_cons, h]
  exact bind_pure (instr.exec regs)

namespace Loads

variable {words : List (BitVec 32)} {rd : RvReg} {v : ℤ}

/-- `addi` from zero loads twelve bits with their sign. -/
theorem addi_zero (rd : RvReg) (imm : BitVec 16) :
    Loads [rvAddi rd 0 imm] rd (Int.bmod imm.toInt (2 ^ 12)) := by
  intro regs
  rw [rvRun_singleton (decode_rvAddi rd 0 imm)]
  exact congrArg (fun x => some (regs.write rd x)) (BitVec.zero_add _)

/-- `lui` loads twenty bits above the low twelve. -/
theorem lui (rd : RvReg) (imm : BitVec 32) :
    Loads [rvLui rd imm] rd (Int.bmod imm.toInt (2 ^ 20) * 2 ^ 12) := by
  intro regs
  rw [rvRun_singleton (decode_rvLui rd imm)]
  rfl

/-- An instruction from the register to itself. -/
theorem step {word : BitVec 32} {instr : RvInstr} {f : BitVec 64 → BitVec 64} {w : ℤ}
    (h : Loads words rd v) (hdecode : RvInstr.decode word = some instr)
    (hexec : ∀ regs : RvRegs, instr.exec regs = some (regs.write rd (f (regs.read rd))))
    (hvalue : f (BitVec.ofInt 64 v) = BitVec.ofInt 64 w) : Loads (words ++ [word]) rd w := by
  intro regs
  rw [rvRun_append, h regs, Option.bind_some, rvRun_singleton hdecode, hexec]
  by_cases hrd : rd = 0
  · subst hrd
    rw [RvRegs.write_zero, RvRegs.write_zero, RvRegs.write_zero]
  · rw [RvRegs.read_write_same _ hrd, RvRegs.write_write, hvalue]

/-- `addi` adds twelve bits with their sign. -/
theorem addi (h : Loads words rd v) (imm : BitVec 16) :
    Loads (words ++ [rvAddi rd rd imm]) rd (v + Int.bmod imm.toInt (2 ^ 12)) :=
  h.step (f := (· + BitVec.ofInt 64 (Int.bmod imm.toInt (2 ^ 12)))) (decode_rvAddi rd rd imm)
    (fun _ => rfl) (BitVec.ofInt_add ..).symm

/-- A shift by 16 makes room for a chunk. -/
theorem slli (h : Loads words rd v) : Loads (words ++ [rvSlli rd rd 16]) rd (v * 2 ^ 16) := by
  refine h.step (f := (· <<< 16)) (decode_rvSlli rd rd 16) (fun _ => rfl) ?_
  rw [BitVec.shiftLeft_eq_mul_twoPow, BitVec.ofInt_mul]
  rfl

/-- The bits of a number with a sign, above a number that was shifted in. -/
theorem shiftLeft_or_ofInt (x : BitVec 64) {c : ℤ} (hlo : -2 ^ 11 ≤ c) (hhi : c < 2 ^ 11) :
    x <<< 16 ||| BitVec.ofInt 64 c =
      if 0 ≤ c then x <<< 16 + BitVec.ofInt 64 c else BitVec.ofInt 64 c := by
  split_ifs with hc
  · obtain ⟨n, rfl⟩ := Int.eq_ofNat_of_zero_le hc
    rw [BitVec.ofInt_natCast, BitVec.add_eq_or_of_and_eq_zero]
    apply BitVec.eq_of_getLsbD_eq
    intro i hi
    rw [BitVec.getLsbD_and, BitVec.getLsbD_shiftLeft, BitVec.getLsbD_ofNat, BitVec.getLsbD_zero]
    by_cases hlow : i < 16
    · simp [hlow]
    · rw [Nat.testBit_lt_two_pow (lt_of_lt_of_le (by omega : n < 2 ^ 11)
        (Nat.pow_le_pow_right (by decide) (by omega)))]
      simp
  · obtain ⟨n, hn⟩ := Int.eq_negSucc_of_lt_zero (by omega : c < 0)
    subst hn
    rw [BitVec.ofInt_negSucc_eq_not_ofNat]
    apply BitVec.eq_of_getLsbD_eq
    intro i hi
    rw [BitVec.getLsbD_or, BitVec.getLsbD_shiftLeft, BitVec.getLsbD_not, BitVec.getLsbD_ofNat]
    by_cases hlow : i < 16
    · simp [hlow]
    · rw [Nat.testBit_lt_two_pow (lt_of_lt_of_le (by omega : n < 2 ^ 11)
        (Nat.pow_le_pow_right (by decide) (by omega)))]
      simp [hi]

/-- What joining a chunk to a register gives : the chunk is cut to 12 bits with a sign. -/
def joined (v c : ℤ) : ℤ :=
  if 0 ≤ Int.bmod c (2 ^ 12) then v * 2 ^ 16 + Int.bmod c (2 ^ 12) else Int.bmod c (2 ^ 12)

theorem bmod_low_bounds (c : ℤ) : -2 ^ 11 ≤ Int.bmod c (2 ^ 12) ∧ Int.bmod c (2 ^ 12) < 2 ^ 11 := by
  have hlo := Int.le_bmod (x := c) (by decide : 0 < 2 ^ 12)
  have hhi := Int.bmod_lt (x := c) (by decide : 0 < 2 ^ 12)
  omega

/-- A shift and an `ori` join a chunk. -/
theorem ori (h : Loads words rd v) (chunk : BitVec 16) :
    Loads (words ++ [rvSlli rd rd 16] ++ [rvOri rd rd chunk]) rd (joined v chunk.toInt) := by
  obtain ⟨hlo, hhi⟩ := bmod_low_bounds chunk.toInt
  refine h.slli.step (f := (· ||| BitVec.ofInt 64 (Int.bmod chunk.toInt (2 ^ 12))))
    (decode_rvOri rd rd chunk) (fun _ => rfl) ?_
  have hshift : BitVec.ofInt 64 (v * 2 ^ 16) = BitVec.ofInt 64 v <<< 16 := by
    rw [BitVec.shiftLeft_eq_mul_twoPow, BitVec.ofInt_mul]
    rfl
  rw [hshift, shiftLeft_or_ofInt _ hlo hhi, joined, ← hshift]
  split_ifs
  · rw [BitVec.ofInt_add]
  · rfl

/-- A chunk as a signed number of 16 bits. -/
theorem toInt_chunkAt (val : BitVec 64) {n : ℕ} (hn : n ≤ 3) :
    (chunkAt val n).toInt = Int.bmod (val.toInt / 2 ^ (16 * n)) (2 ^ 16) := by
  rw [chunkAt, InstrField.setWidth_sshiftRight val (by omega),
    InstrField.toInt_extract val (by omega)]

/-- The value after the remaining chunks. -/
def restValue (z : ℤ) : ℕ → ℤ → ℤ
  | 0, v => v
  | n + 1, v => restValue z n (joined v (z / 2 ^ (16 * n)))

theorem bmod_chunk (val : BitVec 64) {n : ℕ} (hn : n ≤ 3) :
    Int.bmod (chunkAt val n).toInt (2 ^ 12) = Int.bmod (val.toInt / 2 ^ (16 * n)) (2 ^ 12) := by
  rw [toInt_chunkAt val hn, Int.bmod_bmod_of_dvd (by decide)]

/-- The chunks below the first are joined one by one. -/
theorem rest (h : Loads words rd v) (val : BitVec 64) {n : ℕ} (hn : n ≤ 3 + 1) :
    Loads (words ++ emitRest rd val n) rd (restValue val.toInt n v) := by
  induction n generalizing words v with
  | zero => rwa [emitRest, List.append_nil]
  | succ n ih =>
    have hjoined : joined v (chunkAt val n).toInt = joined v (val.toInt / 2 ^ (16 * n)) := by
      rw [joined, joined, bmod_chunk val (by omega)]
    have hsplit : words ++ emitRest rd val (n + 1) = words ++ [rvSlli rd rd 16] ++
        (if chunkAt val n ≠ 0 then [rvOri rd rd (chunkAt val n)] else []) ++
        emitRest rd val n := by
      rw [emitRest, List.cons_append, List.append_assoc, List.append_assoc]
      rfl
    rw [hsplit, restValue, ← hjoined]
    refine ih ?_ (by omega)
    split_ifs with hchunk
    · exact h.ori _
    · rw [ne_eq, not_not] at hchunk
      rw [List.append_nil, hchunk]
      simpa [joined] using h.slli

/-- Bit 11 of a chunk. -/
theorem and_0x800_ne_zero (chunk : BitVec 16) :
    chunk &&& 0x800 ≠ 0 ↔ 2 ^ 11 ≤ chunk.toInt % 2 ^ 12 := by
  have hbit : chunk &&& 0x800 ≠ 0 ↔ chunk.toNat / 2 ^ 11 % 2 = 1 := by
    rw [show (0x800 : BitVec 16) = BitVec.twoPow 16 11 by decide, BitVec.and_twoPow,
      ← BitVec.testBit_toNat, Nat.testBit_eq_decide_div_mod_eq]
    by_cases h : chunk.toNat / 2 ^ 11 % 2 = 1
    · rw [decide_eq_true h, if_pos rfl]
      exact iff_of_true (by decide) h
    · rw [decide_eq_false h, if_neg Bool.false_ne_true]
      exact iff_of_false (fun hne => hne rfl) h
  obtain ⟨c, hc⟩ := InstrField.toNat_eq_toInt_add chunk
  rw [hbit]
  omega

/-- The low part of a chunk as an addition takes it. -/
theorem bmod_low (c : ℤ) : Int.bmod (c % 2 ^ 12) (2 ^ 12) =
    if 2 ^ 11 ≤ c % 2 ^ 12 then c % 2 ^ 12 - 2 ^ 12 else c % 2 ^ 12 := by
  have h12 : ((2 ^ 12 : ℕ) : ℤ) = 4096 := rfl
  rw [Int.bmod_def, h12]
  split_ifs <;> omega

/-- The first chunk is loaded with its sign. -/
theorem emitFirst (rd : RvReg) (chunk : BitVec 16) :
    Loads (Seraph.emitFirst rd chunk) rd chunk.toInt := by
  have hlo := BitVec.le_toInt chunk
  have hhi := BitVec.toInt_lt (x := chunk)
  by_cases hsmall : -2048 ≤ chunk.toInt ∧ chunk.toInt < 2048
  · rw [Seraph.emitFirst, if_pos hsmall]
    have h := addi_zero rd chunk
    rwa [Int.bmod_eq_of_le (by omega) (by omega)] at h
  rw [Seraph.emitFirst, if_neg hsmall]
  have hlow : (chunk &&& 0xFFF).toInt = chunk.toInt % 2 ^ 12 := by
    have hnat : ((chunk &&& 0xFFF).toNat : ℤ) = chunk.toInt % 2 ^ 12 :=
      InstrField.toNat_low chunk (k := 12) (by decide)
    rw [BitVec.toInt_eq_toNat_of_lt (by omega), hnat]
  have hshift : ((chunk.signExtend 32).sshiftRight 12).toInt = chunk.toInt / 2 ^ 12 := by
    rw [BitVec.toInt_sshiftRight, BitVec.toInt_signExtend_of_le (by decide)]
    exact Int.shiftRight_eq_div_pow _ _
  have hupper : ((chunk.signExtend 32).sshiftRight 12 +
      if chunk &&& 0x800 ≠ 0 then 1 else 0).toInt * 2 ^ 12 =
      chunk.toInt - Int.bmod (chunk.toInt % 2 ^ 12) (2 ^ 12) := by
    rw [bmod_low]
    simp only [and_0x800_ne_zero]
    split_ifs
    · rw [BitVec.toInt_add, hshift, show (1 : BitVec 32).toInt = 1 by decide,
        Int.bmod_eq_of_le (by omega) (by omega)]
      omega
    · rw [show (0 : BitVec 32) = 0#32 from rfl, BitVec.add_zero, hshift]
      omega
  have hlui := lui rd ((chunk.signExtend 32).sshiftRight 12 +
    if chunk &&& 0x800 ≠ 0 then 1 else 0)
  have hbounds := bmod_low_bounds (chunk.toInt % 2 ^ 12)
  rw [Int.bmod_eq_of_le (by omega) (by omega), hupper] at hlui
  by_cases hzero : chunk &&& 0xFFF = 0
  · rw [if_neg (not_not.2 hzero), List.append_nil]
    rw [hzero] at hlow
    rwa [← hlow, show (0 : BitVec 16).toInt = 0 by decide, show Int.bmod 0 (2 ^ 12) = 0 by decide,
      Int.sub_zero] at hlui
  · rw [if_pos hzero]
    have hboth := hlui.addi (chunk &&& 0xFFF)
    rwa [hlow, Int.sub_add_cancel] at hboth

end Loads

/-- The value that the words of `rv_emit_li` load. -/
def loadedValue (z : ℤ) (first : ℕ) : ℤ :=
  if -2048 ≤ z ∧ z < 2048 then z
  else if -0x80000000 ≤ z ∧ z < 0x80000000 then
    if z % 2 ^ 12 < 2 ^ 11 then z else z - 2 ^ 12
  else Loads.restValue z first (Int.bmod (z / 2 ^ (16 * first)) (2 ^ 16))

theorem firstChunk_le (val : BitVec 64) (n : ℕ) : firstChunk val n ≤ n := by
  induction n with
  | zero => exact Nat.le_refl 0
  | succ n ih =>
    rw [firstChunk]
    split
    · exact Nat.le_succ_of_le ih
    · exact Nat.le_refl _

/-- What the code for a constant loads. -/
theorem loads_rvEmitLi (rd : RvReg) (imm : BitVec 64) :
    Loads (rvEmitLi rd imm) rd (loadedValue imm.toInt (firstChunk imm 3)) := by
  have hlow : ((imm &&& 0xFFF).toNat : ℤ) = imm.toInt % 2 ^ 12 :=
    InstrField.toNat_low imm (k := 12) (by decide)
  unfold rvEmitLi loadedValue
  by_cases h12 : -2048 ≤ imm.toInt ∧ imm.toInt < 2048
  · rw [if_pos h12, if_pos h12]
    have h := Loads.addi_zero rd (imm.setWidth 16)
    rwa [BitVec.setWidth_eq_extractLsb' (by decide), InstrField.toInt_extract imm (by decide),
      Int.bmod_bmod_of_dvd (by decide), pow_zero, Int.ediv_one,
      Int.bmod_eq_of_le (by omega) (by omega)] at h
  rw [if_neg h12, if_neg h12]
  by_cases h32 : -0x80000000 ≤ imm.toInt ∧ imm.toInt < 0x80000000
  · have hupper : ((imm.sshiftRight 12).setWidth 32).toInt = imm.toInt / 2 ^ 12 := by
      rw [InstrField.setWidth_sshiftRight imm (by decide), InstrField.toInt_extract imm (by decide)]
      exact Int.bmod_eq_of_le (by omega) (by omega)
    have hlui := Loads.lui rd ((imm.sshiftRight 12).setWidth 32)
    rw [hupper, Int.bmod_eq_of_le (by omega) (by omega)] at hlui
    by_cases hzero : imm &&& 0xFFF = 0
    · rw [hzero] at hlow
      have hmod : imm.toInt % 2 ^ 12 = 0 := hlow.symm
      rw [show imm.toInt / 2 ^ 12 * 2 ^ 12 = imm.toInt by omega] at hlui
      rwa [if_pos ⟨hzero, h32⟩, if_pos h32, if_pos (show imm.toInt % 2 ^ 12 < 2 ^ 11 by omega)]
    · have hlo : ((imm &&& 0xFFF).setWidth 16).toInt = imm.toInt % 2 ^ 12 := by
        rw [BitVec.toInt_setWidth, hlow]
        exact Int.bmod_eq_of_le (by omega) (by omega)
      have hboth := hlui.addi ((imm &&& 0xFFF).setWidth 16)
      rw [hlo, Loads.bmod_low] at hboth
      rw [if_neg fun h => hzero h.1, if_pos h32, if_pos h32]
      -- the low part is never found to be negative
      simp only [hlo, if_neg (show ¬ imm.toInt % 2 ^ 12 < 0 by omega)]
      have hsum : imm.toInt / 2 ^ 12 * 2 ^ 12 + (if 2 ^ 11 ≤ imm.toInt % 2 ^ 12 then
          imm.toInt % 2 ^ 12 - 2 ^ 12 else imm.toInt % 2 ^ 12) =
          if imm.toInt % 2 ^ 12 < 2 ^ 11 then imm.toInt else imm.toInt - 2 ^ 12 := by
        split_ifs <;> omega
      rwa [hsum] at hboth
  · rw [if_neg fun h => h32 h.2, if_neg h32, if_neg h32]
    have hfirst := firstChunk_le imm 3
    have h := (Loads.emitFirst rd (chunkAt imm (firstChunk imm 3))).rest imm (n := firstChunk imm 3)
      (by omega)
    rwa [Loads.toInt_chunkAt imm hfirst] at h

/-! ## Which constants are loaded -/

/-- The constants that are loaded as they are. One that fits into 32 bits has bit 11 clear, or is
small. Of a larger one, every chunk but the first is below 2048 ; the first chunk, where it is not
the top one, has no sign, and below a top chunk of ones the next one may be within 2048 of 2^16. -/
def RvFits (z : ℤ) : Prop :=
  -2048 ≤ z ∧ z < 2048 ∨
    (-0x80000000 ≤ z ∧ z < 0x80000000) ∧ z % 2 ^ 12 < 2 ^ 11 ∨
    ¬ (-0x80000000 ≤ z ∧ z < 0x80000000) ∧ z % 2 ^ 16 < 2 ^ 11 ∧ z / 2 ^ 16 % 2 ^ 16 < 2 ^ 11 ∧
      (z / 2 ^ 48 ≠ 0 ∧ z / 2 ^ 32 % 2 ^ 16 < 2 ^ 11 ∨
        z / 2 ^ 48 = -1 ∧ 2 ^ 16 - 2 ^ 11 ≤ z / 2 ^ 32 % 2 ^ 16 ∨
        z / 2 ^ 48 = 0 ∧ 0 < z / 2 ^ 32 ∧ z / 2 ^ 32 < 2 ^ 15)

namespace Loads

/-- When joining a chunk gives the number with that chunk. -/
theorem joined_eq_iff (v c : ℤ) : joined v c = c ↔
    c % 2 ^ 16 < 2 ^ 11 ∧ v = c / 2 ^ 16 ∨ -2 ^ 11 ≤ c ∧ c < 0 := by
  have h12 : ((2 ^ 12 : ℕ) : ℤ) = 4096 := rfl
  unfold joined
  rw [Int.bmod_def, h12]
  split_ifs <;> omega

/-- Joining a chunk makes a number 16 bits longer. -/
theorem joined_bounds {v m : ℤ} (c : ℤ) (hlo : -m ≤ v) (hhi : v < m) :
    -(m * 2 ^ 16) ≤ joined v c ∧ joined v c < m * 2 ^ 16 := by
  have := bmod_low_bounds c
  unfold joined
  split_ifs <;> omega

theorem restValue_eq_iff {z : ℤ} (h32 : ¬ (-0x80000000 ≤ z ∧ z < 0x80000000)) (v : ℤ) :
    (restValue z 3 v = z ↔ z % 2 ^ 16 < 2 ^ 11 ∧ z / 2 ^ 16 % 2 ^ 16 < 2 ^ 11 ∧
      (z / 2 ^ 32 % 2 ^ 16 < 2 ^ 11 ∧ v = z / 2 ^ 48 ∨ -2 ^ 11 ≤ z / 2 ^ 32 ∧ z / 2 ^ 32 < 0)) ∧
    (restValue z 2 v = z ↔ z % 2 ^ 16 < 2 ^ 11 ∧ z / 2 ^ 16 % 2 ^ 16 < 2 ^ 11 ∧
      v = z / 2 ^ 32) ∧
    (restValue z 1 v = z ↔ z % 2 ^ 16 < 2 ^ 11 ∧ v = z / 2 ^ 16) := by
  have hone : ∀ v, restValue z 1 v = z ↔ z % 2 ^ 16 < 2 ^ 11 ∧ v = z / 2 ^ 16 := by
    intro v
    have h := joined_eq_iff v z
    simp only [restValue, Nat.mul_zero, pow_zero, Int.ediv_one]
    rw [h]
    omega
  have htwo : ∀ v, restValue z 2 v = z ↔ z % 2 ^ 16 < 2 ^ 11 ∧ z / 2 ^ 16 % 2 ^ 16 < 2 ^ 11 ∧
      v = z / 2 ^ 32 := by
    intro v
    have h := joined_eq_iff v (z / 2 ^ 16)
    rw [show restValue z 2 v = restValue z 1 (joined v (z / 2 ^ 16)) from rfl, hone, h]
    omega
  refine ⟨?_, htwo v, hone v⟩
  have h := joined_eq_iff v (z / 2 ^ 32)
  rw [show restValue z 3 v = restValue z 2 (joined v (z / 2 ^ 32)) from rfl, htwo, h]
  omega

theorem restValue_bounds {z v : ℤ} {n : ℕ} (hn : n ≤ 3) (hlo : -2 ^ 15 ≤ v) (hhi : v < 2 ^ 15) :
    -2 ^ 63 ≤ restValue z n v ∧ restValue z n v < 2 ^ 63 := by
  have hbounds : ∀ k ≤ n, ∀ m v : ℤ, -m ≤ v → v < m → m * 2 ^ (16 * k) ≤ 2 ^ 63 →
      -2 ^ 63 ≤ restValue z k v ∧ restValue z k v < 2 ^ 63 := by
    intro k
    induction k with
    | zero =>
      intro _ m v hlo hhi hm
      simp only [Nat.mul_zero, pow_zero, Int.mul_one] at hm
      rw [restValue]
      omega
    | succ k ih =>
      intro hk m v hlo hhi hm
      obtain ⟨hlo', hhi'⟩ := joined_bounds (z / 2 ^ (16 * k)) hlo hhi
      refine ih (by omega) (m * 2 ^ 16) _ hlo' hhi' ?_
      rwa [Int.mul_assoc, ← pow_add, Nat.add_comm]
  refine hbounds n (Nat.le_refl n) (2 ^ 15) v hlo hhi ?_
  rw [← pow_add]
  exact pow_le_pow_right₀ (by decide) (by omega)

end Loads

theorem sshiftRight_eq_zero_iff (val : BitVec 64) (k : ℕ) :
    val.sshiftRight k = 0 ↔ val.toInt / 2 ^ k = 0 := by
  have hshift : (val.sshiftRight k).toInt = val.toInt / 2 ^ k := by
    rw [BitVec.toInt_sshiftRight]
    exact Int.shiftRight_eq_div_pow _ _
  rw [← hshift]
  exact ⟨fun h => by rw [h]; rfl, fun h => BitVec.eq_of_toInt_eq h⟩

/-- The first chunk is the highest that is not zero. -/
theorem firstChunk_eq (imm : BitVec 64) : firstChunk imm 3 =
    if imm.toInt / 2 ^ 48 ≠ 0 then 3 else if imm.toInt / 2 ^ 32 ≠ 0 then 2
    else if imm.toInt / 2 ^ 16 ≠ 0 then 1 else 0 := by
  simp only [firstChunk, sshiftRight_eq_zero_iff, Nat.reduceAdd, Nat.reduceMul, Nat.zero_add,
    ite_not]

theorem bmod_sign (c : ℤ) (hlo : -2 ^ 15 ≤ c) (hhi : c < 2 ^ 16) :
    Int.bmod c (2 ^ 16) = if c < 2 ^ 15 then c else c - 2 ^ 16 := by
  have h16 : ((2 ^ 16 : ℕ) : ℤ) = 65536 := rfl
  rw [Int.bmod_def, h16]
  split_ifs <;> omega

/-- The constant itself is loaded for those that fit. -/
theorem loadedValue_eq_iff (imm : BitVec 64) :
    loadedValue imm.toInt (firstChunk imm 3) = imm.toInt ↔ RvFits imm.toInt := by
  unfold loadedValue RvFits
  rw [firstChunk_eq]
  have hlo := BitVec.le_toInt imm
  have hhi := BitVec.toInt_lt (x := imm)
  generalize imm.toInt = z at *
  by_cases h12 : -2048 ≤ z ∧ z < 2048
  · rw [if_pos h12]
    exact iff_of_true rfl (.inl h12)
  by_cases h32 : -0x80000000 ≤ z ∧ z < 0x80000000
  · rw [if_neg h12, if_pos h32]
    split_ifs <;> omega
  rw [if_neg h12, if_neg h32]
  split_ifs with h48 h32' h16
  · rw [(Loads.restValue_eq_iff h32 _).1, bmod_sign _ (by omega) (by omega)]
    split_ifs <;> omega
  · rw [(Loads.restValue_eq_iff h32 _).2.1, bmod_sign _ (by omega) (by omega)]
    split_ifs <;> omega
  · rw [(Loads.restValue_eq_iff h32 _).2.2, bmod_sign _ (by omega) (by omega)]
    split_ifs <;> omega
  · omega

theorem loadedValue_bounds (imm : BitVec 64) :
    -2 ^ 63 ≤ loadedValue imm.toInt (firstChunk imm 3) ∧
      loadedValue imm.toInt (firstChunk imm 3) < 2 ^ 63 := by
  have hlo := BitVec.le_toInt imm
  have hhi := BitVec.toInt_lt (x := imm)
  have hfirst := firstChunk_le imm 3
  unfold loadedValue
  split_ifs
  · omega
  · omega
  · omega
  · have hchunk := Int.le_bmod (x := imm.toInt / 2 ^ (16 * firstChunk imm 3))
      (by decide : 0 < 2 ^ 16)
    have hchunk' := Int.bmod_lt (x := imm.toInt / 2 ^ (16 * firstChunk imm 3))
      (by decide : 0 < 2 ^ 16)
    exact Loads.restValue_bounds hfirst (by omega) (by omega)

/-- The emitted words leave the constant in the register and change no other. -/
def RvLoaded (rd : RvReg) (imm : BitVec 64) : Prop :=
  ∀ regs : RvRegs, ∃ regs' : RvRegs, rvRun (rvEmitLi rd imm) regs = some regs' ∧
    regs'.read rd = imm ∧ ∀ r, r ≠ rd → regs'.read r = regs.read r

/-- A register that is always 0 holds 0, and any other the constants that fit. -/
theorem rvLoaded_iff (rd : RvReg) (imm : BitVec 64) :
    RvLoaded rd imm ↔ if rd = 0 then imm = 0 else RvFits imm.toInt := by
  obtain ⟨hlo, hhi⟩ := loadedValue_bounds imm
  have hloads := loads_rvEmitLi rd imm
  by_cases hrd : rd = 0
  · rw [if_pos hrd]
    constructor
    · intro h
      obtain ⟨regs', -, hread, -⟩ := h fun _ => 0
      rw [← hread, RvRegs.read, if_pos hrd]
    · intro himm regs
      refine ⟨_, hloads regs, ?_, fun r hr => RvRegs.read_write_ne _ hr _⟩
      rw [RvRegs.read, if_pos hrd, himm]
  · rw [if_neg hrd, ← loadedValue_eq_iff]
    constructor
    · intro h
      obtain ⟨regs', hrun, hread, -⟩ := h fun _ => 0
      rw [hloads, Option.some.injEq] at hrun
      rw [← hrun, RvRegs.read_write_same _ hrd] at hread
      rw [← BitVec.toInt_ofInt_eq_self (w := 64) (by decide) hlo hhi, hread]
    · intro hvalue regs
      refine ⟨_, hloads regs, ?_, fun r hr => RvRegs.read_write_ne _ hr _⟩
      rw [RvRegs.read_write_same _ hrd, hvalue, BitVec.ofInt_toInt]

end Seraph
