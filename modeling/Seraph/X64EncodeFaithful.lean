import Seraph.X64Encode

/-!
# What the encoder encodes

The bytes of each register, memory and immediate form of the encoder are decoded by the instruction
format. A form with a size knows two sizes, 32 and 64 bits (`effectiveSize`), and a byte register
is encoded without the REX prefix that its low byte can need, so a request is encoded faithfully
exactly if it is `Encodable` (`encoding_faithful_iff`).
-/

namespace Seraph

open X86

/-! ## Bytes -/

theorem rexOf_x64Rex : ∀ w r x b : Bool, rexOf (x64Rex w r x b) = some ⟨w, r, x, b⟩ := by
  decide

theorem x64Rex_ne : ∀ w r x b : Bool, x64Rex w r x b ≠ 0x66 := by
  decide

theorem and_seven (n : ℕ) : n &&& 7 = n % 8 :=
  Nat.and_two_pow_sub_one_eq_mod n 3

theorem and_three (n : ℕ) : n &&& 3 = n % 4 :=
  Nat.and_two_pow_sub_one_eq_mod n 2

/-- The three fields of a ModRM byte. -/
theorem toNat_x64Modrm (mod reg rm : ℕ) :
    (x64Modrm mod reg rm).toNat = 64 * (mod % 4) + 8 * (reg % 8) + rm % 8 := by
  have hfields : ∀ m < 4, ∀ r < 8, ∀ n < 8, (x64Modrm m r n).toNat = 64 * m + 8 * r + n := by
    decide
  have hmod : x64Modrm mod reg rm = x64Modrm (mod % 4) (reg % 8) (rm % 8) := by
    simp only [x64Modrm, and_seven, and_three, Nat.mod_mod]
  rw [hmod]
  exact hfields _ (Nat.mod_lt _ (by decide)) _ (Nat.mod_lt _ (by decide)) _
    (Nat.mod_lt _ (by decide))

/-- The three fields of a SIB byte, which are laid out as those of a ModRM byte. -/
theorem toNat_x64Sib (scale index base : ℕ) :
    (x64Sib scale index base).toNat = 64 * (scale % 4) + 8 * (index % 8) + base % 8 :=
  toNat_x64Modrm scale index base

/-- A byte that starts an opcode. -/
def IsOpcode (b : UInt8) : Prop :=
  b ≠ 0x66 ∧ rexOf b = none

instance (b : UInt8) : Decidable (IsOpcode b) :=
  inferInstanceAs (Decidable (_ ∧ _))

theorem takeByte_x64Imm8 {imm : BitVec 32} (h : fitsByte imm) (bs : List UInt8) :
    takeByte (x64Imm8 imm :: bs) = some (imm.toInt, bs) := by
  have hlt := imm.isLt
  unfold fitsByte at h
  simp only [takeByte, x64Imm8, UInt8.toNat_ofNat', Option.some.injEq, Prod.mk.injEq, and_true]
  rw [BitVec.toInt_eq_toNat_cond] at h ⊢
  rw [BitVec.toInt_eq_toNat_cond]
  simp only [BitVec.toNat_ofNat]
  split at h <;> split <;> omega

theorem takeDword_x64EmitDword (d : BitVec 32) (bs : List UInt8) :
    takeDword (x64EmitDword d ++ bs) = some (d.toInt, bs) := by
  have hlt := d.isLt
  have hbytes : BitVec.ofNat 32 (d.toNat % 256 + 256 * (d.toNat / 2 ^ 8 % 256) +
      256 ^ 2 * (d.toNat / 2 ^ 16 % 256) + 256 ^ 3 * (d.toNat / 2 ^ 24 % 256)) = d := by
    refine BitVec.eq_of_toNat_eq ?_
    rw [BitVec.toNat_ofNat]
    omega
  simp only [x64EmitDword, List.cons_append, List.nil_append, takeDword, UInt8.toNat_ofNat',
    Nat.shiftRight_eq_div_pow]
  rw [hbytes]

theorem takeWordUnsigned_x64EmitWord (w : BitVec 16) (bs : List UInt8) :
    takeWordUnsigned (x64EmitWord w ++ bs) = some ((w.toNat : ℤ), bs) := by
  have hlt := w.isLt
  simp only [x64EmitWord, List.cons_append, List.nil_append, takeWordUnsigned,
    UInt8.toNat_ofNat', Nat.shiftRight_eq_div_pow, Option.some.injEq, Prod.mk.injEq, and_true]
  omega

theorem takeQword_x64EmitQword (q : BitVec 64) (bs : List UInt8) :
    takeQword (x64EmitQword q ++ bs) = some (q.toInt, bs) := by
  have hlt := q.isLt
  have hbytes : BitVec.ofNat 64 (q.toNat / 2 ^ 0 % 256 + 256 * (q.toNat / 2 ^ 8 % 256) +
      256 ^ 2 * (q.toNat / 2 ^ 16 % 256) + 256 ^ 3 * (q.toNat / 2 ^ 24 % 256) +
      256 ^ 4 * (q.toNat / 2 ^ 32 % 256 + 256 * (q.toNat / 2 ^ 40 % 256) +
        256 ^ 2 * (q.toNat / 2 ^ 48 % 256) + 256 ^ 3 * (q.toNat / 2 ^ 56 % 256))) = q := by
    refine BitVec.eq_of_toNat_eq ?_
    rw [BitVec.toNat_ofNat]
    omega
  have hlist : x64EmitQword q = [UInt8.ofNat (q.toNat >>> 0), UInt8.ofNat (q.toNat >>> 8),
      UInt8.ofNat (q.toNat >>> 16), UInt8.ofNat (q.toNat >>> 24), UInt8.ofNat (q.toNat >>> 32),
      UInt8.ofNat (q.toNat >>> 40), UInt8.ofNat (q.toNat >>> 48),
      UInt8.ofNat (q.toNat >>> 56)] := rfl
  simp only [hlist, List.cons_append, List.nil_append, takeQword, UInt8.toNat_ofNat',
    Nat.shiftRight_eq_div_pow]
  rw [hbytes]

/-! ## Prefixes -/

/-- The size an instruction with a size is encoded with. -/
def effectiveSize (size : Size) : Size :=
  if size = .qword then .qword else .dword

theorem effectiveSize_ne_byte (size : Size) : effectiveSize size ≠ .byte := by
  cases size <;> decide

/-- The sizes that are encoded are those of 32 and 64 bits. -/
theorem effectiveSize_eq_iff {size : Size} :
    effectiveSize size = size ↔ size = .dword ∨ size = .qword := by
  cases size <;> decide

/-- The prefixes extend the numbers of these two registers, and no index. -/
structure Extends (p : Prefixes) (reg rm : Reg) : Prop where
  reg : p.extend Rex.r (reg.code % 8) = reg.code
  rm : p.extend Rex.b (rm.code % 8) = rm.code
  index : p.bit Rex.x = false

/-- The number of a register, from its low bits and the extension. -/
theorem code_of_low (r : Reg) : (if x64NeedsRex r then r.code % 8 + 8 else r.code % 8) = r.code := by
  cases r <;> rfl

theorem not_needsRex {r : Reg} (h : x64NeedsRex r = false) : r.code % 8 = r.code := by
  have := code_of_low r
  rwa [h, if_neg Bool.false_ne_true] at this

/-- A REX prefix with the bits of two registers. -/
theorem extends_rex (w : Bool) (reg rm : Reg) :
    Extends ⟨false, some ⟨w, x64NeedsRex reg, false, x64NeedsRex rm⟩⟩ reg rm :=
  ⟨code_of_low reg, code_of_low rm, rfl⟩

/-- The prefixes of `x64RexPair`. -/
def pairPrefixes (size : Size) (reg rm : Reg) : Prefixes :=
  if size = .qword ∨ x64NeedsRex reg ∨ x64NeedsRex rm then
    ⟨false, some ⟨size = .qword, x64NeedsRex reg, false, x64NeedsRex rm⟩⟩
  else ⟨false, none⟩

theorem extends_pair (size : Size) (reg rm : Reg) :
    Extends (pairPrefixes size reg rm) reg rm := by
  unfold pairPrefixes
  split
  · exact extends_rex _ reg rm
  case isFalse h =>
    simp only [not_or, Bool.not_eq_true] at h
    exact ⟨not_needsRex h.2.1, not_needsRex h.2.2, rfl⟩

theorem size_pair (size : Size) (reg rm : Reg) :
    (pairPrefixes size reg rm).size = effectiveSize size := by
  unfold pairPrefixes effectiveSize
  by_cases hq : size = .qword
  · simp [hq, Prefixes.size, Prefixes.bit]
  · split <;> simp [hq, Prefixes.size, Prefixes.bit]

theorem decode_rex (w r x b : Bool) (bs : List UInt8) :
    decode (x64Rex w r x b :: bs) = decodeOpcode ⟨false, some ⟨w, r, x, b⟩⟩ bs := by
  rw [decode, if_neg (x64Rex_ne w r x b), decodeRex, rexOf_x64Rex]

theorem decode_opcode {c : UInt8} (hc : IsOpcode c) (bs : List UInt8) :
    decode (c :: bs) = decodeOpcode ⟨false, none⟩ (c :: bs) := by
  rw [decode, if_neg hc.1, decodeRex, hc.2]

theorem decode_pair (size : Size) (reg rm : Reg) {c : UInt8} (hc : IsOpcode c)
    (bs : List UInt8) :
    decode (x64RexPair size reg rm ++ c :: bs) =
      decodeOpcode (pairPrefixes size reg rm) (c :: bs) := by
  unfold x64RexPair pairPrefixes
  split
  · exact decode_rex _ _ _ _ _
  · exact decode_opcode hc bs

/-- An instruction with one register has the prefix of one with two, the other of which is `rax`. -/
theorem x64RexSingle_eq (size : Size) (rm : Reg) :
    x64RexSingle size rm = x64RexPair size .rax rm := by
  simp [x64RexSingle, x64RexPair, show x64NeedsRex .rax = false from rfl]

theorem x64RexReg_eq (r : Reg) : x64RexReg r = x64RexPair .dword .rax r := by
  unfold x64RexReg x64RexPair
  cases h : x64NeedsRex r <;> simp [show x64NeedsRex .rax = false from rfl]

/-! ## Operands -/

theorem register_code (p : Prefixes) {size : Size} (hsize : size ≠ .byte) (r : Reg) :
    p.register size r.code = .reg size r := by
  rw [Prefixes.register, if_neg fun h => hsize h.1, Reg.ofCode_code]

/-- A ModRM byte with a register at its end. -/
theorem takeModrm_reg {p : Prefixes} {r rm : Reg} (h : Extends p r rm) (size : Size) (reg : ℕ)
    (bs : List UInt8) :
    takeModrm p size (x64Modrm 3 reg (rm.code &&& 7) :: bs) =
      some (reg % 8, p.register size rm.code, bs) := by
  have hrm := h.rm
  have h1 : (64 * (3 % 4) + 8 * (reg % 8) + rm.code % 8) / 64 = 3 := by omega
  have h2 : (64 * (3 % 4) + 8 * (reg % 8) + rm.code % 8) / 8 % 8 = reg % 8 := by omega
  have h3 : (64 * (3 % 4) + 8 * (reg % 8) + rm.code % 8) % 8 = rm.code % 8 := by omega
  simp only [takeModrm, toNat_x64Modrm, and_seven, Nat.mod_mod, h1, h2, h3, if_true, hrm]

/-- A ModRM byte with a memory operand, whose displacement has the form that `mod` gives it. -/
theorem takeModrm_mem {p : Prefixes} {r base : Reg} (h : Extends p r base) (size : Size) (reg : ℕ)
    {mod : ℕ} (hmod : mod < 3) (hbase : base.code &&& 7 = 5 → mod ≠ 0) {v : ℤ}
    (ds : List UInt8) {bs : List UInt8} (hdisp : takeDisp mod (ds ++ bs) = some (v, bs)) :
    takeModrm p size
        ((if base.code &&& 7 = 4 then
          [x64Modrm mod (reg &&& 7) 4, x64Sib 0 4 (base.code &&& 7)]
        else [x64Modrm mod (reg &&& 7) (base.code &&& 7)]) ++ ds ++ bs) =
      some (reg % 8, .mem ⟨some base, none, v, false⟩, bs) := by
  have hrm := h.rm
  rw [and_seven] at hbase ⊢
  have hlow : base.code % 8 < 8 := Nat.mod_lt _ (by decide)
  split
  case isTrue hsib =>
    have h1 : (64 * (mod % 4) + 8 * (reg % 8) + 4 % 8) / 64 = mod := by omega
    have h2 : (64 * (mod % 4) + 8 * (reg % 8) + 4 % 8) / 8 % 8 = reg % 8 := by omega
    have h3 : (64 * (mod % 4) + 8 * (reg % 8) + 4 % 8) % 8 = 4 := by omega
    have hne : mod ≠ 3 := by omega
    have hindex : p.extend Rex.x 4 = 4 := by rw [Prefixes.extend, h.index, if_neg Bool.false_ne_true]
    have hextend : p.extend Rex.b 4 = base.code := by rw [← hsib, hrm]
    simp only [takeModrm, List.cons_append, List.nil_append, toNat_x64Modrm,
      and_seven, Nat.mod_mod, h1, h2, h3, if_neg hne, takeMem, if_true, takeSib, toNat_x64Sib,
      hsib, Nat.reduceMul, Nat.reduceMod, Nat.reduceAdd, Nat.reduceDiv, hindex, hdisp,
      Nat.reduceEqDiff, false_and, if_false, hextend, Reg.ofCode_code, Option.bind_eq_bind,
      Option.bind_some, Option.pure_def, Option.map_some]
  case isFalse hsib =>
    have h1 : (64 * (mod % 4) + 8 * (reg % 8) + base.code % 8 % 8) / 64 = mod := by omega
    have h2 : (64 * (mod % 4) + 8 * (reg % 8) + base.code % 8 % 8) / 8 % 8 = reg % 8 := by omega
    have h3 : (64 * (mod % 4) + 8 * (reg % 8) + base.code % 8 % 8) % 8 = base.code % 8 := by omega
    have hne : mod ≠ 3 := by omega
    have hrip : ¬(base.code % 8 = 5 ∧ mod = 0) := fun hr => hbase hr.1 hr.2
    simp only [takeModrm, List.cons_append, List.nil_append, toNat_x64Modrm, and_seven,
      Nat.mod_mod] at *
    simp only [h1, h2, h3, if_neg hne, takeMem, if_neg hsib, if_neg hrip, hdisp, hrm,
      Reg.ofCode_code, Option.bind_eq_bind, Option.bind_some, Option.pure_def, Option.map_some]

theorem takeModrm_x64Mem {p : Prefixes} {r base : Reg} (h : Extends p r base) (size : Size)
    (reg : ℕ) (disp : BitVec 32) (bs : List UInt8) :
    takeModrm p size (x64Mem reg base disp ++ bs) = some (reg % 8, X64Request.mem base disp, bs) := by
  unfold x64Mem
  dsimp only
  split
  case isTrue hzero =>
    have := takeModrm_mem h size reg (show 0 < 3 by decide) (fun h5 => absurd h5 hzero.2) []
      (show takeDisp 0 ([] ++ bs) = some (0, bs) from rfl)
    rw [List.append_nil] at this
    rw [this, X64Request.mem, hzero.1]
    rfl
  split
  case isTrue hbyte =>
    exact takeModrm_mem h size reg (show 1 < 3 by decide) (fun _ => by decide) [x64Imm8 disp]
      (takeByte_x64Imm8 hbyte bs)
  · exact takeModrm_mem h size reg (show 2 < 3 by decide) (fun _ => by decide) (x64EmitDword disp)
      (takeDword_x64EmitDword disp bs)

/-! ## Forms -/

/-- The bytes are those of one instruction, whatever follows them. -/
def Encodes (bs : List UInt8) (i : Instr) : Prop :=
  ∀ rest, decode (bs ++ rest) = some (i, rest)

theorem Encodes.unique {bs : List UInt8} {i j : Instr} (hi : Encodes bs i) (hj : Encodes bs j) :
    i = j := by
  have h := (hi []).symm.trans (hj [])
  exact (Prod.mk.inj (Option.some.inj h)).1

/-- Bytes that encode one instruction encode another if the two are the same. -/
theorem Encodes.iff_eq {bs : List UInt8} {i j : Instr} (hi : Encodes bs i) :
    Encodes bs j ↔ i = j :=
  ⟨hi.unique, fun h => h ▸ hi⟩

/-- The bytes `pre` are the prefixes `p` of an opcode. -/
def Prefixed (pre : List UInt8) (p : Prefixes) : Prop :=
  ∀ c bs, IsOpcode c → decode (pre ++ c :: bs) = decodeOpcode p (c :: bs)

theorem prefixed_pair (size : Size) (reg rm : Reg) :
    Prefixed (x64RexPair size reg rm) (pairPrefixes size reg rm) :=
  fun _ bs hc => decode_pair size reg rm hc bs

theorem prefixed_rex (w r x b : Bool) :
    Prefixed [x64Rex w r x b] ⟨false, some ⟨w, r, x, b⟩⟩ :=
  fun _ _ _ => decode_rex w r x b _

theorem size_ne_byte (p : Prefixes) : p.size ≠ .byte := by
  unfold Prefixes.size
  split
  · decide
  split <;> decide

section

variable {pre : List UInt8} {p : Prefixes} {c : UInt8} {op : X86.Op}

/-- `op rm, reg` on registers. -/
theorem encodes_rmReg {reg rm : Reg} (hpre : Prefixed pre p) (h : Extends p reg rm)
    (hc : IsOpcode c) (hop : ∀ bs, decodeOpcode p (c :: bs) = rmReg p op p.size bs) :
    Encodes (pre ++ [c, x64Modrm 3 (reg.code &&& 7) (rm.code &&& 7)])
      ⟨op, p.size, [.reg p.size rm, .reg p.size reg]⟩ := by
  intro rest
  rw [List.append_assoc, List.cons_append, hpre c _ hc, hop, List.cons_append, List.nil_append,
    rmReg, takeModrm_reg h]
  simp only [and_seven, Nat.mod_mod, h.reg, register_code p (size_ne_byte p), Option.bind_eq_bind,
    Option.bind_some, Option.pure_def]

/-- `op reg, rm` on registers, with the size of each. -/
theorem encodes_regRm {reg rm : Reg} {source : Size} (cs : List UInt8) (hpre : Prefixed pre p)
    (h : Extends p reg rm) (hc : IsOpcode c)
    (hop : ∀ bs, decodeOpcode p (c :: (cs ++ bs)) = regRm p op p.size source bs) :
    Encodes (pre ++ (c :: cs ++ [x64Modrm 3 (reg.code &&& 7) (rm.code &&& 7)]))
      ⟨op, p.size, [.reg p.size reg, p.register source rm.code]⟩ := by
  intro rest
  rw [List.append_assoc, List.cons_append, List.cons_append, hpre c _ hc, List.append_assoc, hop,
    List.cons_append, List.nil_append, regRm, takeModrm_reg h]
  simp only [and_seven, Nat.mod_mod, h.reg, register_code p (size_ne_byte p), Option.bind_eq_bind,
    Option.bind_some, Option.pure_def]

/-- `op reg, [base + disp]`. -/
theorem encodes_regMem {reg base : Reg} (disp : BitVec 32) (hpre : Prefixed pre p)
    (h : Extends p reg base) (hc : IsOpcode c)
    (hop : ∀ bs, decodeOpcode p (c :: bs) = regRm p op p.size p.size bs) :
    Encodes (pre ++ [c] ++ x64Mem reg.code base disp)
      ⟨op, p.size, [.reg p.size reg, X64Request.mem base disp]⟩ := by
  intro rest
  rw [List.append_assoc, List.append_assoc, List.cons_append, hpre c _ hc, hop, List.nil_append,
    regRm, takeModrm_x64Mem h]
  simp only [h.reg, register_code p (size_ne_byte p), Option.bind_eq_bind, Option.bind_some,
    Option.pure_def]

/-- `op [base + disp], reg`. -/
theorem encodes_memReg {reg base : Reg} (disp : BitVec 32) (hpre : Prefixed pre p)
    (h : Extends p reg base) (hc : IsOpcode c)
    (hop : ∀ bs, decodeOpcode p (c :: bs) = rmReg p op p.size bs) :
    Encodes (pre ++ [c] ++ x64Mem reg.code base disp)
      ⟨op, p.size, [X64Request.mem base disp, .reg p.size reg]⟩ := by
  intro rest
  rw [List.append_assoc, List.append_assoc, List.cons_append, hpre c _ hc, hop, List.nil_append,
    rmReg, takeModrm_x64Mem h]
  simp only [h.reg, register_code p (size_ne_byte p), Option.bind_eq_bind, Option.bind_some,
    Option.pure_def]

/-- `op rm, imm` on a register. -/
theorem encodes_regImm {reg rm : Reg} {n : ℕ} (ops : ℕ → Option X86.Op)
    (take : List UInt8 → Option (ℤ × List UInt8)) {v : ℤ} (ds : List UInt8)
    (hpre : Prefixed pre p) (h : Extends p reg rm) (hc : IsOpcode c)
    (hop : ∀ bs, decodeOpcode p (c :: bs) = rmImm p ops p.size take bs)
    (hops : ops (n % 8) = some op) (htake : ∀ bs, take (ds ++ bs) = some (v, bs)) :
    Encodes (pre ++ ([c, x64Modrm 3 n (rm.code &&& 7)] ++ ds))
      ⟨op, p.size, [.reg p.size rm, .imm v]⟩ := by
  intro rest
  rw [List.append_assoc, List.append_assoc, List.cons_append, hpre c _ hc, hop, List.cons_append,
    List.nil_append, rmImm, takeModrm_reg h]
  simp only [register_code p (size_ne_byte p), hops, htake, Option.bind_eq_bind, Option.bind_some,
    Option.pure_def]

/-- `op [base + disp], imm`. -/
theorem encodes_memImm {reg base : Reg} (disp : BitVec 32) {n : ℕ} (ops : ℕ → Option X86.Op)
    (take : List UInt8 → Option (ℤ × List UInt8)) {v : ℤ} (ds : List UInt8)
    (hpre : Prefixed pre p) (h : Extends p reg base) (hc : IsOpcode c)
    (hop : ∀ bs, decodeOpcode p (c :: bs) = rmImm p ops p.size take bs)
    (hops : ops (n % 8) = some op) (htake : ∀ bs, take (ds ++ bs) = some (v, bs)) :
    Encodes (pre ++ [c] ++ x64Mem n base disp ++ ds)
      ⟨op, p.size, [X64Request.mem base disp, .imm v]⟩ := by
  intro rest
  rw [List.append_assoc, List.append_assoc, List.append_assoc, List.cons_append, hpre c _ hc, hop,
    List.nil_append, rmImm, takeModrm_x64Mem h]
  simp only [hops, htake, Option.bind_eq_bind, Option.bind_some, Option.pure_def]

/-- `op rm` on a register of the given size. -/
theorem encodes_regOnly {reg rm : Reg} {n : ℕ} (ops : ℕ → Option X86.Op) {size : Size}
    (cs : List UInt8) (hpre : Prefixed pre p) (h : Extends p reg rm) (hc : IsOpcode c)
    (hop : ∀ bs i, rmOnly p ops size bs = some i → decodeOpcode p (c :: (cs ++ bs)) = some i)
    (hops : ops (n % 8) = some op) :
    Encodes (pre ++ (c :: cs ++ [x64Modrm 3 n (rm.code &&& 7)]))
      ⟨op, size, [p.register size rm.code]⟩ := by
  intro rest
  rw [List.append_assoc, List.cons_append, List.cons_append, hpre c _ hc, List.append_assoc]
  refine hop _ _ ?_
  rw [List.cons_append, List.nil_append, rmOnly, takeModrm_reg h]
  simp only [hops, Option.bind_eq_bind, Option.bind_some, Option.pure_def]

end

/-! ## Requests -/

/-- A request of a size is encoded if the size is. -/
theorem sized_iff {bs : List UInt8} {op : X86.Op} {size : Size} (f : Size → List Operand)
    (h : Encodes bs ⟨op, effectiveSize size, f (effectiveSize size)⟩) :
    Encodes bs ⟨op, size, f size⟩ ↔ size = .dword ∨ size = .qword := by
  rw [h.iff_eq, ← effectiveSize_eq_iff]
  constructor
  · exact fun heq => congrArg Instr.size heq
  · intro heq
    rw [heq]

theorem takeImm_effectiveSize (size : Size) : takeImm (effectiveSize size) = takeDword := by
  cases size <;> rfl

theorem aluRegReg_iff {op : X86.Op} {c : UInt8} (dst src : Reg) (size : Size) (hc : IsOpcode c)
    (hop : ∀ p bs, decodeOpcode p (c :: bs) = rmReg p op p.size bs) :
    Encodes (x64AluRegReg c dst src size) ⟨op, size, [.reg size dst, .reg size src]⟩ ↔
      size = .dword ∨ size = .qword := by
  refine sized_iff (fun s => [.reg s dst, .reg s src]) ?_
  have h := encodes_rmReg (prefixed_pair size src dst) (extends_pair size src dst) hc (hop _)
  rwa [size_pair] at h

theorem aluRegImm_iff {op : X86.Op} {n : ℕ} (dst : Reg) (imm : BitVec 32) (size : Size)
    (hop : aluOp (n % 8) = op) :
    Encodes (x64AluRegImm n dst imm size) ⟨op, size, [.reg size dst, .imm imm.toInt]⟩ ↔
      size = .dword ∨ size = .qword := by
  refine sized_iff (fun s => [.reg s dst, .imm imm.toInt]) ?_
  have hpre := prefixed_pair size .rax dst
  have hext := extends_pair size .rax dst
  rw [x64AluRegImm, x64RexSingle_eq, ← size_pair size .rax dst]
  split
  case isTrue h =>
    exact encodes_regImm (fun n => some (aluOp n)) takeByte [x64Imm8 imm] hpre hext (by decide)
      (fun _ => rfl) (congrArg some hop) (takeByte_x64Imm8 h.1)
  · refine encodes_regImm (fun n => some (aluOp n)) (takeImm _) (x64EmitDword imm) hpre hext
      (by decide) (fun _ => rfl) (congrArg some hop) fun bs => ?_
    rw [size_pair, takeImm_effectiveSize]
    exact takeDword_x64EmitDword imm bs

theorem aluRegMem_iff {op : X86.Op} {c : UInt8} (dst base : Reg) (disp : BitVec 32) (size : Size)
    (hc : IsOpcode c) (hop : ∀ p bs, decodeOpcode p (c :: bs) = regRm p op p.size p.size bs) :
    Encodes (x64AluRegMem c dst base disp size)
        ⟨op, size, [.reg size dst, X64Request.mem base disp]⟩ ↔
      size = .dword ∨ size = .qword := by
  refine sized_iff (fun s => [.reg s dst, X64Request.mem base disp]) ?_
  have h := encodes_regMem disp (prefixed_pair size dst base) (extends_pair size dst base) hc
    (hop _)
  rwa [size_pair] at h

theorem encodes_unary {op : X86.Op} {c : UInt8} {n : ℕ} {ops : ℕ → Option X86.Op} (rm : Reg)
    (size : Size)
    (hc : IsOpcode c)
    (hop : ∀ p bs i, rmOnly p ops p.size bs = some i → decodeOpcode p (c :: bs) = some i)
    (hops : ops (n % 8) = some op) :
    Encodes (x64Unary c n rm size)
      ⟨op, effectiveSize size, [.reg (effectiveSize size) rm]⟩ := by
  have h := encodes_regOnly ops [] (prefixed_pair size .rax rm) (extends_pair size .rax rm) hc
    (hop _) hops
  rw [register_code _ (size_ne_byte _), size_pair] at h
  rw [x64Unary, x64RexSingle_eq]
  exact h

theorem unary_iff {op : X86.Op} {n : ℕ} (rm : Reg) (size : Size) (hops : unaryOp (n % 8) = some op) :
    Encodes (x64Unary 0xF7 n rm size) ⟨op, size, [.reg size rm]⟩ ↔
      size = .dword ∨ size = .qword :=
  sized_iff (fun s => [.reg s rm])
    (encodes_unary rm size (by decide) (fun _ _ _ h => Option.or_eq_some_iff.2 (Or.inl h)) hops)

theorem shiftReg_iff {op : X86.Op} {n : ℕ} (rm : Reg) (size : Size) (hops : shiftOp (n % 8) = op) :
    Encodes (x64ShiftReg n rm size) ⟨op, size, [.reg size rm, .reg .byte .rcx]⟩ ↔
      size = .dword ∨ size = .qword := by
  refine sized_iff (fun s => [.reg s rm, .reg .byte .rcx]) fun rest => ?_
  have hext := extends_pair size .rax rm
  rw [x64ShiftReg, x64Unary, x64RexSingle_eq, List.append_assoc, List.cons_append, List.cons_append,
    prefixed_pair size .rax rm _ _ (by decide)]
  change (rmOnly _ _ _ _ >>= _) = _
  rw [rmOnly, List.nil_append, takeModrm_reg hext, register_code _ (size_ne_byte _), size_pair]
  simp only [hops, Option.bind_eq_bind, Option.bind_some, Option.pure_def, List.cons_append,
    List.nil_append]

theorem shiftRegImm_iff {op : X86.Op} {n : ℕ} (rm : Reg) (imm : UInt8) (size : Size)
    (hops : shiftOp (n % 8) = op) :
    Encodes (x64ShiftRegImm n rm imm size) ⟨op, size, [.reg size rm, .imm imm.toNat]⟩ ↔
      size = .dword ∨ size = .qword := by
  refine sized_iff (fun s => [.reg s rm, .imm imm.toNat]) ?_
  have hpre := prefixed_pair size .rax rm
  have hext := extends_pair size .rax rm
  rw [x64ShiftRegImm, x64Unary, x64Unary, x64RexSingle_eq, ← size_pair size .rax rm]
  split
  case isTrue h =>
    rw [h]
    exact encodes_regImm (fun n => some (shiftOp n)) (fun bs => some (1, bs)) [] hpre hext
      (by decide) (fun _ => rfl) (congrArg some hops) fun _ => rfl
  · rw [List.append_assoc]
    exact encodes_regImm (fun n => some (shiftOp n)) takeByteUnsigned [imm] hpre hext (by decide)
      (fun _ => rfl) (congrArg some hops) fun _ => rfl

theorem movMemImm_iff (base : Reg) (disp imm : BitVec 32) (size : Size) :
    Encodes (x64MovMemImm base disp imm size)
        ⟨.mov, size, [X64Request.mem base disp, .imm imm.toInt]⟩ ↔
      size = .dword ∨ size = .qword := by
  have hpre := prefixed_pair size .rax base
  have hext := extends_pair size .rax base
  -- an immediate of one or two bytes is too short for the opcode
  have hshort : ∀ ds : List UInt8, takeDword ds = none → ∀ i,
      ¬Encodes (x64RexPair size .rax base ++ [0xC7] ++ x64Mem 0 base disp ++ ds) i := by
    intro ds hds i h
    have h := h []
    rw [List.append_nil, List.append_assoc, List.append_assoc, List.cons_append,
      hpre _ _ (by decide)] at h
    change rmImm (pairPrefixes size .rax base) (fun n => if n = 0 then some .mov else none) _
      (takeImm (pairPrefixes size .rax base).size) _ = _ at h
    rw [List.nil_append, rmImm, takeModrm_x64Mem hext, size_pair, takeImm_effectiveSize] at h
    simp [hds] at h
  rw [x64MovMemImm, x64RexSingle_eq]
  split
  case isTrue hbyte =>
    rw [hbyte]
    exact iff_of_false (hbyte ▸ hshort [x64Imm8 imm] rfl _) (by decide)
  split
  case isTrue hword =>
    rw [hword]
    exact iff_of_false (hword ▸ hshort (x64EmitWord (imm.setWidth 16)) rfl _) (by decide)
  · refine sized_iff (fun s => [X64Request.mem base disp, .imm imm.toInt]) ?_
    rw [← size_pair size .rax base]
    refine encodes_memImm disp (fun n => if n = 0 then some .mov else none) (takeImm _)
      (x64EmitDword imm) hpre hext (by decide) (fun _ => rfl) rfl fun bs => ?_
    rw [size_pair, takeImm_effectiveSize]
    exact takeDword_x64EmitDword imm bs

/-- The two-byte forms `op reg, rm` of one size. -/
theorem twoByte_iff {op : X86.Op} {c : UInt8} (dst src : Reg) (size : Size)
    (hop : ∀ p bs, decodeTwoByte p c.toNat bs = regRm p op p.size p.size bs) :
    Encodes (x64RexPair size dst src ++
        [0x0F, c, x64Modrm 3 (dst.code &&& 7) (src.code &&& 7)])
        ⟨op, size, [.reg size dst, .reg size src]⟩ ↔
      size = .dword ∨ size = .qword := by
  refine sized_iff (fun s => [.reg s dst, .reg s src]) ?_
  have h := encodes_regRm [c] (prefixed_pair size dst src) (extends_pair size dst src)
    (show IsOpcode 0x0F by decide) (hop _)
  rwa [register_code _ (size_ne_byte _), size_pair] at h

theorem imulRegImm_iff (dst src : Reg) (imm : BitVec 32) (size : Size) :
    Encodes (x64ImulRegImm dst src imm size)
        ⟨.imul, size, [.reg size dst, .reg size src, .imm imm.toInt]⟩ ↔
      size = .dword ∨ size = .qword := by
  refine sized_iff (fun s => [.reg s dst, .reg s src, .imm imm.toInt]) fun rest => ?_
  have hext := extends_pair size dst src
  unfold x64ImulRegImm
  split
  case isTrue h =>
    rw [List.append_assoc, List.cons_append, prefixed_pair size dst src _ _ (by decide)]
    change (takeModrm _ _ _ >>= _) = _
    rw [List.cons_append, takeModrm_reg hext]
    simp only [and_seven, Nat.mod_mod, hext.reg, size_pair,
      register_code _ (effectiveSize_ne_byte size), List.cons_append, List.nil_append, takeByte_x64Imm8 h, Option.bind_eq_bind,
      Option.bind_some, Option.pure_def]
  · rw [List.append_assoc, List.append_assoc, List.cons_append,
      prefixed_pair size dst src _ _ (by decide)]
    change (takeModrm _ _ _ >>= _) = _
    rw [List.cons_append, takeModrm_reg hext]
    simp only [and_seven, Nat.mod_mod, hext.reg, size_pair,
      register_code _ (effectiveSize_ne_byte size), List.nil_append, takeImm_effectiveSize, takeDword_x64EmitDword, Option.bind_eq_bind,
      Option.bind_some, Option.pure_def]

/-- The registers whose low byte has the number of another register's second byte. -/
def highByte (r : Reg) : Prop :=
  r = .rsp ∨ r = .rbp ∨ r = .rsi ∨ r = .rdi

instance (r : Reg) : Decidable (highByte r) :=
  inferInstanceAs (Decidable (_ ∨ _))

/-- Without a REX prefix a byte operand is the low byte of its register unless that has another
number there. -/
theorem register_byte_iff (size : Size) (reg rm : Reg) :
    (pairPrefixes size reg rm).register .byte rm.code = .reg .byte rm ↔
      size = .qword ∨ x64NeedsRex reg = true ∨ ¬highByte rm := by
  unfold pairPrefixes
  by_cases hq : size = .qword
  · simp [hq, Prefixes.register]
  by_cases hreg : x64NeedsRex reg = true
  · simp [hreg, Prefixes.register]
  · simp only [hq, hreg, Bool.false_eq_true, false_or]
    cases rm <;> decide

theorem setcc_iff (cc : Cond) (reg : Reg) :
    Encodes (x64Setcc cc reg) ⟨.set cc, .byte, [.reg .byte reg]⟩ ↔ ¬highByte reg := by
  have h : Encodes (x64Setcc cc reg)
      ⟨.set cc, .byte, [(pairPrefixes .dword .rax reg).register .byte reg.code]⟩ := by
    rw [x64Setcc, x64RexReg_eq]
    refine encodes_regOnly (fun _ => some (.set cc)) [UInt8.ofNat (0x90 + cc.code)]
      (prefixed_pair .dword .rax reg) (extends_pair .dword .rax reg) (by decide)
      (fun bs i hi => Eq.trans ?_ hi) rfl
    cases cc <;> rfl
  rw [h.iff_eq]
  have hbyte := register_byte_iff .dword .rax reg
  simp only [reduceCtorEq, show x64NeedsRex .rax = false from rfl, Bool.false_eq_true,
    false_or] at hbyte
  rw [← hbyte]
  constructor
  · exact fun heq => List.head_eq_of_cons_eq (congrArg Instr.operands heq)
  · intro heq
    rw [heq]

/-- `MOVZX` and `MOVSX` from a byte or a word. -/
theorem extend_iff {op : X86.Op} {c : Size → UInt8} (dst src : Reg) (dstSize srcSize : Size)
    (hword : ∀ p bs, srcSize ≠ .byte →
      decodeTwoByte p (c srcSize).toNat bs = regRm p op p.size .word bs)
    (hbyte : ∀ p bs, srcSize = .byte →
      decodeTwoByte p (c srcSize).toNat bs = regRm p op p.size .byte bs) :
    Encodes (x64RexPair dstSize dst src ++
        [0x0F, c srcSize, x64Modrm 3 (dst.code &&& 7) (src.code &&& 7)])
        ⟨op, dstSize, [.reg dstSize dst, .reg srcSize src]⟩ ↔
      (dstSize = .dword ∨ dstSize = .qword) ∧ (srcSize = .word ∨ srcSize = .byte ∧
        (dstSize = .qword ∨ x64NeedsRex dst = true ∨ ¬highByte src)) := by
  have hpre := prefixed_pair dstSize dst src
  have hext := extends_pair dstSize dst src
  have hop : IsOpcode 0x0F := by decide
  by_cases hsrc : srcSize = .byte
  · have h : Encodes (x64RexPair dstSize dst src ++
        [0x0F, c srcSize, x64Modrm 3 (dst.code &&& 7) (src.code &&& 7)]) _ :=
      encodes_regRm [c srcSize] hpre hext hop (fun bs => hbyte _ bs hsrc)
    rw [size_pair] at h
    rw [h.iff_eq, hsrc, ← register_byte_iff, ← effectiveSize_eq_iff]
    simp only [Instr.mk.injEq, true_and, List.cons.injEq, Operand.reg.injEq, and_true,
      reduceCtorEq, false_or]
    tauto
  · have h : Encodes (x64RexPair dstSize dst src ++
        [0x0F, c srcSize, x64Modrm 3 (dst.code &&& 7) (src.code &&& 7)]) _ :=
      encodes_regRm [c srcSize] hpre hext hop (fun bs => hword _ bs hsrc)
    rw [size_pair, register_code _ (by decide)] at h
    rw [h.iff_eq, ← effectiveSize_eq_iff]
    simp only [Instr.mk.injEq, true_and, List.cons.injEq, Operand.reg.injEq, and_true, hsrc,
      false_and, or_false, eq_comm (a := Size.word)]
    tauto

theorem movsx_iff (dst src : Reg) (dstSize srcSize : Size) :
    Encodes (x64Movsx dst src dstSize srcSize)
        ⟨.movsx, dstSize, [.reg dstSize dst, .reg srcSize src]⟩ ↔
      (srcSize = .dword ∧ dstSize = .qword) ∨
        (dstSize = .dword ∨ dstSize = .qword) ∧ (srcSize = .word ∨ srcSize = .byte ∧
          (dstSize = .qword ∨ x64NeedsRex dst = true ∨ ¬highByte src)) := by
  unfold x64Movsx
  split
  case isTrue h =>
    refine iff_of_true ?_ (Or.inl h)
    have henc : Encodes (x64RexPair dstSize dst src ++
        [0x63, x64Modrm 3 (dst.code &&& 7) (src.code &&& 7)]) ⟨.movsx, _, _⟩ :=
      encodes_regRm [] (prefixed_pair dstSize dst src) (extends_pair dstSize dst src) (by decide)
        fun _ => rfl
    rw [register_code _ (by decide), size_pair] at henc
    rw [h.2] at henc
    rw [h.1, h.2, List.append_assoc]
    exact henc
  case isFalse h =>
    rw [or_iff_right h, List.append_assoc]
    refine extend_iff (c := fun s => if s = .byte then 0xBE else 0xBF) dst src dstSize srcSize
      (fun p bs hne => ?_) fun p bs heq => ?_
    · rw [if_neg hne]
      rfl
    · rw [if_pos heq]
      rfl

theorem encodes_movRegImm64 (dst : Reg) (imm : BitVec 64) :
    Encodes (x64MovRegImm64 dst imm) ⟨.mov, .qword, [.reg .qword dst, .imm imm.toInt]⟩ := by
  intro rest
  have hop : ∀ bs, decode (x64Rex true false false (x64NeedsRex dst) ::
      UInt8.ofNat (0xB8 + (dst.code &&& 7)) :: bs) = (takeQword bs).bind fun r =>
        some (⟨.mov, .qword, [.reg .qword dst, .imm r.1]⟩, r.2) := by
    intro bs
    rw [decode_rex]
    cases dst <;> rfl
  rw [x64MovRegImm64, List.append_assoc, List.cons_append, List.cons_append, List.nil_append, hop,
    takeQword_x64EmitQword]
  rfl

theorem encodes_movRegImm32 (dst : Reg) (imm : BitVec 32) :
    Encodes (x64MovRegImm32 dst imm) ⟨.mov, .qword, [.reg .qword dst, .imm imm.toInt]⟩ :=
  encodes_regImm (fun n => if n = 0 then some .mov else none) takeDword (x64EmitDword imm)
    (prefixed_rex true false false (x64NeedsRex dst)) (extends_rex true .rax dst) (by decide)
    (fun _ => rfl) rfl (takeDword_x64EmitDword imm)

theorem encodes_movsxd (dst src : Reg) :
    Encodes (x64Movsxd dst src) ⟨.movsx, .qword, [.reg .qword dst, .reg .dword src]⟩ := by
  have h : Encodes (x64Movsxd dst src) ⟨.movsx, .qword, [.reg .qword dst, _]⟩ :=
    encodes_regRm [] (prefixed_rex true _ false _) (extends_rex true dst src)
      (show IsOpcode 0x63 by decide) fun _ => rfl
  rwa [register_code _ (by decide)] at h

theorem encodes_lea (dst base : Reg) (disp : BitVec 32) :
    Encodes (x64Lea dst base disp)
      ⟨.lea, .qword, [.reg .qword dst, X64Request.mem base disp]⟩ :=
  encodes_regMem disp (prefixed_rex true _ false _) (extends_rex true dst base)
    (show IsOpcode 0x8D by decide) fun _ => rfl

/-- The scale that a scale is encoded as. -/
theorem two_pow_x64ScaleEnc (scale : ℕ) :
    2 ^ x64ScaleEnc scale = scale ↔ scale ∈ [1, 2, 4, 8] := by
  unfold x64ScaleEnc
  split
  case isTrue h => simp [h]
  split
  case isTrue h => simp [h]
  split
  case isTrue h => simp [h]
  · simp
    omega

/-- The SIB byte of `[base + index * scale + disp]`, whose displacement has the form that `mod`
gives it. -/
theorem takeModrm_sib (w : Bool) (dst base index : Reg) (scale : ℕ) {mod : ℕ} (hmod : mod < 3)
    (hbase : base.code &&& 7 = 5 → mod ≠ 0) {v : ℤ} (ds : List UInt8) {bs : List UInt8}
    (hdisp : takeDisp mod (ds ++ bs) = some (v, bs)) :
    takeModrm ⟨false, some ⟨w, x64NeedsRex dst, x64NeedsRex index, x64NeedsRex base⟩⟩ .qword
        (x64Modrm mod (dst.code &&& 7) 4 ::
          x64Sib (x64ScaleEnc scale) (index.code &&& 7) (base.code &&& 7) :: (ds ++ bs)) =
      some (dst.code % 8, .mem ⟨some base,
        if index = .rsp then none else some (index, 2 ^ x64ScaleEnc scale), v, false⟩, bs) := by
  have hscale : x64ScaleEnc scale < 4 := by
    unfold x64ScaleEnc
    split
    · decide
    split
    · decide
    split <;> decide
  have hrm := code_of_low base
  have hx := code_of_low index
  rw [and_seven] at hbase
  have h1 : (64 * (mod % 4) + 8 * (dst.code % 8 % 8) + 4 % 8) / 64 = mod := by omega
  have h2 : (64 * (mod % 4) + 8 * (dst.code % 8 % 8) + 4 % 8) / 8 % 8 = dst.code % 8 := by omega
  have h3 : (64 * (mod % 4) + 8 * (dst.code % 8 % 8) + 4 % 8) % 8 = 4 := by omega
  have h4 : (64 * (x64ScaleEnc scale % 4) + 8 * (index.code % 8 % 8) + base.code % 8 % 8) / 64 =
      x64ScaleEnc scale := by omega
  have h5 : (64 * (x64ScaleEnc scale % 4) + 8 * (index.code % 8 % 8) + base.code % 8 % 8) / 8 % 8 =
      index.code % 8 := by omega
  have h6 : (64 * (x64ScaleEnc scale % 4) + 8 * (index.code % 8 % 8) + base.code % 8 % 8) % 8 =
      base.code % 8 := by omega
  have hne : mod ≠ 3 := by omega
  have hrip : ¬(base.code % 8 = 5 ∧ mod = 0) := fun hr => hbase hr.1 hr.2
  have hindex : (index.code = 4) = (index = .rsp) := propext (Reg.code_inj (s := .rsp))
  simp only [takeModrm, toNat_x64Modrm, and_seven, h1, h2, h3, if_neg hne, takeMem, if_true,
    takeSib, toNat_x64Sib, h4, h5, h6, if_neg hrip, Prefixes.extend, Prefixes.bit,
    Option.map_some, Option.getD_some, hrm, hx, hindex, hdisp, Reg.ofCode_code,
    Option.bind_eq_bind, Option.bind_some, Option.pure_def]

theorem leaSib_iff (dst base index : Reg) (scale : ℕ) (disp : BitVec 32) :
    Encodes (x64LeaSib dst base index scale disp)
        ⟨.lea, .qword,
          [.reg .qword dst, .mem ⟨some base, some (index, scale), disp.toInt, false⟩]⟩ ↔
      index ≠ .rsp ∧ scale ∈ [1, 2, 4, 8] := by
  have h : Encodes (x64LeaSib dst base index scale disp)
      ⟨.lea, .qword, [.reg .qword dst, .mem ⟨some base,
        if index = .rsp then none else some (index, 2 ^ x64ScaleEnc scale),
        disp.toInt, false⟩]⟩ := by
    intro rest
    have hdst : Prefixes.extend
        ⟨false, some ⟨true, x64NeedsRex dst, x64NeedsRex index, x64NeedsRex base⟩⟩ Rex.r
        (dst.code % 8) = dst.code := code_of_low dst
    unfold x64LeaSib
    dsimp only
    rw [List.append_assoc, List.cons_append, List.cons_append, decode_rex]
    change regRm _ .lea .qword .qword _ = _
    rw [regRm, List.nil_append]
    split
    case isTrue hzero =>
      have := takeModrm_sib true dst base index scale (show 0 < 3 by decide)
        (fun h5 => absurd h5 hzero.2) [] (show takeDisp 0 ([] ++ rest) = some (0, rest) from rfl)
      rw [List.nil_append] at this
      simp only [List.cons_append, List.nil_append, this, Option.bind_eq_bind, Option.bind_some, hdst,
        register_code _ (show Size.qword ≠ .byte by decide), Option.pure_def, hzero.1]
      rfl
    split
    case isTrue hbyte =>
      have := takeModrm_sib true dst base index scale (show 1 < 3 by decide)
        (fun _ => by decide) [x64Imm8 disp] (takeByte_x64Imm8 hbyte rest)
      rw [List.cons_append, List.nil_append] at this
      simp only [List.cons_append, List.nil_append, this, Option.bind_eq_bind, Option.bind_some, hdst,
        register_code _ (show Size.qword ≠ .byte by decide), Option.pure_def]
    · have := takeModrm_sib true dst base index scale (show 2 < 3 by decide)
        (fun _ => by decide) (x64EmitDword disp) (takeDword_x64EmitDword disp rest)
      simp only [List.cons_append, List.nil_append, this, Option.bind_eq_bind, Option.bind_some, hdst,
        register_code _ (show Size.qword ≠ .byte by decide), Option.pure_def]
  rw [h.iff_eq, ← two_pow_x64ScaleEnc]
  by_cases hindex : index = .rsp
  · simp [hindex]
  · simp [hindex]

/-- A call or a jump through a register. -/
theorem encodes_branchReg {op : X86.Op} {n : ℕ} (reg : Reg)
    (hops : (if n % 8 = 2 then some X86.Op.call else if n % 8 = 4 then some .jmp else none) = some op) :
    Encodes (x64RexReg reg ++ [0xFF, x64Modrm 3 n (reg.code &&& 7)])
      ⟨op, .qword, [.reg .qword reg]⟩ := by
  have h := encodes_regOnly
    (fun n => if n = 2 then some X86.Op.call else if n = 4 then some .jmp else none) []
    (prefixed_pair .dword .rax reg) (extends_pair .dword .rax reg) (show IsOpcode 0xFF by decide)
    (fun _ _ h => h) hops
  rw [register_code _ (by decide)] at h
  rw [x64RexReg_eq]
  exact h

theorem encodes_pushReg (reg : Reg) :
    Encodes (x64PushReg reg) ⟨.push, .qword, [.reg .qword reg]⟩ := by
  intro rest
  cases reg <;> rfl

theorem encodes_popReg (reg : Reg) :
    Encodes (x64PopReg reg) ⟨.pop, .qword, [.reg .qword reg]⟩ := by
  intro rest
  cases reg <;> rfl

theorem encodes_pushImm (imm : BitVec 32) :
    Encodes (x64PushImm imm) ⟨.push, .qword, [.imm imm.toInt]⟩ := by
  intro rest
  unfold x64PushImm
  split
  case isTrue h =>
    rw [List.cons_append, decode_opcode (by decide)]
    change (takeByte _ >>= _) = _
    rw [List.cons_append, takeByte_x64Imm8 h]
    rfl
  · rw [List.append_assoc, List.cons_append, decode_opcode (by decide)]
    change (takeDword _ >>= _) = _
    rw [List.nil_append, takeDword_x64EmitDword]
    rfl

theorem encodes_retImm (popBytes : BitVec 16) :
    Encodes (x64RetImm popBytes) ⟨.ret, .qword, [.imm popBytes.toNat]⟩ := by
  intro rest
  rw [x64RetImm, List.append_assoc, List.cons_append, decode_opcode (by decide)]
  change (takeWordUnsigned _ >>= _) = _
  rw [List.nil_append, takeWordUnsigned_x64EmitWord]
  rfl

theorem encodes_enter (frameSize : BitVec 16) (nestingLevel : UInt8) :
    Encodes (x64Enter frameSize nestingLevel)
      ⟨.enter, .qword, [.imm frameSize.toNat, .imm nestingLevel.toNat]⟩ := by
  intro rest
  rw [x64Enter, List.append_assoc, List.append_assoc, List.cons_append,
    decode_opcode (by decide)]
  change (takeWordUnsigned _ >>= _) = _
  rw [List.nil_append, takeWordUnsigned_x64EmitWord]
  rfl

/-! ## Faithfulness -/

/-- The requests the encoder can encode : operand sizes of 32 and 64 bits, no second byte of another
register, an index that is not `rsp` and a scale of 1, 2, 4 or 8. -/
def X64Request.Encodable : X64Request → Prop
  | movRegReg _ _ size | movRegMem _ _ _ size | movMemReg _ _ _ size | movMemImm _ _ _ size
  | addRegReg _ _ size | addRegImm _ _ size | subRegReg _ _ size | subRegImm _ _ size
  | imulRegReg _ _ size | imulRegImm _ _ _ size | idivReg _ size | mulReg _ size
  | addRegMem _ _ _ size | adcRegReg _ _ size | adcRegMem _ _ _ size | adcRegImm _ _ size
  | negReg _ size | andRegReg _ _ size | andRegImm _ _ size | orRegReg _ _ size
  | xorRegReg _ _ size | notReg _ size | shlRegCl _ size | shlRegImm _ _ size | shrRegCl _ size
  | shrRegImm _ _ size | sarRegCl _ size | sarRegImm _ _ size | cmpRegReg _ _ size
  | cmpRegImm _ _ size | testRegReg _ _ size | cmovcc _ _ _ size => size = .dword ∨ size = .qword
  | setcc _ reg => ¬highByte reg
  | leaSib _ _ index scale _ => index ≠ .rsp ∧ scale ∈ [1, 2, 4, 8]
  | movzx dst src dstSize srcSize =>
    (dstSize = .dword ∨ dstSize = .qword) ∧ (srcSize = .word ∨ srcSize = .byte ∧
      (dstSize = .qword ∨ x64NeedsRex dst = true ∨ ¬highByte src))
  | movsx dst src dstSize srcSize =>
    (srcSize = .dword ∧ dstSize = .qword) ∨
      (dstSize = .dword ∨ dstSize = .qword) ∧ (srcSize = .word ∨ srcSize = .byte ∧
        (dstSize = .qword ∨ x64NeedsRex dst = true ∨ ¬highByte src))
  | movRegImm64 _ _ | movRegImm32 _ _ | movsxd _ _ | jmpReg _ | callReg _ | retImm _ | pushReg _
  | pushImm _ | popReg _ | enter _ _ | lea _ _ _ => True

/-- The bytes of a request encode what it asks for exactly if it is one the encoder can encode. -/
theorem X64Request.encodes_iff (r : X64Request) : Encodes r.bytes r.meaning ↔ r.Encodable := by
  cases r with
  | movRegImm64 dst imm => exact iff_of_true (encodes_movRegImm64 dst imm) trivial
  | movRegImm32 dst imm => exact iff_of_true (encodes_movRegImm32 dst imm) trivial
  | movRegReg dst src size => exact aluRegReg_iff dst src size (by decide) fun _ _ => rfl
  | movRegMem dst base disp size =>
    exact aluRegMem_iff dst base disp size (by decide) fun _ _ => rfl
  | movMemReg base disp src size =>
    refine sized_iff (fun s => [X64Request.mem base disp, .reg s src]) ?_
    have h := encodes_memReg disp (prefixed_pair size src base) (extends_pair size src base)
      (show IsOpcode 0x89 by decide) fun _ => rfl
    rwa [size_pair] at h
  | movMemImm base disp imm size => exact movMemImm_iff base disp imm size
  | addRegReg dst src size => exact aluRegReg_iff dst src size (by decide) fun _ _ => rfl
  | addRegImm dst imm size => exact aluRegImm_iff dst imm size rfl
  | subRegReg dst src size => exact aluRegReg_iff dst src size (by decide) fun _ _ => rfl
  | subRegImm dst imm size => exact aluRegImm_iff dst imm size rfl
  | imulRegReg dst src size => exact twoByte_iff dst src size fun _ _ => rfl
  | imulRegImm dst src imm size => exact imulRegImm_iff dst src imm size
  | idivReg divisor size => exact unary_iff divisor size rfl
  | mulReg src size => exact unary_iff src size rfl
  | addRegMem dst base disp size =>
    exact aluRegMem_iff dst base disp size (by decide) fun _ _ => rfl
  | adcRegReg dst src size => exact aluRegReg_iff dst src size (by decide) fun _ _ => rfl
  | adcRegMem dst base disp size =>
    exact aluRegMem_iff dst base disp size (by decide) fun _ _ => rfl
  | adcRegImm dst imm size => exact aluRegImm_iff dst imm size rfl
  | movsxd dst src => exact iff_of_true (encodes_movsxd dst src) trivial
  | negReg reg size => exact unary_iff reg size rfl
  | andRegReg dst src size => exact aluRegReg_iff dst src size (by decide) fun _ _ => rfl
  | andRegImm dst imm size => exact aluRegImm_iff dst imm size rfl
  | orRegReg dst src size => exact aluRegReg_iff dst src size (by decide) fun _ _ => rfl
  | xorRegReg dst src size => exact aluRegReg_iff dst src size (by decide) fun _ _ => rfl
  | notReg reg size => exact unary_iff reg size rfl
  | shlRegCl reg size => exact shiftReg_iff reg size rfl
  | shlRegImm reg imm size => exact shiftRegImm_iff reg imm size rfl
  | shrRegCl reg size => exact shiftReg_iff reg size rfl
  | shrRegImm reg imm size => exact shiftRegImm_iff reg imm size rfl
  | sarRegCl reg size => exact shiftReg_iff reg size rfl
  | sarRegImm reg imm size => exact shiftRegImm_iff reg imm size rfl
  | cmpRegReg dst src size => exact aluRegReg_iff dst src size (by decide) fun _ _ => rfl
  | cmpRegImm reg imm size => exact aluRegImm_iff reg imm size rfl
  | testRegReg dst src size => exact aluRegReg_iff dst src size (by decide) fun _ _ => rfl
  | setcc cc reg => exact setcc_iff cc reg
  | cmovcc cc dst src size =>
    refine twoByte_iff dst src size fun _ _ => ?_
    cases cc <;> rfl
  | jmpReg reg => exact iff_of_true (encodes_branchReg reg rfl) trivial
  | callReg reg => exact iff_of_true (encodes_branchReg reg rfl) trivial
  | retImm popBytes => exact iff_of_true (encodes_retImm popBytes) trivial
  | pushReg reg => exact iff_of_true (encodes_pushReg reg) trivial
  | pushImm imm => exact iff_of_true (encodes_pushImm imm) trivial
  | popReg reg => exact iff_of_true (encodes_popReg reg) trivial
  | enter frameSize nestingLevel =>
    exact iff_of_true (encodes_enter frameSize nestingLevel) trivial
  | lea dst base disp => exact iff_of_true (encodes_lea dst base disp) trivial
  | leaSib dst base index scale disp => exact leaSib_iff dst base index scale disp
  | movzx dst src dstSize srcSize =>
    refine extend_iff (c := fun s => if s = .byte then 0xB6 else 0xB7) dst src dstSize srcSize
      (fun p bs hne => ?_) fun p bs heq => ?_
    · rw [if_neg hne]
      rfl
    · rw [if_pos heq]
      rfl
  | movsx dst src dstSize srcSize => exact movsx_iff dst src dstSize srcSize

/-- The bytes of a request are decoded to the operation, size and operands asked for, and no byte
more or less is, exactly if the request is one the encoder can encode. -/
theorem encoding_faithful_iff (r : X64Request) :
    (∀ rest, decode (r.bytes ++ rest) = some (r.meaning, rest)) ↔ r.Encodable :=
  r.encodes_iff

/-- A byte stored from `al` is encoded as a store of four bytes from `eax`. -/
theorem not_faithful_movMemReg_byte :
    ¬∀ r : X64Request, ∀ rest, decode (r.bytes ++ rest) = some (r.meaning, rest) := by
  intro h
  have h := h (.movMemReg .rcx 0 .rax .byte) []
  revert h
  decide

end Seraph
