import Mathlib.Algebra.Group.Int.Defs
import Mathlib.Data.Int.Basic
import Seraph.Celestial
import Seraph.Runs

/-!
# Constant folding

`celestial_fold_constants` computes an instruction on constants in `int64_t`, whatever its type is.
What the instruction itself computes in its type is `CirOpcode.meaning`. Both agree exactly where
`CirOpcode.FoldSafe` holds (`foldInts_sound_iff`, `foldInt_sound_iff`).
-/

namespace Seraph

/-- What folding comes to. Where C leaves the result undefined there is none. -/
inductive Folded where
  | none
  | undefined
  | const (type : TypeKind) (value : BitVec 64)
deriving DecidableEq, Repr

/-- `celestial_const_bool`. -/
def constBool (b : Bool) : Folded :=
  .const .bool (if b then 1 else 0)

/-- A result of `int64_t` arithmetic, made a constant. -/
def constI64 (n : ℤ) : Folded :=
  if -2 ^ 63 ≤ n ∧ n < 2 ^ 63 then .const .i64 (BitVec.ofInt 64 n) else .undefined

/-- The `switch` of `try_fold_binary`. -/
def foldInts (op : CirOpcode) (l r : BitVec 64) : Folded :=
  match op with
  | .add => constI64 (l.toInt + r.toInt)
  | .sub => constI64 (l.toInt - r.toInt)
  | .mul => constI64 (l.toInt * r.toInt)
  | .div => if r = 0 then .none else constI64 (l.toInt.tdiv r.toInt)
  | .mod =>
    if r = 0 then .none
    -- the remainder is defined where the quotient is
    else if constI64 (l.toInt.tdiv r.toInt) = .undefined then .undefined
    else constI64 (l.toInt.tmod r.toInt)
  | .and => .const .i64 (l &&& r)
  | .or => .const .i64 (l ||| r)
  | .xor => .const .i64 (l ^^^ r)
  | .shl =>
    if 0 ≤ l.toInt ∧ 0 ≤ r.toInt ∧ r.toInt < 64 then constI64 (l.toInt * 2 ^ r.toNat)
    else .undefined
  | .shr =>
    -- of a negative number the sign stays
    if 0 ≤ r.toInt ∧ r.toInt < 64 then .const .i64 (l.sshiftRight r.toNat) else .undefined
  | .eq => constBool (l.toInt = r.toInt)
  | .ne => constBool (l.toInt ≠ r.toInt)
  | .lt => constBool (l.toInt < r.toInt)
  | .le => constBool (l.toInt ≤ r.toInt)
  | .gt => constBool (l.toInt > r.toInt)
  | .ge => constBool (l.toInt ≥ r.toInt)
  | _ => .none

/-- The `switch` of `try_fold_unary`. -/
def foldInt (op : CirOpcode) (val : BitVec 64) : Folded :=
  match op with
  | .neg => constI64 (-val.toInt)
  | .not => .const .i64 (~~~val)
  | _ => .none

/-- What `fold_instruction` did with an instruction. -/
inductive FoldOutcome where
  | kept
  | undefined
  | replaced
deriving DecidableEq, Repr

namespace CirModule

variable (m : CirModule)

/-- `is_constant`, with the value. -/
def constantOf (v : Option ValuePtr) : Option CirValue :=
  match v with
  | some v => if (m.values v).kind = .const then some (m.values v) else none
  | none => none

/-- `try_fold_binary`. -/
def tryFoldBinary (op : CirOpcode) (left right : Option ValuePtr) : Folded :=
  match m.constantOf left, m.constantOf right with
  | some left, some right =>
    if left.type.isInteger ∧ right.type.isInteger then foldInts op left.constant right.constant
    else .none
  | _, _ => .none

/-- `try_fold_unary`. -/
def tryFoldUnary (op : CirOpcode) (operand : Option ValuePtr) : Folded :=
  match m.constantOf operand with
  | some operand => foldInt op operand.constant
  | none => .none

/-- The new constant of an instruction. -/
def folded (i : InstrPtr) : Folded :=
  match (m.instrs i).operands with
  | [left, right] => m.tryFoldBinary (m.instrs i).opcode left right
  | [operand] => m.tryFoldUnary (m.instrs i).opcode operand
  | _ => .none

/-- A value becomes a constant. -/
def setConstant (v : ValuePtr) (type : TypeKind) (value : BitVec 64) : CirModule :=
  let constant := { m.values v with kind := .const, type := type, constant := value }
  { m with values := Function.update m.values v constant }

/-- `fold_instruction`. -/
def foldInstruction (i : InstrPtr) : CirModule × FoldOutcome :=
  match (m.instrs i).result with
  | none => (m, .kept)
  | some result =>
    match m.folded i with
    | .none => (m, .kept)
    | .undefined => (m, .undefined)
    | .const type value => ((m.setConstant result type value).setOpcode i .nop, .replaced)

/-- `celestial_fold_constants`. -/
def foldConstants : CirModule :=
  Runs.run foldInstruction m m.instrList

end CirModule

/-! ## What the instructions compute -/

namespace TypeKind

/-- The bits of an integer. -/
def width : TypeKind → ℕ
  | i8 | u8 => 8
  | i16 | u16 => 16
  | i32 | u32 => 32
  | _ => 64

/-- The signed integer types. -/
def isSigned : TypeKind → Bool
  | i8 | i16 | i32 | i64 => true
  | _ => false

variable (t : TypeKind)

/-- The integer that a constant stands for. -/
def value (w : BitVec 64) : ℤ :=
  if t.isSigned then w.toInt else w.toNat

/-- The integers of a type. -/
def Fits (n : ℤ) : Prop :=
  if t.isSigned then -2 ^ (t.width - 1) ≤ n ∧ n < 2 ^ (t.width - 1) else 0 ≤ n ∧ n < 2 ^ t.width

instance (n : ℤ) : Decidable (t.Fits n) :=
  inferInstanceAs (Decidable (if t.isSigned = true then
    -2 ^ (t.width - 1) ≤ n ∧ n < 2 ^ (t.width - 1) else 0 ≤ n ∧ n < 2 ^ t.width))

/-- An integer as a value of the type : VOID where it is none. -/
def checked (n : ℤ) : Option (BitVec 64) :=
  if t.Fits n then some (BitVec.ofInt 64 n) else none

/-- The bits of a type, extended by its sign. -/
def extend (w : BitVec 64) : BitVec 64 :=
  if t.isSigned then (w.setWidth t.width).signExtend 64 else (w.setWidth t.width).setWidth 64

end TypeKind

/-- A truth value as a constant. -/
def vbit (b : Bool) : BitVec 64 :=
  if b then 1 else 0

/-- What an instruction computes from operands of type `k` for a result of type `t` : nothing where
the result is VOID. -/
def CirOpcode.meaning (op : CirOpcode) (k t : TypeKind) (l r : BitVec 64) : Option (BitVec 64) :=
  match op with
  | .add => t.checked (t.value l + t.value r)
  | .sub => t.checked (t.value l - t.value r)
  | .mul => t.checked (t.value l * t.value r)
  | .div => if t.value r = 0 then none else t.checked ((t.value l).tdiv (t.value r))
  | .mod =>
    if t.value r = 0 ∨ ¬t.Fits ((t.value l).tdiv (t.value r)) then none
    else t.checked ((t.value l).tmod (t.value r))
  | .neg => t.checked (-t.value l)
  | .and => some (l &&& r)
  | .or => some (l ||| r)
  | .xor => some (l ^^^ r)
  | .not => some (t.extend (~~~l))
  | .shl =>
    if 0 ≤ t.value r ∧ t.value r < t.width then some (t.extend (l <<< (t.value r).toNat)) else none
  | .shr =>
    if 0 ≤ t.value r ∧ t.value r < t.width then
      some (t.extend ((l.setWidth t.width).setWidth 64 >>> (t.value r).toNat))
    else none
  | .eq => some (vbit (k.value l = k.value r))
  | .ne => some (vbit (k.value l ≠ k.value r))
  | .lt => some (vbit (k.value l < k.value r))
  | .le => some (vbit (k.value l ≤ k.value r))
  | .gt => some (vbit (k.value l > k.value r))
  | .ge => some (vbit (k.value l ≥ k.value r))
  | _ => none

/-- Folding keeps the type and the meaning of an instruction. -/
def Folded.Sound (f : Folded) (t : TypeKind) (meaning : Option (BitVec 64)) : Prop :=
  match f with
  | .none => True
  | .undefined => False
  | .const type value => type = t ∧ meaning = some value

/-- The operands for which it does. -/
def CirOpcode.FoldSafe (op : CirOpcode) (k t : TypeKind) (l r : BitVec 64) : Prop :=
  match op with
  | .add => t = .i64 ∧ t.Fits (l.toInt + r.toInt)
  | .sub => t = .i64 ∧ t.Fits (l.toInt - r.toInt)
  | .mul => t = .i64 ∧ t.Fits (l.toInt * r.toInt)
  | .div | .mod => t = .i64 ∧ ¬(l.toInt = -2 ^ 63 ∧ r.toInt = -1)
  | .neg => t = .i64 ∧ l.toInt ≠ -2 ^ 63
  | .and | .or | .xor | .not => t = .i64
  | .shl => t = .i64 ∧ 0 ≤ l.toInt ∧ (0 ≤ r.toInt ∧ r.toInt < 64) ∧ l.toInt * 2 ^ r.toNat < 2 ^ 63
  | .shr => t = .i64 ∧ (0 ≤ r.toInt ∧ r.toInt < 64) ∧ (0 ≤ l.toInt ∨ r.toInt = 0)
  | .eq | .ne => t = .bool
  | .lt | .le | .gt | .ge => t = .bool ∧ (k.isSigned = true ∨ l.msb = r.msb)
  | _ => True

section

variable {k t : TypeKind} {l r w : BitVec 64} {n : ℤ} {m : Option (BitVec 64)}

theorem Folded.sound_const {type : TypeKind} :
    (Folded.const type w).Sound t m ↔ t = type ∧ m = some w :=
  and_congr_left fun _ => eq_comm

theorem constI64_sound_iff (hm : t = .i64 → t.Fits n → m = some (BitVec.ofInt 64 n)) :
    (constI64 n).Sound t m ↔ t = .i64 ∧ t.Fits n := by
  unfold constI64
  split
  · next hn =>
    rw [Folded.sound_const]
    refine and_congr_right fun ht => ?_
    have hfits : t.Fits n := ht ▸ hn
    exact iff_of_true (hm ht hfits) hfits
  · next hn =>
    refine iff_of_false id ?_
    rintro ⟨rfl, hfits⟩
    exact hn hfits

theorem TypeKind.checked_of_fits (h : t.Fits n) : t.checked n = some (BitVec.ofInt 64 n) :=
  if_pos h

theorem constI64_eq_undefined : constI64 n = .undefined ↔ ¬TypeKind.i64.Fits n := by
  unfold constI64
  split
  · next hn => exact iff_of_false (fun heq => by cases heq) (not_not.2 hn)
  · next hn => exact iff_of_true rfl hn

theorem i64_extend (w : BitVec 64) : TypeKind.i64.extend w = w :=
  (BitVec.signExtend_eq (w.setWidth 64)).trans (BitVec.setWidth_eq w)

/-- The bits that a shift to the left keeps. -/
theorem ofInt_shiftLeft (l : BitVec 64) (n : ℕ) :
    BitVec.ofInt 64 (l.toInt * 2 ^ n) = l <<< n := by
  have hpow : BitVec.ofInt 64 (2 ^ n) = BitVec.twoPow 64 n := by
    have hcast : ((2 ^ n : ℕ) : ℤ) = 2 ^ n := Int.natCast_pow 2 n
    apply BitVec.eq_of_toNat_eq
    rw [← hcast, BitVec.ofInt_natCast, BitVec.toNat_ofNat, BitVec.toNat_twoPow]
  rw [BitVec.ofInt_mul, BitVec.ofInt_toInt, hpow, BitVec.shiftLeft_eq_mul_twoPow]

/-- A shift to the right that keeps the sign is a logical one on a number that is not negative. -/
theorem ushiftRight_eq_sshiftRight {n : ℕ} :
    l >>> n = l.sshiftRight n ↔ 0 ≤ l.toInt ∨ n = 0 := by
  have hsign : 0 ≤ l.toInt ↔ l.msb = false := by
    rw [BitVec.msb_eq_toInt, decide_eq_false_iff_not, Int.not_lt]
  rw [hsign]
  constructor
  · intro heq
    by_cases hn : n = 0
    · exact .inr hn
    · have hmsb := congrArg BitVec.msb heq
      rw [BitVec.msb_ushiftRight, BitVec.msb_sshiftRight] at hmsb
      simp [hn] at hmsb
      exact .inl hmsb
  · rintro (hmsb | rfl)
    · exact (BitVec.sshiftRight_eq_of_msb_false hmsb).symm
    · simp

theorem constBool_sound_iff {p p' : Prop} [Decidable p] [Decidable p'] :
    (constBool p).Sound t (some (vbit p')) ↔ t = .bool ∧ (p' ↔ p) := by
  refine Folded.sound_const.trans (and_congr_right fun _ => ?_)
  by_cases hp : p <;> by_cases hp' : p' <;> simp [vbit, hp, hp']

theorem i64_value (w : BitVec 64) : TypeKind.i64.value w = w.toInt :=
  rfl

theorem i64_fits {n : ℤ} : TypeKind.i64.Fits n ↔ -2 ^ 63 ≤ n ∧ n < 2 ^ 63 :=
  Iff.rfl

/-- The quotient of two numbers of 64 bits is one, but for the least one divided by minus one. -/
theorem i64_fits_tdiv (l r : BitVec 64) :
    TypeKind.i64.Fits (l.toInt.tdiv r.toInt) ↔ ¬(l.toInt = -2 ^ 63 ∧ r.toInt = -1) := by
  have hl : -2 ^ 63 ≤ l.toInt := l.le_toInt
  have hl' : l.toInt < 2 ^ 63 := l.toInt_lt
  rw [i64_fits]
  generalize l.toInt = a at *
  generalize r.toInt = b
  by_cases hone : b = 1
  · rw [hone, Int.tdiv_one]
    omega
  by_cases hminus : b = -1
  · rw [hminus, Int.tdiv_neg, Int.tdiv_one]
    omega
  -- the quotient is at most half as large
  have habs : (a.tdiv b).natAbs ≤ a.natAbs / 2 := by
    rw [Int.natAbs_tdiv]
    by_cases hzero : b = 0
    · rw [hzero, Int.natAbs_zero]
      exact (Nat.div_zero _).trans_le (Nat.zero_le _)
    · exact Nat.div_le_div_left (by omega) (by decide)
  omega

theorem toInt_bounds (w : BitVec 64) : -2 ^ 63 ≤ w.toInt ∧ w.toInt < 2 ^ 63 :=
  ⟨w.le_toInt, w.toInt_lt⟩

/-- The number of a word without its sign. -/
theorem toNat_eq (w : BitVec 64) :
    (w.toNat : ℤ) = w.toInt + if w.msb then 2 ^ 64 else 0 := by
  rw [BitVec.toInt_eq_msb_cond]
  split
  · omega
  · omega

theorem toNat_of_nonneg (h : 0 ≤ w.toInt) : w.toNat = w.toInt.toNat := by
  have hnat := toNat_eq w
  have hmsb : w.msb = false := by
    rw [BitVec.msb_eq_toInt, decide_eq_false_iff_not, Int.not_lt]
    exact h
  rw [hmsb, if_neg Bool.false_ne_true] at hnat
  omega

/-- Signed and unsigned order agree exactly where the signs do. -/
theorem value_lt_iff (k : TypeKind) (l r : BitVec 64) :
    (k.value l < k.value r ↔ l.toInt < r.toInt) ↔ k.isSigned = true ∨ l.msb = r.msb := by
  unfold TypeKind.value
  split
  · next hsigned => exact iff_of_true Iff.rfl (.inl hsigned)
  · next hsigned =>
    have hl := toInt_bounds l
    have hr := toInt_bounds r
    have hl' := l.isLt
    have hr' := r.isLt
    rw [or_iff_right hsigned]
    have hlnat := toNat_eq l
    have hrnat := toNat_eq r
    cases hlm : l.msb <;> cases hrm : r.msb <;> simp [hlm, hrm] at hlnat hrnat ⊢ <;> omega

theorem value_le_iff (k : TypeKind) (l r : BitVec 64) :
    (k.value l ≤ k.value r ↔ l.toInt ≤ r.toInt) ↔ k.isSigned = true ∨ l.msb = r.msb := by
  rw [← Int.not_lt, ← Int.not_lt, not_iff_not, value_lt_iff, @eq_comm _ r.msb]

theorem value_inj {k : TypeKind} : k.value l = k.value r ↔ l = r := by
  unfold TypeKind.value
  split
  · exact BitVec.toInt_inj
  · exact Int.natCast_inj.trans BitVec.toNat_inj

/-- Folding a constant keeps the meaning of an instruction exactly where its operands are safe. -/
theorem foldInt_sound_iff (op : CirOpcode) (k t : TypeKind) (l r : BitVec 64)
    (hf : foldInt op l ≠ .none) :
    (foldInt op l).Sound t (op.meaning k t l r) ↔ op.FoldSafe k t l r := by
  cases op
  case neg =>
    refine (constI64_sound_iff fun ht hfits => ?_).trans (and_congr_right fun ht => ?_)
    · rw [ht] at hfits ⊢
      exact TypeKind.checked_of_fits hfits
    · rw [ht, i64_fits]
      have hl := toInt_bounds l
      omega
  case not =>
    refine Folded.sound_const.trans (and_iff_left_of_imp fun ht => ?_)
    rw [ht]
    exact congrArg some (i64_extend _)
  all_goals exact absurd rfl hf

/-- Folding two constants keeps the meaning of an instruction exactly where its operands are
safe. -/
theorem foldInts_sound_iff (op : CirOpcode) (k t : TypeKind) (l r : BitVec 64)
    (hf : foldInts op l r ≠ .none) :
    (foldInts op l r).Sound t (op.meaning k t l r) ↔ op.FoldSafe k t l r := by
  have hzero : r = 0 ↔ r.toInt = 0 := by
    rw [← BitVec.toInt_inj]
    rfl
  cases op
  case add | sub | mul =>
    refine constI64_sound_iff fun ht hfits => ?_
    rw [ht] at hfits ⊢
    exact TypeKind.checked_of_fits hfits
  case div =>
    have hr : r ≠ 0 := fun heq => hf (if_pos heq)
    unfold foldInts CirOpcode.FoldSafe
    dsimp only
    rw [if_neg hr, constI64_sound_iff fun ht hfits => ?_]
    · refine and_congr_right fun ht => ?_
      rw [ht, i64_fits_tdiv]
    · rw [ht] at hfits ⊢
      rw [CirOpcode.meaning, i64_value, i64_value, if_neg (mt hzero.2 hr)]
      exact TypeKind.checked_of_fits hfits
  case mod =>
    have hr : r ≠ 0 := fun heq => hf (if_pos heq)
    unfold foldInts CirOpcode.FoldSafe
    dsimp only
    rw [if_neg hr]
    split
    · next hmin =>
      rw [constI64_eq_undefined, i64_fits_tdiv] at hmin
      exact iff_of_false id fun hsafe => hmin hsafe.2
    · next hmin =>
      rw [constI64_eq_undefined, i64_fits_tdiv] at hmin
      rw [constI64_sound_iff fun ht hfits => ?_]
      · refine and_congr_right fun ht => iff_of_true ?_ (not_not.1 hmin)
        rw [ht, i64_fits]
        have hbounds := toInt_bounds r
        have hr' := mt hzero.2 hr
        have habs : (l.toInt.tmod r.toInt).natAbs < r.toInt.natAbs := by
          rw [Int.natAbs_tmod]
          exact Nat.mod_lt _ (by omega)
        omega
      · have hdef : ¬(t.value r = 0 ∨ ¬t.Fits ((t.value l).tdiv (t.value r))) := by
          rw [ht, i64_value, i64_value, i64_fits_tdiv, not_or]
          exact ⟨mt hzero.2 hr, hmin⟩
        rw [CirOpcode.meaning, if_neg hdef]
        rw [ht] at hfits ⊢
        exact TypeKind.checked_of_fits hfits
  case and | or | xor =>
    refine Folded.sound_const.trans (and_iff_left_of_imp fun _ => rfl)
  case shl =>
    unfold foldInts CirOpcode.FoldSafe
    dsimp only
    split
    · next hdef =>
      obtain ⟨hl, hr⟩ := hdef
      have hpos : 0 ≤ l.toInt * 2 ^ r.toNat := Int.mul_nonneg hl (Int.pow_nonneg (by decide))
      rw [constI64_sound_iff fun ht hfits => ?_]
      · refine and_congr_right fun ht => ?_
        rw [ht, i64_fits]
        exact ⟨fun hfits => ⟨hl, hr, hfits.2⟩, fun hsafe => ⟨by omega, hsafe.2.2⟩⟩
      · have hwidth : 0 ≤ r.toInt ∧ r.toInt < TypeKind.i64.width := hr
        rw [CirOpcode.meaning, ht, i64_value, if_pos hwidth, i64_extend, ofInt_shiftLeft,
          toNat_of_nonneg hr.1]
    · next hdef => exact iff_of_false id fun hsafe => hdef ⟨hsafe.2.1, hsafe.2.2.1⟩
  case shr =>
    unfold foldInts CirOpcode.FoldSafe
    dsimp only
    split
    · next hr =>
      refine Folded.sound_const.trans (and_congr_right fun ht => ?_)
      have hamount : r.toNat = 0 ↔ r.toInt = 0 := by
        rw [toNat_of_nonneg hr.1]
        omega
      have hwidth : 0 ≤ r.toInt ∧ r.toInt < TypeKind.i64.width := hr
      rw [CirOpcode.meaning, ht, i64_value, if_pos hwidth, i64_extend, and_iff_right hr,
        ← toNat_of_nonneg hr.1, ← hamount, ← ushiftRight_eq_sshiftRight, Option.some.injEq]
      exact iff_of_eq (congrArg (fun w : BitVec 64 => w >>> r.toNat = l.sshiftRight r.toNat)
        ((BitVec.setWidth_eq _).trans (BitVec.setWidth_eq l)))
    · next hdef => exact iff_of_false id fun hsafe => hdef hsafe.2.1
  case eq =>
    refine constBool_sound_iff.trans (and_iff_left ?_)
    rw [value_inj, BitVec.toInt_inj]
  case ne =>
    refine constBool_sound_iff.trans (and_iff_left (not_congr ?_))
    rw [value_inj, BitVec.toInt_inj]
  case lt => exact constBool_sound_iff.trans (and_congr_right fun _ => value_lt_iff k l r)
  case le => exact constBool_sound_iff.trans (and_congr_right fun _ => value_le_iff k l r)
  case gt =>
    refine constBool_sound_iff.trans (and_congr_right fun _ => (value_lt_iff k r l).trans ?_)
    rw [@eq_comm _ r.msb]
  case ge =>
    refine constBool_sound_iff.trans (and_congr_right fun _ => (value_le_iff k r l).trans ?_)
    rw [@eq_comm _ r.msb]
  all_goals exact absurd rfl hf

end

end Seraph
