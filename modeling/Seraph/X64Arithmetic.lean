import Seraph.X64LowerRuns

/-!
# VOID and arithmetic on x86-64

The code for an arithmetic operation or a comparison (`x64LowerInstruction`) takes each operand with
its sign bit set for VOID, although VOID is one value (`SERAPH_X64_VOID_VALUE`) and the other
negative numbers are numbers to the overflow tests and the signed comparisons. `opResult isVoid` is
the result of an operation where `isVoid` tells VOID. The code leaves this result with the sign bit
for `isVoid` (`ArithmeticSite.leaves_lowered`), and `voidSafe_iff` says when it is the result with
VOID as the one value.
-/

namespace Seraph

open X86

/-! ## Results -/

/-- The opcodes of the arithmetic. -/
def arithmeticOpcodes : List CirOpcode :=
  [.add, .sub, .mul, .div, .mod, .neg]

/-- The opcodes of the comparisons. -/
def comparisonOpcodes : List CirOpcode :=
  [.eq, .ne, .lt, .le, .gt, .ge, .ult, .ule, .ugt, .uge]

/-- The exact result of an arithmetic operation, if there is one. -/
def exactResult (opcode : CirOpcode) (a b : ℤ) : Option ℤ :=
  match opcode with
  | .add => some (a + b)
  | .sub => some (a - b)
  | .mul => some (a * b)
  | .div => if b = 0 then none else some (a.tdiv b)
  | .mod => if b = 0 then none else some (a.tmod b)
  | .neg => some (-a)
  | _ => none

/-- A signed 64-bit number. -/
def InSigned64 (z : ℤ) : Prop :=
  -9223372036854775808 ≤ z ∧ z < 9223372036854775808

instance (z : ℤ) : Decidable (InSigned64 z) :=
  inferInstanceAs (Decidable (_ ∧ _))

/-- A number as a value : VOID where it is none. -/
def ofExact : Option ℤ → BitVec 64
  | some z => if InSigned64 z then BitVec.ofInt 64 z else x64VoidValue
  | none => x64VoidValue

/-- Whether a comparison holds. -/
def comparisonHolds (opcode : CirOpcode) (a b : BitVec 64) : Bool :=
  match opcode with
  | .eq => a = b
  | .ne => a ≠ b
  | .lt => a.toInt < b.toInt
  | .le => a.toInt ≤ b.toInt
  | .gt => b.toInt < a.toInt
  | .ge => b.toInt ≤ a.toInt
  | .ult => a.toNat < b.toNat
  | .ule => a.toNat ≤ b.toNat
  | .ugt => b.toNat < a.toNat
  | .uge => b.toNat ≤ a.toNat
  | _ => false

/-- The result of an operation : VOID if an operand is, or where there is no exact result. A
comparison results in a `Vbit`. -/
def opResult (isVoid : BitVec 64 → Bool) (opcode : CirOpcode) (values : List (BitVec 64)) :
    BitVec 64 :=
  let a := values.headD 0
  let b := values.getD 1 0
  if opcode ∈ comparisonOpcodes then
    if values.any isVoid then x64VbitVoid else if comparisonHolds opcode a b then 1 else 0
  else if values.any isVoid then x64VoidValue
  else ofExact (exactResult opcode a.toInt b.toInt)

/-! ## Sites -/

/-- An instruction of the arithmetic or a comparison where it is lowered, and the machine at it : the
operands have places and hold `values`, the result has a place. The allocator gives out only the
registers of its list, and label 0 is no label. -/
structure ArithmeticSite where
  address : ℕ → BitVec 64
  intervals : List X64LiveInterval
  nextId : UInt32
  instr : X64Instr
  result : X64Value
  machine : Machine
  values : List (BitVec 64)
  opcode_mem : instr.opcode ∈ arithmeticOpcodes ++ comparisonOpcodes
  arity : values.length = if instr.opcode = .neg then 1 else 2
  holds : instr.operands.map (X64Value.value address intervals machine) = values.map some
  result_eq : instr.result = some result
  placed : result.Placed intervals
  allocated : ∀ i ∈ intervals, ∀ r, i.physReg = some r → r ∈ gpAllocOrder
  nextId_ne : nextId ≠ 0

namespace ArithmeticSite

/-- The code runs to its end with `x` in the place of the result. It has written no register but
`RAX`, `RCX`, `RDX` and the result's, which hold no other value, and no memory but the result's
slot. -/
def Leaves (s : ArithmeticSite) (x : BitVec 64) : Prop :=
  ∃ es m, x64LowerInstruction s.intervals s.nextId s.instr = some es ∧
    X64Run.run s.address es (X64Run.start s.machine) = ⟨.running, m⟩ ∧
    s.result.value s.address s.intervals m = some x ∧
    (∀ r, r ∉ [Reg.rax, .rcx, .rdx] → (s.result.place s.intervals).1 ≠ some r →
      m.regs r = s.machine.regs r) ∧
    ∀ a, ¬s.result.InSlot s.intervals s.machine a → m.mem a = s.machine.mem a

/-- The code leaves the result, where VOID is one value. -/
def VoidSafe (s : ArithmeticSite) : Prop :=
  s.Leaves (opResult (· = x64VoidValue) s.instr.opcode s.values)

/-- The scratch registers hold no values. -/
theorem scratch_free (s : ArithmeticSite) {r : Reg} (hr : r ∉ gpAllocOrder) :
    ∀ i ∈ s.intervals, i.physReg ≠ some r :=
  fun i hi heq => hr (s.allocated i hi r heq)

end ArithmeticSite

/-! ## Pieces of the code -/

section pieces

variable {address : ℕ → BitVec 64} {intervals : List X64LiveInterval} {m : Machine}
  {es : List Emission} {u v : X64Value} {a b : BitVec 64}

/-- A machine that differs in the scratch registers only. -/
structure Scratched (m m' : Machine) : Prop where
  regs : ∀ r, r ∉ [Reg.rax, .rcx, .rdx] → m'.regs r = m.regs r
  mem : m'.mem = m.mem

theorem Scratched.refl (m : Machine) : Scratched m m :=
  ⟨fun _ _ => rfl, rfl⟩

theorem Scratched.trans {m m' m'' : Machine} (h : Scratched m m') (h' : Scratched m' m'') :
    Scratched m m'' :=
  ⟨fun r hr => (h'.regs r hr).trans (h.regs r hr), h'.mem.trans h.mem⟩

theorem Scratched.setReg {m m' : Machine} (h : Scratched m m') {r : Reg}
    (hr : r ∈ [Reg.rax, .rcx, .rdx]) (x : BitVec 64) : Scratched m (m'.setReg r x) := by
  refine ⟨fun s hs => ?_, h.mem⟩
  have hne : s ≠ r := fun heq => hs (heq.symm ▸ hr)
  rw [Machine.regs_setReg, if_neg hne]
  exact h.regs s hs

theorem Scratched.setFlags {m m' : Machine} (h : Scratched m m') (flags : Flags) :
    Scratched m (m'.setFlags flags) :=
  ⟨h.regs, h.mem⟩

/-- Two operands are loaded. -/
theorem run_loadPair (es : List Emission) (hu : u.value address intervals m = some a)
    (hv : v.value address intervals m = some b)
    (hfree : ∀ i ∈ intervals, i.physReg ≠ some .rax) :
    ∃ m', X64Run.run address
        (x64LoadValue intervals (some u) .rax ++ (x64LoadValue intervals (some v) .rcx ++ es))
        ⟨.running, m⟩ = X64Run.run address es ⟨.running, m'⟩ ∧
      m'.regs .rax = a ∧ m'.regs .rcx = b ∧ Scratched m m' := by
  have hv' : v.value address intervals (loaded intervals m u .rax a) = some b := by
    have hcongr : v.value address intervals (loaded intervals m u .rax a) =
        v.value address intervals (m.setReg .rax a) := value_congr rfl rfl
    rw [hcongr, value_setReg (by decide) hfree, hv]
  refine ⟨_, (run_loadValue .rax hu).trans (run_loadValue .rcx hv'), ?_, ?_, ?_⟩
  · simp [loaded]
  · simp [loaded]
  · have h₁ := (Scratched.refl m).setReg (r := .rax) (by decide) a
    exact ⟨fun r hr => ((Scratched.setReg ⟨h₁.regs, rfl⟩ (by decide) b).regs r hr), rfl⟩

/-- Two operands are tested for VOID. -/
theorem run_voidChecks (voidLabel : UInt32) :
    ∃ flags, X64Run.run address
        (x64EmitVoidCheck .rax voidLabel ++ (x64EmitVoidCheck .rcx voidLabel ++ es))
        ⟨.running, m⟩ =
      X64Run.run address es
        ⟨if (m.regs .rax).msb || (m.regs .rcx).msb then .seeking voidLabel else .running,
          m.setFlags flags⟩ := by
  rw [X64Run.run_voidCheck]
  cases ha : (m.regs .rax).msb with
  | true => exact ⟨_, rfl⟩
  | false =>
    simp only [Bool.false_eq_true, if_false, Bool.false_or]
    rw [X64Run.run_voidCheck]
    exact ⟨_, rfl⟩

/-- The VOID path of two operands, from the result and from a jump to VOID. -/
theorem run_voidPath {voidLabel endLabel : UInt32} (hne : voidLabel ≠ endLabel) :
    X64Run.run address (x64EmitVoidPath voidLabel endLabel ++ es) ⟨.running, m⟩ =
        X64Run.run address es ⟨.running, m⟩ ∧
      X64Run.run address (x64EmitVoidPath voidLabel endLabel ++ es) ⟨.seeking voidLabel, m⟩ =
        X64Run.run address es ⟨.running, m.setReg .rax x64VoidValue⟩ := by
  simp [x64EmitVoidPath, hne]

/-- The part of the code behind the tests for VOID leaves `x` in `RAX`, or jumps to VOID if that is
`x`. -/
def BodyLeaves (address : ℕ → BitVec 64) (body : List Emission) (voidLabel : UInt32)
    (a b x : BitVec 64) : Prop :=
  ∀ m : Machine, m.regs .rax = a → m.regs .rcx = b → ∃ status m',
    X64Run.run address body ⟨.running, m⟩ = ⟨status, m'⟩ ∧ Scratched m m' ∧
      (status = .running ∧ m'.regs .rax = x ∨ status = .seeking voidLabel ∧ x = x64VoidValue)

/-- The code of an operation of two operands up to the store of its result. -/
theorem run_binaryOp (es : List Emission) {body : List Emission} {voidLabel endLabel : UInt32} {x : BitVec 64}
    (hu : u.value address intervals m = some a) (hv : v.value address intervals m = some b)
    (hfree : ∀ i ∈ intervals, i.physReg ≠ some .rax) (hne : voidLabel ≠ endLabel)
    (hbody : a.msb = false → b.msb = false → BodyLeaves address body voidLabel a b x)
    (hskip : ∀ m es, X64Run.run address (body ++ es) ⟨.seeking voidLabel, m⟩ =
      X64Run.run address es ⟨.seeking voidLabel, m⟩) :
    ∃ m', X64Run.run address (x64LoadOperands intervals [u, v] voidLabel ++
          (body ++ (x64EmitVoidPath voidLabel endLabel ++ es))) ⟨.running, m⟩ =
        X64Run.run address es ⟨.running, m'⟩ ∧
      m'.regs .rax = (if a.msb || b.msb then x64VoidValue else x) ∧ Scratched m m' := by
  obtain ⟨m₁, hload, hrax, hrcx, h₁⟩ := run_loadPair
    (x64EmitVoidCheck .rax voidLabel ++ (x64EmitVoidCheck .rcx voidLabel ++
      (body ++ (x64EmitVoidPath voidLabel endLabel ++ es)))) hu hv hfree
  obtain ⟨flags, hcheck⟩ := @run_voidChecks address m₁
    (body ++ (x64EmitVoidPath voidLabel endLabel ++ es)) voidLabel
  have h₂ := h₁.setFlags flags
  have hrun := hload.trans hcheck
  rw [hrax, hrcx] at hrun
  simp only [x64LoadOperands, List.getElem?_cons_zero, List.getElem?_cons_succ, List.append_assoc]
  rw [hrun]
  by_cases hvoid : (a.msb || b.msb) = true
  · simp only [if_pos hvoid]
    rw [hskip, (run_voidPath hne).2]
    exact ⟨_, rfl, by simp, h₂.setReg (by decide) _⟩
  · simp only [if_neg hvoid]
    simp only [Bool.or_eq_true, not_or, Bool.not_eq_true] at hvoid
    obtain ⟨status, m', hm', h', hend⟩ :=
      hbody hvoid.1 hvoid.2 (m₁.setFlags flags) hrax hrcx
    rw [X64Run.run_append, hm']
    rcases hend with ⟨rfl, hx⟩ | ⟨rfl, rfl⟩
    · rw [(run_voidPath hne).1]
      exact ⟨_, rfl, hx, h₂.trans h'⟩
    · rw [(run_voidPath hne).2]
      exact ⟨_, rfl, by simp, (h₂.trans h').setReg (by decide) _⟩

/-- An operation with a test for overflow. -/
theorem computes_overflow {op : Emission} {voidLabel : UInt32} {x : BitVec 64} {flags : Flags}
    {o : Bool} (hop : ∀ m : Machine, m.regs .rax = a → m.regs .rcx = b →
      X64Run.perform address m op = ⟨.running, (m.setReg .rax x).setFlags flags⟩)
    (ho : flags.overflow = some o) :
    BodyLeaves address [op, x64JccLabel .o voidLabel] voidLabel a b
      (if o then x64VoidValue else x) := by
  intro m ha hb
  have hm : Scratched m ((m.setReg .rax x).setFlags flags) :=
    ((Scratched.refl m).setReg (by decide) x).setFlags flags
  have hflags : ((m.setReg .rax x).setFlags flags).flags.holds .o = some o := ho
  rw [X64Run.run_running, hop m ha hb, X64Run.run_running, X64Run.perform_jccLabel hflags]
  cases o with
  | true => exact ⟨_, _, rfl, hm, Or.inr ⟨rfl, rfl⟩⟩
  | false => exact ⟨_, _, rfl, hm, Or.inl ⟨rfl, by simp⟩⟩

theorem toInt_nonneg {x : BitVec 64} (h : x.msb = false) : 0 ≤ x.toInt := by
  rw [BitVec.toInt_eq_toNat_of_msb h]
  exact Int.natCast_nonneg _

/-- A division of two numbers without sign does not fault. -/
theorem signedDivide_nonneg (hrax : m.regs .rax = a) (hrdx : m.regs .rdx = 0)
    (ha : a.msb = false) (hb : b.msb = false) (h0 : b ≠ 0) :
    signedDivide m b =
      .next (((m.setReg .rax (BitVec.ofInt 64 (a.toInt.tdiv b.toInt))).setReg .rdx
        (BitVec.ofInt 64 (a.toInt.tmod b.toInt))).setFlags .undefined) := by
  have hdividend : (m.regs .rdx ++ m.regs .rax).toInt = a.toInt := by
    rw [hrax, hrdx, BitVec.toInt_eq_toNat_of_msb ha, BitVec.toInt_eq_toNat_of_msb]
    · rw [BitVec.toNat_append]
      simp
    · rw [BitVec.msb_append]
      rfl
  have hb0 : 0 ≤ b.toInt := toInt_nonneg hb
  have ha0 : 0 ≤ a.toInt := toInt_nonneg ha
  have hq0 : 0 ≤ a.toInt.tdiv b.toInt := Int.tdiv_nonneg ha0 hb0
  have hq : a.toInt.tdiv b.toInt ≤ a.toInt := Int.tdiv_le_self _ ha0
  have hmax := BitVec.toInt_lt (x := a)
  rw [signedDivide, hdividend, if_neg]
  rintro (h | h | h)
  · exact h0 h
  · omega
  · norm_num at hmax
    omega

/-- A division, where `take` leaves `x` in `RAX`. -/
theorem computes_divide {zeroLabel doneLabel voidLabel : UInt32} {take : List Emission}
    {x : BitVec 64} (ha : a.msb = false) (hb : b.msb = false) (hne : zeroLabel ≠ doneLabel)
    (hskip : ∀ m es, X64Run.run address (take ++ es) ⟨.seeking zeroLabel, m⟩ =
      X64Run.run address es ⟨.seeking zeroLabel, m⟩)
    (htake : ∀ m : Machine, m.regs .rax = BitVec.ofInt 64 (a.toInt.tdiv b.toInt) →
      m.regs .rdx = BitVec.ofInt 64 (a.toInt.tmod b.toInt) → ∃ m' : Machine,
        (∀ es, X64Run.run address (take ++ es) ⟨.running, m⟩ =
          X64Run.run address es ⟨.running, m'⟩) ∧ Scratched m m' ∧ m'.regs .rax = x) :
    BodyLeaves address (x64EmitDivide zeroLabel doneLabel take) voidLabel a b
      (if b = 0 then x64VoidValue else x) := by
  intro m hrax hrcx
  have hm₁ := (Scratched.refl m).setFlags (logicFlags (b &&& b))
  have hflags : (m.setFlags (logicFlags (b &&& b))).flags.holds .e = some (decide (b = 0)) := by
    show some (decide (b &&& b = 0)) = _
    rw [BitVec.and_self]
  simp only [x64EmitDivide, List.cons_append, List.nil_append, X64Run.run_running,
    X64Run.perform_testRegReg, hrcx]
  rw [X64Run.perform_jccLabel hflags]
  by_cases h0 : b = 0
  · simp only [h0, decide_true, if_true, X64Run.run_seeking_bytes]
    rw [hskip]
    simp only [X64Run.run_seeking_jmpLabel, X64Run.run_seeking_define, if_true, X64Run.run_running,
      X64Run.perform_movRegImm64, X64Run.perform_defineLabel, X64Run.run_nil]
    rw [h0] at hm₁
    exact ⟨_, _, rfl, hm₁.setReg (by decide) _, Or.inl ⟨rfl, by simp⟩⟩
  · simp only [h0, decide_false, Bool.false_eq_true, if_false, X64Run.run_running,
      X64Run.perform_cqo, X64Run.perform_idivReg]
    have hm₂ := hm₁.setReg (r := .rdx) (by decide) 0
    have hrcx' : ((m.setFlags (logicFlags (b &&& b))).setReg .rdx 0).regs .rcx = b := by
      simp [hrcx]
    have hmsb : (if ((m.setFlags (logicFlags (b &&& b))).regs .rax).msb = true then -1 else 0) =
        (0 : BitVec 64) := by
      simp [hrax, ha]
    rw [hmsb, hrcx', signedDivide_nonneg (a := a) (by simp [hrax]) (by simp) ha hb h0]
    obtain ⟨m', hrun, h', hx⟩ := htake
      (((((m.setFlags (logicFlags (b &&& b))).setReg .rdx 0).setReg .rax
        (BitVec.ofInt 64 (a.toInt.tdiv b.toInt))).setReg .rdx
        (BitVec.ofInt 64 (a.toInt.tmod b.toInt))).setFlags .undefined) (by simp) (by simp)
    simp only [X64Run.ofStep]
    rw [hrun]
    simp only [X64Run.run_running, X64Run.perform_jmpLabel, X64Run.run_seeking_define, hne,
      if_false, X64Run.run_seeking_bytes, if_true, X64Run.run_nil]
    refine ⟨_, _, rfl, ?_, Or.inl ⟨rfl, hx⟩⟩
    exact Scratched.trans (((hm₂.setReg (by decide) _).setReg (by decide) _).setFlags _) h'

end pieces

/-! ## Exact results -/

section exact

variable {a b : BitVec 64}

theorem saddOverflow_iff : a.saddOverflow b = true ↔ ¬InSigned64 (a.toInt + b.toInt) := by
  simp only [BitVec.saddOverflow, InSigned64, Bool.or_eq_true, decide_eq_true_eq]
  norm_num
  omega

theorem ssubOverflow_iff : a.ssubOverflow b = true ↔ ¬InSigned64 (a.toInt - b.toInt) := by
  simp only [BitVec.ssubOverflow, InSigned64, Bool.or_eq_true, decide_eq_true_eq]
  norm_num
  omega

theorem smulOverflow_iff : a.smulOverflow b = true ↔ ¬InSigned64 (a.toInt * b.toInt) := by
  simp only [BitVec.smulOverflow, InSigned64, Bool.or_eq_true, decide_eq_true_eq]
  norm_num
  omega

theorem ofExact_some (z : ℤ) :
    ofExact (some z) = if InSigned64 z then BitVec.ofInt 64 z else x64VoidValue :=
  rfl

/-- A result with a test for overflow. -/
theorem ite_overflow {o : Bool} {x : BitVec 64} {z : ℤ} (ho : o = true ↔ ¬InSigned64 z)
    (hx : x = BitVec.ofInt 64 z) : (if o then x64VoidValue else x) = ofExact (some z) := by
  rw [ofExact_some]
  by_cases hz : InSigned64 z
  · rw [if_neg fun h => ho.1 h hz, if_pos hz, hx]
  · rw [if_pos (ho.2 hz), if_neg hz]

/-- A result of a division, with a test for zero. -/
theorem ite_divide (f : ℤ → ℤ → ℤ) (hf : InSigned64 (f a.toInt b.toInt)) :
    (if b = 0 then x64VoidValue else BitVec.ofInt 64 (f a.toInt b.toInt)) =
      ofExact (if b.toInt = 0 then none else some (f a.toInt b.toInt)) := by
  have h0 : b.toInt = 0 ↔ b = 0 := ⟨fun h => BitVec.eq_of_toInt_eq h, fun h => h ▸ rfl⟩
  by_cases hb0 : b = 0
  · rw [if_pos hb0, if_pos (h0.2 hb0)]
    rfl
  · rw [if_neg hb0, if_neg fun h => hb0 (h0.1 h), ofExact_some, if_pos hf]

end exact

/-! ## The lowered code -/

namespace ArithmeticSite

variable (s : ArithmeticSite) {u v : X64Value} {a b x : BitVec 64}

theorem run_creates (address : ℕ → BitVec 64) (m : Machine) (k : ℕ) (es : List Emission) :
    X64Run.run address (List.replicate k .createLabel ++ es) ⟨.running, m⟩ =
      X64Run.run address es ⟨.running, m⟩ := by
  induction k with
  | zero => rfl
  | succ k ih => exact ih

/-- The store of the result ends the code. -/
theorem leaves_of_run {code : List Emission} {m : Machine}
    (hlow : x64LowerInstruction s.intervals s.nextId s.instr = some code)
    (hrun : X64Run.run s.address code (X64Run.start s.machine) =
      X64Run.run s.address (x64StoreResult s.intervals s.instr.result .rax) ⟨.running, m⟩)
    (hm : Scratched s.machine m) (hx : m.regs .rax = x) : s.Leaves x := by
  have hrbp : (s.result.place s.intervals).1 ≠ some .rbp := by
    intro h
    unfold X64Value.place at h
    cases hl : x64GetValueLocation s.intervals s.result with
    | none =>
      rw [hl] at h
      exact absurd h (by simp)
    | some p =>
      rw [hl] at h
      unfold x64GetValueLocation at hl
      split_ifs at hl
      obtain ⟨i, hi, hp⟩ := Option.map_eq_some_iff.1 hl
      rw [← hp] at h
      exact absurd (s.allocated i (List.mem_of_find?_eq_some hi) .rbp h) (by decide)
  obtain ⟨m', hstore, hvalue, hregs, hmem⟩ :=
    @run_storeResult s.address s.intervals m _ s.placed hrbp
  rw [s.result_eq, hstore] at hrun
  refine ⟨code, m', hlow, hrun, hvalue.trans (congrArg some hx), fun r hr hne => ?_, fun c hc => ?_⟩
  · exact (hregs r hne).trans (hm.regs r hr)
  · refine (hmem c fun hin => hc ⟨hin.1, ?_⟩).trans (congrFun hm.mem c)
    have hslot : slot m (s.result.place s.intervals).2 =
        slot s.machine (s.result.place s.intervals).2 := by
      rw [slot, slot, hm.regs .rbp (by decide)]
    rw [← hslot]
    exact hin.2

/-- An operation of two operands. -/
theorem leaves_binaryOp (hops : s.instr.operands = [u, v]) (hvals : s.values = [a, b]) (k : ℕ)
    (body : List Emission) (endLabel : UInt32) (x : BitVec 64)
    (hlow : x64LowerInstruction s.intervals s.nextId s.instr =
      some (List.replicate k .createLabel ++ (x64LoadOperands s.intervals [u, v] s.nextId ++
        (body ++ (x64EmitVoidPath s.nextId endLabel ++
          x64StoreResult s.intervals s.instr.result .rax)))))
    (hne : s.nextId ≠ endLabel)
    (hbody : a.msb = false → b.msb = false → BodyLeaves s.address body s.nextId a b x)
    (hskip : ∀ m es, X64Run.run s.address (body ++ es) ⟨.seeking s.nextId, m⟩ =
      X64Run.run s.address es ⟨.seeking s.nextId, m⟩) :
    s.Leaves (if a.msb || b.msb then x64VoidValue else x) := by
  have hholds := s.holds
  rw [hops, hvals] at hholds
  simp only [List.map_cons, List.map_nil, List.cons.injEq, and_true] at hholds
  obtain ⟨m, hrun, hx, hm⟩ := run_binaryOp (x64StoreResult s.intervals s.instr.result .rax)
    hholds.1 hholds.2 (s.scratch_free (by decide)) hne hbody hskip
  refine s.leaves_of_run hlow ?_ hm hx
  rw [X64Run.start, run_creates, hrun]

/-- The operands of an operation of two operands. -/
theorem operands_two (hneg : s.instr.opcode ≠ .neg) :
    ∃ u v a b, s.instr.operands = [u, v] ∧ s.values = [a, b] := by
  have harity := s.arity
  rw [if_neg hneg] at harity
  obtain ⟨a, b, hvals⟩ := List.length_eq_two.1 harity
  have hlen := congrArg List.length s.holds
  rw [List.length_map, List.length_map, harity] at hlen
  obtain ⟨u, v, hops⟩ := List.length_eq_two.1 hlen
  exact ⟨u, v, a, b, hops, hvals⟩

theorem add_ne (n : UInt32) {k : UInt32} (hk : k ≠ 0) : n ≠ n + k :=
  fun h => hk (UInt32.add_eq_left.1 h.symm)

attribute [local simp] x64LowerInstruction x64LowerArithmetic opResult exactResult

/-- An addition. -/
theorem leaves_add (h : s.instr.opcode = .add) :
    s.Leaves (opResult BitVec.msb s.instr.opcode s.values) := by
  obtain ⟨u, v, a, b, hops, hvals⟩ := s.operands_two (by rw [h]; decide)
  have hx : a + b = BitVec.ofInt 64 (a.toInt + b.toInt) := by
    rw [BitVec.ofInt_add, BitVec.ofInt_toInt, BitVec.ofInt_toInt]
  have hleaves := s.leaves_binaryOp hops hvals 1
    [.bytes (x64AddRegReg .rax .rcx .qword), x64JccLabel .o s.nextId] (s.nextId + 1)
    (ofExact (some (a.toInt + b.toInt))) ?_ (add_ne _ (by decide)) (fun _ _ => ?_) fun _ _ => rfl
  · rw [h, hvals]
    simpa [opResult, comparisonOpcodes, exactResult] using hleaves
  · simp [x64LowerInstruction, x64LowerArithmetic, h, hops, s.nextId_ne]
  · rw [← ite_overflow saddOverflow_iff hx]
    exact computes_overflow (fun m ha hb => by rw [X64Run.perform_addRegReg, ha, hb]) rfl

/-- A subtraction. -/
theorem leaves_sub (h : s.instr.opcode = .sub) :
    s.Leaves (opResult BitVec.msb s.instr.opcode s.values) := by
  obtain ⟨u, v, a, b, hops, hvals⟩ := s.operands_two (by rw [h]; decide)
  have hx : a - b = BitVec.ofInt 64 (a.toInt - b.toInt) := by
    exact BitVec.eq_of_toInt_eq (by rw [BitVec.toInt_sub, BitVec.toInt_ofInt])
  have hleaves := s.leaves_binaryOp hops hvals 1
    [.bytes (x64SubRegReg .rax .rcx .qword), x64JccLabel .o s.nextId] (s.nextId + 1)
    (ofExact (some (a.toInt - b.toInt))) ?_ (add_ne _ (by decide)) (fun _ _ => ?_) fun _ _ => rfl
  · rw [h, hvals]
    simpa [opResult, comparisonOpcodes, exactResult] using hleaves
  · simp [x64LowerInstruction, x64LowerArithmetic, h, hops, s.nextId_ne]
  · rw [← ite_overflow ssubOverflow_iff hx]
    exact computes_overflow (fun m ha hb => by rw [X64Run.perform_subRegReg, ha, hb]) rfl

/-- A multiplication. -/
theorem leaves_mul (h : s.instr.opcode = .mul) :
    s.Leaves (opResult BitVec.msb s.instr.opcode s.values) := by
  obtain ⟨u, v, a, b, hops, hvals⟩ := s.operands_two (by rw [h]; decide)
  have hx : a * b = BitVec.ofInt 64 (a.toInt * b.toInt) := by
    rw [BitVec.ofInt_mul, BitVec.ofInt_toInt, BitVec.ofInt_toInt]
  have hleaves := s.leaves_binaryOp hops hvals 1
    [.bytes (x64ImulRegReg .rax .rcx .qword), x64JccLabel .o s.nextId] (s.nextId + 1)
    (ofExact (some (a.toInt * b.toInt))) ?_ (add_ne _ (by decide)) (fun _ _ => ?_) fun _ _ => rfl
  · rw [h, hvals]
    simpa [opResult, comparisonOpcodes, exactResult] using hleaves
  · simp [x64LowerInstruction, x64LowerArithmetic, h, hops, s.nextId_ne]
  · rw [← ite_overflow smulOverflow_iff hx]
    exact computes_overflow (fun m ha hb => by rw [X64Run.perform_imulRegReg, ha, hb]) rfl

/-- A quotient and a remainder of numbers without sign are in range. -/
theorem divide_inSigned64 (ha : a.msb = false) (hb : b.msb = false) :
    InSigned64 (a.toInt.tdiv b.toInt) ∧ InSigned64 (a.toInt.tmod b.toInt) := by
  have ha0 := toInt_nonneg ha
  have hb0 := toInt_nonneg hb
  have hmax := BitVec.toInt_lt (x := a)
  norm_num at hmax
  have hq0 : 0 ≤ a.toInt.tdiv b.toInt := Int.tdiv_nonneg ha0 hb0
  have hq : a.toInt.tdiv b.toInt ≤ a.toInt := Int.tdiv_le_self _ ha0
  have hr0 : 0 ≤ a.toInt.tmod b.toInt := Int.tmod_nonneg _ ha0
  have hmul := Int.mul_tdiv_add_tmod a.toInt b.toInt
  have hnonneg := Int.mul_nonneg hb0 hq0
  exact ⟨⟨by omega, by omega⟩, by omega, by omega⟩

/-- The labels of a division differ. -/
theorem divide_labels (n : UInt32) :
    n + 1 ≠ n + 1 + 1 ∧ n ≠ n + 1 + 2 ∧ n + 1 ≠ n ∧ n + 1 + 1 ≠ n := by
  refine ⟨add_ne _ (by decide), ?_, (add_ne _ (by decide)).symm, ?_⟩
  · rw [UInt32.add_assoc]
    exact add_ne _ (by decide)
  · rw [UInt32.add_assoc]
    exact (add_ne _ (by decide)).symm

/-- A jump to VOID skips a division. -/
theorem run_seeking_divide (address : ℕ → BitVec 64) {zeroLabel doneLabel labelId : UInt32}
    (hzero : zeroLabel ≠ labelId) (hdone : doneLabel ≠ labelId) (bs : List (List UInt8))
    (m : Machine) (es : List Emission) :
    X64Run.run address (x64EmitDivide zeroLabel doneLabel (bs.map .bytes) ++ es)
        ⟨.seeking labelId, m⟩ = X64Run.run address es ⟨.seeking labelId, m⟩ := by
  have hbytes : ∀ es : List Emission,
      X64Run.run address (bs.map .bytes ++ es) ⟨.seeking labelId, m⟩ =
        X64Run.run address es ⟨.seeking labelId, m⟩ := by
    intro es
    induction bs with
    | nil => rfl
    | cons b bs ih => exact ih
  simp only [x64EmitDivide, List.append_assoc, List.cons_append, List.nil_append,
    X64Run.run_seeking_bytes, X64Run.run_seeking_jccLabel, hbytes, X64Run.run_seeking_jmpLabel,
    X64Run.run_seeking_define, hzero, hdone, if_false]

/-- A division. -/
theorem leaves_div (h : s.instr.opcode = .div) :
    s.Leaves (opResult BitVec.msb s.instr.opcode s.values) := by
  obtain ⟨u, v, a, b, hops, hvals⟩ := s.operands_two (by rw [h]; decide)
  obtain ⟨hne, hend, hzero, hdone⟩ := divide_labels s.nextId
  have hleaves := s.leaves_binaryOp hops hvals 3
    (x64EmitDivide (s.nextId + 1) (s.nextId + 1 + 1) []) (s.nextId + 1 + 2)
    (ofExact (if b.toInt = 0 then none else some (a.toInt.tdiv b.toInt))) ?_ hend
    (fun ha hb => ?_) (run_seeking_divide s.address hzero hdone [])
  · rw [h, hvals]
    simpa [opResult, comparisonOpcodes, exactResult] using hleaves
  · simp [x64LowerInstruction, x64LowerArithmetic, h, hops, s.nextId_ne, List.replicate]
  · rw [← ite_divide Int.tdiv (divide_inSigned64 ha hb).1]
    exact computes_divide ha hb hne (fun _ _ => rfl)
      fun m hq _ => ⟨m, fun _ => rfl, Scratched.refl m, hq⟩

/-- A remainder. -/
theorem leaves_mod (h : s.instr.opcode = .mod) :
    s.Leaves (opResult BitVec.msb s.instr.opcode s.values) := by
  obtain ⟨u, v, a, b, hops, hvals⟩ := s.operands_two (by rw [h]; decide)
  obtain ⟨hne, hend, hzero, hdone⟩ := divide_labels s.nextId
  have hleaves := s.leaves_binaryOp hops hvals 3
    (x64EmitDivide (s.nextId + 1) (s.nextId + 1 + 1) [.bytes (x64MovRegReg .rax .rdx .qword)])
    (s.nextId + 1 + 2) (ofExact (if b.toInt = 0 then none else some (a.toInt.tmod b.toInt))) ?_
    hend (fun ha hb => ?_)
    (run_seeking_divide s.address hzero hdone [x64MovRegReg .rax .rdx .qword])
  · rw [h, hvals]
    simpa [opResult, comparisonOpcodes, exactResult] using hleaves
  · simp [x64LowerInstruction, x64LowerArithmetic, h, hops, s.nextId_ne, List.replicate]
  · rw [← ite_divide Int.tmod (divide_inSigned64 ha hb).2]
    refine computes_divide ha hb hne (fun _ _ => rfl) fun m _ hr => ?_
    refine ⟨m.setReg .rax (m.regs .rdx), fun es => ?_,
      (Scratched.refl m).setReg (by decide) _, by simpa using hr⟩
    rw [List.singleton_append, X64Run.run_running, X64Run.perform_movRegReg]

/-- A negation. -/
theorem leaves_neg (h : s.instr.opcode = .neg) :
    s.Leaves (opResult BitVec.msb s.instr.opcode s.values) := by
  have harity := s.arity
  rw [if_pos h] at harity
  obtain ⟨a, hvals⟩ := List.length_eq_one_iff.1 harity
  have hlen := congrArg List.length s.holds
  rw [List.length_map, List.length_map, harity] at hlen
  obtain ⟨u, hops⟩ := List.length_eq_one_iff.1 hlen
  have hholds := s.holds
  rw [hops, hvals] at hholds
  simp only [List.map_cons, List.map_nil, List.cons.injEq, and_true] at hholds
  have hne : s.nextId ≠ s.nextId + 1 := add_ne _ (by decide)
  have hcode : x64LowerInstruction s.intervals s.nextId s.instr =
      some (.createLabel :: .createLabel :: (x64LoadValue s.intervals (some u) .rax ++
        (x64EmitVoidCheck .rax s.nextId ++ (.bytes (x64NegReg .rax .qword) ::
          x64JmpLabel (s.nextId + 1) :: .defineLabel s.nextId ::
          .bytes (x64MovRegImm64 .rax x64VoidValue) :: .defineLabel (s.nextId + 1) ::
          x64StoreResult s.intervals s.instr.result .rax)))) := by
    simp [x64LowerInstruction, x64LowerArithmetic, h, hops]
  have hload : Scratched s.machine (loaded s.intervals s.machine u .rax a) :=
    ⟨((Scratched.refl s.machine).setReg (by decide) a).regs, rfl⟩
  have hrax : (loaded s.intervals s.machine u .rax a).regs .rax = a := by
    simp [loaded]
  have hresult : opResult BitVec.msb s.instr.opcode s.values =
      if a.msb then x64VoidValue else ofExact (some (-a.toInt)) := by
    rw [h, hvals]
    simp [opResult, comparisonOpcodes, exactResult]
  rw [hresult]
  cases ha : a.msb with
  | true =>
    refine s.leaves_of_run hcode ?_
      ((hload.setFlags ⟨some true, (loaded s.intervals s.machine u .rax a).flags.zero, none, none,
        none⟩).setReg (r := .rax) (by decide) x64VoidValue) (by simp)
    rw [X64Run.start, X64Run.run_running, X64Run.perform_createLabel, X64Run.run_running,
      X64Run.perform_createLabel, run_loadValue .rax hholds, X64Run.run_voidCheck, hrax, ha]
    rw [if_pos rfl, X64Run.run_seeking_bytes, X64Run.run_seeking_jmpLabel,
      X64Run.run_seeking_define, if_pos rfl, X64Run.run_running, X64Run.perform_movRegImm64,
      X64Run.run_running, X64Run.perform_defineLabel]
  | false =>
    have ha0 := toInt_nonneg ha
    have hmax := BitVec.toInt_lt (x := a)
    norm_num at hmax
    have hin : InSigned64 (-a.toInt) := ⟨by omega, by omega⟩
    have hneg : -a = BitVec.ofInt 64 (-a.toInt) := by
      rw [BitVec.ofInt_neg, BitVec.ofInt_toInt]
    rw [ofExact_some, if_pos hin, ← hneg]
    refine s.leaves_of_run hcode ?_
      (((hload.setFlags ⟨some false, (loaded s.intervals s.machine u .rax a).flags.zero, none, none,
        none⟩).setReg (r := .rax) (by decide) (-a)).setFlags (subFlags 0 a)) (by simp)
    rw [X64Run.start, X64Run.run_running, X64Run.perform_createLabel, X64Run.run_running,
      X64Run.perform_createLabel, run_loadValue .rax hholds, X64Run.run_voidCheck, hrax, ha]
    rw [if_neg Bool.false_ne_true, X64Run.run_running, X64Run.perform_negReg,
      Machine.regs_setFlags, hrax, X64Run.run_running, X64Run.perform_jmpLabel,
      X64Run.run_seeking_define, if_neg hne, X64Run.run_seeking_bytes, X64Run.run_seeking_define,
      if_pos rfl]

/-- A difference is negative, or out of range, where the first number is less. -/
theorem sign_ne_overflow (a b : BitVec 64) :
    ((a - b).msb != a.ssubOverflow b) = decide (a.toInt < b.toInt) := by
  have hmsb : (a - b).msb = decide ((a.toInt - b.toInt).bmod 18446744073709551616 < 0) := by
    rw [BitVec.msb_eq_toInt, BitVec.toInt_sub]
  have hover : a.ssubOverflow b = decide (¬InSigned64 (a.toInt - b.toInt)) :=
    Bool.eq_iff_iff.2 (ssubOverflow_iff.trans decide_eq_true_iff.symm)
  have hless : ∀ x y : ℤ, InSigned64 x → InSigned64 y →
      (¬((x - y).bmod 18446744073709551616 < 0 ↔ ¬InSigned64 (x - y)) ↔ x < y) := by
    intro x y hx hy
    unfold InSigned64 at *
    rw [Int.bmod_def]
    split_ifs <;> omega
  have hrange : ∀ x : BitVec 64, InSigned64 x.toInt := by
    intro x
    have hle := BitVec.le_toInt x
    have hlt := BitVec.toInt_lt (x := x)
    norm_num at hle hlt
    exact ⟨hle, hlt⟩
  rw [hmsb, hover, Bool.eq_iff_iff]
  simp only [bne_iff_ne, ne_eq, decide_eq_decide, decide_eq_true_eq]
  exact hless _ _ (hrange a) (hrange b)

/-- The comparisons of an order, from its equality and its strict part. -/
theorem decide_comparisons {α : Type*} [LinearOrder α] {p : Prop} [Decidable p] {x y : α}
    (h : p ↔ x = y) :
    (decide p || decide (x < y)) = decide (x ≤ y) ∧
      (!decide p && decide (y ≤ x)) = decide (y < x) ∧ (!decide (x < y)) = decide (y ≤ x) := by
  refine ⟨?_, ?_, ?_⟩
  · rw [← Bool.decide_or, decide_eq_decide, h, or_comm, le_iff_lt_or_eq]
  · rw [← decide_not, ← Bool.decide_and, decide_eq_decide, h, and_comm, lt_iff_le_and_ne, ne_comm]
  · rw [← decide_not, decide_eq_decide, not_lt]

/-- The conditions on the flags of a difference are the comparisons. -/
theorem holds_subFlags (opcode : CirOpcode) (h : opcode ∈ comparisonOpcodes) (a b : BitVec 64) :
    (subFlags a b).holds (x64CcFromCirCmp opcode) = some (comparisonHolds opcode a b) := by
  have hzero : decide (a - b = 0) = decide (a = b) := by
    rw [decide_eq_decide, BitVec.sub_eq_iff_eq_add]
    simp
  have hcarry : a.usubOverflow b = decide (a.toNat < b.toNat) := rfl
  have hless := sign_ne_overflow a b
  have heq : ((a - b).msb == a.ssubOverflow b) = !decide (a.toInt < b.toInt) := by
    rw [← hless, bne, Bool.not_not]
  obtain ⟨hle, hgt, hge⟩ := decide_comparisons (p := a = b) BitVec.toInt_inj.symm
  obtain ⟨hule, hugt, huge⟩ := decide_comparisons (p := a = b) BitVec.toNat_inj.symm
  rw [Bool.or_comm] at hule
  rw [Bool.and_comm] at hugt
  simp only [comparisonOpcodes, List.mem_cons, List.not_mem_nil, or_false] at h
  rcases h with rfl | rfl | rfl | rfl | rfl | rfl | rfl | rfl | rfl | rfl <;>
    simp only [x64CcFromCirCmp, Flags.holds, subFlags, comparisonHolds, hzero, hcarry, hless, heq,
      Option.map_some, Option.pure_def, Option.bind_eq_bind, Option.bind_some, hle, hgt, hge, hule,
      hugt, huge, Bool.not_or, ne_eq, decide_not]

/-- A comparison. -/
theorem leaves_comparison (h : s.instr.opcode ∈ comparisonOpcodes) :
    s.Leaves (opResult BitVec.msb s.instr.opcode s.values) := by
  have hneg : s.instr.opcode ≠ .neg := by
    rintro heq
    rw [heq] at h
    exact absurd h (by decide)
  obtain ⟨u, v, a, b, hops, hvals⟩ := s.operands_two hneg
  have hholds := s.holds
  rw [hops, hvals] at hholds
  simp only [List.map_cons, List.map_nil, List.cons.injEq, and_true] at hholds
  have hne : s.nextId ≠ s.nextId + 1 := add_ne _ (by decide)
  let tail : List Emission := .bytes (x64CmpRegReg .rax .rcx .qword) ::
    .bytes (x64Setcc (x64CcFromCirCmp s.instr.opcode) .rax) ::
    .bytes (x64Movzx .rax .rax .qword .byte) :: x64JmpLabel (s.nextId + 1) ::
    .defineLabel s.nextId :: .bytes (x64MovRegImm64 .rax x64VbitVoid) ::
    .defineLabel (s.nextId + 1) :: x64StoreResult s.intervals s.instr.result .rax
  let checks : List Emission := x64EmitVoidCheck .rax s.nextId ++
    (x64EmitVoidCheck .rcx s.nextId ++ tail)
  have hcode : x64LowerInstruction s.intervals s.nextId s.instr =
      some (x64LoadValue s.intervals (some u) .rax ++ (x64LoadValue s.intervals (some v) .rcx ++
        (.createLabel :: .createLabel :: checks))) := by
    have hlow : x64LowerInstruction s.intervals s.nextId s.instr =
        some (x64LowerComparison s.intervals s.nextId s.instr) := by
      simp only [comparisonOpcodes, List.mem_cons, List.not_mem_nil, or_false] at h
      unfold x64LowerInstruction
      rcases h with h | h | h | h | h | h | h | h | h | h <;> rw [h]
    rw [hlow, x64LowerComparison, hops]
    simp [checks, tail]
  obtain ⟨m₁, hload, hrax, hrcx, h₁⟩ := run_loadPair
    (.createLabel :: .createLabel :: checks) hholds.1 hholds.2 (s.scratch_free (by decide))
  obtain ⟨flags, hcheck⟩ := @run_voidChecks s.address m₁ tail s.nextId
  have h₂ := h₁.setFlags flags
  have hrun : X64Run.run s.address
      (x64LoadValue s.intervals (some u) .rax ++ (x64LoadValue s.intervals (some v) .rcx ++
        (.createLabel :: .createLabel :: checks))) (X64Run.start s.machine) =
      X64Run.run s.address tail ⟨if a.msb || b.msb then .seeking s.nextId else .running,
        m₁.setFlags flags⟩ := by
    rw [X64Run.start, hload, X64Run.run_running, X64Run.perform_createLabel, X64Run.run_running,
      X64Run.perform_createLabel, hcheck, hrax, hrcx]
  have hresult : opResult BitVec.msb s.instr.opcode s.values =
      if a.msb || b.msb then x64VbitVoid
      else if comparisonHolds s.instr.opcode a b then 1 else 0 := by
    rw [opResult, if_pos h, hvals]
    simp
  rw [hresult]
  by_cases hvoid : (a.msb || b.msb) = true
  · rw [if_pos hvoid] at hrun ⊢
    refine s.leaves_of_run hcode (hrun.trans ?_) (h₂.setReg (r := .rax) (by decide) x64VbitVoid)
      (by simp)
    rw [X64Run.run_seeking_bytes, X64Run.run_seeking_bytes, X64Run.run_seeking_bytes,
      X64Run.run_seeking_jmpLabel, X64Run.run_seeking_define, if_pos rfl, X64Run.run_running,
      X64Run.perform_movRegImm64, X64Run.run_running, X64Run.perform_defineLabel]
  · rw [if_neg hvoid] at hrun ⊢
    refine s.leaves_of_run hcode (hrun.trans ?_) ((h₂.setFlags (subFlags a b)).setReg (r := .rax)
      (by decide) (if comparisonHolds s.instr.opcode a b then 1 else 0)) (by simp)
    have hholds : ((m₁.setFlags flags).setFlags (subFlags a b)).flags.holds
        (x64CcFromCirCmp s.instr.opcode) = some (comparisonHolds s.instr.opcode a b) :=
      holds_subFlags _ h a b
    rw [X64Run.run_running, X64Run.perform_cmpRegReg, Machine.regs_setFlags, hrax, hrcx,
      X64Run.run_setcc hholds, X64Run.run_running, X64Run.perform_jmpLabel,
      X64Run.run_seeking_define, if_neg hne, X64Run.run_seeking_bytes, X64Run.run_seeking_define,
      if_pos rfl]

/-- What the code leaves : the result, where the sign bit tells VOID. -/
theorem leaves_lowered : s.Leaves (opResult BitVec.msb s.instr.opcode s.values) := by
  rcases List.mem_append.1 s.opcode_mem with h | h
  · simp only [arithmeticOpcodes, List.mem_cons, List.not_mem_nil, or_false] at h
    rcases h with h | h | h | h | h | h
    · exact s.leaves_add h
    · exact s.leaves_sub h
    · exact s.leaves_mul h
    · exact s.leaves_div h
    · exact s.leaves_mod h
    · exact s.leaves_neg h
  · exact s.leaves_comparison h

/-- The code leaves one result. -/
theorem Leaves.unique {s : ArithmeticSite} {x y : BitVec 64} (hx : s.Leaves x) (hy : s.Leaves y) :
    x = y := by
  obtain ⟨es, m, hlow, hrun, hvalue, -⟩ := hx
  obtain ⟨es', m', hlow', hrun', hvalue', -⟩ := hy
  obtain rfl := Option.some.inj (hlow.symm.trans hlow')
  obtain rfl : m = m' := (X64Run.mk.inj (hrun.symm.trans hrun')).2
  exact Option.some.inj (hvalue.symm.trans hvalue')

/-- The code is safe where both readings of VOID have one result. -/
theorem voidSafe_iff_opResult : s.VoidSafe ↔
    opResult BitVec.msb s.instr.opcode s.values =
      opResult (· = x64VoidValue) s.instr.opcode s.values := by
  refine ⟨s.leaves_lowered.unique, fun h => ?_⟩
  rw [VoidSafe, ← h]
  exact s.leaves_lowered

end ArithmeticSite

/-- The number that stands for VOID is no result. -/
theorem ofExact_eq_void_iff (o : Option ℤ) : ofExact o = x64VoidValue ↔
    ∀ z, o = some z → ¬(-9223372036854775808 < z ∧ z < 9223372036854775808) := by
  cases o with
  | none => exact ⟨fun _ z hz => absurd hz (by simp), fun _ => rfl⟩
  | some z =>
    have hvoid : x64VoidValue = BitVec.ofInt 64 (-9223372036854775808) := by decide
    simp only [ofExact_some, Option.some.injEq, forall_eq']
    by_cases hz : InSigned64 z
    · rw [if_pos hz, hvoid]
      unfold InSigned64 at hz
      constructor
      · intro heq
        have hint := congrArg BitVec.toInt heq
        simp only [BitVec.toInt_ofInt, Int.bmod_def] at hint
        omega
      · intro hout
        exact congrArg _ (by omega)
    · rw [if_neg hz]
      unfold InSigned64 at hz
      exact ⟨fun _ => by omega, fun _ => rfl⟩

/-- The arithmetic and the comparisons are safe where no operand has its sign bit set, or one is
VOID, or there is no result that is a number. -/
theorem voidSafe_iff (s : ArithmeticSite) :
    s.VoidSafe ↔ (∀ x ∈ s.values, x.msb = false) ∨ x64VoidValue ∈ s.values ∨
      (s.instr.opcode ∈ arithmeticOpcodes ∧
        ∀ z, exactResult s.instr.opcode (s.values.headD 0).toInt (s.values.getD 1 0).toInt = some z →
          ¬(-9223372036854775808 < z ∧ z < 9223372036854775808)) := by
  rw [s.voidSafe_iff_opResult]
  have hany : s.values.any BitVec.msb = true ↔ ¬∀ x ∈ s.values, x.msb = false := by
    simp
  have hvoid : (s.values.any fun x => decide (x = x64VoidValue)) = true ↔
      x64VoidValue ∈ s.values := by
    simp
  by_cases hmem : x64VoidValue ∈ s.values
  · -- VOID is VOID in both readings
    have hmsb : s.values.any BitVec.msb = true :=
      List.any_eq_true.2 ⟨_, hmem, by decide⟩
    unfold opResult
    simp only [hmsb, hvoid.2 hmem, if_true]
    exact iff_of_true trivial (Or.inr (Or.inl hmem))
  · have hnone := Bool.eq_false_iff.2 fun h => hmem (hvoid.1 h)
    by_cases hsign : ∀ x ∈ s.values, x.msb = false
    · have hmsb := Bool.eq_false_iff.2 fun h => hany.1 h hsign
      unfold opResult
      simp only [hmsb, hnone]
      exact iff_of_true trivial (Or.inl hsign)
    · -- a negative number is taken for VOID
      unfold opResult
      simp only [hany.2 hsign, hnone, if_true, Bool.false_eq_true, if_false, hsign, hmem, false_or]
      rcases List.mem_append.1 s.opcode_mem with h | h
      · have hnot : s.instr.opcode ∉ comparisonOpcodes := by
          intro h'
          exact absurd (show s.instr.opcode ∈ arithmeticOpcodes ∧ s.instr.opcode ∈
            comparisonOpcodes from ⟨h, h'⟩) (by cases s.instr.opcode <;> decide)
        rw [if_neg hnot, if_neg hnot, eq_comm, ofExact_eq_void_iff]
        exact ⟨fun h' => ⟨h, h'⟩, And.right⟩
      · have hnot : s.instr.opcode ∉ arithmeticOpcodes := by
          intro h'
          exact absurd (show s.instr.opcode ∈ arithmeticOpcodes ∧ s.instr.opcode ∈
            comparisonOpcodes from ⟨h', h⟩) (by cases s.instr.opcode <;> decide)
        rw [if_pos h, if_pos h]
        refine iff_of_false (fun heq => ?_) fun h' => hnot h'.1
        split_ifs at heq <;> exact absurd heq (by decide)

/-- `-1 + 5`, with the result in a register. -/
def addSite : ArithmeticSite where
  address _ := 0
  intervals := [⟨7, 0, 1, some .rsi, -1, false, false⟩]
  nextId := 1
  instr := ⟨.add, [⟨.const, 0, -1, 0⟩, ⟨.const, 0, 5, 0⟩], some ⟨.vreg, 7, 0, 0⟩, none⟩
  result := ⟨.vreg, 7, 0, 0⟩
  machine := ⟨fun _ => 0, .undefined, fun _ => 0, []⟩
  values := [-1, 5]
  opcode_mem := by decide
  arity := by decide
  holds := by simp [X64Value.value]
  result_eq := rfl
  placed := Or.inl (by simp [X64Value.place, x64GetValueLocation])
  allocated := by simp [gpAllocOrder]
  nextId_ne := by decide

/-- The sum of -1 and 5 is VOID. -/
theorem not_voidSafe_addSite : ¬addSite.VoidSafe := by
  rw [addSite.voidSafe_iff_opResult]
  decide

end Seraph
