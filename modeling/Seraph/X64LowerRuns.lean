import Seraph.X64Lower
import Seraph.X64Run

/-!
# Runs of lowered code

What the pieces of a lowering do to a machine : moves, jumps, the test for VOID, and the loads and
stores of values. `X64Value.value` is what a value holds, from its place ; `run_loadValue` brings it
to a register and `run_storeResult` puts a result in its place.
-/

namespace Seraph

open X86

namespace X64Run

variable {address : ℕ → BitVec 64} {m : Machine} {es : List Emission}

attribute [local simp] X64Request.meaning

/-! ## Instructions -/

@[simp] theorem perform_movRegReg (d s : Reg) :
    perform address m (.bytes (x64MovRegReg d s .qword)) = ⟨.running, m.setReg d (m.regs s)⟩ :=
  (perform_request (r := .movRegReg d s .qword) (Or.inr rfl)).trans
    (congrArg (ofStep m) (step_mov_reg m d s))

@[simp] theorem perform_movRegImm64 (d : Reg) (imm : BitVec 64) :
    perform address m (.bytes (x64MovRegImm64 d imm)) = ⟨.running, m.setReg d imm⟩ := by
  have h := @perform_request address m (.movRegImm64 d imm) trivial
  rwa [X64Request.meaning, step_mov_imm, BitVec.ofInt_toInt] at h

@[simp] theorem perform_movRegImm32 (d : Reg) (imm : BitVec 32) :
    perform address m (.bytes (x64MovRegImm32 d imm)) =
      ⟨.running, m.setReg d (imm.signExtend 64)⟩ := by
  have h := @perform_request address m (.movRegImm32 d imm) trivial
  rwa [X64Request.meaning, step_mov_imm] at h

@[simp] theorem perform_movRegMem (d base : Reg) (disp : BitVec 32) :
    perform address m (.bytes (x64MovRegMem d base disp .qword)) =
      ⟨.running, (m.load (m.regs base + disp.signExtend 64) 8).2.setReg d
        (m.mem.load (m.regs base + disp.signExtend 64) 8)⟩ := by
  have h := @perform_request address m (.movRegMem d base disp .qword) (Or.inr rfl)
  rwa [X64Request.meaning, X64Request.mem, step_mov_load, Machine.address_base] at h

@[simp] theorem perform_movMemReg (base : Reg) (disp : BitVec 32) (s : Reg) :
    perform address m (.bytes (x64MovMemReg base disp s .qword)) =
      ⟨.running, m.store (m.regs base + disp.signExtend 64) 8 (m.regs s)⟩ := by
  have h := @perform_request address m (.movMemReg base disp s .qword) (Or.inr rfl)
  rwa [X64Request.meaning, X64Request.mem, step_mov_store, Machine.address_base] at h

@[simp] theorem perform_addRegReg (d s : Reg) :
    perform address m (.bytes (x64AddRegReg d s .qword)) =
      ⟨.running, (m.setReg d (m.regs d + m.regs s)).setFlags (addFlags (m.regs d) (m.regs s))⟩ :=
  (perform_request (r := .addRegReg d s .qword) (Or.inr rfl)).trans
    (congrArg (ofStep m) (step_add m d s))

@[simp] theorem perform_subRegReg (d s : Reg) :
    perform address m (.bytes (x64SubRegReg d s .qword)) =
      ⟨.running, (m.setReg d (m.regs d - m.regs s)).setFlags (subFlags (m.regs d) (m.regs s))⟩ :=
  (perform_request (r := .subRegReg d s .qword) (Or.inr rfl)).trans
    (congrArg (ofStep m) (step_sub m d s))

@[simp] theorem perform_imulRegReg (d s : Reg) :
    perform address m (.bytes (x64ImulRegReg d s .qword)) =
      ⟨.running, (m.setReg d (m.regs d * m.regs s)).setFlags (mulFlags (m.regs d) (m.regs s))⟩ :=
  (perform_request (r := .imulRegReg d s .qword) (Or.inr rfl)).trans
    (congrArg (ofStep m) (step_imul m d s))

@[simp] theorem perform_cmpRegReg (d s : Reg) :
    perform address m (.bytes (x64CmpRegReg d s .qword)) =
      ⟨.running, m.setFlags (subFlags (m.regs d) (m.regs s))⟩ :=
  (perform_request (r := .cmpRegReg d s .qword) (Or.inr rfl)).trans
    (congrArg (ofStep m) (step_cmp m d s))

@[simp] theorem perform_testRegReg (d s : Reg) :
    perform address m (.bytes (x64TestRegReg d s .qword)) =
      ⟨.running, m.setFlags (logicFlags (m.regs d &&& m.regs s))⟩ :=
  (perform_request (r := .testRegReg d s .qword) (Or.inr rfl)).trans
    (congrArg (ofStep m) (step_test m d s))

@[simp] theorem perform_negReg (d : Reg) :
    perform address m (.bytes (x64NegReg d .qword)) =
      ⟨.running, (m.setReg d (-m.regs d)).setFlags (subFlags 0 (m.regs d))⟩ :=
  (perform_request (r := .negReg d .qword) (Or.inr rfl)).trans
    (congrArg (ofStep m) (step_neg m d))

@[simp] theorem perform_pushReg (s : Reg) :
    perform address m (.bytes (x64PushReg s)) = ⟨.running, m.push (m.regs s)⟩ :=
  (perform_request (r := .pushReg s) trivial).trans (congrArg (ofStep m) (step_push m s))

@[simp] theorem perform_idivReg (s : Reg) :
    perform address m (.bytes (x64IdivReg s .qword)) = ofStep m (signedDivide m (m.regs s)) :=
  (perform_request (r := .idivReg s .qword) (Or.inr rfl)).trans
    (congrArg (ofStep m) (step_idiv m s))

@[simp] theorem perform_cqo :
    perform address m (.bytes x64Cqo) =
      ⟨.running, m.setReg .rdx (if (m.regs .rax).msb then -1 else 0)⟩ :=
  (perform_bytes (i := ⟨.convert, .qword, []⟩) fun _ => rfl).trans
    (congrArg (ofStep m) (step_cqo m))

/-- `bt reg, 63`. -/
@[simp] theorem perform_bt63 (reg : Reg) :
    perform address m (.bytes (x64Bt63 reg)) =
      ⟨.running, m.setFlags ⟨some (m.regs reg).msb, m.flags.zero, none, none, none⟩⟩ := by
  have h : Encodes (x64Bt63 reg) ⟨.bt, .qword, [.reg .qword reg, .imm 63]⟩ := by
    cases reg <;> exact fun _ => rfl
  exact (perform_bytes h).trans (congrArg (ofStep m) (step_bt_sign m reg))

/-- `setcc al`, and then `movzx rax, al`. -/
theorem run_setcc {cc : Cond} {b : Bool} (h : m.flags.holds cc = some b) :
    run address (.bytes (x64Setcc cc .rax) :: .bytes (x64Movzx .rax .rax .qword .byte) :: es)
        ⟨.running, m⟩ =
      run address es ⟨.running, m.setReg .rax (if b then 1 else 0)⟩ := by
  obtain ⟨m', hset, hmovzx⟩ := step_set_movzx m .rax h
  have hs := @perform_request address m (.setcc cc .rax)
    (by simp [X64Request.Encodable, highByte])
  have hm := @perform_request address m' (.movzx .rax .rax .qword .byte)
    ⟨Or.inr rfl, Or.inr ⟨rfl, Or.inl rfl⟩⟩
  rw [X64Request.meaning, hset] at hs
  rw [X64Request.meaning, hmovzx] at hm
  rw [run_running, show x64Setcc cc .rax = (X64Request.setcc cc .rax).bytes from rfl, hs]
  exact congrArg (run address es) hm

/-! ## Jumps -/

@[simp] theorem perform_jmpLabel (labelId : UInt32) :
    perform address m (x64JmpLabel labelId) = ⟨.seeking labelId, m⟩ :=
  rfl

@[simp] theorem run_seeking_jmpLabel (id labelId : UInt32) :
    run address (x64JmpLabel id :: es) ⟨.seeking labelId, m⟩ =
      run address es ⟨.seeking labelId, m⟩ :=
  rfl

@[simp] theorem run_seeking_jccLabel (cc : Cond) (id labelId : UInt32) :
    run address (x64JccLabel cc id :: es) ⟨.seeking labelId, m⟩ =
      run address es ⟨.seeking labelId, m⟩ :=
  rfl

/-- A conditional jump on flags that are defined. -/
theorem perform_jccLabel {cc : Cond} {b : Bool} (h : m.flags.holds cc = some b)
    (labelId : UInt32) :
    perform address m (x64JccLabel cc labelId) =
      if b then ⟨.seeking labelId, m⟩ else ⟨.running, m⟩ := by
  have hd : decode ([0x0F, UInt8.ofNat (0x80 + cc.code)] ++ List.replicate (Int.toNat 4) 0) =
      some (⟨.jcc cc, .qword, [.imm 0]⟩, []) := by
    cases cc <;> rfl
  rw [x64JccLabel, perform, hd]
  simp only [h]
  cases b <;> rfl

/-- The test of a register for VOID. -/
theorem run_voidCheck (reg : Reg) (voidLabel : UInt32) :
    run address (x64EmitVoidCheck reg voidLabel ++ es) ⟨.running, m⟩ =
      run address es
        ⟨if (m.regs reg).msb then .seeking voidLabel else .running,
          m.setFlags ⟨some (m.regs reg).msb, m.flags.zero, none, none, none⟩⟩ := by
  rw [x64EmitVoidCheck, List.cons_append, List.cons_append, List.nil_append, run_running,
    perform_bt63, run_running, perform_jccLabel (b := (m.regs reg).msb) rfl]
  cases (m.regs reg).msb <;> rfl

@[simp] theorem perform_fnptr (dst : Reg) (fn : ℕ) :
    perform address m (.fnptr [if dst.code ≥ 8 then 0x4C else 0x48, 0x8D,
        UInt8.ofNat (((dst.code &&& 7) <<< 3) ||| 0x05)] fn) =
      ⟨.running, m.setReg dst (address fn)⟩ := by
  cases dst <;> rfl

end X64Run

/-! ## Values -/

/-- The address of a stack slot. -/
def slot (m : Machine) (offset : BitVec 32) : BitVec 64 :=
  m.regs .rbp + offset.signExtend 64

/-- What a value holds, if it has a place. -/
def X64Value.value (address : ℕ → BitVec 64) (intervals : List X64LiveInterval) (m : Machine)
    (v : X64Value) : Option (BitVec 64) :=
  if v.kind = .const then some v.constant
  else if v.kind = .voidConst then some x64VoidValue
  else if v.kind = .fnptr then some (address v.fn)
  else
    match x64GetValueLocation intervals v with
    | none => none
    | some (some r, _) => some (m.regs r)
    | some (none, offset) => if offset ≠ -1 then some (m.mem.load (slot m offset) 8) else none

/-- The accesses of the stack that bring a value to a register. -/
def X64Value.slotAccesses (intervals : List X64LiveInterval) (m : Machine) (v : X64Value) :
    List Access :=
  if v.kind = .const ∨ v.kind = .voidConst ∨ v.kind = .fnptr then []
  else
    match x64GetValueLocation intervals v with
    | some (none, offset) => if offset ≠ -1 then [⟨false, slot m offset, 8⟩] else []
    | _ => []

/-- The machine with further accesses. -/
def logged (m : Machine) (accesses : List Access) : Machine :=
  { m with accesses := m.accesses ++ accesses }

@[simp] theorem regs_logged (m : Machine) (accesses : List Access) :
    (logged m accesses).regs = m.regs :=
  rfl

@[simp] theorem mem_logged (m : Machine) (accesses : List Access) :
    (logged m accesses).mem = m.mem :=
  rfl

@[simp] theorem accesses_logged (m : Machine) (accesses : List Access) :
    (logged m accesses).accesses = m.accesses ++ accesses :=
  rfl

@[simp] theorem logged_nil (m : Machine) : logged m [] = m := by
  simp [logged]

/-- The machine with a value in a register. -/
def loaded (intervals : List X64LiveInterval) (m : Machine) (v : X64Value) (dst : Reg)
    (x : BitVec 64) : Machine :=
  logged (m.setReg dst x) (v.slotAccesses intervals m)

theorem setWidth_signExtend {x : BitVec 64} (h : -2147483648 ≤ x.toInt ∧ x.toInt ≤ 2147483647) :
    (x.setWidth 32).signExtend 64 = x := by
  refine BitVec.eq_of_toInt_eq ?_
  rw [BitVec.toInt_signExtend_of_le (by decide), BitVec.toInt_setWidth]
  rw [BitVec.toInt_eq_toNat_bmod] at h ⊢
  generalize x.toNat = n at h
  simp only [Int.bmod_def] at h ⊢
  omega

section values

variable {address : ℕ → BitVec 64} {intervals : List X64LiveInterval} {m : Machine}
  {es : List Emission} {v : X64Value} {x : BitVec 64}

theorem run_emitMoveIfNeeded (dst src : Reg) :
    X64Run.run address (emitMoveIfNeeded dst src ++ es) ⟨.running, m⟩ =
      X64Run.run address es ⟨.running, m.setReg dst (m.regs src)⟩ := by
  unfold emitMoveIfNeeded
  split_ifs with h
  · rw [List.singleton_append, X64Run.run_running, X64Run.perform_movRegReg]
  · rw [not_not.1 h]
    simp [Machine.setReg]

/-- A value that has a place is brought to the register. -/
theorem run_loadValue (dst : Reg) (h : v.value address intervals m = some x) :
    X64Run.run address (x64LoadValue intervals (some v) dst ++ es) ⟨.running, m⟩ =
      X64Run.run address es ⟨.running, loaded intervals m v dst x⟩ := by
  unfold X64Value.value at h
  unfold x64LoadValue loaded X64Value.slotAccesses
  by_cases hc : v.kind = .const
  · simp only [hc, if_true, true_or, logged_nil] at h ⊢
    obtain rfl := Option.some.inj h
    split_ifs with hfit
    · simp [setWidth_signExtend hfit]
    · simp
  by_cases hv : v.kind = .voidConst
  · simp only [hv, if_true, true_or, or_true, reduceCtorEq, if_false, logged_nil] at h ⊢
    obtain rfl := Option.some.inj h
    simp
  by_cases hf : v.kind = .fnptr
  · simp only [hf, if_true, or_true, reduceCtorEq, if_false, logged_nil] at h ⊢
    obtain rfl := Option.some.inj h
    rw [List.singleton_append, X64Run.run_running, X64Run.perform_fnptr]
  simp only [hc, hv, hf, if_false, or_self] at h ⊢
  rcases hl : x64GetValueLocation intervals v with _ | ⟨_ | r, offset⟩
  · simp [hl] at h
  · simp only [hl] at h ⊢
    split_ifs at h ⊢ with hoff
    obtain rfl := Option.some.inj h
    rw [List.singleton_append, X64Run.run_running, X64Run.perform_movRegMem]
    rfl
  · simp only [hl] at h ⊢
    obtain rfl := Option.some.inj h
    rw [run_emitMoveIfNeeded, logged_nil]

/-- A register that values are not kept in does not matter to them. -/
theorem value_setReg {r : Reg} (hr : r ≠ .rbp) (halloc : ∀ i ∈ intervals, i.physReg ≠ some r) :
    v.value address intervals (m.setReg r x) = v.value address intervals m := by
  have hplace : ∀ s offset, x64GetValueLocation intervals v = some (some s, offset) → s ≠ r := by
    intro s offset hl heq
    unfold x64GetValueLocation at hl
    split_ifs at hl
    obtain ⟨i, hi, hp⟩ := Option.map_eq_some_iff.1 hl
    exact halloc i (List.mem_of_find?_eq_some hi) ((Prod.mk.inj hp).1.trans (congrArg some heq))
  unfold X64Value.value
  rcases hl : x64GetValueLocation intervals v with _ | ⟨_ | s, offset⟩
  · rfl
  · simp only [slot, Machine.regs_setReg, Ne.symm hr, if_false, Machine.mem_setReg]
  · simp only [Machine.regs_setReg, hplace s offset hl, if_false]

/-- Only registers and the memory count for a value. -/
theorem value_congr {m' : Machine} (hregs : m'.regs = m.regs) (hmem : m'.mem = m.mem) :
    v.value address intervals m' = v.value address intervals m := by
  unfold X64Value.value slot
  rw [hregs, hmem]

/-- The register and the stack offset of a value. -/
def X64Value.place (intervals : List X64LiveInterval) (v : X64Value) : Option Reg × BitVec 32 :=
  (x64GetValueLocation intervals v).getD (none, -1)

/-- A value has a place. -/
def X64Value.Placed (intervals : List X64LiveInterval) (v : X64Value) : Prop :=
  (v.place intervals).1 ≠ none ∨ (v.place intervals).2 ≠ -1

/-- The bytes of the stack slot of a value. -/
def X64Value.InSlot (intervals : List X64LiveInterval) (m : Machine) (v : X64Value)
    (a : BitVec 64) : Prop :=
  (v.place intervals).2 ≠ -1 ∧ (a - slot m (v.place intervals).2).toNat < 8

/-- The result of a lowering is put in its place, and nothing else changes. -/
theorem run_storeResult (hplaced : v.Placed intervals)
    (hrbp : (v.place intervals).1 ≠ some .rbp) :
    ∃ m', X64Run.run address (x64StoreResult intervals (some v) .rax) ⟨.running, m⟩ =
        ⟨.running, m'⟩ ∧ v.value address intervals m' = some (m.regs .rax) ∧
      (∀ r, (v.place intervals).1 ≠ some r → m'.regs r = m.regs r) ∧
      ∀ a, ¬v.InSlot intervals m a → m'.mem a = m.mem a := by
  unfold X64Value.Placed X64Value.place at hplaced
  unfold X64Value.InSlot X64Value.place at *
  rcases hl : x64GetValueLocation intervals v with _ | ⟨reg, offset⟩
  · simp [hl] at hplaced
  · have hkind : v.kind ≠ .const ∧ v.kind ≠ .voidConst ∧ v.kind ≠ .fnptr := by
      unfold x64GetValueLocation at hl
      split_ifs at hl with hk
      rcases hk with hk | hk <;> simp [hk]
    simp only [hl, Option.getD_some] at hplaced hrbp ⊢
    have hmove := @run_emitMoveIfNeeded address m
      (if offset ≠ -1 then [.bytes (x64MovMemReg .rbp offset (reg.getD .rax) .qword)] else [])
      (reg.getD .rax) .rax
    have hbase : (m.setReg (reg.getD .rax) (m.regs .rax)).regs .rbp = m.regs .rbp := by
      rw [Machine.regs_setReg, if_neg]
      cases reg with
      | none => decide
      | some r => exact fun heq => hrbp (congrArg some heq.symm)
    simp only [x64StoreResult, x64ResultLocation, hl, Option.isSome_some, if_true]
    rw [hmove]
    have hother : ∀ r, reg ≠ some r →
        (m.setReg (reg.getD .rax) (m.regs .rax)).regs r = m.regs r := by
      intro r hr
      cases reg with
      | none =>
        by_cases h0 : r = .rax <;> simp [h0]
      | some s =>
        have hne : r ≠ s := fun heq => hr (congrArg some heq.symm)
        simp [hne]
    by_cases hoff : offset = -1
    · rw [if_neg (not_not.2 hoff), X64Run.run_nil]
      refine ⟨_, rfl, ?_, hother, fun _ _ => rfl⟩
      obtain ⟨r, rfl⟩ := Option.ne_none_iff_exists'.1 (hplaced.resolve_right (not_not.2 hoff))
      simp [X64Value.value, hkind, hl]
    · rw [if_pos hoff, X64Run.run_running, X64Run.perform_movMemReg, X64Run.run_nil]
      refine ⟨_, rfl, ?_, hother, fun a ha => ?_⟩
      · cases reg with
        | none => simpa [X64Value.value, hkind, hl, slot] using hoff
        | some r => simp [X64Value.value, hkind, hl]
      · rw [Machine.mem_store, hbase]
        exact if_neg fun hlt => ha ⟨hoff, hlt⟩

end values

end Seraph
