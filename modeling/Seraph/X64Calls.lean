import Seraph.SequentialMoves
import Seraph.X64LowerRuns

/-!
# Arguments of calls on x86-64

A call is lowered to moves of its operands to the registers of the convention, one after the other.
The places of values are what the moves are between (`X64Place`), and the code before the call is
`Moves.run` on what they hold (`run_loadRegisters`), with the pushes of the stack arguments in
between or before (`run_pushArguments`). `passes_iff` says when the registers then hold what the
operands held : an operand in a register that was set up before it is found there only if both are
the same, and one in a slot only if the pushes leave the slot as it was, since the stack pointer of
a function can be above its lowest slots.
-/

namespace Seraph

open X86

/-! ## Places -/

/-- Where a value is. -/
inductive X64Place where
  | reg (r : Reg)
  | slot (offset : BitVec 32)
  | const (x : BitVec 64)
deriving DecidableEq

/-- What a place holds. -/
def contents (m : Machine) : X64Place → BitVec 64
  | .reg r => m.regs r
  | .slot offset => m.mem.load (slot m offset) 8
  | .const x => x

/-- The place of a value, if it has one. -/
def X64Value.source (address : ℕ → BitVec 64) (intervals : List X64LiveInterval) (v : X64Value) :
    Option X64Place :=
  if v.kind = .const then some (.const v.constant)
  else if v.kind = .voidConst then some (.const x64VoidValue)
  else if v.kind = .fnptr then some (.const (address v.fn))
  else
    match x64GetValueLocation intervals v with
    | none => none
    | some (some r, _) => some (.reg r)
    | some (none, offset) => if offset ≠ -1 then some (.slot offset) else none

section moves

variable {address : ℕ → BitVec 64} {intervals : List X64LiveInterval} {m : Machine}
  {es : List Emission} {v : X64Value}

/-- A value is what its place holds. -/
theorem value_eq_contents :
    v.value address intervals m = (v.source address intervals).map (contents m) := by
  unfold X64Value.value X64Value.source
  split_ifs
  · rfl
  · rfl
  · rfl
  · rcases x64GetValueLocation intervals v with _ | ⟨_ | r, offset⟩
    · rfl
    · show (if offset ≠ -1 then _ else _) = Option.map _ (if offset ≠ -1 then _ else _)
      split_ifs <;> rfl
    · rfl

/-- The contents of a register that is set. -/
theorem contents_setReg {d : Reg} (hd : d ≠ .rbp) (x : BitVec 64) :
    contents (m.setReg d x) = Function.update (contents m) (.reg d) x := by
  funext p
  cases p with
  | reg r =>
    by_cases h : r = d
    · simp [contents, h]
    · rw [Function.update_of_ne (fun heq => h (X64Place.reg.inj heq))]
      simp [contents, h]
  | slot offset =>
    rw [Function.update_of_ne (by simp)]
    simp [contents, slot, hd.symm]
  | const x => rfl

/-- An operand that has a place has what is there. -/
theorem value_of_placed {v : X64Value} (h : v.source address intervals ≠ none) :
    ∃ p, v.source address intervals = some p ∧
      v.value address intervals m = some (contents m p) := by
  obtain ⟨p, hp⟩ := Option.ne_none_iff_exists'.1 h
  exact ⟨p, hp, by rw [value_eq_contents, hp, Option.map_some]⟩

/-- A load sets its register, as far as places are concerned. -/
theorem contents_loaded {v : X64Value} {d : Reg} (hd : d ≠ .rbp) (x : BitVec 64) :
    contents (loaded intervals m v d x) = Function.update (contents m) (.reg d) x := by
  rw [← contents_setReg hd]
  funext p
  cases p <;> rfl

/-- The moves of loads. -/
def loadMoves (address : ℕ → BitVec 64) (intervals : List X64LiveInterval)
    (loads : List (Reg × X64Value)) : List (X64Place × X64Place) :=
  loads.map fun load => (.reg load.1, (load.2.source address intervals).getD (.const 0))

/-- Loads are moves. -/
theorem run_loadRegisters (loads : List (Reg × X64Value))
    (hplaced : ∀ load ∈ loads, load.2.source address intervals ≠ none)
    (hrbp : ∀ load ∈ loads, load.1 ≠ .rbp) :
    ∃ m', X64Run.run address (x64LoadRegisters intervals loads ++ es) ⟨.running, m⟩ =
        X64Run.run address es ⟨.running, m'⟩ ∧
      contents m' = Moves.run (contents m) (loadMoves address intervals loads) := by
  induction loads generalizing m with
  | nil => exact ⟨m, rfl, rfl⟩
  | cons load loads ih =>
    obtain ⟨p, hp, hvalue⟩ := value_of_placed (m := m) (hplaced load List.mem_cons_self)
    obtain ⟨m', hrun, hm'⟩ := ih (m := loaded intervals m load.2 load.1 (contents m p))
      (fun l hl => hplaced l (List.mem_cons_of_mem _ hl))
      fun l hl => hrbp l (List.mem_cons_of_mem _ hl)
    refine ⟨m', ?_, hm'.trans ?_⟩
    · rw [x64LoadRegisters, List.flatMap_cons, List.append_assoc, run_loadValue load.1 hvalue]
      exact hrun
    · have hmoves : loadMoves address intervals (load :: loads) =
          (.reg load.1, p) :: loadMoves address intervals loads := by
        rw [loadMoves, List.map_cons, hp]
        rfl
      rw [contents_loaded (hrbp load List.mem_cons_self), hmoves, Moves.run_cons]
      rfl

/-- The machine once values have been pushed, each one through `RAX`. -/
def pushAll (address : ℕ → BitVec 64) (intervals : List X64LiveInterval) :
    Machine → List X64Value → Machine
  | m, [] => m
  | m, v :: vs =>
    let x := (v.value address intervals m).getD 0
    pushAll address intervals ((loaded intervals m v .rax x).push x) vs

/-- The arguments on the stack are pushed. -/
theorem run_pushArguments (vs : List X64Value)
    (hplaced : ∀ v ∈ vs, v.source address intervals ≠ none) :
    X64Run.run address (vs.flatMap (x64PushArgument intervals) ++ es) ⟨.running, m⟩ =
      X64Run.run address es ⟨.running, pushAll address intervals m vs⟩ := by
  induction vs generalizing m with
  | nil => rfl
  | cons v vs ih =>
    obtain ⟨p, -, hvalue⟩ := value_of_placed (m := m) (hplaced v List.mem_cons_self)
    have hrax : (loaded intervals m v .rax (contents m p)).regs .rax = contents m p := by
      simp [loaded]
    rw [List.flatMap_cons, List.append_assoc, x64PushArgument, List.append_assoc,
      run_loadValue .rax hvalue, List.singleton_append, X64Run.run_running,
      X64Run.perform_pushReg, hrax, pushAll, hvalue]
    exact ih fun w hw => hplaced w (List.mem_cons_of_mem _ hw)

/-- Pushes leave all registers but `RAX` and the stack pointer. -/
theorem regs_pushAll (vs : List X64Value) {r : Reg} (hrax : r ≠ .rax) (hrsp : r ≠ .rsp) :
    (pushAll address intervals m vs).regs r = m.regs r := by
  induction vs generalizing m with
  | nil => rfl
  | cons v vs ih =>
    rw [pushAll, ih]
    simp [Machine.push, loaded, hrax, hrsp]

/-- Pushes lower the stack pointer, and change the memory they are pushed to only. -/
theorem mem_pushAll (vs : List X64Value) :
    (pushAll address intervals m vs).regs .rsp = m.regs .rsp - BitVec.ofNat 64 (8 * vs.length) ∧
      ∀ a, 8 * vs.length ≤ (a - (pushAll address intervals m vs).regs .rsp).toNat →
        (pushAll address intervals m vs).mem a = m.mem a := by
  induction vs generalizing m with
  | nil => exact ⟨by simp [pushAll], fun _ _ => rfl⟩
  | cons v vs ih =>
    let m₁ := (loaded intervals m v .rax ((v.value address intervals m).getD 0)).push
      ((v.value address intervals m).getD 0)
    have hstep : pushAll address intervals m (v :: vs) = pushAll address intervals m₁ vs := rfl
    have hpush : m₁.regs .rsp = m.regs .rsp - 8 := by
      simp [m₁, Machine.push, loaded]
    have hlen : BitVec.ofNat 64 (8 * (v :: vs).length) = 8 + BitVec.ofNat 64 (8 * vs.length) := by
      rw [List.length_cons, Nat.mul_succ, Nat.add_comm, BitVec.ofNat_add]
      rfl
    obtain ⟨hrsp, hmem⟩ := ih (m := m₁)
    rw [hstep]
    generalize pushAll address intervals m₁ vs = m' at hrsp hmem ⊢
    rw [hpush] at hrsp
    refine ⟨?_, fun a ha => ?_⟩
    · rw [hrsp, hlen]
      bv_omega
    · rw [List.length_cons] at ha
      have hbelow : (a - m'.regs .rsp).toNat = 8 * vs.length + (a - (m.regs .rsp - 8)).toNat := by
        have hlt := (a - m'.regs .rsp).isLt
        have hsub : a - (m.regs .rsp - 8) = a - m'.regs .rsp - BitVec.ofNat 64 (8 * vs.length) := by
          rw [hrsp]
          bv_omega
        have hk : (BitVec.ofNat 64 (8 * vs.length)).toNat = 8 * vs.length := by
          rw [BitVec.toNat_ofNat]
          omega
        have hle : BitVec.ofNat 64 (8 * vs.length) ≤ a - m'.regs .rsp :=
          BitVec.le_def.2 (by rw [hk]; omega)
        rw [hsub, BitVec.toNat_sub_of_le hle, hk]
        omega
      rw [hmem a (by omega)]
      simp only [m₁, Machine.push, loaded, Machine.mem_store, mem_logged, Machine.mem_setReg,
        regs_logged, Machine.regs_setReg, reduceCtorEq, if_false]
      exact if_neg (by omega)

theorem x64LoadRegisters_append (loads loads' : List (Reg × X64Value)) :
    x64LoadRegisters intervals (loads ++ loads') =
      x64LoadRegisters intervals loads ++ x64LoadRegisters intervals loads' :=
  List.flatMap_append

/-- The arguments from the `k`-th on, from the last to the first. -/
theorem passArguments_from (operands : List X64Value) (k : ℕ) :
    ((operands.zipIdx k).reverse.flatMap fun operand =>
        match argRegs[operand.2]? with
        | some reg => x64LoadValue intervals (some operand.1) reg
        | none => x64PushArgument intervals operand.1) =
      (operands.drop (6 - k)).reverse.flatMap (x64PushArgument intervals) ++
        x64LoadRegisters intervals ((argRegs.drop k).zip operands).reverse := by
  induction operands generalizing k with
  | nil => simp [x64LoadRegisters]
  | cons v vs ih =>
    rw [List.zipIdx_cons, List.reverse_cons, List.flatMap_append, ih (k + 1),
      List.flatMap_singleton]
    by_cases hk : k < argRegs.length
    · have hsub : 6 - k = 6 - (k + 1) + 1 := by
        have hk' : k < 6 := hk
        omega
      rw [List.getElem?_eq_getElem hk, List.drop_eq_getElem_cons hk, hsub, List.drop_succ_cons,
        List.zip_cons_cons, List.reverse_cons, x64LoadRegisters_append, List.append_assoc]
      simp [x64LoadRegisters]
    · have hk' : 6 ≤ k := Nat.not_lt.1 hk
      have hdrop : ∀ j, 6 ≤ j → argRegs.drop j = [] := fun j hj => List.drop_eq_nil_of_le hj
      rw [List.getElem?_eq_none hk', hdrop k hk', hdrop (k + 1) (by omega),
        Nat.sub_eq_zero_of_le hk', Nat.sub_eq_zero_of_le (by omega)]
      simp [x64LoadRegisters]

/-- Arguments go to the stack and then to registers, from the last to the first. -/
theorem x64PassArguments_eq (operands : List X64Value) :
    x64PassArguments intervals operands =
      (operands.drop 6).reverse.flatMap (x64PushArgument intervals) ++
        x64LoadRegisters intervals (argRegs.zip operands).reverse :=
  passArguments_from operands 0

end moves

/-! ## Calls -/

/-- The registers an instruction passes its operands in, in the order of the code : the number of a
system call and the target of an indirect call come first. -/
def X64Instr.loads (instr : X64Instr) : List (Reg × X64Value) :=
  match instr.opcode with
  | .call => (argRegs.zip instr.operands).reverse
  | .callIndirect => (.r10 :: argRegs).zip instr.operands
  | .syscall => (.rax :: syscallArgRegs).zip instr.operands
  | _ => []

/-- The operands that are passed on the stack, in the order of the pushes. -/
def X64Instr.stackArgs (instr : X64Instr) : List X64Value :=
  match instr.opcode with
  | .call => (instr.operands.drop 6).reverse
  | .callIndirect => (instr.operands.drop 7).reverse
  | _ => []

/-- The loads after the pushes : all but the one of the target of an indirect call. -/
def X64Instr.lateLoads (instr : X64Instr) : List (Reg × X64Value) :=
  match instr.opcode with
  | .callIndirect => argRegs.zip instr.operands.tail
  | _ => instr.loads

/-- A call where it is lowered, and the machine at it : the operands have places, in the registers
of the allocator or of the arguments, in any slots, or as constants. -/
structure CallSite where
  address : ℕ → BitVec 64
  intervals : List X64LiveInterval
  nextId : UInt32
  instr : X64Instr
  machine : Machine
  opcode_mem : instr.opcode ∈ [CirOpcode.call, .callIndirect, .syscall]
  callee_ne : instr.opcode = .call → instr.callee ≠ none
  operands_ne : instr.opcode ≠ .call → instr.operands ≠ []
  placed : ∀ v ∈ instr.operands, v.source address intervals ≠ none
  registers : ∀ v ∈ instr.operands, ∀ r, v.source address intervals = some (.reg r) →
    r ∈ gpAllocOrder ++ argRegs

namespace CallSite

/-- What the call instruction transfers control to. -/
def target (s : CallSite) : Exit :=
  match s.instr.opcode with
  | .call => .call (s.address (s.instr.callee.getD 0))
  | .callIndirect =>
    .call ((s.instr.operands.head?.bind (X64Value.value s.address s.intervals s.machine)).getD 0)
  | _ => .syscall

/-- The code comes to the call instruction with its target, and each register of the convention
holds what its operand held at first. -/
def Passes (s : CallSite) : Prop :=
  ∃ es m, x64LowerInstruction s.intervals s.nextId s.instr = some es ∧
    X64Run.run s.address es (X64Run.start s.machine) = ⟨.left s.target, m⟩ ∧
    ∀ load ∈ s.instr.loads, some (m.regs load.1) = load.2.value s.address s.intervals s.machine

variable (s : CallSite)

/-- The machine where the stack arguments are pushed. -/
def atPushes : Machine :=
  match s.instr.opcode, s.instr.operands with
  | .callIndirect, v :: _ =>
    loaded s.intervals s.machine v .r10 ((v.value s.address s.intervals s.machine).getD 0)
  | _, _ => s.machine

/-- The machine once the stack arguments have been pushed. -/
def stacked : Machine :=
  pushAll s.address s.intervals s.atPushes s.instr.stackArgs

/-- The stack arguments are not pushed over operands that are loaded after them, unless with what
the slot holds. -/
def Intact : Prop :=
  ∀ load ∈ s.instr.lateLoads, ∀ offset,
    load.2.source s.address s.intervals = some (.slot offset) →
      contents s.stacked (.slot offset) = contents s.machine (.slot offset)

theorem zip_fst_sublist {α β : Type*} (as : List α) (bs : List β) :
    ((as.zip bs).map Prod.fst).Sublist as := by
  induction as generalizing bs with
  | nil => simp
  | cons a as ih =>
    cases bs with
    | nil => simp
    | cons b bs => exact (ih bs).cons_cons a

/-- The registers that are loaded, and what they are loaded with. -/
theorem loads_eq : ∃ regs : List Reg, (s.instr.loads = regs.zip s.instr.operands ∨
    s.instr.loads = (regs.zip s.instr.operands).reverse) ∧ regs.Nodup ∧
      ∀ r ∈ regs, r ≠ .rsp ∧ r ≠ .rbp := by
  have h := s.opcode_mem
  simp only [List.mem_cons, List.not_mem_nil, or_false] at h
  unfold X64Instr.loads
  rcases h with h | h | h <;> rw [h]
  · exact ⟨_, Or.inr rfl, by decide, by decide⟩
  · exact ⟨_, Or.inl rfl, by decide, by decide⟩
  · exact ⟨_, Or.inl rfl, by decide, by decide⟩

theorem loads_nodup : (s.instr.loads.map Prod.fst).Nodup := by
  obtain ⟨regs, heq, hnodup, -⟩ := s.loads_eq
  rcases heq with heq | heq <;> rw [heq]
  · exact hnodup.sublist (zip_fst_sublist _ _)
  · rw [List.map_reverse, List.nodup_reverse]
    exact hnodup.sublist (zip_fst_sublist _ _)

theorem mem_loads {load : Reg × X64Value} (h : load ∈ s.instr.loads) :
    load.1 ≠ .rsp ∧ load.1 ≠ .rbp ∧ load.2 ∈ s.instr.operands := by
  obtain ⟨regs, heq, -, hregs⟩ := s.loads_eq
  have hmem : load ∈ regs.zip s.instr.operands := by
    rcases heq with heq | heq
    · rwa [heq] at h
    · rwa [heq, List.mem_reverse] at h
  have hboth := List.of_mem_zip (a := load.1) (b := load.2) hmem
  exact ⟨(hregs _ hboth.1).1, (hregs _ hboth.1).2, hboth.2⟩

/-- The moves of the code. -/
def moves : List (X64Place × X64Place) :=
  loadMoves s.address s.intervals s.instr.loads

/-- The moves after the pushes. -/
def lateMoves : List (X64Place × X64Place) :=
  loadMoves s.address s.intervals s.instr.lateLoads

/-- The loads of an indirect call begin with its target. -/
theorem loads_callIndirect (h : s.instr.opcode = .callIndirect) :
    ∃ v vs, s.instr.operands = v :: vs ∧ s.instr.loads = (.r10, v) :: s.instr.lateLoads ∧
      s.instr.lateLoads = argRegs.zip vs := by
  obtain ⟨v, vs, hops⟩ := List.exists_cons_of_ne_nil (s.operands_ne (by rw [h]; decide))
  have hlate : s.instr.lateLoads = argRegs.zip vs := by
    rw [X64Instr.lateLoads, h, hops, List.tail_cons]
  refine ⟨v, vs, hops, ?_, hlate⟩
  rw [hlate, X64Instr.loads, h, hops]
  rfl

/-- Before the pushes, an indirect call moves its target. -/
theorem atPushes_callIndirect (h : s.instr.opcode = .callIndirect) {v : X64Value}
    {vs : List X64Value} (hops : s.instr.operands = v :: vs) :
    ∃ p, v.source s.address s.intervals = some p ∧
      v.value s.address s.intervals s.machine = some (contents s.machine p) ∧
        s.atPushes = loaded s.intervals s.machine v .r10 (contents s.machine p) := by
  obtain ⟨p, hp, hvalue⟩ := value_of_placed (m := s.machine)
    (s.placed v (by rw [hops]; exact List.mem_cons_self))
  exact ⟨p, hp, hvalue, by simp only [atPushes, h, hops, hvalue, Option.getD_some]⟩

theorem atPushes_of_ne (h : s.instr.opcode ≠ .callIndirect) : s.atPushes = s.machine := by
  unfold atPushes
  split
  · contradiction
  · rfl

theorem lateLoads_of_ne (h : s.instr.opcode ≠ .callIndirect) :
    s.instr.lateLoads = s.instr.loads := by
  unfold X64Instr.lateLoads
  split
  · contradiction
  · rfl

theorem lateLoads_subset {load : Reg × X64Value} (h : load ∈ s.instr.lateLoads) :
    load ∈ s.instr.loads := by
  by_cases hop : s.instr.opcode = .callIndirect
  · obtain ⟨v, vs, -, hloads, -⟩ := s.loads_callIndirect hop
    rw [hloads]
    exact List.mem_cons_of_mem _ h
  · rwa [s.lateLoads_of_ne hop] at h

/-- Stack arguments and loads are the moves of the loads after the pushes. -/
theorem run_arguments (hstack : ∀ v ∈ s.instr.stackArgs, v ∈ s.instr.operands)
    (es : List Emission) :
    ∃ m, X64Run.run s.address (s.instr.stackArgs.flatMap (x64PushArgument s.intervals) ++
          (x64LoadRegisters s.intervals s.instr.lateLoads ++ es)) ⟨.running, s.atPushes⟩ =
        X64Run.run s.address es ⟨.running, m⟩ ∧
      contents m = Moves.run (contents s.stacked) s.lateMoves := by
  rw [run_pushArguments _ fun v hv => s.placed v (hstack v hv)]
  exact run_loadRegisters s.instr.lateLoads
    (fun load hl => s.placed _ (s.mem_loads (s.lateLoads_subset hl)).2.2)
    fun load hl => (s.mem_loads (s.lateLoads_subset hl)).2.1

/-- The code comes to the call instruction, where the registers hold what the moves leave ; the
target is right if they hold the operands. -/
def Arrives : Prop :=
  ∃ es m target, x64LowerInstruction s.intervals s.nextId s.instr = some es ∧
    X64Run.run s.address es (X64Run.start s.machine) = ⟨.left target, m⟩ ∧
    contents m = Moves.run (contents s.stacked) s.lateMoves ∧
    ((∀ load ∈ s.instr.loads,
      some (m.regs load.1) = load.2.value s.address s.intervals s.machine) → target = s.target)

theorem arrives_call (h : s.instr.opcode = .call) : s.Arrives := by
  obtain ⟨callee, hcallee⟩ := Option.ne_none_iff_exists'.1 (s.callee_ne h)
  have hstack : s.instr.stackArgs = (s.instr.operands.drop 6).reverse := by
    rw [X64Instr.stackArgs, h]
  have hlate : s.instr.lateLoads = (argRegs.zip s.instr.operands).reverse := by
    rw [s.lateLoads_of_ne (by rw [h]; decide), X64Instr.loads, h]
  have hstart := s.atPushes_of_ne (by rw [h]; decide)
  have hlow : x64LowerInstruction s.intervals s.nextId s.instr =
      some (x64PassArguments s.intervals s.instr.operands ++ [.call 0xE8 callee] ++
        x64FinishCall s.intervals (s.instr.operands.length - 6) s.instr.result) := by
    simp only [x64LowerInstruction, x64LowerControlFlow, h, hcallee, Option.map_some]
  obtain ⟨m, hrun, hm⟩ := s.run_arguments (fun v hv => by
      rw [hstack] at hv
      exact List.mem_of_mem_drop (List.mem_reverse.1 hv))
    (.call 0xE8 callee ::
      x64FinishCall s.intervals (s.instr.operands.length - 6) s.instr.result)
  refine ⟨_, m, .call (s.address callee), hlow, ?_, hm, fun _ => ?_⟩
  · rw [x64PassArguments_eq, X64Run.start, ← hstack, ← hlate, ← hstart]
    simp only [List.append_assoc, List.singleton_append]
    refine hrun.trans ?_
    rw [X64Run.run_running]
    exact X64Run.run_left _ _
  · rw [target, h, hcallee]
    rfl

theorem arrives_callIndirect (h : s.instr.opcode = .callIndirect) : s.Arrives := by
  obtain ⟨v, vs, hops, hloads, hlate⟩ := s.loads_callIndirect h
  have hstack : s.instr.stackArgs = (vs.drop 6).reverse := by
    simp only [X64Instr.stackArgs, h, hops, List.drop_succ_cons]
  obtain ⟨p, -, hvalue, hstart⟩ := s.atPushes_callIndirect h hops
  have hlow : x64LowerInstruction s.intervals s.nextId s.instr =
      some (x64LoadValue s.intervals (some v) .r10 ++
        (vs.drop 6).reverse.flatMap (x64PushArgument s.intervals) ++
        x64LoadRegisters s.intervals (argRegs.zip vs) ++
        [.bytes [x64Rex false false false true, 0xFF, x64Modrm 3 2 (Reg.code .r10 &&& 7)]] ++
        x64FinishCall s.intervals (vs.length - 6) s.instr.result) := by
    simp only [x64LowerInstruction, x64LowerControlFlow, h, hops]
  obtain ⟨m, hrun, hm⟩ := s.run_arguments (fun w hw => by
      rw [hstack] at hw
      rw [hops]
      exact List.mem_cons_of_mem _ (List.mem_of_mem_drop (List.mem_reverse.1 hw)))
    (.bytes [x64Rex false false false true, 0xFF, x64Modrm 3 2 (Reg.code .r10 &&& 7)] ::
      x64FinishCall s.intervals (vs.length - 6) s.instr.result)
  refine ⟨_, m, .call (m.regs .r10), hlow, ?_, hm, fun hall => ?_⟩
  · rw [X64Run.start, ← hstack, ← hlate]
    simp only [List.append_assoc, List.singleton_append]
    rw [run_loadValue .r10 hvalue, ← hstart]
    refine hrun.trans ?_
    rw [X64Run.run_running]
    exact X64Run.run_left _ _
  · have hr10 := hall (.r10, v) (by rw [hloads]; exact List.mem_cons_self)
    rw [target, h, hops]
    simp [← hr10]

theorem arrives_syscall (h : s.instr.opcode = .syscall) : s.Arrives := by
  have hne := s.operands_ne (by rw [h]; decide)
  obtain ⟨v, vs, hops⟩ := List.exists_cons_of_ne_nil hne
  have hlate : s.instr.lateLoads = (.rax, v) :: syscallArgRegs.zip vs := by
    rw [s.lateLoads_of_ne (by rw [h]; decide), X64Instr.loads, h, hops]
    rfl
  have hstack : s.instr.stackArgs = [] := by
    rw [X64Instr.stackArgs, h]
  have hstart := s.atPushes_of_ne (by rw [h]; decide)
  have hlow : x64LowerInstruction s.intervals s.nextId s.instr =
      some (x64LoadValue s.intervals (some v) .rax ++
        x64LoadRegisters s.intervals (syscallArgRegs.zip vs) ++ [.bytes x64Syscall] ++
        x64FinishCall s.intervals 0 s.instr.result) := by
    simp only [x64LowerInstruction, x64LowerControlFlow, h, hops]
  obtain ⟨m, hrun, hm⟩ := s.run_arguments (fun w hw => by
      rw [hstack] at hw
      exact absurd hw List.not_mem_nil)
    (.bytes x64Syscall :: x64FinishCall s.intervals 0 s.instr.result)
  refine ⟨_, m, .syscall, hlow, ?_, hm, fun _ => ?_⟩
  · have hcode : x64LoadRegisters s.intervals s.instr.lateLoads =
        x64LoadValue s.intervals (some v) .rax ++
          x64LoadRegisters s.intervals (syscallArgRegs.zip vs) := by
      rw [hlate]
      exact List.flatMap_cons
    rw [hstack, hstart] at hrun
    rw [X64Run.start, ← hcode]
    simp only [List.append_assoc, List.singleton_append]
    refine hrun.trans ?_
    rw [X64Run.run_running]
    exact X64Run.run_left _ _
  · rw [target, h]

theorem arrives : s.Arrives := by
  have h := s.opcode_mem
  simp only [List.mem_cons, List.not_mem_nil, or_false] at h
  rcases h with h | h | h
  · exact s.arrives_call h
  · exact s.arrives_callIndirect h
  · exact s.arrives_syscall h

/-- The registers hold the operands if the moves after the pushes are as good as one before. -/
theorem passes_iff_moves :
    s.Passes ↔ ∀ move ∈ s.moves, Moves.run (contents s.stacked) s.lateMoves move.1 =
      contents s.machine move.2 := by
  obtain ⟨es, m, target, hlow, hrun, hm, htarget⟩ := s.arrives
  have hload : ∀ load ∈ s.instr.loads,
      (some (m.regs load.1) = load.2.value s.address s.intervals s.machine ↔
        Moves.run (contents s.stacked) s.lateMoves (.reg load.1) = contents s.machine
          ((load.2.source s.address s.intervals).getD (.const 0))) := by
    intro load hl
    obtain ⟨p, hp, hvalue⟩ := value_of_placed (m := s.machine) (s.placed _ (s.mem_loads hl).2.2)
    rw [hvalue, hp, ← hm]
    simp [contents]
  have hmoves : (∀ move ∈ s.moves, Moves.run (contents s.stacked) s.lateMoves move.1 =
      contents s.machine move.2) ↔
      ∀ load ∈ s.instr.loads,
        some (m.regs load.1) = load.2.value s.address s.intervals s.machine := by
    rw [moves, loadMoves, List.forall_mem_map]
    exact forall₂_congr fun load hl => (hload load hl).symm
  rw [hmoves]
  constructor
  · rintro ⟨es', m', hlow', hrun', hall⟩
    obtain rfl := Option.some.inj (hlow.symm.trans hlow')
    obtain rfl : m = m' := (X64Run.mk.inj (hrun.symm.trans hrun')).2
    exact hall
  · intro hall
    exact ⟨es, m, hlow, htarget hall ▸ hrun, hall⟩

theorem moves_nodup : (s.moves.map Prod.fst).Nodup := by
  have hmap : s.moves.map Prod.fst = (s.instr.loads.map Prod.fst).map .reg := by
    rw [moves, loadMoves, List.map_map, List.map_map]
    rfl
  rw [hmap]
  exact s.loads_nodup.map fun _ _ => X64Place.reg.inj

/-! ## Slots below the stack pointer -/

/-- An operand that a push has overwritten is passed wrong. -/
theorem Passes.intact {s : CallSite} (h : s.Passes) : s.Intact := by
  intro load hload offset hsource
  have hmove : (X64Place.reg load.1, X64Place.slot offset) ∈ s.lateMoves :=
    List.mem_map.2 ⟨load, hload, by rw [hsource, Option.getD_some]⟩
  have hright := s.passes_iff_moves.1 h (.reg load.1, .slot offset)
    (List.mem_map.2 ⟨load, s.lateLoads_subset hload, by rw [hsource, Option.getD_some]⟩)
  have hnodup : (s.lateMoves.map Prod.fst).Nodup := by
    by_cases hop : s.instr.opcode = .callIndirect
    · obtain ⟨v, vs, -, hloads, -⟩ := s.loads_callIndirect hop
      have hall := s.moves_nodup
      rw [moves, hloads] at hall
      exact (List.nodup_cons.1 hall).2
    · rw [lateMoves, s.lateLoads_of_ne hop]
      exact s.moves_nodup
  have hslot : X64Place.slot offset ∉ s.lateMoves.map Prod.fst := by
    rw [lateMoves, loadMoves, List.map_map, List.mem_map]
    rintro ⟨l, -, heq⟩
    cases heq
  rw [← hright, Moves.run_of_mem hnodup hmove hslot]

/-- No slot is overwritten where all of them are above the stack pointer. -/
theorem intact_of_above (h : ∀ load ∈ s.instr.lateLoads, ∀ offset,
    load.2.source s.address s.intervals = some (.slot offset) →
      (slot s.machine offset - s.machine.regs .rsp).toNat + 8 * (s.instr.stackArgs.length + 1) ≤
        2 ^ 64) : s.Intact := by
  intro load hload offset hsource
  have hroom := h load hload offset hsource
  have hkeep : ∀ r, r ≠ .r10 → s.atPushes.regs r = s.machine.regs r := by
    intro r hr
    unfold atPushes
    split
    · simp [loaded, hr]
    · rfl
  have hmem : s.atPushes.mem = s.machine.mem := by
    unfold atPushes
    split
    · simp [loaded]
    · rfl
  obtain ⟨hrsp, hpushed⟩ := @mem_pushAll s.address s.intervals s.atPushes
    s.instr.stackArgs
  have hslot : slot s.stacked offset = slot s.machine offset := by
    rw [slot, slot, stacked, regs_pushAll _ (by decide) (by decide), hkeep _ (by decide)]
  rw [contents, contents, hslot, ← hmem]
  refine Bytes.load_congr _ _ fun i hi => hpushed _ ?_
  rw [hrsp, hkeep _ (by decide)]
  have hdist : slot s.machine offset + BitVec.ofNat 64 i -
      (s.machine.regs .rsp - BitVec.ofNat 64 (8 * s.instr.stackArgs.length)) =
        slot s.machine offset - s.machine.regs .rsp +
          BitVec.ofNat 64 (8 * s.instr.stackArgs.length + i) := by
    rw [BitVec.ofNat_add]
    bv_omega
  rw [hdist, BitVec.toNat_add, BitVec.toNat_ofNat]
  omega

/-- The code before the pushes moves the target of an indirect call only. -/
theorem contents_atPushes : ∃ first, s.moves = first ++ s.lateMoves ∧
    contents s.atPushes = Moves.run (contents s.machine) first ∧
      ∀ offset, X64Place.slot offset ∉ first.map Prod.fst := by
  by_cases hop : s.instr.opcode = .callIndirect
  · obtain ⟨v, vs, hops, hloads, -⟩ := s.loads_callIndirect hop
    obtain ⟨p, hp, -, hstart⟩ := s.atPushes_callIndirect hop hops
    refine ⟨[(.reg .r10, p)], ?_, hstart ▸ contents_loaded (by decide) _, by simp⟩
    rw [moves, hloads, lateMoves, loadMoves, List.map_cons, hp]
    rfl
  · refine ⟨[], by rw [moves, lateMoves, s.lateLoads_of_ne hop, List.nil_append], ?_, by simp⟩
    rw [s.atPushes_of_ne hop]
    rfl

/-- The pushes leave the registers that are loaded. -/
theorem reg_stacked {load : Reg × X64Value} (h : load ∈ s.instr.loads) :
    contents s.stacked (.reg load.1) = contents s.atPushes (.reg load.1) := by
  by_cases hop : s.instr.opcode = .syscall
  · have hstack : s.instr.stackArgs = [] := by
      rw [X64Instr.stackArgs, hop]
    rw [stacked, hstack, pushAll]
  · have hrax : load.1 ≠ .rax := by
      intro heq
      have hops := s.opcode_mem
      simp only [List.mem_cons, List.not_mem_nil, or_false, hop] at hops
      rcases hops with hops | hops <;> rw [X64Instr.loads, hops] at h
      · have hmem := (List.of_mem_zip (a := load.1) (b := load.2) (List.mem_reverse.1 h)).1
        rw [heq] at hmem
        exact absurd hmem (by decide)
      · have hmem := (List.of_mem_zip (a := load.1) (b := load.2) h).1
        rw [heq] at hmem
        exact absurd hmem (by decide)
    exact regs_pushAll _ hrax (s.mem_loads h).1

/-- Where the pushes leave the operands, the moves are those of the operands. -/
theorem run_lateMoves (hintact : s.Intact) {load : Reg × X64Value} (hload : load ∈ s.instr.loads) :
    Moves.run (contents s.stacked) s.lateMoves (.reg load.1) =
      Moves.run (contents s.machine) s.moves (.reg load.1) := by
  obtain ⟨first, hmoves, hfirst, hslots⟩ := s.contents_atPushes
  have hsrc : ∀ move ∈ s.lateMoves, contents s.stacked move.2 = contents s.atPushes move.2 := by
    intro move hmove
    obtain ⟨l, hl, rfl⟩ := List.mem_map.1 hmove
    have hop := (s.mem_loads (s.lateLoads_subset hl)).2.2
    obtain ⟨p, hp⟩ := Option.ne_none_iff_exists'.1 (s.placed _ hop)
    rw [hp, Option.getD_some]
    cases p with
    | reg r =>
      have hr := s.registers _ hop r hp
      refine regs_pushAll _ ?_ ?_ <;> rintro rfl <;> exact absurd hr (by decide)
    | slot offset => rw [hintact l hl offset hp, hfirst, Moves.run_of_notMem (hslots offset)]
    | const x => rfl
  rw [Moves.run_congr (fun p => contents s.stacked p = contents s.atPushes p) hsrc
    (fun _ h => h) _ (s.reg_stacked hload), hmoves, Moves.run_append, hfirst]

end CallSite

/-- Arguments are passed unless a slot has been overwritten by a push, or a register that has been
set up held another operand, which is not the same. -/
theorem passes_iff (s : CallSite) :
    s.Passes ↔ s.Intact ∧ s.instr.loads.Pairwise fun load load' =>
      load'.2.source s.address s.intervals = some (.reg load.1) →
        load.2.value s.address s.intervals s.machine =
          load'.2.value s.address s.intervals s.machine := by
  rw [← and_iff_right_of_imp CallSite.Passes.intact]
  refine and_congr_right fun hintact => ?_
  have hrun : (∀ move ∈ s.moves, Moves.run (contents s.stacked) s.lateMoves move.1 =
      contents s.machine move.2) ↔
      ∀ move ∈ s.moves, Moves.run (contents s.machine) s.moves move.1 =
        contents s.machine move.2 := by
    refine forall₂_congr fun move hmove => ?_
    obtain ⟨load, hload, rfl⟩ := List.mem_map.1 hmove
    rw [s.run_lateMoves hintact hload]
  rw [s.passes_iff_moves, hrun, Moves.run_eq_iff s.moves_nodup, CallSite.moves, loadMoves,
    List.pairwise_map]
  refine List.pairwise_iff_forall_sublist.trans
    (Iff.trans ?_ List.pairwise_iff_forall_sublist.symm)
  refine forall₂_congr fun load load' => forall_congr' fun hsub => ?_
  have hmem : load ∈ s.instr.loads ∧ load' ∈ s.instr.loads :=
    ⟨hsub.subset List.mem_cons_self, hsub.subset (List.mem_cons_of_mem _ List.mem_cons_self)⟩
  obtain ⟨p, hp, hvalue⟩ := value_of_placed (m := s.machine) (s.placed _ (s.mem_loads hmem.1).2.2)
  obtain ⟨p', hp', hvalue'⟩ :=
    value_of_placed (m := s.machine) (s.placed _ (s.mem_loads hmem.2).2.2)
  rw [hvalue, hvalue', hp, hp']
  simp

/-- A call of two arguments, the first one in `RSI` and the second one a constant. -/
def swapSite : CallSite where
  address _ := 0
  intervals := [⟨7, 0, 1, some .rsi, -1, false, false⟩]
  nextId := 1
  instr := ⟨.call, [⟨.vreg, 7, 0, 0⟩, ⟨.const, 0, 5, 0⟩], none, some 0⟩
  machine := ⟨fun r => if r = .rsi then 3 else 0, .undefined, fun _ => 0, []⟩
  opcode_mem := by decide
  callee_ne := by simp
  operands_ne := by simp
  placed := by simp [X64Value.source, x64GetValueLocation]
  registers := by simp [X64Value.source, x64GetValueLocation, gpAllocOrder]

/-- The second argument is loaded into `RSI` first, and passed as the first one, too. -/
theorem not_passes_swapSite : ¬swapSite.Passes := by
  rw [swapSite.passes_iff_moves]
  decide

end Seraph
