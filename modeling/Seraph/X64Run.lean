import Seraph.X64EncodeFaithful
import Seraph.X64Labels
import Seraph.X86Machine

/-!
# Runs of emitted x86-64 code

What a list of emissions does to a machine, one emission at a time. A jump skips the emissions up to
its label, which is enough for the code of one instruction of the source : its jumps go forward. A
jump to a label of other code leaves the list with the label still sought. Labels are resolved and
addresses of functions are known here ; that the bytes come to that is a matter of the fix-ups.
-/

namespace Seraph

open X86

/-- How far a run has come. -/
inductive RunStatus where
  | running
  | seeking (labelId : UInt32)
  | left (e : Exit)
  | stopped (f : Fault)
deriving DecidableEq

/-- A run. -/
structure X64Run where
  status : RunStatus
  machine : Machine

namespace X64Run

/-- The run at its next emission. -/
def start (m : Machine) : X64Run :=
  ⟨.running, m⟩

/-- The run after an instruction. -/
def ofStep (m : Machine) : Step → X64Run
  | .next m' => ⟨.running, m'⟩
  | .leave e m' => ⟨.left e, m'⟩
  | .fault f => ⟨.stopped f, m⟩

/-- What an emission does. The bytes of a `bytes` are one instruction. -/
def perform (address : ℕ → BitVec 64) (m : Machine) : Emission → X64Run
  | .bytes bs =>
    match decode bs with
    | some (i, []) => ofStep m (X86.step i m)
    | _ => ⟨.stopped .unmodelled, m⟩
  | .createLabel | .defineLabel _ => ⟨.running, m⟩
  | .jump opcode labelId size =>
    match decode (opcode ++ List.replicate size.toNat 0) with
    | some (⟨.jmp, _, _⟩, []) => ⟨.seeking labelId, m⟩
    | some (⟨.jcc c, _, _⟩, []) =>
      match m.flags.holds c with
      | some true => ⟨.seeking labelId, m⟩
      | some false => ⟨.running, m⟩
      | none => ⟨.stopped .undefinedFlag, m⟩
    | _ => ⟨.stopped .unmodelled, m⟩
  | .call opcode callee =>
    match decode (opcode :: List.replicate 4 0) with
    | some (⟨.call, _, _⟩, []) => ⟨.left (.call (address callee)), m⟩
    | some (⟨.jmp, _, _⟩, []) => ⟨.left (.jump (address callee)), m⟩
    | _ => ⟨.stopped .unmodelled, m⟩
  | .fnptr lead fn =>
    match decode (lead ++ List.replicate 4 0) with
    | some (⟨.lea, size, [d, .mem ⟨none, none, 0, true⟩]⟩, []) =>
      ⟨.running, m.write size (address fn) d⟩
    | _ => ⟨.stopped .unmodelled, m⟩
  | .runtimeCall => ⟨.stopped .unmodelled, m⟩

/-- One emission. -/
def step (address : ℕ → BitVec 64) (s : X64Run) (e : Emission) : X64Run :=
  match s.status with
  | .running => perform address s.machine e
  | .seeking labelId =>
    match e with
    | .defineLabel id => if id = labelId then ⟨.running, s.machine⟩ else s
    | _ => s
  | _ => s

/-- All emissions. -/
def run (address : ℕ → BitVec 64) (es : List Emission) (s : X64Run) : X64Run :=
  es.foldl (step address) s

variable {address : ℕ → BitVec 64} {m : Machine} {es : List Emission}

@[simp] theorem run_nil (s : X64Run) : run address [] s = s :=
  rfl

/-- A run goes on where the run of the first part ends. -/
theorem run_append (es es' : List Emission) (s : X64Run) :
    run address (es ++ es') s = run address es' (run address es s) :=
  List.foldl_append

theorem run_cons (e : Emission) (es : List Emission) (s : X64Run) :
    run address (e :: es) s = run address es (step address s e) :=
  rfl

@[simp] theorem run_running (e : Emission) :
    run address (e :: es) ⟨.running, m⟩ = run address es (perform address m e) :=
  rfl

@[simp] theorem run_stopped (es : List Emission) (f : Fault) :
    run address es ⟨.stopped f, m⟩ = ⟨.stopped f, m⟩ := by
  induction es with
  | nil => rfl
  | cons e es ih => exact ih

@[simp] theorem run_left (es : List Emission) (e : Exit) :
    run address es ⟨.left e, m⟩ = ⟨.left e, m⟩ := by
  induction es with
  | nil => rfl
  | cons e' es ih => exact ih

@[simp] theorem run_seeking_define (id labelId : UInt32) :
    run address (.defineLabel id :: es) ⟨.seeking labelId, m⟩ =
      if id = labelId then run address es ⟨.running, m⟩
      else run address es ⟨.seeking labelId, m⟩ := by
  by_cases h : id = labelId <;> simp [run_cons, step, h]

@[simp] theorem run_seeking_bytes (bs : List UInt8) (labelId : UInt32) :
    run address (.bytes bs :: es) ⟨.seeking labelId, m⟩ = run address es ⟨.seeking labelId, m⟩ :=
  rfl

@[simp] theorem run_seeking_create (labelId : UInt32) :
    run address (.createLabel :: es) ⟨.seeking labelId, m⟩ = run address es ⟨.seeking labelId, m⟩ :=
  rfl

@[simp] theorem run_seeking_jump (opcode : List UInt8) (id labelId : UInt32) (size : ℤ) :
    run address (.jump opcode id size :: es) ⟨.seeking labelId, m⟩ =
      run address es ⟨.seeking labelId, m⟩ :=
  rfl

@[simp] theorem perform_createLabel : perform address m .createLabel = ⟨.running, m⟩ :=
  rfl

@[simp] theorem perform_defineLabel (id : UInt32) :
    perform address m (.defineLabel id) = ⟨.running, m⟩ :=
  rfl

/-- The bytes of an instruction. -/
theorem perform_bytes {bs : List UInt8} {i : Instr} (h : Encodes bs i) :
    perform address m (.bytes bs) = ofStep m (X86.step i m) := by
  have hd := h []
  rw [List.append_nil] at hd
  rw [perform, hd]

/-- The bytes of a request. -/
theorem perform_request {r : X64Request} (h : r.Encodable) :
    perform address m (.bytes r.bytes) = ofStep m (X86.step r.meaning m) :=
  perform_bytes (r.encodes_iff.2 h)

end X64Run

end Seraph
