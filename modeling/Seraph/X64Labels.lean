import Seraph.Patching
import Seraph.X64Encode

/-!
# Labels and calls of x86-64 code

`x64_encode.c`, labels, and `celestial_to_x64.c`, compilation of a module. Code is emitted into one
buffer. A jump is emitted with a placeholder that `x64_labels_resolve` patches when a function is
complete, a call or a load of a function's address with one that `celestial_compile_module` patches
at the end, from tables of a fixed size. A function's body is any sequence of `Emission`s. The
buffer and the label tables grow without limit here (`realloc` does not fail), and offsets are exact
(no buffer has `2 ^ 63` bytes).
-/

namespace Seraph

open ByteMem Patching

/-! ## The buffer -/

/-- `X64_Buffer`. -/
structure X64Buffer where
  code : Memory
  size : ℕ

/-- `x64_emit_byte`, for each of the bytes. -/
def X64Buffer.emit (buf : X64Buffer) (bs : List UInt8) : X64Buffer :=
  ⟨buf.code.write buf.size bs, buf.size + bs.length⟩

/-- The buffer with a number written over `len` of its bytes. -/
def X64Buffer.patch (buf : X64Buffer) (offset len : ℕ) (value : ℤ) : X64Buffer :=
  ⟨buf.code.store offset len (BitVec.ofInt (8 * len) value).toNat, buf.size⟩

/-! ## Labels -/

/-- `X64_Label`, whose offset is `SIZE_MAX` while it is undefined. -/
structure X64Label where
  id : UInt32
  offset : Option ℕ

/-- `X64_Fixup`. -/
structure X64Fixup where
  patchOffset : ℕ
  labelId : UInt32
  size : ℤ

/-- `X64_Labels`. -/
structure X64Labels where
  labels : List X64Label
  fixups : List X64Fixup
  nextId : UInt32

/-- `x64_labels_init`. -/
def x64LabelsInit : X64Labels :=
  ⟨[], [], 1⟩

/-- `x64_label_create`. -/
def x64LabelCreate (labels : X64Labels) : UInt32 × X64Labels :=
  (labels.nextId,
    { labels with
      labels := labels.labels ++ [⟨labels.nextId, none⟩]
      nextId := labels.nextId + 1 })

/-- The labels with the first one of the id defined. -/
def X64Label.setOffset (id : UInt32) (offset : ℕ) : List X64Label → List X64Label
  | [] => []
  | l :: ls => if l.id = id then ⟨id, some offset⟩ :: ls else l :: setOffset id offset ls

/-- `x64_label_define`. -/
def x64LabelDefine (labels : X64Labels) (buf : X64Buffer) (labelId : UInt32) :
    Bool × X64Labels :=
  if labelId = 0 then (false, labels)
  else match labels.labels.find? fun l => l.id = labelId with
    | some l =>
      if l.offset.isSome then (false, labels)
      else (true, { labels with labels := X64Label.setOffset labelId buf.size labels.labels })
    | none =>
      (true,
        { labels with
          labels := labels.labels ++ [⟨labelId, some buf.size⟩]
          nextId := if labels.nextId ≤ labelId then labelId + 1 else labels.nextId })

/-- `x64_label_fixup`. -/
def x64LabelFixup (labels : X64Labels) (buf : X64Buffer) (labelId : UInt32) (size : ℤ) :
    Bool × X64Labels × X64Buffer :=
  if labelId = 0 then (false, labels, buf)
  else
    (true, { labels with fixups := labels.fixups ++ [⟨buf.size, labelId, size⟩] },
      buf.emit (List.replicate size.toNat 0))

/-- The offset of the first label of an id, if it is defined. -/
def X64Labels.targetOffset (labels : X64Labels) (labelId : UInt32) : Option ℕ :=
  (labels.labels.find? fun l => l.id = labelId).bind X64Label.offset

/-- One round of `x64_labels_resolve`. -/
def resolveFixup (labels : X64Labels) (buf : X64Buffer) (fixup : X64Fixup) : Option X64Buffer := do
  let targetOffset ← labels.targetOffset fixup.labelId
  let displacement : ℤ := targetOffset - (fixup.patchOffset + fixup.size)
  if fixup.size = 1 then
    if displacement < -128 ∨ displacement > 127 then none
    else some (buf.patch fixup.patchOffset 1 displacement)
  else if fixup.size = 2 then
    if displacement < -32768 ∨ displacement > 32767 then none
    else some (buf.patch fixup.patchOffset 2 displacement)
  else if fixup.size = 4 then
    if displacement < -2147483648 ∨ displacement > 2147483647 then none
    else some (buf.patch fixup.patchOffset 4 displacement)
  else none

/-- `x64_labels_resolve`. -/
def x64LabelsResolve (labels : X64Labels) (buf : X64Buffer) : Option X64Buffer :=
  labels.fixups.foldlM (resolveFixup labels) buf

/-! ## Functions -/

/-- What the body of a function emits : bytes, labels, the instructions with a reference, and the
calls of the runtime, whose displacement no table has. Functions are named by their position in the
module. -/
inductive Emission where
  | bytes (bs : List UInt8)
  | createLabel
  | defineLabel (labelId : UInt32)
  | jump (opcode : List UInt8) (labelId : UInt32) (size : ℤ)
  | call (opcode : UInt8) (callee : ℕ)
  | fnptr (lead : List UInt8) (fn : ℕ)
  | runtimeCall

/-- `Celestial_Function`, with what is emitted for its blocks. -/
structure X64Function where
  name : Option String
  body : List Emission

/-- `X64_FunctionEntry`. -/
structure X64FunctionEntry where
  fn : ℕ
  offset : ℕ

/-- `X64_CallFixup` and `X64_FnptrFixup`. -/
structure X64CallFixup where
  callSite : ℕ
  callee : ℕ

/-- `X64_ModuleContext`. -/
structure X64ModuleContext where
  functions : List X64FunctionEntry
  callFixups : List X64CallFixup
  fnptrFixups : List X64CallFixup

/-- `SERAPH_X64_MAX_FUNCTIONS`. -/
def maxFunctions : ℕ :=
  1024

/-- `SERAPH_X64_MAX_CALL_FIXUPS`. -/
def maxCallFixups : ℕ :=
  4096

/-- `SERAPH_X64_MAX_FNPTR_FIXUPS`. -/
def maxFnptrFixups : ℕ :=
  4096

/-- An entry of a table with room for `capacity`, which is dropped if the table is full. -/
def recordEntry {α : Type} (capacity : ℕ) (table : List α) (entry : α) : List α :=
  if table.length < capacity then table ++ [entry] else table

/-- The state of a compilation. -/
structure X64Compile where
  output : X64Buffer
  labels : X64Labels
  context : X64ModuleContext

namespace X64Compile

/-- Bytes are appended. -/
def emit (s : X64Compile) (bs : List UInt8) : X64Compile :=
  { s with output := s.output.emit bs }

/-- One emission. -/
def step (s : X64Compile) : Emission → X64Compile
  | .bytes bs => s.emit bs
  | .createLabel => { s with labels := (x64LabelCreate s.labels).2 }
  | .defineLabel labelId => { s with labels := (x64LabelDefine s.labels s.output labelId).2 }
  -- the callers of `x64_label_fixup` ignore what it returns
  | .jump opcode labelId size =>
    let r := x64LabelFixup s.labels (s.output.emit opcode) labelId size
    { s with labels := r.2.1, output := r.2.2 }
  | .call opcode callee =>
    let s := s.emit [opcode]
    let fixup : X64CallFixup := ⟨s.output.size, callee⟩
    let s := s.emit (x64EmitDword 0)
    { s with context.callFixups := recordEntry maxCallFixups s.context.callFixups fixup }
  | .fnptr lead fn =>
    let s := s.emit lead
    let fixup : X64CallFixup := ⟨s.output.size, fn⟩
    let s := s.emit (x64EmitDword 0)
    { s with context.fnptrFixups := recordEntry maxFnptrFixups s.context.fnptrFixups fixup }
  | .runtimeCall => (s.emit [0xE8]).emit (x64EmitDword 0)

end X64Compile

/-- `celestial_compile_function` : the body, and then the labels of all functions so far. -/
def celestialCompileFunction (s : X64Compile) (body : List Emission) : Option X64Compile := do
  let s := body.foldl X64Compile.step s
  let output ← x64LabelsResolve s.labels s.output
  return { s with output }

/-! ## Modules -/

/-- `x64_emit_startup_stub` : the code, and the offset of the displacement of its call. -/
def x64EmitStartupStub (output : X64Buffer) : X64Buffer × ℕ :=
  let output := output.emit [0xE8]
  let callFixupOffset := output.size
  let output := output.emit (x64EmitDword 0)
  let output := output.emit (x64MovRegReg .rdi .rax .qword)
  let output := output.emit (x64MovRegImm32 .rax 60)
  (output.emit x64Syscall, callFixupOffset)

/-- `find_function_offset` : zero for a function that is not in the table. -/
def findFunctionOffset (context : X64ModuleContext) (fn : ℕ) : ℕ :=
  ((context.functions.find? fun e => e.fn = fn).map X64FunctionEntry.offset).getD 0

/-- One round of the loop over the functions, with the offset of `main` so far. -/
def compileRound (s : X64Compile × Option ℕ) (fn : X64Function × ℕ) :
    Option (X64Compile × Option ℕ) := do
  let offset := s.1.output.size
  let entry : X64FunctionEntry := ⟨fn.2, offset⟩
  let main := if fn.1.name = some "main" then some offset else s.2
  let functions := recordEntry maxFunctions s.1.context.functions entry
  let c ← celestialCompileFunction { s.1 with context.functions := functions } fn.1.body
  return (c, main)

/-- A call or an address is patched : the displacement is cut to 32 bits. -/
def patchCall (context : X64ModuleContext) (output : X64Buffer) (fixup : X64CallFixup) :
    X64Buffer :=
  output.patch fixup.callSite 4
    (findFunctionOffset context fixup.callee - (fixup.callSite + 4) : ℤ)

/-- `celestial_compile_module`. -/
def celestialCompileModule (functions : List X64Function) (output : X64Buffer) :
    Option X64Buffer := do
  let (output, startupCallFixup) := x64EmitStartupStub output
  let start : X64Compile := ⟨output, x64LabelsInit, ⟨[], [], []⟩⟩
  let (s, main) ← functions.zipIdx.foldlM compileRound (start, none)
  let output :=
    match main with
    | some mainOffset => s.output.patch startupCallFixup 4 (mainOffset - (startupCallFixup + 4) : ℤ)
    | none => s.output
  let output := s.context.callFixups.foldl (patchCall s.context) output
  let output := s.context.fnptrFixups.foldl (patchCall s.context) output
  return output

end Seraph
