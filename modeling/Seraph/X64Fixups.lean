import Mathlib.Data.List.Pairwise
import Seraph.X64Labels

/-!
# References of x86-64 code

`Layout` is what the emissions of a module say of its code : the bytes before any patch, the
references with their fields, and where labels and functions are. `Mirrors` connects it with the
tables of a compilation (`Mirrors.step`, `BetweenFunctions.round`). `FixupsComplete` says that each
reference of the layout holds the distance from the end of its field to its target and that no other
byte has changed ; a compiled module has it exactly if it is `Linkable` (`fixupsComplete_iff`).
-/

namespace Seraph

open ByteMem Patching

/-! ## Layouts -/

/-- What a reference refers to. -/
inductive Target where
  | label (labelId : UInt32)
  | call (callee : ℕ)
  | fnptr (fn : ℕ)
  | main
  | runtime
deriving DecidableEq

namespace Target

/-- The function that is called. -/
def callee : Target → Option ℕ
  | call fn => some fn
  | _ => none

/-- The function whose address is loaded. -/
def address : Target → Option ℕ
  | fnptr fn => some fn
  | _ => none

end Target

/-- A reference and the field of its displacement. -/
structure Reference where
  field : Region
  target : Target

/-- The code of a module before it is patched, its references, and the places they can refer to. -/
structure Layout where
  buf : X64Buffer
  refs : List Reference
  labels : List (UInt32 × ℕ)
  functions : List ℕ
  main : Option ℕ

namespace Layout

/-- Bytes are appended. -/
def emit (l : Layout) (bs : List UInt8) : Layout :=
  { l with buf := l.buf.emit bs }

/-- An instruction with a reference is appended : its displacement is zero so far. -/
def refer (l : Layout) (opcode : List UInt8) (len : ℕ) (target : Target) : Layout :=
  let buf := l.buf.emit opcode
  { l with
    buf := buf.emit (List.replicate len 0)
    refs := l.refs ++ [⟨⟨buf.size, len⟩, target⟩] }

/-- One emission. Label 0 is no label : it is not defined, and a jump to it has no displacement. -/
def step (l : Layout) : Emission → Layout
  | .bytes bs => l.emit bs
  | .createLabel => l
  | .defineLabel labelId =>
    if labelId = 0 then l else { l with labels := l.labels ++ [(labelId, l.buf.size)] }
  | .jump opcode labelId size =>
    l.refer opcode (if labelId = 0 then 0 else size.toNat) (.label labelId)
  | .call opcode callee => l.refer [opcode] 4 (.call callee)
  | .fnptr lead fn => l.refer lead 4 (.fnptr fn)
  | .runtimeCall => l.refer [0xE8] 4 .runtime

/-- One function. -/
def function (l : Layout) (fn : X64Function) : Layout :=
  fn.body.foldl step
    { l with
      functions := l.functions ++ [l.buf.size]
      main := if fn.name = some "main" then some l.buf.size else l.main }

/-- The startup stub. -/
def startup (output : X64Buffer) : Layout :=
  (((refer ⟨output, [], [], [], none⟩ [0xE8] 4 .main).emit (x64MovRegReg .rdi .rax .qword)).emit
    (x64MovRegImm32 .rax 60)).emit x64Syscall

/-- The layout of a module. -/
def ofModule (functions : List X64Function) (output : X64Buffer) : Layout :=
  functions.foldl function (startup output)

/-- The place a target is at : a label is where it is defined first, the runtime is elsewhere. -/
def offsetOf (l : Layout) : Target → Option ℕ
  | .label labelId => l.labels.lookup labelId
  | .call fn | .fnptr fn => l.functions[fn]?
  | .main => l.main
  | .runtime => none

/-- The references of one kind, in order : `f` gives the function of a target of that kind. -/
def entries (f : Target → Option ℕ) (l : Layout) : List X64CallFixup :=
  l.refs.filterMap fun r => (f r.target).map fun fn => ⟨r.field.start, fn⟩

/-- The calls, in order. -/
def calls : Layout → List X64CallFixup :=
  entries Target.callee

/-- The loads of addresses of functions, in order. -/
def fnptrs : Layout → List X64CallFixup :=
  entries Target.address

end Layout

/-- Each reference holds the distance from the end of its field to its target, and the other bytes
are as they were emitted. -/
structure FixupsComplete (l : Layout) (out : X64Buffer) : Prop where
  size : out.size = l.buf.size
  holds : ∀ r ∈ l.refs, ∃ offset, l.offsetOf r.target = some offset ∧
    displacement out.code r.field = offset - (r.field.start + r.field.len)
  unchanged : l.buf.code.ChangesOnly (l.refs.map Reference.field) out.code

/-- The `k`th entry for a table of calls is to a function of the module. Where the table has room
for it, the distance fits 32 bits and the function is one of the first of the module (or lies at a
multiple of `2 ^ 32`, which no one can tell from the zero that a missing function is given) ; where
it has none, the function is the next byte. -/
def Linked (l : Layout) (capacity k : ℕ) (c : X64CallFixup) : Prop :=
  ∃ offset, l.functions[c.callee]? = some offset ∧
    if k < capacity then
      FitsBytes 4 (offset - (c.callSite + 4) : ℤ) ∧ (c.callee < maxFunctions ∨ 256 ^ 4 ∣ offset)
    else offset = c.callSite + 4

/-- No call of the runtime and no jump to label 0, a function `main` in reach of the startup stub,
and calls and addresses of functions that are linked. -/
structure Linkable (l : Layout) : Prop where
  tabled : ∀ r ∈ l.refs, r.target ≠ .runtime ∧ r.target ≠ .label 0
  main : ∀ r ∈ l.refs, r.target = .main →
    ∃ offset, l.main = some offset ∧ FitsBytes 4 (offset - (r.field.start + 4) : ℤ)
  calls : ∀ k c, l.calls[k]? = some c → Linked l maxCallFixups k c
  fnptrs : ∀ k c, l.fnptrs[k]? = some c → Linked l maxFnptrFixups k c

/-! ## The shape of a layout -/

/-- The fields follow each other, hold zero, and are as wide as their kinds of references have
them. -/
structure Layout.Ordered (site : ℕ) (l : Layout) : Prop where
  apart : l.refs.Pairwise fun r s => r.field.start + r.field.len ≤ s.field.start
  inside : ∀ r ∈ l.refs, r.field.start + r.field.len ≤ l.buf.size
  zero : ∀ r ∈ l.refs, l.buf.code.load r.field.start r.field.len = 0
  width : ∀ r ∈ l.refs, (∀ labelId, r.target ≠ .label labelId) → r.field.len = 4
  main : ∀ r ∈ l.refs, r.target = .main → r.field = ⟨site, 4⟩
  labels : ∀ p ∈ l.labels, p.1 ≠ 0

namespace Layout.Ordered

variable {site : ℕ} {l : Layout}

/-- Two references are the same or have disjoint fields. -/
theorem eq_or_disjoint (h : l.Ordered site) : ∀ r ∈ l.refs, ∀ s ∈ l.refs,
    r = s ∨ r.field.Disjoint s.field := by
  have hsymm : Std.Symm fun r s : Reference => r = s ∨ r.field.Disjoint s.field :=
    ⟨fun _ _ hrs => hrs.imp Eq.symm Region.Disjoint.symm⟩
  have hpair : l.refs.Pairwise fun r s => r = s ∨ r.field.Disjoint s.field :=
    h.apart.imp fun hrs => Or.inr (Or.inl hrs)
  exact fun r hr s hs =>
    List.Pairwise.forall_of_forall (R := fun r s : Reference => r = s ∨ r.field.Disjoint s.field)
      (fun _ _ => Or.inl rfl) hpair hr hs

/-- Loads below the end of the code do not see what is appended. -/
theorem load_emit {buf : X64Buffer} (bs : List UInt8) {a n : ℕ} (h : a + n ≤ buf.size) :
    (buf.emit bs).code.load a n = buf.code.load a n :=
  (Memory.changesOnly_write buf.code buf.size bs).load fun r hr => by
    rw [List.mem_singleton.1 hr]
    exact Or.inl h

theorem emit (h : l.Ordered site) (bs : List UInt8) : (l.emit bs).Ordered site where
  apart := h.apart
  inside := fun r hr => (h.inside r hr).trans (Nat.le_add_right _ _)
  zero := fun r hr => (load_emit bs (h.inside r hr)).trans (h.zero r hr)
  width := h.width
  main := h.main
  labels := h.labels

/-- The bytes just appended can be a field. -/
theorem load_emit_zero (buf : X64Buffer) (len : ℕ) :
    (buf.emit (List.replicate len 0)).code.load buf.size len = 0 := by
  have h : (buf.emit (List.replicate len 0)).code.load buf.size len =
      (buf.code.fill buf.size len 0).load buf.size len := by
    refine Memory.load_congr fun x hx => ?_
    have hlen : (List.replicate len (0 : UInt8)).length = len := List.length_replicate
    simp only [X64Buffer.emit, Memory.write, Memory.fill, hlen]
    rw [List.getD_eq_getElem?_getD, List.getElem?_replicate]
    split_ifs <;> rfl
  rw [h, Memory.load_fill_zero _ le_rfl le_rfl]

theorem refer (h : l.Ordered site) (opcode : List UInt8) (len : ℕ) (target : Target)
    (hlen : (∀ labelId, target ≠ .label labelId) → len = 4)
    (hmain : target = .main → (⟨l.buf.size + opcode.length, len⟩ : Region) = ⟨site, 4⟩) :
    (l.refer opcode len target).Ordered site where
  apart := by
    refine List.pairwise_append.2 ⟨h.apart, List.pairwise_singleton _ _, fun r hr s hs => ?_⟩
    rw [List.mem_singleton.1 hs]
    exact (h.inside r hr).trans (Nat.le_add_right _ _)
  inside := by
    intro r hr
    have hsize : (l.refer opcode len target).buf.size = l.buf.size + opcode.length + len := by
      simp [Layout.refer, X64Buffer.emit]
    rw [hsize]
    rcases List.mem_append.1 hr with hr | hr
    · have := h.inside r hr
      omega
    · rw [List.mem_singleton.1 hr]
      exact le_rfl
  zero := by
    intro r hr
    rcases List.mem_append.1 hr with hr | hr
    · have hin := h.inside r hr
      exact (load_emit _ (hin.trans (Nat.le_add_right _ _))).trans
        ((load_emit _ hin).trans (h.zero r hr))
    · rw [List.mem_singleton.1 hr]
      exact load_emit_zero _ len
  width := by
    intro r hr
    rcases List.mem_append.1 hr with hr | hr
    · exact h.width r hr
    · rw [List.mem_singleton.1 hr]
      exact hlen
  main := by
    intro r hr
    rcases List.mem_append.1 hr with hr | hr
    · exact h.main r hr
    · rw [List.mem_singleton.1 hr]
      exact hmain
  labels := h.labels

/-- The emissions keep the shape. -/
theorem step (h : l.Ordered site) (e : Emission) : (l.step e).Ordered site := by
  cases e with
  | bytes bs => exact h.emit bs
  | createLabel => exact h
  | defineLabel labelId =>
    by_cases h0 : labelId = 0
    · rw [Layout.step, if_pos h0]
      exact h
    · rw [Layout.step, if_neg h0]
      refine ⟨h.apart, h.inside, h.zero, h.width, h.main, fun p hp => ?_⟩
      rcases List.mem_append.1 hp with hp | hp
      · exact h.labels p hp
      · rw [List.mem_singleton.1 hp]
        exact h0
  | jump opcode labelId size =>
    exact h.refer opcode _ _ (fun hne => absurd rfl (hne labelId)) Target.noConfusion
  | call opcode callee => exact h.refer _ 4 _ (fun _ => rfl) Target.noConfusion
  | fnptr lead fn => exact h.refer _ 4 _ (fun _ => rfl) Target.noConfusion
  | runtimeCall => exact h.refer _ 4 _ (fun _ => rfl) Target.noConfusion

theorem function (h : l.Ordered site) (fn : X64Function) : (l.function fn).Ordered site := by
  have hstart : Layout.Ordered site
      { l with
        functions := l.functions ++ [l.buf.size]
        main := if fn.name = some "main" then some l.buf.size else l.main } :=
    ⟨h.apart, h.inside, h.zero, h.width, h.main, h.labels⟩
  unfold Layout.function
  generalize hl : { l with
    functions := l.functions ++ [l.buf.size]
    main := if fn.name = some "main" then some l.buf.size else l.main } = l₀ at hstart
  clear hl h
  induction fn.body generalizing l₀ with
  | nil => exact hstart
  | cons e es ih => exact ih _ (hstart.step e)

theorem startup (output : X64Buffer) : Layout.Ordered (output.size + 1) (Layout.startup output) := by
  have hnil : Layout.Ordered (output.size + 1) ⟨output, [], [], [], none⟩ := by
    constructor <;> simp
  exact (((hnil.refer [0xE8] 4 .main (fun _ => rfl) fun _ => rfl).emit _).emit _).emit _

end Layout.Ordered

/-! ## Patched references -/

/-- The patch of a reference, where `v` gives the places of the targets. -/
def Reference.patch (v : Target → ℤ) (r : Reference) : Patch :=
  ⟨r.field,
    (BitVec.ofInt (8 * r.field.len) (v r.target - (r.field.start + r.field.len))).toNat⟩

section patches

variable {site : ℕ} {l : Layout} {rs : List Reference} (m : Memory) (v : Target → ℤ)

/-- What a patched reference holds. -/
theorem Layout.Ordered.displacement_of_mem (h : l.Ordered site) (hrs : ∀ r ∈ rs, r ∈ l.refs)
    {r : Reference} (hr : r ∈ rs) :
    displacement (applyAll m (rs.map (Reference.patch v))) r.field =
      (v r.target - (r.field.start + r.field.len)).bmod (256 ^ r.field.len) := by
  have hother : ∀ q ∈ rs.map (Reference.patch v),
      q = r.patch v ∨ (r.patch v).field.Disjoint q.field := by
    intro q hq
    obtain ⟨s, hs, rfl⟩ := List.mem_map.1 hq
    exact (h.eq_or_disjoint r (hrs r hr) s (hrs s hs)).imp_left
      fun heq : r = s => by rw [heq]
  have hload := load_applyAll m (List.mem_map_of_mem hr) hother
  refine displacement_of_load (hload.trans (Nat.mod_eq_of_lt ?_))
  rw [← Nat.pow_mul 2 8]
  exact BitVec.isLt _

/-- A reference that is not patched keeps what it holds. -/
theorem Layout.Ordered.displacement_of_not_mem (h : l.Ordered site) (hrs : ∀ r ∈ rs, r ∈ l.refs)
    {r : Reference} (hr : r ∈ l.refs) (hnot : r ∉ rs) :
    displacement (applyAll m (rs.map (Reference.patch v))) r.field = displacement m r.field := by
  unfold displacement
  rw [load_applyAll_of_disjoint m fun q hq => ?_]
  obtain ⟨s, hs, rfl⟩ := List.mem_map.1 hq
  exact (h.eq_or_disjoint r hr s (hrs s hs)).resolve_left fun heq => hnot (heq ▸ hs)

end patches

/-! ## Resolved labels -/

/-- The reference of an entry of the fix-up table. -/
def X64Fixup.reference (f : X64Fixup) : Reference :=
  ⟨⟨f.patchOffset, f.size.toNat⟩, .label f.labelId⟩

/-- The places of the labels. -/
def X64Labels.places (labels : X64Labels) : Target → ℤ
  | .label labelId => (labels.targetOffset labelId).getD 0
  | _ => 0

/-- One fix-up : its label is defined and in reach, and its reference is patched. -/
theorem resolveFixup_eq_some {labels : X64Labels} {buf buf' : X64Buffer} {f : X64Fixup}
    (h : resolveFixup labels buf f = some buf') :
    (∃ offset, labels.targetOffset f.labelId = some offset ∧ 0 < f.reference.field.len ∧
      FitsBytes f.reference.field.len
        (offset - (f.reference.field.start + f.reference.field.len) : ℤ)) ∧
    buf' = ⟨(f.reference.patch labels.places).apply buf.code, buf.size⟩ := by
  unfold resolveFixup at h
  cases ht : labels.targetOffset f.labelId with
  | none => simp [ht] at h
  | some offset =>
    have hplace : labels.places f.reference.target = offset := by
      simp [X64Labels.places, X64Fixup.reference, ht]
    simp only [ht, Option.bind_eq_bind, Option.bind_some] at h
    have hsize : (f.size = 1 ∨ f.size = 2 ∨ f.size = 4) ∧
        FitsBytes f.size.toNat (offset - (f.patchOffset + f.size) : ℤ) ∧
        buf' = buf.patch f.patchOffset f.size.toNat (offset - (f.patchOffset + f.size) : ℤ) := by
      split_ifs at h with h1 hr h2 hr h4 hr
      · rw [h1] at hr h ⊢
        have hw : FitsBytes 1 (offset - (f.patchOffset + 1) : ℤ) := by
          constructor <;> norm_num <;> omega
        exact ⟨by decide, hw, (Option.some.inj h).symm⟩
      · rw [h2] at hr h ⊢
        have hw : FitsBytes 2 (offset - (f.patchOffset + 2) : ℤ) := by
          constructor <;> norm_num <;> omega
        exact ⟨by decide, hw, (Option.some.inj h).symm⟩
      · rw [h4] at hr h ⊢
        have hw : FitsBytes 4 (offset - (f.patchOffset + 4) : ℤ) := by
          constructor <;> norm_num <;> omega
        exact ⟨by decide, hw, (Option.some.inj h).symm⟩
    obtain ⟨hsz, hfits, rfl⟩ := hsize
    have hnat : ((f.size.toNat : ℕ) : ℤ) = f.size := Int.toNat_of_nonneg (by omega)
    refine ⟨⟨offset, rfl, ?_, ?_⟩, ?_⟩
    · show 0 < f.size.toNat
      omega
    · show FitsBytes f.size.toNat (offset - (f.patchOffset + (f.size.toNat : ℕ)) : ℤ)
      rwa [hnat]
    · rw [Patch.apply, Reference.patch, hplace]
      show _ = X64Buffer.mk (buf.code.store f.patchOffset f.size.toNat (BitVec.ofInt _
        (offset - (f.patchOffset + (f.size.toNat : ℕ)) : ℤ)).toNat) _
      rw [hnat]
      rfl

/-- All fix-ups. -/
theorem resolve_eq_some {labels : X64Labels} {buf buf' : X64Buffer} (fs : List X64Fixup)
    (h : fs.foldlM (resolveFixup labels) buf = some buf') :
    (∀ f ∈ fs, ∃ offset, labels.targetOffset f.labelId = some offset ∧
      0 < f.reference.field.len ∧ FitsBytes f.reference.field.len
        (offset - (f.reference.field.start + f.reference.field.len) : ℤ)) ∧
    buf' = ⟨applyAll buf.code ((fs.map X64Fixup.reference).map (Reference.patch labels.places)),
      buf.size⟩ := by
  induction fs generalizing buf with
  | nil => exact ⟨by simp, (Option.some.inj h).symm⟩
  | cons f fs ih =>
    rw [List.foldlM_cons, Option.bind_eq_bind, Option.bind_eq_some_iff] at h
    obtain ⟨buf₁, h₁, h⟩ := h
    obtain ⟨hf, rfl⟩ := resolveFixup_eq_some h₁
    obtain ⟨hfs, rfl⟩ := ih h
    exact ⟨List.forall_mem_cons.2 ⟨hf, hfs⟩, rfl⟩

/-! ## Tables and layouts -/

/-- The tables hold the references of the layout, as far as they have room, and the code is that of
the layout outside the fields of jumps. -/
structure Mirrors (s : X64Compile) (l : Layout) : Prop where
  size : s.output.size = l.buf.size
  code : l.buf.code.ChangesOnly (s.labels.fixups.map fun f => f.reference.field) s.output.code
  labels : ∀ labelId, labelId ≠ 0 → s.labels.targetOffset labelId = l.labels.lookup labelId
  fixups : ∀ f ∈ s.labels.fixups, f.labelId ≠ 0 ∧ f.reference ∈ l.refs
  jumps : ∀ r ∈ l.refs, ∀ labelId, labelId ≠ 0 → r.target = .label labelId →
    ∃ f ∈ s.labels.fixups, f.reference = r
  calls : s.context.callFixups = l.calls.take maxCallFixups
  fnptrs : s.context.fnptrFixups = l.fnptrs.take maxFnptrFixups
  functions : s.context.functions =
    (l.functions.zipIdx.map fun p => ⟨p.2, p.1⟩).take maxFunctions

/-- A full table drops the entry. -/
theorem recordEntry_take {α : Type} (capacity : ℕ) (xs : List α) (x : α) :
    recordEntry capacity (xs.take capacity) x = (xs ++ [x]).take capacity := by
  unfold recordEntry
  rw [List.length_take]
  split_ifs with h
  · rw [List.take_of_length_le (by omega), List.take_of_length_le (by simp; omega)]
  · rw [List.take_append_of_le_length (by omega)]

/-- The same bytes are appended to both. -/
theorem changesOnly_emit {rs : List Region} {buf buf' : X64Buffer} (hsize : buf'.size = buf.size)
    (h : buf.code.ChangesOnly rs buf'.code) (bs : List UInt8) :
    (buf.emit bs).code.ChangesOnly rs (buf'.emit bs).code := by
  intro a ha
  simp only [X64Buffer.emit, Memory.write, hsize, h a ha]

/-- A label that is created is undefined. -/
theorem targetOffset_create (labels : X64Labels) (labelId : UInt32) :
    (x64LabelCreate labels).2.targetOffset labelId = labels.targetOffset labelId := by
  unfold X64Labels.targetOffset x64LabelCreate
  rw [List.find?_append]
  cases labels.labels.find? fun l => l.id = labelId with
  | some l => rfl
  | none =>
    rw [Option.none_or, List.find?_singleton]
    split_ifs <;> rfl

/-- The first label of the id is set, and no label of another id. -/
theorem find?_setOffset (id : UInt32) (offset : ℕ) (labelId : UInt32) (ls : List X64Label) :
    (X64Label.setOffset id offset ls).find? (fun l => l.id = labelId) =
      if labelId = id then (ls.find? fun l => l.id = labelId).map fun _ => ⟨id, some offset⟩
      else ls.find? fun l => l.id = labelId := by
  induction ls with
  | nil => split_ifs <;> rfl
  | cons l ls ih =>
    unfold X64Label.setOffset
    by_cases hl : l.id = id
    · by_cases hid : labelId = id
      · simp [hl, hid]
      · have hne : ¬id = labelId := fun h => hid h.symm
        simp [hl, hid, hne]
    · by_cases hid : labelId = id
      · simp [hl, hid] at ih ⊢
        exact ih
      · by_cases heq : l.id = labelId
        · simp [hid, heq]
        · simp [hl, hid, heq] at ih ⊢
          exact ih

/-- The first definition of a label counts. -/
theorem targetOffset_define (labels : X64Labels) (buf : X64Buffer) {id : UInt32} (h0 : id ≠ 0)
    (labelId : UInt32) :
    (x64LabelDefine labels buf id).2.targetOffset labelId =
      (labels.targetOffset labelId).or (if labelId = id then some buf.size else none) := by
  unfold x64LabelDefine
  rw [if_neg h0]
  cases hfind : labels.labels.find? fun l => l.id = id with
  | some l =>
    by_cases hdef : l.offset.isSome
    · simp only [if_pos hdef]
      by_cases hid : labelId = id
      · obtain ⟨o, ho⟩ := Option.isSome_iff_exists.1 hdef
        have : labels.targetOffset labelId = some o := by
          rw [hid, X64Labels.targetOffset, hfind]
          exact ho
        rw [this, Option.some_or]
      · rw [if_neg hid, Option.or_none]
    · simp only [if_neg hdef]
      have hnone : l.offset = none := by simpa using hdef
      simp only [X64Labels.targetOffset, find?_setOffset]
      by_cases hid : labelId = id
      · rw [if_pos hid, if_pos hid, hid, hfind]
        simp [hnone]
      · rw [if_neg hid, if_neg hid, Option.or_none]
  | none =>
    simp only [X64Labels.targetOffset]
    rw [List.find?_append]
    by_cases hid : labelId = id
    · rw [hid, hfind]
      simp
    · have hne : ¬id = labelId := fun h => hid h.symm
      rw [if_neg hid, Option.or_none, List.find?_singleton]
      simp [hne]

namespace Mirrors

variable {s : X64Compile} {l : Layout}

theorem emit (h : Mirrors s l) (bs : List UInt8) : Mirrors (s.emit bs) (l.emit bs) where
  size := congrArg (· + bs.length) h.size
  code := changesOnly_emit h.size h.code bs
  labels := h.labels
  fixups := h.fixups
  jumps := h.jumps
  calls := h.calls
  fnptrs := h.fnptrs
  functions := h.functions

/-- A reference that is not to a label : its field is emitted, and a context that has what the
tables have room for. -/
theorem refer (h : Mirrors s l) (opcode : List UInt8) {target : Target} (context : X64ModuleContext)
    (htarget : ∀ labelId, target ≠ .label labelId)
    (hcalls : context.callFixups = (l.refer opcode 4 target).calls.take maxCallFixups)
    (hfnptrs : context.fnptrFixups = (l.refer opcode 4 target).fnptrs.take maxFnptrFixups)
    (hfunctions : context.functions = s.context.functions) :
    Mirrors { (s.emit opcode).emit (x64EmitDword 0) with context } (l.refer opcode 4 target) where
  size := ((h.emit opcode).emit (x64EmitDword 0)).size
  code := ((h.emit opcode).emit (x64EmitDword 0)).code
  labels := h.labels
  fixups := fun f hf => ⟨(h.fixups f hf).1, List.mem_append_left _ (h.fixups f hf).2⟩
  jumps := by
    intro r hr labelId h0 heq
    rcases List.mem_append.1 hr with hr | hr
    · exact h.jumps r hr labelId h0 heq
    · rw [List.mem_singleton.1 hr] at heq
      exact absurd heq (htarget labelId)
  calls := hcalls
  fnptrs := hfnptrs
  functions := hfunctions.trans h.functions

/-- A jump : label 0 has no fix-up. -/
theorem jump (h : Mirrors s l) (opcode : List UInt8) (labelId : UInt32) (size : ℤ) :
    Mirrors (s.step (.jump opcode labelId size)) (l.step (.jump opcode labelId size)) := by
  have hcalls : ∀ len, (l.refer opcode len (.label labelId)).calls = l.calls := fun len => by
    simp [Layout.calls, Layout.entries, Layout.refer, Target.callee]
  have hfnptrs : ∀ len, (l.refer opcode len (.label labelId)).fnptrs = l.fnptrs := fun len => by
    simp [Layout.fnptrs, Layout.entries, Layout.refer, Target.address]
  have hemit := h.emit opcode
  by_cases h0 : labelId = 0
  · simp only [X64Compile.step, x64LabelFixup, Layout.step, if_pos h0]
    refine ⟨hemit.size, ?_, h.labels, ?_, ?_, ?_, ?_, h.functions⟩
    · intro a ha
      have hnil : (l.refer opcode 0 (.label labelId)).buf.code a = (l.emit opcode).buf.code a := by
        simp only [Layout.refer, X64Buffer.emit, Memory.write, List.replicate_zero,
          List.length_nil, Nat.add_zero]
        rw [if_neg (by omega)]
        rfl
      rw [hnil]
      exact hemit.code a ha
    · exact fun f hf => ⟨(h.fixups f hf).1, List.mem_append_left _ (h.fixups f hf).2⟩
    · intro r hr id hid heq
      rcases List.mem_append.1 hr with hr | hr
      · exact h.jumps r hr id hid heq
      · rw [List.mem_singleton.1 hr] at heq
        exact absurd ((Target.label.inj heq).symm.trans h0) hid
    · rw [hcalls]
      exact h.calls
    · rw [hfnptrs]
      exact h.fnptrs
  · simp only [X64Compile.step, x64LabelFixup, Layout.step, if_neg h0]
    have hzeros := hemit.emit (List.replicate size.toNat 0)
    have hsize : (s.output.emit opcode).size = (l.buf.emit opcode).size := hemit.size
    refine ⟨hzeros.size, ?_, h.labels, ?_, ?_, ?_, ?_, h.functions⟩
    · refine hzeros.code.mono fun r hr => ⟨r, ?_, Nat.le_refl _, Nat.le_refl _⟩
      rw [List.map_append]
      exact List.mem_append_left _ hr
    · intro f hf
      rcases List.mem_append.1 hf with hf | hf
      · exact ⟨(h.fixups f hf).1, List.mem_append_left _ (h.fixups f hf).2⟩
      · rw [List.mem_singleton.1 hf, hsize]
        exact ⟨h0, List.mem_append_right _ (List.mem_singleton_self _)⟩
    · intro r hr id hid heq
      rcases List.mem_append.1 hr with hr | hr
      · obtain ⟨f, hf, hfr⟩ := h.jumps r hr id hid heq
        exact ⟨f, List.mem_append_left _ hf, hfr⟩
      · refine ⟨_, List.mem_append_right _ (List.mem_singleton_self _), ?_⟩
        rw [List.mem_singleton.1 hr, hsize]
        rfl
    · rw [hcalls]
      exact h.calls
    · rw [hfnptrs]
      exact h.fnptrs

/-- A definition of a label. -/
theorem defineLabel (h : Mirrors s l) (labelId : UInt32) :
    Mirrors (s.step (.defineLabel labelId)) (l.step (.defineLabel labelId)) := by
  have hfixups : (x64LabelDefine s.labels s.output labelId).2.fixups = s.labels.fixups := by
    unfold x64LabelDefine
    by_cases h0 : labelId = 0
    · rw [if_pos h0]
    · rw [if_neg h0]
      cases s.labels.labels.find? fun l => l.id = labelId with
      | none => rfl
      | some l => by_cases hdef : l.offset.isSome <;> simp [hdef]
  by_cases h0 : labelId = 0
  · rw [X64Compile.step, x64LabelDefine, if_pos h0, Layout.step, if_pos h0]
    exact h
  · rw [Layout.step, if_neg h0]
    refine ⟨h.size, ?_, ?_, ?_, ?_, h.calls, h.fnptrs, h.functions⟩
    · simp only [X64Compile.step, hfixups]
      exact h.code
    · intro id hid
      simp only [X64Compile.step]
      rw [targetOffset_define _ _ h0, h.labels id hid, List.lookup_append, h.size]
      by_cases heq : id = labelId
      · simp [heq]
      · have hbeq : (id == labelId) = false := beq_eq_false_iff_ne.2 heq
        rw [if_neg heq, List.lookup_cons, hbeq]
        rfl
    · simp only [X64Compile.step, hfixups]
      exact h.fixups
    · simp only [X64Compile.step, hfixups]
      exact h.jumps

/-- One emission. -/
theorem step (h : Mirrors s l) (e : Emission) : Mirrors (s.step e) (l.step e) := by
  cases e with
  | bytes bs => exact h.emit bs
  | createLabel =>
    refine ⟨h.size, h.code, fun id hid => ?_, h.fixups, h.jumps, h.calls, h.fnptrs, h.functions⟩
    exact (targetOffset_create s.labels id).trans (h.labels id hid)
  | defineLabel labelId => exact h.defineLabel labelId
  | jump opcode labelId size => exact h.jump opcode labelId size
  | call opcode callee =>
    refine h.refer [opcode] _ (fun _ => Target.noConfusion) ?_ ?_ rfl
    · have hcalls : (l.refer [opcode] 4 (.call callee)).calls =
          l.calls ++ [⟨l.buf.size + 1, callee⟩] := by
        simp [Layout.calls, Layout.entries, Layout.refer, Target.callee, X64Buffer.emit]
      rw [hcalls, ← recordEntry_take, ← h.calls, ← h.size]
      rfl
    · have hfnptrs : (l.refer [opcode] 4 (.call callee)).fnptrs = l.fnptrs := by
        simp [Layout.fnptrs, Layout.entries, Layout.refer, Target.address]
      rw [hfnptrs]
      exact h.fnptrs
  | fnptr lead fn =>
    refine h.refer lead _ (fun _ => Target.noConfusion) ?_ ?_ rfl
    · have hcalls : (l.refer lead 4 (.fnptr fn)).calls = l.calls := by
        simp [Layout.calls, Layout.entries, Layout.refer, Target.callee]
      rw [hcalls]
      exact h.calls
    · have hfnptrs : (l.refer lead 4 (.fnptr fn)).fnptrs =
          l.fnptrs ++ [⟨l.buf.size + lead.length, fn⟩] := by
        simp [Layout.fnptrs, Layout.entries, Layout.refer, Target.address, X64Buffer.emit]
      rw [hfnptrs, ← recordEntry_take, ← h.fnptrs, ← h.size]
      rfl
  | runtimeCall =>
    refine h.refer [0xE8] s.context (fun _ => Target.noConfusion) ?_ ?_ rfl
    · have hcalls : (l.refer [0xE8] 4 .runtime).calls = l.calls := by
        simp [Layout.calls, Layout.entries, Layout.refer, Target.callee]
      rw [hcalls]
      exact h.calls
    · have hfnptrs : (l.refer [0xE8] 4 .runtime).fnptrs = l.fnptrs := by
        simp [Layout.fnptrs, Layout.entries, Layout.refer, Target.address]
      rw [hfnptrs]
      exact h.fnptrs

/-- The body of a function. -/
theorem foldl (h : Mirrors s l) (body : List Emission) :
    Mirrors (body.foldl X64Compile.step s) (body.foldl Layout.step l) := by
  induction body generalizing s l with
  | nil => exact h
  | cons e es ih => exact ih (h.step e)

end Mirrors

/-! ## Functions and modules -/

/-- The entries of the fix-up table hold the distances to their labels. -/
def Resolved (s : X64Compile) : Prop :=
  ∀ f ∈ s.labels.fixups, ∃ offset, s.labels.targetOffset f.labelId = some offset ∧
    displacement s.output.code f.reference.field =
      offset - (f.reference.field.start + f.reference.field.len)

/-- A complete function : all jumps so far are resolved. -/
theorem Mirrors.resolve {site : ℕ} {s : X64Compile} {l : Layout} (h : Mirrors s l)
    (hl : l.Ordered site) {output : X64Buffer}
    (hres : x64LabelsResolve s.labels s.output = some output) :
    Mirrors { s with output } l ∧ Resolved { s with output } := by
  obtain ⟨hfits, rfl⟩ := resolve_eq_some s.labels.fixups hres
  have hsub : ∀ r ∈ s.labels.fixups.map X64Fixup.reference, r ∈ l.refs := by
    intro r hr
    obtain ⟨f, hf, rfl⟩ := List.mem_map.1 hr
    exact (h.fixups f hf).2
  refine ⟨⟨h.size, ?_, h.labels, h.fixups, h.jumps, h.calls, h.fnptrs, h.functions⟩, ?_⟩
  · refine h.code.comp ((changesOnly_applyAll _ s.output.code).mono fun r hr => ⟨r, ?_, ?_⟩)
    · rw [List.map_map, List.map_map] at hr
      exact hr
    · exact ⟨le_rfl, le_rfl⟩
  · intro f hf
    obtain ⟨offset, ht, hpos, hin⟩ := hfits f hf
    refine ⟨offset, ht, ?_⟩
    rw [hl.displacement_of_mem s.output.code _ hsub (List.mem_map_of_mem hf)]
    have hplace : s.labels.places f.reference.target = offset := by
      simp [X64Labels.places, X64Fixup.reference, ht]
    rw [hplace]
    exact (bmod_self_iff hpos).2 hin

namespace Layout

/-- Emissions define no function, and add to the references. -/
theorem foldl_step (body : List Emission) (l : Layout) :
    (body.foldl step l).functions = l.functions ∧ (body.foldl step l).main = l.main ∧
      ∀ r ∈ l.refs, r ∈ (body.foldl step l).refs := by
  induction body generalizing l with
  | nil => exact ⟨rfl, rfl, fun _ hr => hr⟩
  | cons e es ih =>
    have hstep : (l.step e).functions = l.functions ∧ (l.step e).main = l.main ∧
        ∀ r ∈ l.refs, r ∈ (l.step e).refs := by
      cases e with
      | defineLabel labelId =>
        simp only [step]
        split_ifs <;> exact ⟨rfl, rfl, fun _ hr => hr⟩
      | bytes | createLabel => exact ⟨rfl, rfl, fun _ hr => hr⟩
      | jump | call | fnptr | runtimeCall =>
        exact ⟨rfl, rfl, fun _ hr => List.mem_append_left _ hr⟩
    obtain ⟨hf, hm, hr⟩ := ih (l.step e)
    exact ⟨hf.trans hstep.1, hm.trans hstep.2.1, fun r h => hr r (hstep.2.2 r h)⟩

theorem functions_function (l : Layout) (fn : X64Function) :
    (l.function fn).functions = l.functions ++ [l.buf.size] :=
  (foldl_step _ _).1

theorem main_function (l : Layout) (fn : X64Function) :
    (l.function fn).main = if fn.name = some "main" then some l.buf.size else l.main :=
  (foldl_step _ _).2.1

theorem mem_function {l : Layout} (fn : X64Function) {r : Reference} (h : r ∈ l.refs) :
    r ∈ (l.function fn).refs :=
  (foldl_step _ _).2.2 r h

/-- The startup stub has its reference. -/
theorem mem_startup (output : X64Buffer) :
    (⟨⟨output.size + 1, 4⟩, .main⟩ : Reference) ∈ (startup output).refs :=
  List.mem_singleton_self _

end Layout

/-- What holds between two functions. -/
structure BetweenFunctions (site : ℕ) (s : X64Compile × Option ℕ) (l : Layout) : Prop where
  tracks : Mirrors s.1 l
  ordered : l.Ordered site
  resolved : Resolved s.1
  main : s.2 = l.main
  startup : ⟨⟨site, 4⟩, .main⟩ ∈ l.refs

/-- One function of the module. -/
theorem BetweenFunctions.round {site : ℕ} {s s' : X64Compile × Option ℕ} {l : Layout} (h : BetweenFunctions site s l)
    {fn : X64Function} (hround : compileRound s (fn, l.functions.length) = some s') :
    BetweenFunctions site s' (l.function fn) := by
  unfold compileRound celestialCompileFunction at hround
  simp only [Option.bind_eq_bind, Option.pure_def, Option.bind_assoc, Option.bind_some,
    Option.bind_eq_some_iff, Option.some.injEq] at hround
  obtain ⟨output, hres, rfl⟩ := hround
  have hstart : Mirrors
      { s.1 with
        context.functions :=
          recordEntry maxFunctions s.1.context.functions ⟨l.functions.length, s.1.output.size⟩ }
      { l with
        functions := l.functions ++ [l.buf.size]
        main := if fn.name = some "main" then some l.buf.size else l.main } := by
    refine ⟨h.tracks.size, h.tracks.code, h.tracks.labels, h.tracks.fixups, h.tracks.jumps,
      h.tracks.calls, h.tracks.fnptrs, ?_⟩
    have hzip : ((l.functions ++ [l.buf.size]).zipIdx.map fun p => (⟨p.2, p.1⟩ : X64FunctionEntry)) =
        (l.functions.zipIdx.map fun p => ⟨p.2, p.1⟩) ++ [⟨l.functions.length, l.buf.size⟩] := by
      simp [List.zipIdx_append]
    rw [hzip, ← recordEntry_take, ← h.tracks.functions, h.tracks.size]
  have hend := (hstart.foldl fn.body).resolve (h.ordered.function fn) hres
  refine ⟨hend.1, h.ordered.function fn, hend.2, ?_, Layout.mem_function fn h.startup⟩
  rw [Layout.main_function, ← h.main, ← h.tracks.size]

/-- All functions of the module. -/
theorem BetweenFunctions.rounds {site : ℕ} (fns : List X64Function) {s s' : X64Compile × Option ℕ}
    {l : Layout} (h : BetweenFunctions site s l)
    (hrun : (fns.zipIdx l.functions.length).foldlM compileRound s = some s') :
    BetweenFunctions site s' (fns.foldl Layout.function l) := by
  induction fns generalizing s l with
  | nil =>
    rw [← Option.some.inj hrun]
    exact h
  | cons fn fns ih =>
    rw [List.zipIdx_cons, List.foldlM_cons, Option.bind_eq_bind, Option.bind_eq_some_iff] at hrun
    obtain ⟨s₁, h₁, hrun⟩ := hrun
    refine ih (h.round h₁) ?_
    rw [Layout.functions_function, List.length_append, List.length_singleton]
    exact hrun

/-- Before the first function. -/
theorem betweenFunctions_startup (output : X64Buffer) :
    BetweenFunctions (output.size + 1)
      (⟨(x64EmitStartupStub output).1, x64LabelsInit, ⟨[], [], []⟩⟩, none)
      (Layout.startup output) where
  tracks := by
    refine ⟨rfl, fun _ _ => rfl, fun _ _ => rfl, ?_, ?_, rfl, rfl, rfl⟩
    · exact fun f hf => absurd hf List.not_mem_nil
    · intro r hr labelId _ heq
      rw [List.mem_singleton.1 hr] at heq
      exact Target.noConfusion heq
  ordered := Layout.Ordered.startup output
  resolved := fun f hf => absurd hf List.not_mem_nil
  main := rfl
  startup := Layout.mem_startup output

/-! ## Calls -/

/-- The entry of a function in the function table. -/
theorem find?_functions (fs : List ℕ) (k capacity : ℕ) {fn : ℕ} (hk : k ≤ fn) :
    (((fs.zipIdx k).map fun p => (⟨p.2, p.1⟩ : X64FunctionEntry)).take capacity).find?
        (fun e => e.fn = fn) =
      if fn - k < capacity then (fs[fn - k]?).map fun offset => ⟨fn, offset⟩ else none := by
  induction fs generalizing k capacity with
  | nil => simp
  | cons offset fs ih =>
    cases capacity with
    | zero => simp
    | succ capacity =>
      rw [List.zipIdx_cons, List.map_cons, List.take_succ_cons, List.find?_cons]
      by_cases heq : k = fn
      · simp [heq]
      · have hlt : fn - k = fn - (k + 1) + 1 := by omega
        simp only [heq, decide_false]
        rw [ih (k + 1) capacity (by omega), hlt, List.getElem?_cons_succ]
        simp only [Nat.add_lt_add_iff_right]

/-- The place a call is patched with. -/
theorem Mirrors.findFunctionOffset {s : X64Compile} {l : Layout} (h : Mirrors s l) (fn : ℕ) :
    findFunctionOffset s.context fn =
      if fn < maxFunctions then (l.functions[fn]?).getD 0 else 0 := by
  rw [Seraph.findFunctionOffset, h.functions, find?_functions _ 0 _ (Nat.zero_le fn), Nat.sub_zero]
  split_ifs
  · cases l.functions[fn]? <;> rfl
  · rfl

/-- The places of functions. -/
def X64ModuleContext.places (context : X64ModuleContext) (main : Option ℕ) : Target → ℤ
  | .call fn | .fnptr fn => findFunctionOffset context fn
  | .main => main.getD 0
  | _ => 0

/-- The reference of an entry for a table of calls. -/
def X64CallFixup.reference (target : ℕ → Target) (c : X64CallFixup) : Reference :=
  ⟨⟨c.callSite, 4⟩, target c.callee⟩

/-- A table of calls, as patches. -/
theorem foldl_patchCall {context : X64ModuleContext} (main : Option ℕ) (target : ℕ → Target)
    (htarget : ∀ fn, context.places main (target fn) = findFunctionOffset context fn)
    (cs : List X64CallFixup) (buf : X64Buffer) :
    cs.foldl (patchCall context) buf =
      ⟨applyAll buf.code ((cs.map (X64CallFixup.reference target)).map
        (Reference.patch (context.places main))), buf.size⟩ := by
  induction cs generalizing buf with
  | nil => rfl
  | cons c cs ih =>
    rw [List.foldl_cons, ih, List.map_cons, List.map_cons, applyAll_cons]
    have hpatch : ((c.reference target).patch (context.places main)).apply buf.code =
        (patchCall context buf c).code := by
      simp only [Reference.patch, X64CallFixup.reference, htarget]
      rfl
    rw [hpatch]
    rfl

/-- The references that are patched at the end of a module. -/
def finalReferences (site : ℕ) (s : X64Compile × Option ℕ) : List Reference :=
  (if s.2.isSome then [⟨⟨site, 4⟩, .main⟩] else []) ++
    (s.1.context.callFixups.map (X64CallFixup.reference .call) ++
      s.1.context.fnptrFixups.map (X64CallFixup.reference .fnptr))

/-- A module that is compiled : its functions, and then its last patches. -/
theorem compileModule_eq_some {fns : List X64Function} {output out : X64Buffer}
    (h : celestialCompileModule fns output = some out) :
    ∃ s, BetweenFunctions (output.size + 1) s (Layout.ofModule fns output) ∧
      out = ⟨applyAll s.1.output.code ((finalReferences (output.size + 1) s).map
        (Reference.patch (s.1.context.places s.2))), s.1.output.size⟩ := by
  unfold celestialCompileModule at h
  rw [Option.bind_eq_bind, Option.bind_eq_some_iff] at h
  obtain ⟨⟨s, main⟩, hrun, h⟩ := h
  refine ⟨(s, main), (betweenFunctions_startup output).rounds fns hrun, ?_⟩
  rw [← Option.some.inj h, foldl_patchCall main .fnptr fun _ => rfl,
    foldl_patchCall main .call fun _ => rfl]
  unfold finalReferences
  rw [List.map_append, List.map_append, applyAll_append, applyAll_append]
  cases main <;> rfl

section entries

variable {site : ℕ} {l : Layout} {f : Target → Option ℕ} {target : ℕ → Target}

/-- The entries of a kind are its references. -/
theorem Layout.Ordered.mem_entries_iff (h : l.Ordered site)
    (hf : ∀ t fn, f t = some fn ↔ t = target fn) (hlabel : ∀ fn labelId, target fn ≠ .label labelId)
    {c : X64CallFixup} : c ∈ l.entries f ↔ c.reference target ∈ l.refs := by
  unfold Layout.entries
  rw [List.mem_filterMap]
  constructor
  · rintro ⟨r, hr, hc⟩
    obtain ⟨fn, hfn, rfl⟩ := Option.map_eq_some_iff.1 hc
    have htarget := (hf _ _).1 hfn
    have hwidth := h.width r hr fun labelId heq => hlabel fn labelId (htarget.symm.trans heq)
    have hr' : r = X64CallFixup.reference target ⟨r.field.start, fn⟩ := by
      obtain ⟨⟨start, len⟩, t⟩ := r
      simp_all [X64CallFixup.reference]
    exact hr' ▸ hr
  · exact fun hc => ⟨_, hc, by simp [X64CallFixup.reference, (hf _ _).2 rfl]⟩

/-- The entries of a kind follow each other. -/
theorem Layout.Ordered.entries_apart (h : l.Ordered site)
    (hf : ∀ t fn, f t = some fn ↔ t = target fn)
    (hlabel : ∀ fn labelId, target fn ≠ .label labelId) :
    (l.entries f).Pairwise fun c d => c.callSite < d.callSite := by
  unfold Layout.entries
  rw [List.pairwise_filterMap]
  refine h.apart.imp_of_mem fun {r s} hr hs hrs c hc d hd => ?_
  obtain ⟨fn, hfn, rfl⟩ := Option.map_eq_some_iff.1 hc
  obtain ⟨fn', hfn', rfl⟩ := Option.map_eq_some_iff.1 hd
  have hwidth := h.width r hr fun labelId heq =>
    hlabel fn labelId (((hf _ _).1 hfn).symm.trans heq)
  show r.field.start < s.field.start
  omega

/-- The entries a table has room for are the first ones. -/
theorem Layout.Ordered.mem_take_iff (h : l.Ordered site)
    (hf : ∀ t fn, f t = some fn ↔ t = target fn) (hlabel : ∀ fn labelId, target fn ≠ .label labelId)
    {k capacity : ℕ} {c : X64CallFixup} (hc : (l.entries f)[k]? = some c) :
    c ∈ (l.entries f).take capacity ↔ k < capacity := by
  constructor
  · intro hmem
    by_contra hge
    have hdrop : c ∈ (l.entries f).drop capacity := by
      refine List.mem_iff_getElem?.2 ⟨k - capacity, ?_⟩
      rw [List.getElem?_drop, ← hc]
      congr 1
      omega
    have hpair := h.entries_apart hf hlabel
    rw [← List.take_append_drop capacity (l.entries f)] at hpair
    exact absurd ((List.pairwise_append.1 hpair).2.2 c hmem c hdrop) (lt_irrefl _)
  · intro hlt
    refine List.mem_iff_getElem?.2 ⟨k, ?_⟩
    rw [List.getElem?_take_of_lt hlt, hc]

end entries

section final

variable {site : ℕ} {s : X64Compile × Option ℕ} {l : Layout}

/-- The code of a compiled module. -/
def finalCode (site : ℕ) (s : X64Compile × Option ℕ) : Memory :=
  applyAll s.1.output.code
    ((finalReferences site s).map (Reference.patch (s.1.context.places s.2)))

theorem mem_finalReferences {r : Reference} :
    r ∈ finalReferences site s ↔ (s.2.isSome ∧ r = ⟨⟨site, 4⟩, .main⟩) ∨
      (∃ c ∈ s.1.context.callFixups, c.reference .call = r) ∨
      ∃ c ∈ s.1.context.fnptrFixups, c.reference .fnptr = r := by
  unfold finalReferences
  cases s.2 <;> simp

theorem reference_call_mem {c : X64CallFixup} :
    c.reference .call ∈ finalReferences site s ↔ c ∈ s.1.context.callFixups := by
  rw [mem_finalReferences]
  refine ⟨fun h => ?_, fun h => Or.inr (Or.inl ⟨c, h, rfl⟩)⟩
  rcases h with ⟨_, h⟩ | ⟨d, hd, h⟩ | ⟨d, _, h⟩
  · exact Target.noConfusion (congrArg Reference.target h)
  · have hstart := congrArg (fun r : Reference => r.field.start) h
    have hcallee := Target.call.inj (congrArg Reference.target h)
    obtain ⟨site, callee⟩ := d
    exact (show (⟨site, callee⟩ : X64CallFixup) = c by
      rw [show site = c.callSite from hstart, show callee = c.callee from hcallee]) ▸ hd
  · exact Target.noConfusion (congrArg Reference.target h)

theorem reference_fnptr_mem {c : X64CallFixup} :
    c.reference .fnptr ∈ finalReferences site s ↔ c ∈ s.1.context.fnptrFixups := by
  rw [mem_finalReferences]
  refine ⟨fun h => ?_, fun h => Or.inr (Or.inr ⟨c, h, rfl⟩)⟩
  rcases h with ⟨_, h⟩ | ⟨d, _, h⟩ | ⟨d, hd, h⟩
  · exact Target.noConfusion (congrArg Reference.target h)
  · exact Target.noConfusion (congrArg Reference.target h)
  · have hstart := congrArg (fun r : Reference => r.field.start) h
    have hcallee := Target.fnptr.inj (congrArg Reference.target h)
    obtain ⟨site, callee⟩ := d
    exact (show (⟨site, callee⟩ : X64CallFixup) = c by
      rw [show site = c.callSite from hstart, show callee = c.callee from hcallee]) ▸ hd

theorem callee_iff (t : Target) (fn : ℕ) : t.callee = some fn ↔ t = .call fn := by
  cases t <;> simp [Target.callee]

theorem address_iff (t : Target) (fn : ℕ) : t.address = some fn ↔ t = .fnptr fn := by
  cases t <;> simp [Target.address]

/-- What is patched at the end are references of the layout. -/
theorem BetweenFunctions.finalReferences_subset (h : BetweenFunctions site s l) :
    ∀ r ∈ finalReferences site s, r ∈ l.refs := by
  intro r hr
  rcases mem_finalReferences.1 hr with ⟨_, rfl⟩ | ⟨c, hc, rfl⟩ | ⟨c, hc, rfl⟩
  · exact h.startup
  · rw [h.tracks.calls] at hc
    exact (h.ordered.mem_entries_iff callee_iff fun _ _ => Target.noConfusion).1
      (List.mem_of_mem_take hc)
  · rw [h.tracks.fnptrs] at hc
    exact (h.ordered.mem_entries_iff address_iff fun _ _ => Target.noConfusion).1
      (List.mem_of_mem_take hc)

/-- A reference that is patched at the end. -/
theorem BetweenFunctions.displacement_final (h : BetweenFunctions site s l) {r : Reference}
    (hr : r ∈ finalReferences site s) :
    displacement (finalCode site s) r.field =
      (s.1.context.places s.2 r.target - (r.field.start + r.field.len)).bmod (256 ^ r.field.len) :=
  h.ordered.displacement_of_mem _ _ h.finalReferences_subset hr

/-- A reference that is not. -/
theorem BetweenFunctions.displacement_other (h : BetweenFunctions site s l) {r : Reference} (hr : r ∈ l.refs)
    (hnot : r ∉ finalReferences site s) :
    displacement (finalCode site s) r.field = displacement s.1.output.code r.field :=
  h.ordered.displacement_of_not_mem _ _ h.finalReferences_subset hr hnot

/-- A jump holds the distance to its label. -/
theorem BetweenFunctions.label_holds (h : BetweenFunctions site s l) {r : Reference} (hr : r ∈ l.refs)
    {labelId : UInt32} (htarget : r.target = .label labelId) (h0 : labelId ≠ 0) :
    ∃ offset, l.offsetOf r.target = some offset ∧
      displacement (finalCode site s) r.field = offset - (r.field.start + r.field.len) := by
  obtain ⟨f, hf, rfl⟩ := h.tracks.jumps r hr labelId h0 htarget
  obtain ⟨offset, ht, hd⟩ := h.resolved f hf
  refine ⟨offset, ?_, ?_⟩
  · rw [h.tracks.labels _ (h.tracks.fixups f hf).1] at ht
    exact ht
  · rw [h.displacement_other hr, hd]
    intro hmem
    rcases mem_finalReferences.1 hmem with ⟨_, heq⟩ | ⟨c, _, heq⟩ | ⟨c, _, heq⟩ <;>
      exact Target.noConfusion (congrArg Reference.target heq)

/-- A reference that no table has holds zero. -/
theorem BetweenFunctions.displacement_dropped (h : BetweenFunctions site s l) {r : Reference} (hr : r ∈ l.refs)
    (hlabel : ∀ labelId, r.target ≠ .label labelId) (hnot : r ∉ finalReferences site s) :
    displacement (finalCode site s) r.field = 0 := by
  rw [h.displacement_other hr hnot, displacement, h.tracks.code.load fun q hq => ?_,
    h.ordered.zero r hr]
  · exact Int.zero_bmod
  · obtain ⟨f, hf, rfl⟩ := List.mem_map.1 hq
    refine (h.ordered.eq_or_disjoint r hr _ (h.tracks.fixups f hf).2).resolve_left fun heq => ?_
    exact hlabel f.labelId (congrArg Reference.target heq)

/-- A call or the address of a function holds the distance to the function exactly if it is
linked. -/
theorem BetweenFunctions.linked_iff (h : BetweenFunctions site s l) {f : Target → Option ℕ} {target : ℕ → Target}
    (hf : ∀ t fn, f t = some fn ↔ t = target fn) (hlabel : ∀ fn labelId, target fn ≠ .label labelId)
    (hplace : ∀ fn, s.1.context.places s.2 (target fn) = findFunctionOffset s.1.context fn)
    (capacity : ℕ) (hmem : ∀ c, X64CallFixup.reference target c ∈ finalReferences site s ↔
      c ∈ (l.entries f).take capacity)
    {k : ℕ} {c : X64CallFixup} (hc : (l.entries f)[k]? = some c) :
    (∃ offset, l.functions[c.callee]? = some offset ∧
      displacement (finalCode site s) ⟨c.callSite, 4⟩ = offset - (c.callSite + 4)) ↔
    Linked l capacity k c := by
  have hr : c.reference target ∈ l.refs :=
    (h.ordered.mem_entries_iff hf hlabel).1 (List.mem_of_getElem? hc)
  have hk := (hmem c).trans (h.ordered.mem_take_iff hf hlabel hc)
  refine exists_congr fun offset => and_congr_right fun hoffset => ?_
  by_cases hlt : k < capacity
  · rw [if_pos hlt, show (⟨c.callSite, 4⟩ : Region) = (c.reference target).field from rfl,
      h.displacement_final (hk.2 hlt)]
    show Int.bmod (s.1.context.places s.2 (target c.callee) - (c.callSite + (4 : ℕ))) (256 ^ 4) =
      _ ↔ _
    rw [hplace, h.tracks.findFunctionOffset, bmod_eq_iff (by decide), hoffset]
    refine and_congr_right fun _ => ?_
    by_cases hfn : c.callee < maxFunctions
    · rw [if_pos hfn]
      simp [hfn]
    · have hsub : (offset : ℤ) - (c.callSite + 4) - ((0 : ℕ) - (c.callSite + (4 : ℕ))) = offset := by
        push_cast
        ring
      rw [if_neg hfn, or_iff_right hfn, hsub]
      exact Int.natCast_dvd_natCast
  · rw [if_neg hlt, show (⟨c.callSite, 4⟩ : Region) = (c.reference target).field from rfl,
      h.displacement_dropped hr (hlabel c.callee) (fun hin => hlt (hk.1 hin))]
    omega

/-- The startup stub calls `main` exactly if there is one in reach. -/
theorem BetweenFunctions.main_iff (h : BetweenFunctions site s l) {r : Reference} (hr : r ∈ l.refs)
    (htarget : r.target = .main) :
    (∃ offset, l.offsetOf r.target = some offset ∧
      displacement (finalCode site s) r.field = offset - (r.field.start + r.field.len)) ↔
    ∃ offset, l.main = some offset ∧ FitsBytes 4 (offset - (r.field.start + 4) : ℤ) := by
  have hfield := h.ordered.main r hr htarget
  obtain ⟨field, target⟩ := r
  obtain rfl : field = ⟨site, 4⟩ := hfield
  obtain rfl : target = .main := htarget
  refine exists_congr fun offset => and_congr_right fun hoffset => ?_
  have hmain : s.2 = some offset := h.main.trans hoffset
  have hmem : (⟨⟨site, 4⟩, .main⟩ : Reference) ∈ finalReferences site s :=
    mem_finalReferences.2 (Or.inl ⟨by rw [hmain]; rfl, rfl⟩)
  rw [h.displacement_final hmem]
  simp only [X64ModuleContext.places, hmain, Option.getD_some]
  exact bmod_self_iff (by decide)

/-- Only the fields change. -/
theorem BetweenFunctions.changesOnly_final (h : BetweenFunctions site s l) :
    l.buf.code.ChangesOnly (l.refs.map Reference.field) (finalCode site s) := by
  refine Memory.ChangesOnly.comp (h.tracks.code.mono fun q hq => ?_)
    ((changesOnly_applyAll _ s.1.output.code).mono fun q hq => ?_)
  · obtain ⟨f, hf, rfl⟩ := List.mem_map.1 hq
    exact ⟨_, List.mem_map_of_mem (h.tracks.fixups f hf).2, le_rfl, le_rfl⟩
  · rw [List.map_map] at hq
    obtain ⟨r, hr, rfl⟩ := List.mem_map.1 hq
    exact ⟨_, List.mem_map_of_mem (h.finalReferences_subset r hr), le_rfl, le_rfl⟩

end final

/-- A module that is compiled has every reference patched, and nothing else, exactly if it is
linkable. -/
theorem fixupsComplete_iff (fns : List X64Function) (output out : X64Buffer)
    (h : celestialCompileModule fns output = some out) :
    FixupsComplete (Layout.ofModule fns output) out ↔ Linkable (Layout.ofModule fns output) := by
  obtain ⟨s, hb, rfl⟩ := compileModule_eq_some h
  generalize Layout.ofModule fns output = l at hb
  have hcalls := fun k c (hc : l.calls[k]? = some c) =>
    hb.linked_iff callee_iff (fun _ _ => Target.noConfusion) (fun _ => rfl) maxCallFixups
      (fun d => reference_call_mem.trans (by rw [hb.tracks.calls]; rfl)) hc
  have hfnptrs := fun k c (hc : l.fnptrs[k]? = some c) =>
    hb.linked_iff address_iff (fun _ _ => Target.noConfusion) (fun _ => rfl) maxFnptrFixups
      (fun d => reference_fnptr_mem.trans (by rw [hb.tracks.fnptrs]; rfl)) hc
  constructor
  · rintro ⟨-, hholds, -⟩
    refine ⟨fun r hr => ?_, fun r hr htarget => ?_, fun k c hc => ?_, fun k c hc => ?_⟩
    · obtain ⟨offset, hoffset, -⟩ := hholds r hr
      refine ⟨fun heq => ?_, fun heq => ?_⟩
      · rw [heq] at hoffset
        exact absurd hoffset (by simp [Layout.offsetOf])
      · rw [heq] at hoffset
        obtain ⟨ls, ls', hsplit, -⟩ := List.lookup_eq_some_iff.1 hoffset
        refine hb.ordered.labels (0, offset) ?_ rfl
        rw [hsplit]
        exact List.mem_append_right _ List.mem_cons_self
    · exact (hb.main_iff hr htarget).1 (hholds r hr)
    · refine (hcalls k c hc).1 (hholds (c.reference .call) ?_)
      exact (hb.ordered.mem_entries_iff callee_iff fun _ _ => Target.noConfusion).1
        (List.mem_of_getElem? hc)
    · refine (hfnptrs k c hc).1 (hholds (c.reference .fnptr) ?_)
      exact (hb.ordered.mem_entries_iff address_iff fun _ _ => Target.noConfusion).1
        (List.mem_of_getElem? hc)
  · intro hlink
    refine ⟨hb.tracks.size, fun r hr => ?_, hb.changesOnly_final⟩
    cases htarget : r.target with
    | label labelId =>
      rw [← htarget]
      refine hb.label_holds hr htarget fun h0 => (hlink.tabled r hr).2 ?_
      rw [htarget, h0]
    | main =>
      rw [← htarget]
      exact (hb.main_iff hr htarget).2 (hlink.main r hr htarget)
    | runtime => exact absurd htarget (hlink.tabled r hr).1
    | call fn =>
      obtain ⟨field, target⟩ := r
      obtain rfl : target = .call fn := htarget
      have hwidth := hb.ordered.width _ hr fun _ => Target.noConfusion
      obtain ⟨start, len⟩ := field
      obtain rfl : len = 4 := hwidth
      have hc := (hb.ordered.mem_entries_iff callee_iff (c := ⟨start, fn⟩)
        fun _ _ => Target.noConfusion).2 hr
      obtain ⟨k, hk⟩ := List.mem_iff_getElem?.1 hc
      exact (hcalls k _ hk).2 (hlink.calls k _ hk)
    | fnptr fn =>
      obtain ⟨field, target⟩ := r
      obtain rfl : target = .fnptr fn := htarget
      have hwidth := hb.ordered.width _ hr fun _ => Target.noConfusion
      obtain ⟨start, len⟩ := field
      obtain rfl : len = 4 := hwidth
      have hc := (hb.ordered.mem_entries_iff address_iff (c := ⟨start, fn⟩)
        fun _ _ => Target.noConfusion).2 hr
      obtain ⟨k, hk⟩ := List.mem_iff_getElem?.1 hc
      exact (hfnptrs k _ hk).2 (hlink.fnptrs k _ hk)

/-- A `main` with a jump to its own label. -/
theorem fixupsComplete_iff_loop :
    ∃ out,
      celestialCompileModule [⟨some "main", [.createLabel, .defineLabel 1, .jump [0xE9] 1 4]⟩]
        ⟨fun _ => 0, 0⟩ = some out ∧
      (FixupsComplete (Layout.ofModule
          [⟨some "main", [.createLabel, .defineLabel 1, .jump [0xE9] 1 4]⟩] ⟨fun _ => 0, 0⟩) out ↔
        Linkable (Layout.ofModule
          [⟨some "main", [.createLabel, .defineLabel 1, .jump [0xE9] 1 4]⟩] ⟨fun _ => 0, 0⟩)) :=
  ⟨_, rfl, fixupsComplete_iff _ _ _ rfl⟩

/-- The call of the runtime in a `main` that enters a substrate is not patched. -/
theorem not_fixupsComplete_runtimeCall :
    ¬∀ fns output out, celestialCompileModule fns output = some out →
      FixupsComplete (Layout.ofModule fns output) out := by
  intro h
  have hmain := h [⟨some "main", [.runtimeCall]⟩] ⟨fun _ => 0, 0⟩ _ rfl
  obtain ⟨offset, hoffset, -⟩ := hmain.holds _ (List.mem_append_right _ (List.mem_singleton_self _))
  exact absurd hoffset (by simp [Layout.offsetOf])

end Seraph
