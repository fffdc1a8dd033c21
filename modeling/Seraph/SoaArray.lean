import Seraph.ArenaSafety

/-!
# Arrays of structures by fields

An array of structures in an arena keeps every field in an array of its own (`SoAArray`). `push` and
`set` scatter an element over the arrays of its fields, and `get` gathers it. All of them refuse an
array whose generation is not that of the arena. A prism is a view of one field, and a value of its
own.

The arena gives the array of pointers to the field arrays, and then these (`arrayCreate`). An
element is a memory of its own, from address 0.
-/

namespace Seraph

open ByteMem Memory Runs

/-- `Seraph_FieldDesc`, of words. -/
structure FieldDesc where
  offset : ℕ
  size : ℕ
  align : ℕ
  align_lt : align < 2 ^ 64

/-- `Seraph_SoA_Schema`, whose `field_count` has 32 bits. -/
structure SoASchema where
  fields : List FieldDesc
  structSize : ℕ
  structAlign : ℕ
  count_lt : fields.length < 2 ^ 32

/-- `Seraph_SoA_Array`, without its arena. `field_arrays` is an address. -/
structure SoAArray where
  schema : SoASchema
  fieldArrays : ℕ
  capacity : ℕ
  count : ℕ
  generation : ℕ

/-- `Seraph_Prism`. -/
structure Prism where
  base : ℕ
  stride : ℕ
  elementSize : ℕ
  count : ℕ
  generation : ℕ
  permissions : ℕ
deriving DecidableEq

/-- `seraph_soa_schema_is_valid`. -/
def SoASchema.isValid (schema : SoASchema) : Bool :=
  schema.fields.length > 0

/-- `memcpy` from another object. -/
def memcpyFrom (m : Memory) (dst : ℕ) (src : Memory) (start n : ℕ) : Memory :=
  fun x => if dst ≤ x ∧ x < dst + n then src (start + (x - dst)) else m x

/-- `field_arrays[i]`. -/
def fieldArray (m : Memory) (fieldArrays i : ℕ) : ℕ :=
  m.load (u64 (fieldArrays + i * 8)) 8

/-- The field arrays, from the arena one after the other. A pointer is stored before it is
checked. -/
def allocFields (fieldArrays capacity : ℕ) : Arena → List (FieldDesc × ℕ) → Arena × Bool
  | arena, [] => (arena, true)
  | arena, (field, i) :: fields =>
    let r := arena.alloc (u64 (field.size * capacity)) field.align
    let arena := { r.1 with bytes := r.1.bytes.store (u64 (fieldArrays + i * 8)) 8 r.2 }
    if r.2 = voidU64 then (arena, false) else allocFields fieldArrays capacity arena fields

/-- `seraph_soa_array_create`, with the array where it returns TRUE. -/
def arrayCreate (arena : Arena) (schema : SoASchema) (capacity : ℕ) :
    Arena × Except Vbit SoAArray :=
  if !arena.isValid then (arena, .error .void)
  else if !schema.isValid then (arena, .error .void)
  else if capacity = 0 then (arena, .error .false)
  else
    let r := arena.alloc (u64 (schema.fields.length * 8)) 8
    if r.2 = voidU64 then (r.1, .error .false)
    else
      let filled := allocFields r.2 capacity r.1 schema.fields.zipIdx
      if filled.2 then
        (filled.1, .ok
          { schema, fieldArrays := r.2, capacity, count := 0, generation := filled.1.generation })
      else (filled.1, .error .false)

namespace SoAArray

variable (array : SoAArray) (arena : Arena)

/-- The place of field `i` of element `index`. -/
def place (m : Memory) (index : ℕ) (f : FieldDesc × ℕ) : ℕ :=
  u64 (fieldArray m array.fieldArrays f.2 + u64 (index * f.1.size))

/-- The fields of an element go to their arrays. -/
def scatter (m : Memory) (index : ℕ) (element : Memory) : Memory :=
  array.schema.fields.zipIdx.foldl
    (fun m f => memcpyFrom m (array.place m index f) element f.1.offset f.1.size) m

/-- The fields of an element come from their arrays. -/
def gather (m : Memory) (index : ℕ) (element : Memory) : Memory :=
  array.schema.fields.zipIdx.foldl
    (fun out f => memcpyFrom out f.1.offset m (array.place m index f) f.1.size) element

/-- `seraph_soa_array_push`. -/
def push (element : Memory) : (Arena × SoAArray) × ℕ :=
  if array.capacity ≤ array.count then ((arena, array), voidU64)
  else if array.generation ≠ arena.generation then ((arena, array), voidU64)
  else
    (({ arena with bytes := array.scatter arena.bytes array.count element },
      { array with count := u64 (array.count + 1) }), array.count)

/-- `seraph_soa_array_get`, with the element that it fills. -/
def get (index : ℕ) (element : Memory) : Memory × Vbit :=
  if array.count ≤ index then (element, .false)
  else if array.generation ≠ arena.generation then (element, .void)
  else (array.gather arena.bytes index element, .true)

/-- `seraph_soa_array_set`. -/
def set (index : ℕ) (element : Memory) : Arena × Vbit :=
  if array.count ≤ index then (arena, .false)
  else if array.generation ≠ arena.generation then (arena, .void)
  else ({ arena with bytes := array.scatter arena.bytes index element }, .true)

end SoAArray

/-! ## Prisms -/

/-- `SERAPH_PRISM_VOID`. -/
def Prism.void : Prism :=
  ⟨voidU64, voidU64, voidU64, voidU64, voidU32, 0⟩

/-- `seraph_soa_get_prism`. -/
def SoAArray.getPrism (array : SoAArray) (arena : Arena) (fieldIndex : ℕ) : Prism :=
  match array.schema.fields[fieldIndex]? with
  | none => .void
  | some field =>
    if array.generation ≠ arena.generation then .void
    else
      { base := fieldArray arena.bytes array.fieldArrays fieldIndex
        stride := field.size
        elementSize := field.size
        count := array.count
        generation := array.generation
        permissions := permRead ||| permWrite }

namespace Prism

variable (prism : Prism)

/-- `seraph_prism_is_valid`. -/
def isValid : Bool :=
  prism.base ≠ voidU64 && prism.generation ≠ voidU32

/-- `seraph_prism_in_bounds`. -/
def inBounds (index : ℕ) : Bool :=
  prism.isValid && index < prism.count

/-- A number of `width` bytes of the field, if there is one. -/
def read (width void : ℕ) (m : Memory) (index : ℕ) : ℕ :=
  if !prism.inBounds index then void
  else if prism.elementSize < width then void
  else m.load (u64 (prism.base + u64 (index * prism.stride))) width

/-- `seraph_prism_read_u8`. -/
def readU8 : Memory → ℕ → ℕ :=
  prism.read 1 voidU8

/-- `seraph_prism_read_u16`. -/
def readU16 : Memory → ℕ → ℕ :=
  prism.read 2 voidU16

/-- `seraph_prism_read_u32`. -/
def readU32 : Memory → ℕ → ℕ :=
  prism.read 4 voidU32

/-- `seraph_prism_read_u64`. -/
def readU64 : Memory → ℕ → ℕ :=
  prism.read 8 voidU64

end Prism

/-! ## Runs -/

/-- The element `e` on the described fields, over the bytes `out`. -/
def filled (fields : List FieldDesc) (e out : Memory) : Memory :=
  fun x => if fields.any fun f => decide (f.offset ≤ x ∧ x < f.offset + f.size) then e x else out x

/-- The bytes of the field arrays. -/
def SoAArray.storage (array : SoAArray) (m : Memory) : List Region :=
  array.schema.fields.zipIdx.map fun f =>
    ⟨fieldArray m array.fieldArrays f.2, f.1.size * array.capacity⟩

/-- An array in its arena, with the elements as they were last pushed or set, the prisms that were
taken, and the resets since the array was made. -/
structure SoAState where
  arena : Arena
  array : SoAArray
  elements : List Memory
  prisms : List Prism
  resets : ℕ

/-- The calls that change something, and those that take a prism. Other users call the arena. -/
inductive SoAOp
  | push (element : Memory)
  | set (index : ℕ) (element : Memory)
  | getPrism (fieldIndex : ℕ)
  | arena (op : ArenaOp)

namespace SoAState

/-- A new array, if `seraph_soa_array_create` returns TRUE. -/
def create (arena : Arena) (schema : SoASchema) (capacity : UInt64) : Option SoAState :=
  match arrayCreate arena schema capacity.toNat with
  | (arena, .ok array) => some ⟨arena, array, [], [], 0⟩
  | (_, .error _) => none

variable (s : SoAState)

/-- One call, with the index or what the arena returns. -/
def step : SoAOp → SoAState × ℕ
  | .push element =>
    let r := s.array.push s.arena element
    ({ s with
        arena := r.1.1
        array := r.1.2
        elements := if r.2 = voidU64 then s.elements else s.elements ++ [element] }, r.2)
  | .set index element =>
    let r := s.array.set s.arena index element
    ({ s with
        arena := r.1
        elements := if r.2 = .true then s.elements.set index element else s.elements }, 0)
  | .getPrism fieldIndex =>
    ({ s with prisms := s.array.getPrism s.arena fieldIndex :: s.prisms }, 0)
  | .arena op =>
    let r := op.step s.arena
    ({ s with arena := r.1, resets := if op = .reset then s.resets + 1 else s.resets }, r.2)

/-- Other indices and the bytes outside of the field arrays are what they were. -/
structure OnlyAt (index : ℕ) (arena : Arena) (array : SoAArray) : Prop where
  others : ∀ i < s.array.count, i ≠ index → ∀ out, array.get arena i out = s.array.get s.arena i out
  bytes : ChangesOnly (s.array.storage s.arena.bytes) s.arena.bytes arena.bytes

/-- Every index holds the element that was last pushed or set there. -/
structure RoundTrip : Prop where
  get : ∀ (i : ℕ) (hi : i < s.elements.length) out, s.array.get s.arena i out =
    (filled s.array.schema.fields s.elements[i] out, .true)
  beyond : ∀ i out, s.elements.length ≤ i → s.array.get s.arena i out = (out, .false)
  push : ∀ e, s.array.count < s.array.capacity →
    (s.array.push s.arena e).2 = s.elements.length ∧
      s.OnlyAt s.elements.length (s.array.push s.arena e).1.1 (s.array.push s.arena e).1.2
  full : ∀ e, s.array.capacity ≤ s.array.count →
    s.array.push s.arena e = ((s.arena, s.array), voidU64)
  set : ∀ i < s.elements.length, ∀ e, (s.array.set s.arena i e).2 = .true ∧
    s.OnlyAt i (s.array.set s.arena i e).1 s.array

/-- Nothing is read or written any more. -/
structure Refused : Prop where
  push : ∀ e, s.array.push s.arena e = ((s.arena, s.array), voidU64)
  get : ∀ i out, (s.array.get s.arena i out).1 = out ∧ (s.array.get s.arena i out).2 ≠ .true
  set : ∀ i e, (s.array.set s.arena i e).1 = s.arena ∧ (s.array.set s.arena i e).2 ≠ .true
  getPrism : ∀ fieldIndex, s.array.getPrism s.arena fieldIndex = .void
  prisms : ∀ p ∈ s.prisms, ∀ i, p.inBounds i = false

/-- The first reset comes when no prism of an element has been taken, and the generations do not
come round. -/
def Keeps : SoAOp → Prop
  | .arena .reset =>
    (s.resets = 0 → ∀ p ∈ s.prisms, p.count = 0) ∧ s.resets + 1 < arenaMaxGeneration
  | _ => True

end SoAState

end Seraph
