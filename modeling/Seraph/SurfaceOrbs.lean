import Mathlib.Data.Fin.Basic
import Mathlib.Logic.Function.Basic
import Seraph.Capability
import Seraph.Q128
import Seraph.Runs
import Seraph.Tally

/-!
# The orbs of the surface

`surface.c` : the orbs, the index of the expanded one, and their copies in the Atlas. What the physics
computes with floating point is a parameter of a step : the new place of each orb, and whether the
cursor is near it and inside it. So are the place of a new orb, which is computed from its orbit, and
how a transaction of the Atlas goes. A negative index is none.
-/

namespace Seraph

/-- `Seraph_Orb_State`. -/
inductive OrbState where
  | idle
  | hover
  | swelling
  | expanding
  | fullscreen
  | contracting
  | peripheral
  | void
deriving DecidableEq, Repr

/-- `Seraph_Color`. -/
structure Color where
  r : ℕ
  g : ℕ
  b : ℕ
  a : ℕ
deriving DecidableEq, Repr

/-- `SERAPH_THEME_ORB_BASE`. -/
def themeOrbBase : Color :=
  ⟨0x6B, 0x7B, 0x8E, 255⟩

/-- `SERAPH_THEME_GLOW`. -/
def themeGlow : Color :=
  ⟨0xC8, 0xD4, 0xE0, 255⟩

/-- The position of an orb, without its velocity, and its orbit. -/
structure OrbPlace where
  positionX : Q128
  positionY : Q128
  orbitDistance : Q128
  orbitAngle : Q128
  orbitVelocity : Q128
deriving DecidableEq, Repr

/-- `Seraph_Orb`. `baseRadius` is the bits of a float. -/
structure Orb where
  sovereignCap : Capability
  orbId : ℕ
  place : OrbPlace
  state : OrbState
  visible : Vbit
  focused : Vbit
  notifications : ℕ
  colorBase : Color
  colorGlow : Color
  baseRadius : ℕ
deriving DecidableEq, Repr

/-- `Seraph_Surface_Persistent_Orb`. -/
structure PersistentOrb where
  orbId : ℕ
  place : OrbPlace
  baseRadius : ℕ
  state : OrbState
  colorBase : Color
  colorGlow : Color
  sovereignCapBase : ℕ
deriving DecidableEq, Repr

/-- `SERAPH_SURFACE_MAX_ORBS`. -/
def maxOrbs : ℕ := 64

/-- What `Seraph_Surface` and `Seraph_Surface_Persistent_State` both have of the surface itself. -/
structure SurfaceFrame where
  width : ℕ
  height : ℕ
  locusX : Q128
  locusY : Q128
  physicsEnabled : Bool
deriving DecidableEq, Repr

/-- `Seraph_Surface`. `connected` is that `atlas` and `persistent` are not NULL. -/
structure Surface where
  frame : SurfaceFrame
  orbs : Fin maxOrbs → Orb
  orbCount : ℕ
  expandedOrbIndex : ℤ
  connected : Bool
  initialized : Bool

/-- `Seraph_Surface_Persistent_State`. -/
structure PersistentState where
  frame : SurfaceFrame
  orbCount : ℕ
  orbs : ℕ → PersistentOrb

/-- A zeroed capability. -/
def zeroCapability : Capability where
  base := 0
  length := 0
  generation := 0
  permissions := 0
  type := 0
  reserved := 0

/-- A zeroed orb with the VOID id and state. -/
def Orb.void : Orb where
  sovereignCap := zeroCapability
  orbId := voidU64
  place := ⟨.zero, .zero, .zero, .zero, .zero⟩
  state := .void
  visible := .false
  focused := .false
  notifications := 0
  colorBase := ⟨0, 0, 0, 0⟩
  colorGlow := ⟨0, 0, 0, 0⟩
  baseRadius := 0

/-- An orb that is not VOID. -/
def Orb.live (o : Orb) : Bool :=
  decide (o.state ≠ .void)

/-- `generate_orb_id`, from the counter. -/
def generateOrbId (counter : ℕ) : ℕ :=
  if u64 (counter + 1) = voidU64 then 1 else u64 (counter + 1)

/-- `sync_orb_to_persistent`. -/
def syncOrbToPersistent (o : Orb) : PersistentOrb where
  orbId := o.orbId
  place := o.place
  baseRadius := o.baseRadius
  state := o.state
  colorBase := o.colorBase
  colorGlow := o.colorGlow
  sovereignCapBase := o.sovereignCap.base

/-- `sync_orb_from_persistent`. -/
def syncOrbFromPersistent (p : PersistentOrb) (o : Orb) : Orb where
  sovereignCap := { o.sovereignCap with
    base := p.sovereignCapBase
    length := 0
    permissions := 0
    generation := 0 }
  orbId := p.orbId
  place := p.place
  state := p.state
  visible := .true
  focused := .false
  notifications := 0
  colorBase := p.colorBase
  colorGlow := p.colorGlow
  baseRadius := p.baseRadius

namespace Surface

/-- `seraph_surface_init_with_config`. -/
def init (frame : SurfaceFrame) : Surface where
  frame := frame
  orbs := fun _ => Orb.void
  orbCount := 0
  expandedOrbIndex := -1
  connected := false
  initialized := true

/-- The slot of an index that is in range. -/
def slotOf (i : ℤ) : Option (Fin maxOrbs) :=
  if h : 0 ≤ i ∧ i < maxOrbs then some ⟨i.toNat, by omega⟩ else none

/-- The first slot with a VOID orb. -/
def firstFree (s : Surface) : Option (Fin maxOrbs) :=
  (List.finRange maxOrbs).find? fun i => !(s.orbs i).live

/-- Write an orb. -/
def setOrb (s : Surface) (i : Fin maxOrbs) (o : Orb) : Surface :=
  { s with orbs := Function.update s.orbs i o }

/-- `seraph_surface_get_orb` : the slot of a live orb, `none` is NULL. -/
def getOrb (s : Surface) (i : ℤ) : Option (Fin maxOrbs) :=
  if !s.initialized then none
  else (slotOf i).filter fun k => (s.orbs k).live

/-- `seraph_surface_create_orb`, with the counter of the ids and the index of the orb. -/
def createOrb (s : Surface) (counter : ℕ) (cap : Capability) (place : OrbPlace) :
    Surface × ℕ × ℤ :=
  if !s.initialized then (s, counter, -1)
  else if s.orbCount ≥ maxOrbs then (s, counter, -1)
  else
    match s.firstFree with
    | none => (s, counter, -1)
    | some slot =>
      let id := generateOrbId counter
      let orb : Orb := {
        sovereignCap := cap
        orbId := id
        place := place
        state := .idle
        visible := .true
        focused := .false
        notifications := 0
        colorBase := themeOrbBase
        colorGlow := themeGlow
        baseRadius := 0x41F00000 }
      ({ s.setOrb slot orb with orbCount := u32 (s.orbCount + 1) }, id, slot.val)

/-- `seraph_surface_remove_orb`. -/
def removeOrb (s : Surface) (i : ℤ) : Surface × Vbit :=
  if !s.initialized then (s, .void)
  else
    match slotOf i with
    | none => (s, .false)
    | some k =>
      if !(s.orbs k).live then (s, .false)
      else
        ({ s.setOrb k Orb.void with
            orbCount := u32 (s.orbCount + 2 ^ 32 - 1)
            expandedOrbIndex := if s.expandedOrbIndex = i then -1 else s.expandedOrbIndex }, .true)

/-- Change the state of an orb. -/
def setState (s : Surface) (i : Fin maxOrbs) (state : OrbState) : Surface :=
  s.setOrb i { s.orbs i with state := state }

/-- The loop of `seraph_surface_contract_current` over the orbs. -/
def restorePeripheral (s : Surface) : Surface :=
  { s with orbs := fun i =>
      if (s.orbs i).state = .peripheral then { s.orbs i with state := .idle } else s.orbs i }

/-- `seraph_surface_contract_current`. -/
def contractCurrent (s : Surface) : Surface × Vbit :=
  if !s.initialized then (s, .void)
  else if s.expandedOrbIndex < 0 then (s, .false)
  else
    match s.getOrb s.expandedOrbIndex with
    | none => ({ s with expandedOrbIndex := -1 }, .false)
    | some k =>
      let s := (s.setState k .contracting).setState k .idle
      ({ s.restorePeripheral with expandedOrbIndex := -1 }, .true)

/-- The loop of `seraph_surface_expand_orb` over the other orbs. -/
def movePeripheral (s : Surface) (k : Fin maxOrbs) : Surface :=
  { s with orbs := fun i =>
      if i ≠ k ∧ (s.orbs i).live then { s.orbs i with state := .peripheral } else s.orbs i }

/-- `seraph_surface_expand_orb`. -/
def expandOrb (s : Surface) (i : ℤ) : Surface × Vbit :=
  if !s.initialized then (s, .void)
  else
    match s.getOrb i with
    | none => (s, .false)
    | some k =>
      if (s.orbs k).state = .fullscreen then (s, .false)
      else
        let s := if 0 ≤ s.expandedOrbIndex ∧ s.expandedOrbIndex ≠ i then s.contractCurrent.1 else s
        let s := { s.setState k .expanding with expandedOrbIndex := i }
        ((s.setState k .fullscreen).movePeripheral k, .true)

/-! ## Physics -/

/-- What the physics computes for an orb : its place, and whether the cursor, where it is going to be,
is within 1.5 and within 0.5 times the radius. -/
structure Proximity where
  place : OrbPlace
  near : Bool
  inside : Bool

/-- The state transitions of one orb. -/
def approach (p : Proximity) (o : Orb) : Orb :=
  if p.near then
    let o := if o.state = .idle then { o with state := .hover, focused := .true } else o
    if p.inside then { o with state := .swelling } else o
  else if o.state = .hover ∨ o.state = .swelling then { o with state := .idle, focused := .false }
  else o

/-- `seraph_surface_physics_step`. -/
def physicsStep (s : Surface) (cursorActive : Bool) (physics : Fin maxOrbs → Proximity) : Surface :=
  if !s.initialized then s
  else if !s.frame.physicsEnabled then s
  else { s with orbs := fun i =>
    if !(s.orbs i).live then s.orbs i
    else
      let o := { s.orbs i with place := (physics i).place }
      if cursorActive then approach (physics i) o else o }

/-! ## Persistence -/

/-- How a transaction of the Atlas goes : `seraph_atlas_begin` fails, `seraph_atlas_commit` succeeds, or
it fails, and `seraph_atlas_abort` leaves what has been written. -/
inductive AtlasTx where
  | unavailable
  | committed
  | conflict
deriving DecidableEq, Repr

/-- The result of a commit. -/
def AtlasTx.result : AtlasTx → Vbit
  | .committed => .true
  | _ => .void

/-- Append an orb to the persistent ones. -/
def appendPersistent (p : PersistentState) (o : Orb) : PersistentState :=
  { p with
    orbs := Function.update p.orbs p.orbCount (syncOrbToPersistent o)
    orbCount := p.orbCount + 1 }

/-- `seraph_surface_persist`. -/
def persist (s : Surface) (p : PersistentState) (tx : AtlasTx) : PersistentState × Vbit :=
  if !s.initialized then (p, .void)
  else if !s.connected then (p, .void)
  else if tx = .unavailable then (p, .void)
  else
    ((List.finRange maxOrbs).foldl
      (fun p i => if (s.orbs i).live then appendPersistent p (s.orbs i) else p)
      { p with frame := s.frame, orbCount := 0 }, tx.result)

/-- `seraph_surface_persist_orb`. -/
def persistOrb (s : Surface) (p : PersistentState) (tx : AtlasTx) (i : ℤ) :
    PersistentState × Vbit :=
  if !s.initialized then (p, .void)
  else if !s.connected then (p, .void)
  else
    match s.getOrb i with
    | none => (p, .false)
    | some k =>
      if tx = .unavailable then (p, .void)
      else
        match (List.range p.orbCount).find? fun j => (p.orbs j).orbId == (s.orbs k).orbId with
        | some j =>
          ({ p with orbs := Function.update p.orbs j (syncOrbToPersistent (s.orbs k)) }, tx.result)
        | none =>
          if p.orbCount ≥ maxOrbs then (p, .false)
          else (appendPersistent p (s.orbs k), tx.result)

/-- One round of the loop of `seraph_surface_init_from_atlas`. -/
def restoreOrb (s : Surface) (p : PersistentOrb) : Surface :=
  if p.orbId = voidU64 then s
  else
    match s.firstFree with
    | none => s
    | some slot =>
      { s.setOrb slot (syncOrbFromPersistent p (s.orbs slot)) with orbCount := u32 (s.orbCount + 1) }

/-- `seraph_surface_init_from_atlas`, where there is a persistent state. -/
def initFromAtlas (p : PersistentState) : Surface :=
  (List.range (min p.orbCount maxOrbs)).foldl (fun s i => s.restoreOrb (p.orbs i))
    { init p.frame with connected := true }

/-- What is kept of the live orb with an id. -/
def liveOrb (s : Surface) (id : ℕ) : Option PersistentOrb :=
  ((List.finRange maxOrbs).find? fun i => (s.orbs i).live && (s.orbs i).orbId == id).map
    fun i => syncOrbToPersistent (s.orbs i)

end Surface

/-! ## Runs -/

/-- The surface, its copy in the Atlas and `orb_id_counter`; then, of every id, the orb that was last
persisted with it. -/
structure SurfaceSystem where
  surface : Surface
  persistent : PersistentState
  orbIdCounter : ℕ
  persisted : ℕ → Option PersistentOrb

/-- The operations, and a restart that ends with `seraph_surface_init_from_atlas`. -/
inductive SurfaceAction where
  | createOrb (cap : Capability) (place : OrbPlace)
  | removeOrb (i : ℤ)
  | expandOrb (i : ℤ)
  | contractCurrent
  | physicsStep (cursorActive : Bool) (physics : Fin maxOrbs → Surface.Proximity)
  | persist (tx : Surface.AtlasTx)
  | persistOrb (tx : Surface.AtlasTx) (i : ℤ)
  | restart

namespace SurfaceSystem

/-- A new surface that has been connected to an Atlas without a surface. -/
def start (frame : SurfaceFrame) : SurfaceSystem where
  surface := { Surface.init frame with connected := true }
  persistent := ⟨frame, 0, fun _ => syncOrbToPersistent Orb.void⟩
  orbIdCounter := 0
  persisted := fun _ => none

/-- One operation. -/
def step (s : SurfaceSystem) : SurfaceAction → SurfaceSystem × Vbit
  | .createOrb cap place =>
    let (surface, counter, i) := s.surface.createOrb s.orbIdCounter cap place
    ({ s with surface := surface, orbIdCounter := counter }, if 0 ≤ i then .true else .void)
  | .removeOrb i =>
    let (surface, result) := s.surface.removeOrb i
    ({ s with surface := surface }, result)
  | .expandOrb i =>
    let (surface, result) := s.surface.expandOrb i
    ({ s with surface := surface }, result)
  | .contractCurrent =>
    let (surface, result) := s.surface.contractCurrent
    ({ s with surface := surface }, result)
  | .physicsStep cursorActive physics =>
    ({ s with surface := s.surface.physicsStep cursorActive physics }, .true)
  | .persist tx =>
    let (persistent, result) := s.surface.persist s.persistent tx
    ({ s with
        persistent := persistent
        persisted := if result = .true then s.surface.liveOrb else s.persisted }, result)
  | .persistOrb tx i =>
    let (persistent, result) := s.surface.persistOrb s.persistent tx i
    ({ s with
        persistent := persistent
        persisted := match s.surface.getOrb i with
          | some k =>
            if result = .true then
              Function.update s.persisted (s.surface.orbs k).orbId
                (some (syncOrbToPersistent (s.surface.orbs k)))
            else s.persisted
          | none => s.persisted }, result)
  | .restart =>
    ({ s with surface := Surface.initFromAtlas s.persistent, orbIdCounter := 0 }, .true)

/-- What is promised of the orbs. `restores` : a restart now would give just the orbs that have been
persisted. -/
structure Correct (s : SurfaceSystem) : Prop where
  count : s.surface.orbCount = Tally.tally (fun i => (s.surface.orbs i).live) true
  ids : ∀ i j, i ≠ j → (s.surface.orbs i).live = true → (s.surface.orbs j).live = true →
    (s.surface.orbs i).orbId ≠ (s.surface.orbs j).orbId
  expanded : ∀ k : Fin maxOrbs, s.surface.expandedOrbIndex = k.val ↔
    (s.surface.orbs k).state = .fullscreen
  range : 0 ≤ s.surface.expandedOrbIndex → s.surface.expandedOrbIndex < maxOrbs
  single : ∀ i j, (s.surface.orbs i).state = .fullscreen →
    (s.surface.orbs j).state = .fullscreen → i = j
  peripheral : ∀ i, (s.surface.orbs i).state = .peripheral → 0 ≤ s.surface.expandedOrbIndex
  restores : (Surface.initFromAtlas s.persistent).liveOrb = s.persisted

/-- Where the code keeps its promise. -/
def Allowed (s : SurfaceSystem) : SurfaceAction → Prop
  | .createOrb _ _ => s.surface.orbCount < maxOrbs → ∀ i, (s.surface.orbs i).live = true →
      (s.surface.orbs i).orbId ≠ generateOrbId s.orbIdCounter
  | .removeOrb i => s.surface.expandedOrbIndex = i →
      ∀ k, (s.surface.orbs k).state ≠ .peripheral
  | .physicsStep cursorActive physics => s.surface.frame.physicsEnabled = true →
      cursorActive = true → ∀ i, (s.surface.orbs i).state = .fullscreen →
        ¬((physics i).near = true ∧ (physics i).inside = true)
  | .persist tx => tx ≠ .conflict
  | .persistOrb tx _ => tx ≠ .conflict
  | .restart => ∀ i < s.persistent.orbCount, (s.persistent.orbs i).state ≠ .fullscreen ∧
      (s.persistent.orbs i).state ≠ .peripheral
  | _ => True

instance (s : SurfaceSystem) : ∀ a : SurfaceAction, Decidable (s.Allowed a)
  | .createOrb _ _ => inferInstanceAs (Decidable (_ → ∀ _i : Fin maxOrbs, _))
  | .removeOrb _ => inferInstanceAs (Decidable (_ → ∀ _k : Fin maxOrbs, _))
  | .physicsStep _ _ => inferInstanceAs (Decidable (_ → _ → ∀ _i : Fin maxOrbs, _))
  | .persist _ => inferInstanceAs (Decidable (_ ≠ _))
  | .persistOrb _ _ => inferInstanceAs (Decidable (_ ≠ _))
  | .restart => inferInstanceAs (Decidable (∀ i < _, _))
  | .expandOrb _ => inferInstanceAs (Decidable True)
  | .contractCurrent => inferInstanceAs (Decidable True)

end SurfaceSystem

end Seraph
