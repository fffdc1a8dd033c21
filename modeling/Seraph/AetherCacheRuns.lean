import Seraph.AetherCacheSteps
import Seraph.Runs

/-!
# The page cache over whole runs

What the calls of Aether do to the page cache (`CacheCall.onCache`), and what they do to the list
of its pages, the page used last in front (`CacheCall.onPages`). Every call keeps the cache and the
list together and returns the same (`Represents.call`), so that a run from an empty cache of any
capacity gives the pages and the answers that the list gives (`cache_run_refines`).
-/

namespace Seraph

open ByteMem

/-! ## Calls -/

/-- What the calls of Aether do to the page cache. -/
inductive CacheCall where
  /-- The lookup of `seraph_aether_read`, and its touch of the entry. -/
  | hit (addr : ℕ)
  /-- `seraph_aether_cache_insert`. -/
  | insert (addr : ℕ) (page : Memory) (ownerNode generation : ℕ) (clock : Bool)
  /-- The update of a cached page by `seraph_aether_write`. -/
  | store (addr : ℕ) (src : ℕ → UInt8) (size generation : ℕ)
  /-- The rounds of `seraph_aether_broadcast_invalidation`. -/
  | broadcast (offset ownerNode generation : ℕ)
  /-- `seraph_aether_cache_flush`, where some pages are taken by their owners. -/
  | flush (taken : PageInfo → Bool)
  /-- `seraph_aether_cache_invalidate`. -/
  | invalidate (addr : ℕ)
  /-- `seraph_aether_cache_clear`. -/
  | clear

/-- A page that is written to. -/
def PageInfo.store (p : PageInfo) (addr : ℕ) (src : ℕ → UInt8) (size generation : ℕ) : PageInfo :=
  { p with
    localPage := putBytes p.localPage (aetherPageOffset addr) src size
    dirty := true
    generation := generation }

/-- A page that a broadcast may mean. -/
def PageInfo.refresh (p : PageInfo) (offset ownerNode generation : ℕ) : PageInfo :=
  if aetherGetOffset p.aetherAddr = offset ∧ p.ownerNode = ownerNode then
    { p with generation := generation }
  else p

/-- A page that has been written back. -/
def PageInfo.clean (p : PageInfo) (taken : PageInfo → Bool) : PageInfo :=
  if p.dirty = true ∧ taken p = true then { p with dirty := false } else p

namespace CacheCall

/-- A call on the cache, and the page that it returns. -/
def onCache (c : AetherCache) : CacheCall → AetherCache × Option PageInfo
  | hit addr =>
    match c.lookup addr with
    | some i => (c.lruTouch i, some (c.entries i).info)
    | none => (c, none)
  | insert addr page ownerNode generation clock =>
    let r := c.insert addr page ownerNode generation clock
    (r.1, r.2.map fun i => (r.1.entries i).info)
  | store addr src size generation =>
    match c.lookup addr with
    | some i =>
      (c.modify i fun e =>
        { e with
          localPage := putBytes e.localPage (aetherPageOffset addr) src size
          dirty := true
          generation := generation }, none)
    | none => (c, none)
  | broadcast offset ownerNode generation =>
    ({ c with
      entries := fun i =>
        let entry := c.entries i
        if i < c.capacity ∧ entry.valid = true ∧ aetherGetOffset entry.aetherAddr = offset ∧
            entry.ownerNode = ownerNode then
          { entry with generation := generation }
        else entry }, none)
  | flush taken =>
    ({ c with
      entries := fun i =>
        let entry := c.entries i
        if i < c.capacity ∧ entry.valid = true ∧ entry.dirty = true ∧ taken entry.info = true then
          { entry with dirty := false }
        else entry }, none)
  | invalidate addr => (c.invalidate addr, none)
  | clear => (c.clear, none)

/-- A call on the pages in the order of their last use. -/
def onPages (bound : ℕ) (l : List PageInfo) : CacheCall → List PageInfo × Option PageInfo
  | hit addr =>
    (Recency.use PageInfo.aetherAddr (aetherPageAlign addr) l,
      Recency.find PageInfo.aetherAddr (aetherPageAlign addr) l)
  | insert addr page ownerNode generation clock =>
    insertPage bound ⟨aetherPageAlign addr, page, ownerNode, generation, false⟩ clock l
  | store addr src size generation =>
    (l.map fun p =>
      if p.aetherAddr = aetherPageAlign addr then p.store addr src size generation else p, none)
  | broadcast offset ownerNode generation =>
    (l.map fun p => p.refresh offset ownerNode generation, none)
  | flush taken => (l.map fun p => p.clean taken, none)
  | invalidate addr => (Recency.drop PageInfo.aetherAddr (aetherPageAlign addr) l, none)
  | clear => ([], none)

end CacheCall

/-- The cache has this capacity, and its valid entries are these pages, in this order. -/
def Represents (capacity : ℕ) (c : AetherCache) (l : List PageInfo) : Prop :=
  ∃ order, CacheOrder c order ∧ c.capacity = capacity ∧ c.pages order = l

/-- A call does to the cache what it does to the pages, and returns the same. -/
def CacheCall.Agrees (capacity : ℕ) (c : AetherCache) (l : List PageInfo) (call : CacheCall) :
    Prop :=
  Represents capacity (call.onCache c).1 (call.onPages capacity l).1 ∧
    (call.onCache c).2 = (call.onPages capacity l).2

namespace Represents

open AetherCache

variable {c : AetherCache} {l : List PageInfo} {capacity : ℕ}

theorem init (h : capacity < 2 ^ 64) : Represents capacity (.init capacity) [] :=
  ⟨[], .init h, rfl, rfl⟩

theorem hit (h : Represents capacity c l) (addr : ℕ) :
    (CacheCall.hit addr).Agrees capacity c l := by
  obtain ⟨order, horder, hcapacity, rfl⟩ := h
  have hfind := horder.find_pages addr
  rw [CacheCall.Agrees, CacheCall.onCache, CacheCall.onPages]
  cases hlookup : c.lookup addr with
  | none =>
    rw [hlookup, Option.map_none] at hfind
    rw [hfind]
    exact ⟨⟨order, horder, hcapacity, (Recency.use_of_none hfind).symm⟩, rfl⟩
  | some i =>
    rw [hlookup, Option.map_some] at hfind
    obtain ⟨hi, heq⟩ := horder.lookup_some hlookup
    rw [hfind, ← heq]
    exact ⟨⟨_, horder.touch hi, (SamePages.lruTouch c i).capacity.trans hcapacity,
      horder.pages_touch hi⟩, rfl⟩

theorem insert (h : Represents capacity c l) (addr : ℕ) (page : Memory)
    (ownerNode generation : ℕ) (clock : Bool) :
    (CacheCall.insert addr page ownerNode generation clock).Agrees capacity c l := by
  obtain ⟨order, horder, rfl, rfl⟩ := h
  obtain ⟨c', slot, order', heq, horder', hcapacity, hpages⟩ :=
    horder.insert addr page ownerNode generation clock
  rw [CacheCall.Agrees, CacheCall.onCache, CacheCall.onPages, heq, ← hpages]
  exact ⟨⟨order', horder', hcapacity, rfl⟩, rfl⟩

theorem store (h : Represents capacity c l) (addr : ℕ) (src : ℕ → UInt8) (size generation : ℕ) :
    (CacheCall.store addr src size generation).Agrees capacity c l := by
  obtain ⟨order, horder, hcapacity, rfl⟩ := h
  rw [CacheCall.Agrees, CacheCall.onCache, CacheCall.onPages]
  cases hlookup : c.lookup addr with
  | none =>
    refine ⟨⟨order, horder, hcapacity, pages_map fun i hi => ?_⟩, rfl⟩
    exact (if_neg (horder.lookup_none hlookup hi)).symm
  | some i =>
    obtain ⟨hi, heq⟩ := horder.lookup_some hlookup
    have hmodify := horder.modify i (f := fun e =>
      { e with
        localPage := putBytes e.localPage (aetherPageOffset addr) src size
        dirty := true
        generation := generation }) fun _ => ⟨rfl, rfl, rfl, rfl⟩
    refine ⟨⟨order, hmodify, hcapacity, pages_map fun j hj => ?_⟩, rfl⟩
    by_cases hji : j = i
    · dsimp only
      rw [hji, entries_modify, if_pos rfl]
      exact (if_pos heq).symm
    · have hne : (c.entries j).aetherAddr ≠ aetherPageAlign addr := fun haddr =>
        hji (horder.unique hj hi (haddr.trans heq.symm))
      dsimp only
      rw [entries_modify, if_neg hji]
      exact (if_neg hne).symm

/-- Assignments to all valid entries that a test chooses. -/
theorem assign (h : Represents capacity c l) (chosen : PageInfo → Prop) [DecidablePred chosen]
    {g : CacheEntry → CacheEntry} {f : PageInfo → PageInfo}
    (hg : ∀ e, (g e).lruNext = e.lruNext ∧ (g e).lruPrev = e.lruPrev ∧ (g e).valid = e.valid ∧
      (g e).aetherAddr = e.aetherAddr ∧ (g e).info = f e.info) :
    Represents capacity
      { c with
        entries := fun i => if i < c.capacity ∧ (c.entries i).valid = true ∧
          chosen (c.entries i).info then g (c.entries i) else c.entries i }
      (l.map fun p => if chosen p then f p else p) := by
  obtain ⟨order, horder, hcapacity, rfl⟩ := h
  refine ⟨order, horder.revise ⟨funext fun x => ?_, funext fun x => ?_⟩ rfl rfl (fun i => ?_)
    (fun i _ => ?_), hcapacity, pages_map fun i hi => ?_⟩
  · rcases x with _ | i
    · rfl
    · simp only [nextOf]
      split
      · exact (hg _).1
      · rfl
  · rcases x with _ | i
    · rfl
    · simp only [prevOf]
      split
      · exact (hg _).2.1
      · rfl
  · dsimp only
    split
    · exact (hg _).2.2.1
    · rfl
  · dsimp only
    split
    · exact (hg _).2.2.2.1
    · rfl
  · obtain ⟨hlt, hvalid⟩ := (horder.mem_iff i).1 hi
    by_cases hchosen : chosen (c.entries i).info
    · rw [if_pos hchosen]
      dsimp only
      rw [if_pos ⟨hlt, hvalid, hchosen⟩]
      exact (hg _).2.2.2.2
    · rw [if_neg hchosen]
      dsimp only
      rw [if_neg fun hall => hchosen hall.2.2]

/-- What every call does to the cache and to the pages. -/
theorem call (h : Represents capacity c l) (call : CacheCall) : call.Agrees capacity c l := by
  cases call with
  | hit addr => exact h.hit addr
  | insert addr page ownerNode generation clock =>
    exact h.insert addr page ownerNode generation clock
  | store addr src size generation => exact h.store addr src size generation
  | broadcast offset ownerNode generation =>
    refine ⟨?_, rfl⟩
    exact h.assign (fun p => aetherGetOffset p.aetherAddr = offset ∧ p.ownerNode = ownerNode)
      (g := fun e => { e with generation := generation })
      (f := fun p => { p with generation := generation }) fun _ => ⟨rfl, rfl, rfl, rfl, rfl⟩
  | flush taken =>
    refine ⟨?_, rfl⟩
    exact h.assign (fun p => p.dirty = true ∧ taken p = true)
      (g := fun e => { e with dirty := false }) (f := fun p => { p with dirty := false })
      fun _ => ⟨rfl, rfl, rfl, rfl, rfl⟩
  | invalidate addr =>
    obtain ⟨order, horder, hcapacity, rfl⟩ := h
    obtain ⟨order', horder', hcapacity', hpages⟩ := horder.invalidate addr
    exact ⟨⟨order', horder', hcapacity'.trans hcapacity, hpages⟩, rfl⟩
  | clear =>
    obtain ⟨order, horder, hcapacity, rfl⟩ := h
    exact ⟨⟨[], horder.clear, hcapacity, rfl⟩, rfl⟩

end Represents

/-- In every run, the valid entries of a cache are the pages of a bounded list in the order of their
last use : they have distinct addresses, their links go through them once in both directions, they
are counted, and every call returns the page that the list has. -/
theorem cache_run_refines {capacity : ℕ} (h : capacity < 2 ^ 64) (calls : List CacheCall) :
    Represents capacity (Runs.run CacheCall.onCache (.init capacity) calls)
        (Runs.run (CacheCall.onPages capacity) [] calls) ∧
      Runs.results CacheCall.onCache (.init capacity) calls =
        Runs.results (CacheCall.onPages capacity) [] calls := by
  have hsteps : Runs.Steps CacheCall.onCache (CacheCall.onPages capacity) (fun _ _ => True)
      (Represents capacity) := fun c l call hrep _ => hrep.call call
  exact ⟨hsteps.run (.init h) (Runs.guarded_true _ _),
    hsteps.results (.init h) (Runs.guarded_true _ _)⟩

/-- Two slots : the page that was not used goes for the third one. -/
theorem cache_run_refines_two :
    (Runs.results CacheCall.onCache (.init 2)
      [.insert 0 (fun _ => 1) 5 1 true, .insert 4096 (fun _ => 2) 5 1 true, .hit 7,
        .insert 8192 (fun _ => 3) 5 1 true, .hit 4100, .hit 4]).map
          (Option.map PageInfo.aetherAddr) =
      [some 0, some 4096, some 0, some 8192, none, some 0] := by
  rw [(cache_run_refines (by norm_num : 2 < 2 ^ 64) _).2]
  rfl

end Seraph
