import Seraph.CapabilityTable

/-!
# The life of a compact capability

The handle that `alloc` returns has one reference; `addref` adds one and `release` takes one
away, until none is left (`balance`). While it has references the handle should look up its
capability, and afterwards nothing (`Resolves`). The table keeps neither a generation in the
handle nor a wide reference count, and the free list hands out the slot that was freed last :
the handle resolves as it should exactly as long as no `alloc` takes its slot again and no
`addref` wraps its count (`resolves_iff`).
-/

namespace Seraph

open Runs

namespace Cdt

variable {t : Cdt} {compact : CapCompact} {cap : Capability}

/-! ## The free list under any operations -/

/-- The free list holds entries without references. An entry whose count has wrapped to zero
is missing from it. -/
def Sound (t : Cdt) : Prop :=
  ∃ slots, t.Listed slots

theorem sound_init {capacity : ℕ} (h : init capacity = some t) : t.Sound := by
  obtain ⟨slots, hslots, -⟩ := (valid_init h).slots
  exact ⟨slots, hslots⟩

theorem sound_alloc (h : t.Sound) (cap : Capability) : (t.alloc cap).1.Sound := by
  rcases alloc_cases t cap with ⟨-, heq⟩ | ⟨-, hhead, heq⟩
  · rw [heq]
    exact h
  · rw [heq]
    obtain ⟨slots, hslots⟩ := h
    refine (hslots.take ⟨cap, 1, 0⟩ hhead ?_ ?_ ?_).imp fun _ h => h.2 <;> rfl

theorem sound_addref (h : t.Sound) (compact : CapCompact) : (t.addref compact).1.Sound := by
  rcases addref_cases t compact with ⟨-, heq, -⟩ | ⟨huse, heq⟩
  · rw [heq]
    exact h
  · rw [heq]
    obtain ⟨slots, hslots⟩ := h
    exact ⟨slots, hslots.put_refcount huse _⟩

theorem sound_release (h : t.Sound) (compact : CapCompact) : (t.release compact).1.Sound := by
  rcases release_cases t compact with ⟨-, heq, -⟩ | ⟨huse, -, heq⟩ | ⟨huse, -, heq⟩
  · rw [heq]
    exact h
  · rw [heq]
    obtain ⟨slots, hslots⟩ := h
    refine ⟨_, hslots.give huse ?_ ?_ ?_⟩ <;> rfl
  · rw [heq]
    obtain ⟨slots, hslots⟩ := h
    exact ⟨slots, hslots.put_refcount huse _⟩

theorem sound_step (h : t.Sound) (op : CdtOp) : (t.step op).1.Sound := by
  cases op with
  | alloc cap => exact sound_alloc h cap
  | lookup compact => exact h
  | addref compact => exact sound_addref h compact
  | release compact => exact sound_release h compact

/-! ## References of a handle -/

/-- The references that a slot has left after an operation. None come back to a slot that has
none. -/
def balance (index n : ℕ) : CdtOp → ℕ
  | .addref compact => if compact.cdtIndex = index ∧ 0 < n then n + 1 else n
  | .release compact => if compact.cdtIndex = index then n - 1 else n
  | _ => n

/-- A handle with `n` references resolves as it should : to its capability while it has any,
and to nothing afterwards. -/
def Resolves (t : Cdt) (handle : CapCompact) (cap : Capability) (n : ℕ) : Prop :=
  (0 < n → t.lookup handle = cap) ∧ (n = 0 → (t.lookup handle).isVoid = true)

/-- The operation neither takes the slot for another capability nor wraps its count. -/
def Spares (index : ℕ) (t : Cdt) : CdtOp → Prop
  | .alloc cap => cap.isVoid = true ∨ t.freeHead ≠ index
  | .addref compact => compact.cdtIndex = index → (t.entries index).refcount + 1 < 2 ^ 32
  | _ => True

/-- The entry of a slot has the references that the handle counts. -/
structure Tracks (t : Cdt) (index : ℕ) (cap : Capability) (n : ℕ) : Prop where
  sound : t.Sound
  notVoid : index ≠ voidU32
  inside : index < t.capacity
  refcount : (t.entries index).refcount = n
  narrow : n < 2 ^ 32
  cap : 0 < n → (t.entries index).cap = cap

/-- The handle that `alloc` returns for a capability in a slot. -/
def handle (index : ℕ) (cap : Capability) : CapCompact :=
  ⟨index, 0, cap.permissions⟩

variable {index n : ℕ}

/-- A handle of a slot in use restricts the permissions of the capability in it. -/
theorem lookup_handle (hvoid : index ≠ voidU32) (hindex : index < t.capacity)
    (href : (t.entries index).refcount ≠ 0) (cap : Capability) :
    t.lookup (handle index cap) = { (t.entries index).cap with
      permissions := (t.entries index).cap.permissions &&& cap.permissions } := by
  simp [lookup, handle, CapCompact.isVoid, hvoid, href, Nat.not_le.2 hindex]

theorem Tracks.resolves (h : t.Tracks index cap n) : t.Resolves (handle index cap) cap n := by
  constructor
  · intro hn
    have href : (t.entries index).refcount ≠ 0 := by
      rw [h.refcount]
      omega
    rw [lookup_handle h.notVoid h.inside href, h.cap hn, Nat.and_self]
  · intro hn
    have href : (t.entries index).refcount = 0 := h.refcount.trans hn
    simp [lookup, handle, href]

/-- Another entry is written. -/
theorem Tracks.frame (h : t.Tracks index cap n) {t' : Cdt} (hsound : t'.Sound)
    (hcapacity : t'.capacity = t.capacity) (hentry : t'.entries index = t.entries index) :
    t'.Tracks index cap n :=
  ⟨hsound, h.notVoid, hcapacity ▸ h.inside, hentry ▸ h.refcount, h.narrow, hentry ▸ h.cap⟩

/-- The count of the entry is written. -/
theorem Tracks.recount (h : t.Tracks index cap n) {t' : Cdt} {m : ℕ} (hsound : t'.Sound)
    (hcapacity : t'.capacity = t.capacity) (hm : m < 2 ^ 32)
    (hrefcount : (t'.entries index).refcount = m)
    (hcap : 0 < m → 0 < n ∧ (t'.entries index).cap = (t.entries index).cap) :
    t'.Tracks index cap m := by
  refine ⟨hsound, h.notVoid, hcapacity ▸ h.inside, hrefcount, hm, fun hpos => ?_⟩
  obtain ⟨hn, heq⟩ := hcap hpos
  rw [heq, h.cap hn]

theorem tracks_alloc (h : t.Tracks index cap n) {cap' : Capability}
    (hspares : cap'.isVoid = true ∨ t.freeHead ≠ index) :
    (t.alloc cap').1.Tracks index cap n := by
  have hsound := sound_alloc h.sound cap'
  rcases alloc_cases t cap' with ⟨-, heq⟩ | ⟨hvoid, -, heq⟩
  · rwa [heq]
  · rw [heq] at hsound ⊢
    have hne : t.freeHead ≠ index := hspares.resolve_left (by simp [hvoid])
    exact h.frame hsound rfl (put_of_ne t hne.symm _)

theorem tracks_addref (h : t.Tracks index cap n)
    (hspares : compact.cdtIndex = index → (t.entries index).refcount + 1 < 2 ^ 32) :
    (t.addref compact).1.Tracks index cap (balance index n (.addref compact)) := by
  have hsound := sound_addref h.sound compact
  have hrefcount := h.refcount
  rcases addref_cases t compact with ⟨hfree, heq, -⟩ | ⟨huse, heq⟩
  · rw [heq, balance, if_neg]
    · exact h
    · rintro ⟨rfl, hn⟩
      exact hfree ⟨by simpa [CapCompact.isVoid] using h.notVoid, h.inside, by omega⟩
  · rw [heq] at hsound ⊢
    by_cases hindex : compact.cdtIndex = index
    · have hused := huse.refcount
      rw [hindex] at hused hsound ⊢
      have hn : 0 < n := by omega
      have hnarrow := hspares hindex
      rw [balance, if_pos ⟨hindex, hn⟩]
      refine h.recount hsound rfl (by omega) ?_ fun _ => ⟨hn, ?_⟩
      · rw [put_self, ← hrefcount]
        exact u32_of_lt hnarrow
      · rw [put_self]
    · rw [balance, if_neg fun hand => hindex hand.1]
      exact h.frame hsound rfl (put_of_ne t (Ne.symm hindex) _)

theorem tracks_release (h : t.Tracks index cap n) (compact : CapCompact) :
    (t.release compact).1.Tracks index cap (balance index n (.release compact)) := by
  have hsound := sound_release h.sound compact
  have hrefcount := h.refcount
  have hnarrow := h.narrow
  by_cases hindex : compact.cdtIndex = index
  · rw [balance, if_pos hindex]
    rcases release_cases t compact with ⟨hfree, heq, -⟩ | ⟨huse, hone, heq⟩ | ⟨huse, hmore, heq⟩
    · have hn : n = 0 := by
        by_contra hn
        rw [← hindex] at hrefcount h
        exact hfree ⟨by simpa [CapCompact.isVoid] using h.notVoid, h.inside, by omega⟩
      subst hn
      rwa [heq]
    · rw [heq] at hsound ⊢
      rw [hindex] at hone hsound ⊢
      refine h.recount hsound rfl (by omega) ?_ fun hpos => absurd hpos (by omega)
      simp only [put_self]
      omega
    · rw [heq] at hsound ⊢
      rw [hindex] at hmore hsound ⊢
      refine h.recount hsound rfl (by omega) ?_ fun _ => ⟨by omega, ?_⟩
      · simp only [put_self, hrefcount]
      · rw [put_self]
  · rw [balance, if_neg hindex]
    have hne : index ≠ compact.cdtIndex := Ne.symm hindex
    rcases release_cases t compact with ⟨-, heq, -⟩ | ⟨-, -, heq⟩ | ⟨-, -, heq⟩
    · rwa [heq]
    · rw [heq] at hsound ⊢
      refine h.frame hsound rfl ?_
      dsimp only
      rw [put_of_ne t hne]
    · rw [heq] at hsound ⊢
      exact h.frame hsound rfl (put_of_ne t hne _)

/-- An operation that spares the slot does to its entry what the handle counts. -/
theorem tracks_step (h : t.Tracks index cap n) {op : CdtOp} (hspares : Spares index t op) :
    (t.step op).1.Tracks index cap (balance index n op) := by
  cases op with
  | alloc cap' => exact tracks_alloc h hspares
  | lookup compact => exact h
  | addref compact => exact tracks_addref h hspares
  | release compact => exact tracks_release h compact

/-- An operation that does not spare the slot makes the handle resolve to another capability,
or to none while it has references. -/
theorem not_resolves_of_not_spares (h : t.Tracks index cap n) (hcap : cap.isVoid = false)
    {op : CdtOp} (hspares : ¬ Spares index t op) :
    ¬ (t.step op).1.Resolves (handle index cap) cap (balance index n op) := by
  cases op with
  | alloc cap' =>
    obtain ⟨hcap', hhead⟩ := not_or.1 hspares
    have hindex : t.freeHead = index := not_not.1 hhead
    obtain ⟨slots, hslots⟩ := h.sound
    have hn : n = 0 := by
      rw [← h.refcount, ← hindex]
      exact (hslots.free_freeHead (hindex ▸ h.notVoid)).2
    rcases alloc_cases t cap' with ⟨hfail, -⟩ | ⟨-, -, heq⟩
    · exact (hfail.elim hcap' fun hhead => h.notVoid (hindex.symm.trans hhead)).elim
    · have hcapacity : (t.alloc cap').1.capacity = t.capacity := by rw [heq]
      have hentry : (t.alloc cap').1.entries index = ⟨cap', 1, 0⟩ := by
        rw [heq, ← hindex]
        exact put_self _ _ _
      rintro ⟨-, hgone⟩
      have hvoid := hgone hn
      rw [step, lookup_handle h.notVoid (hcapacity ▸ h.inside) (by simp [hentry]), hentry] at hvoid
      exact hcap' hvoid
  | lookup compact => exact absurd trivial hspares
  | addref compact =>
    obtain ⟨rfl, hwrap⟩ := Classical.not_imp.1 hspares
    have hrefcount := h.refcount
    have hnarrow := h.narrow
    have hn : 0 < n := by omega
    rintro ⟨hkept, -⟩
    rw [balance, if_pos ⟨rfl, hn⟩] at hkept
    have hlookup := hkept (Nat.succ_pos n)
    rcases addref_cases t compact with ⟨hfree, -, -⟩ | ⟨-, heq⟩
    · exact hfree ⟨by simpa [CapCompact.isVoid] using h.notVoid, h.inside, by omega⟩
    · have hzero : u32 ((t.entries compact.cdtIndex).refcount + 1) = 0 := by
        have hall : (t.entries compact.cdtIndex).refcount + 1 = 2 ^ 32 := by omega
        rw [hall, u32, Nat.mod_self]
      rw [step, heq] at hlookup
      rw [← hlookup] at hcap
      simp [lookup, handle, hzero] at hcap
  | release compact => exact absurd trivial hspares

/-- The handle that a successful `alloc` returns counts one reference. -/
theorem tracks_new (h : t.Sound) (halloc : (t.alloc cap).2.isVoid = false) :
    cap.isVoid = false ∧ (t.alloc cap).2 = handle t.freeHead cap ∧
      (t.alloc cap).1.Tracks t.freeHead cap 1 := by
  have hsound := sound_alloc h cap
  rcases alloc_cases t cap with ⟨-, heq⟩ | ⟨hcap, hhead, heq⟩
  · rw [heq] at halloc
    cases halloc
  · obtain ⟨slots, hslots⟩ := h
    rw [heq] at hsound ⊢
    refine ⟨hcap, rfl, hsound, hhead, (hslots.free_freeHead hhead).1, ?_, by norm_num,
      fun _ => ?_⟩
    · rw [put_self]
    · rw [put_self]

/-- **Temporal safety.** After any run, the handle of a successful `alloc` resolves to its
capability while it has references and to nothing afterwards, throughout a further run,
exactly where no operation of it takes the slot again or wraps its count. -/
theorem resolves_iff {capacity : ℕ} (hinit : init capacity = some t) (before : List CdtOp)
    (halloc : ((run step t before).alloc cap).2.isVoid = false) (ops : List CdtOp) :
    (∀ pre, pre <+: ops →
        (run step ((run step t before).alloc cap).1 pre).Resolves
          ((run step t before).alloc cap).2 cap
          (pre.foldl (balance ((run step t before).alloc cap).2.cdtIndex) 1)) ↔
      Guarded step (Spares ((run step t before).alloc cap).2.cdtIndex)
        ((run step t before).alloc cap).1 ops := by
  have hsound : (run step t before).Sound :=
    run_invariant (I := Sound) (fun _ op h => sound_step h op) (sound_init hinit) before
  obtain ⟨hcap, hhandle, htracks⟩ := tracks_new hsound halloc
  rw [hhandle]
  generalize (run step t before).freeHead = index at htracks
  have hstep : ∀ (t' : Cdt) n op, t'.Tracks index cap n → Spares index t' op →
      (step t' op).1.Tracks index cap (balance index n op) :=
    fun _ _ _ h hspares => tracks_step h hspares
  have hbreak : ∀ (t' : Cdt) n op, t'.Tracks index cap n → ¬ Spares index t' op →
      ¬ (step t' op).1.Resolves (handle index cap) cap (balance index n op) :=
    fun _ _ _ h hspares => not_resolves_of_not_spares h hcap hspares
  exact guarded_iff_prefixes (P := fun t' n => Resolves t' (handle index cap) cap n)
    (fun _ _ h => h.resolves) hstep hbreak htracks

/-- A handle with a second reference, one of which is released while the table serves another
capability. -/
theorem resolves_iff_pair :
    ((run step (initEntries 2) []).alloc (.create 4096 64 1 0xFF)).2.isVoid = false ∧
      (run step ((initEntries 2).alloc (.create 4096 64 1 0xFF)).1
        [.addref ⟨0, 0, 0xFF⟩, .alloc (.create 8192 64 1 0xFF), .release ⟨0, 0, 0xFF⟩]).Resolves
        (handle 0 (.create 4096 64 1 0xFF)) (.create 4096 64 1 0xFF) 1 := by
  have hinit : init 2 = some (initEntries 2) := rfl
  have halloc : ((run step (initEntries 2) []).alloc (.create 4096 64 1 0xFF)).2.isVoid =
      false := by decide
  refine ⟨halloc, (resolves_iff hinit [] halloc [.addref ⟨0, 0, 0xFF⟩,
    .alloc (.create 8192 64 1 0xFF), .release ⟨0, 0, 0xFF⟩]).2 ⟨fun _ => ?_, .inr ?_, trivial,
      trivial⟩ _ List.prefix_rfl⟩
  · decide
  · decide

/-- A table of one entry : the handle of a released capability resolves to the next one. -/
theorem not_resolves_after_reuse :
    init 1 = some (initEntries 1) ∧
      ¬ ∀ pre, pre <+: [.release ⟨0, 0, 0xFF⟩, .alloc (.create 8192 64 1 0xFF)] →
        (run step ((initEntries 1).alloc (.create 4096 64 1 0xFF)).1 pre).Resolves
          ((initEntries 1).alloc (.create 4096 64 1 0xFF)).2 (.create 4096 64 1 0xFF)
          (pre.foldl (balance ((initEntries 1).alloc (.create 4096 64 1 0xFF)).2.cdtIndex) 1) := by
  refine ⟨rfl, fun h => ?_⟩
  have hvoid := (h _ List.prefix_rfl).2 (by decide)
  exact absurd hvoid (by decide)

end Cdt

end Seraph
