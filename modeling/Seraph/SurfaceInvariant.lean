import Mathlib.Data.List.FinRange
import Seraph.SurfaceOrbs

/-!
# The invariant of the surface

The index of the expanded orb and the states of the orbs say the same (`SurfaceInv`), and what has been
persisted is a list of orbs with different ids (`StoreInv`). Each operation keeps both where it is
`Allowed`; a restart makes the surface anew from the list, slot by slot (`SlotsFilled`). `surface_run_correct`
is about runs. Ids come twice only after a restart, or when the counter has gone round
(`createOrb_allowed`).
-/

namespace Seraph

open Surface

/-- What holds of the surface itself. -/
structure SurfaceInv (s : Surface) : Prop where
  initialized : s.initialized = true
  connected : s.connected = true
  count : s.orbCount = Tally.tally (fun i => (s.orbs i).live) true
  ids : ∀ i j, i ≠ j → (s.orbs i).live = true → (s.orbs j).live = true →
    (s.orbs i).orbId ≠ (s.orbs j).orbId
  valid : ∀ i, (s.orbs i).live = true → (s.orbs i).orbId ≠ voidU64
  expanded : ∀ k : Fin maxOrbs, s.expandedOrbIndex = k.val ↔ (s.orbs k).state = .fullscreen
  range : 0 ≤ s.expandedOrbIndex → s.expandedOrbIndex < maxOrbs
  peripheral : ∀ i, (s.orbs i).state = .peripheral → 0 ≤ s.expandedOrbIndex

variable {s t : Surface}

theorem live_iff {o : Orb} : o.live = true ↔ o.state ≠ .void :=
  decide_eq_true_iff

theorem slotOf_eq_some {i : ℤ} {k : Fin maxOrbs} : slotOf i = some k ↔ i = k.val := by
  unfold slotOf
  constructor
  · intro h
    split at h
    · obtain rfl := Option.some.inj h
      dsimp only
      omega
    · cases h
  · rintro rfl
    have hk := k.isLt
    rw [dif_pos ⟨by omega, by omega⟩]
    exact congrArg some (Fin.ext (Int.toNat_natCast _))

theorem getOrb_eq_some (h : s.initialized = true) {i : ℤ} {k : Fin maxOrbs} :
    s.getOrb i = some k ↔ i = k.val ∧ (s.orbs k).live = true := by
  rw [getOrb, if_neg (by simp [h]), Option.filter_eq_some_iff, slotOf_eq_some]

/-- The orb that the index names is fullscreen. -/
theorem SurfaceInv.exists_expanded (h : SurfaceInv s) (hexp : 0 ≤ s.expandedOrbIndex) :
    ∃ k : Fin maxOrbs, s.expandedOrbIndex = k.val ∧ (s.orbs k).state = .fullscreen := by
  have hrange := h.range hexp
  have hk : s.expandedOrbIndex = ((⟨s.expandedOrbIndex.toNat, by omega⟩ : Fin maxOrbs).val : ℤ) := by
    dsimp only
    omega
  exact ⟨_, hk, (h.expanded _).1 hk⟩

/-- An operation that changes states of live orbs. -/
theorem SurfaceInv.relabel (h : SurfaceInv s) (hinit : t.initialized = s.initialized)
    (hconn : t.connected = s.connected) (hcount : t.orbCount = s.orbCount)
    (hlive : ∀ i, (t.orbs i).live = (s.orbs i).live)
    (hids : ∀ i, (t.orbs i).orbId = (s.orbs i).orbId)
    (hexpanded : ∀ k : Fin maxOrbs, t.expandedOrbIndex = k.val ↔ (t.orbs k).state = .fullscreen)
    (hrange : 0 ≤ t.expandedOrbIndex → t.expandedOrbIndex < maxOrbs)
    (hperipheral : ∀ i, (t.orbs i).state = .peripheral → 0 ≤ t.expandedOrbIndex) :
    SurfaceInv t where
  initialized := hinit.trans h.initialized
  connected := hconn.trans h.connected
  count := by
    rw [hcount, h.count]
    exact congrArg (Tally.tally · true) (funext fun i => (hlive i).symm)
  ids := fun i j hij hi hj => by
    rw [hids, hids]
    rw [hlive] at hi hj
    exact h.ids i j hij hi hj
  valid := fun i hi => by
    rw [hids]
    rw [hlive] at hi
    exact h.valid i hi
  expanded := hexpanded
  range := hrange
  peripheral := hperipheral

/-! ## Contraction and expansion -/

/-- After a contraction no orb is expanded. -/
theorem SurfaceInv.contractCurrent (h : SurfaceInv s) : SurfaceInv s.contractCurrent.1 ∧
    s.contractCurrent.1.expandedOrbIndex < 0 ∧
      ∀ i, (s.contractCurrent.1.orbs i).live = (s.orbs i).live := by
  by_cases hneg : s.expandedOrbIndex < 0
  · have hsame : s.contractCurrent.1 = s := by
      rw [Surface.contractCurrent, if_neg (by simp [h.initialized]), if_pos hneg]
    rw [hsame]
    exact ⟨h, hneg, fun _ => rfl⟩
  · obtain ⟨k, hk, hfull⟩ := h.exists_expanded (not_lt.1 hneg)
    have hlive : (s.orbs k).live = true := live_iff.2 (by rw [hfull]; decide)
    have hget := (getOrb_eq_some h.initialized).2 ⟨hk, hlive⟩
    have hdo : s.contractCurrent.1 = { ((s.setState k .contracting).setState k
        .idle).restorePeripheral with expandedOrbIndex := -1 } := by
      rw [Surface.contractCurrent, if_neg (by simp [h.initialized]), if_neg hneg, hget]
    have horbs : ∀ i, s.contractCurrent.1.orbs i =
        if i = k ∨ (s.orbs i).state = .peripheral then { s.orbs i with state := .idle }
        else s.orbs i := by
      intro i
      rw [hdo]
      simp only [restorePeripheral, setState, setOrb, Function.update_idem]
      rcases eq_or_ne i k with rfl | hik
      · simp
      · simp [hik]
    have hstate : ∀ i, (s.contractCurrent.1.orbs i).live = (s.orbs i).live := by
      intro i
      rw [horbs]
      split
      · rename_i hcase
        rcases hcase with rfl | hper
        · rw [hlive]
          rfl
        · rw [Bool.eq_iff_iff, live_iff, live_iff, hper]
          exact iff_of_true (by simp) (by simp)
      · rfl
    have hindex : s.contractCurrent.1.expandedOrbIndex = -1 := by rw [hdo]
    refine ⟨h.relabel (by rw [hdo]; rfl) (by rw [hdo]; rfl) (by rw [hdo]; rfl) hstate (fun i => ?_)
      (fun j => ?_) (fun hexp => absurd hexp (by rw [hindex]; decide)) (fun i hper => ?_),
      by rw [hindex]; decide, hstate⟩
    · rw [horbs]
      split <;> rfl
    · rw [hindex, horbs]
      refine iff_of_false (by omega) ?_
      split
      · simp
      · rename_i hcase
        intro hj
        have heq := (h.expanded j).2 hj
        exact hcase (Or.inl (Fin.ext (by omega)))
    · rw [horbs] at hper
      split at hper
      · cases hper
      · rename_i hcase
        exact absurd (Or.inr hper) hcase

theorem SurfaceInv.expandOrb (h : SurfaceInv s) (i : ℤ) : SurfaceInv (s.expandOrb i).1 := by
  cases hget : s.getOrb i with
  | none =>
    rw [Surface.expandOrb, if_neg (by simp [h.initialized]), hget]
    exact h
  | some k =>
    obtain ⟨rfl, hlive⟩ := (getOrb_eq_some h.initialized).1 hget
    by_cases hfull : (s.orbs k).state = .fullscreen
    · rw [Surface.expandOrb, if_neg (by simp [h.initialized]), hget]
      dsimp only
      rw [if_pos hfull]
      exact h
    · -- the surface with nothing expanded
      obtain ⟨r, hr, hrneg, hrlive, hrdo⟩ : ∃ r, SurfaceInv r ∧ r.expandedOrbIndex < 0 ∧
          (r.orbs k).live = true ∧ (s.expandOrb k.val).1 =
            ({ r.setState k .expanding with
              expandedOrbIndex := k.val }.setState k .fullscreen).movePeripheral k := by
        rw [Surface.expandOrb, if_neg (by simp [h.initialized]), hget]
        dsimp only
        rw [if_neg hfull]
        by_cases hexp : 0 ≤ s.expandedOrbIndex ∧ s.expandedOrbIndex ≠ k.val
        · obtain ⟨hinv, hneg, hsame⟩ := h.contractCurrent
          rw [if_pos hexp]
          exact ⟨_, hinv, hneg, (hsame k).trans hlive, rfl⟩
        · rw [if_neg hexp]
          refine ⟨s, h, ?_, hlive, rfl⟩
          have hne := mt (h.expanded k).1 hfull
          by_contra hnonneg
          exact hexp ⟨not_lt.1 hnonneg, hne⟩
      have horbs : ∀ j, (s.expandOrb k.val).1.orbs j =
          if j = k then { r.orbs j with state := .fullscreen }
          else if (r.orbs j).live then { r.orbs j with state := .peripheral } else r.orbs j := by
        intro j
        rw [hrdo]
        simp only [movePeripheral, setState, setOrb, Function.update_idem]
        rcases eq_or_ne j k with rfl | hjk
        · simp
        · simp [hjk]
      have hindex : (s.expandOrb k.val).1.expandedOrbIndex = k.val := by
        rw [hrdo]
        rfl
      refine hr.relabel (by rw [hrdo]; rfl) (by rw [hrdo]; rfl) (by rw [hrdo]; rfl) (fun j => ?_)
        (fun j => ?_) (fun j => ?_) (fun _ => ?_) (fun j _ => ?_)
      · rw [horbs]
        split
        · rename_i hjk
          rw [hjk, hrlive]
          rfl
        · split
          · rename_i hj
            rw [hj]
            rfl
          · rfl
      · rw [horbs]
        split
        · rfl
        · split <;> rfl
      · rw [hindex, horbs]
        rcases eq_or_ne j k with rfl | hjk
        · rw [if_pos rfl]
          exact iff_of_true rfl rfl
        · rw [if_neg hjk]
          refine iff_of_false (fun heq => hjk (Fin.ext (by omega))) ?_
          split
          · simp
          · rename_i hj
            intro hstate
            exact hj (live_iff.2 (by rw [hstate]; decide))
      · rw [hindex]
        have := k.isLt
        omega
      · rw [hindex]
        omega

/-! ## Creation and removal -/

theorem firstFree_eq_some {k : Fin maxOrbs} (h : s.firstFree = some k) : (s.orbs k).live = false := by
  have := List.find?_some h
  simpa using this

/-- There is a free slot unless all orbs are live. -/
theorem firstFree_ne_none (h : SurfaceInv s) (hcount : s.orbCount < maxOrbs) :
    s.firstFree ≠ none := by
  intro hnone
  have hall : ∀ i, (s.orbs i).live = true := fun i => by
    have := List.find?_eq_none.1 hnone i (List.mem_finRange i)
    simpa using this
  have htally : Tally.tally (fun i => (s.orbs i).live) true = Fintype.card (Fin maxOrbs) := by
    rw [Tally.tally, Finset.filter_true_of_mem fun i _ => hall i, Finset.card_univ]
  rw [h.count, htally, Fintype.card_fin] at hcount
  exact absurd hcount (lt_irrefl _)

theorem live_update (i : Fin maxOrbs) (o : Orb) :
    (fun j => (Function.update s.orbs i o j).live) =
      Function.update (fun j => (s.orbs j).live) i o.live :=
  Function.comp_update Orb.live s.orbs i o

theorem orbCount_le (h : s.orbCount = Tally.tally (fun i => (s.orbs i).live) true) :
    s.orbCount ≤ maxOrbs := by
  rw [h]
  exact (Tally.tally_le _ _).trans_eq (Fintype.card_fin _)

/-- A new orb is counted. -/
theorem count_create (h : s.orbCount = Tally.tally (fun i => (s.orbs i).live) true)
    {k : Fin maxOrbs} {o : Orb} (hk : (s.orbs k).live = false) (ho : o.live = true) :
    u32 (s.orbCount + 1) = Tally.tally (fun i => (Function.update s.orbs k o i).live) true := by
  have hle := orbCount_le h
  have hsmall : u32 (s.orbCount + 1) = s.orbCount + 1 :=
    u32_of_lt ((Nat.succ_le_succ hle).trans_lt (by decide))
  rw [live_update, ho, Tally.tally_update_self (by rw [hk]; decide), hsmall, h]

theorem generateOrbId_ne_void (counter : ℕ) : generateOrbId counter ≠ voidU64 := by
  unfold generateOrbId
  split
  · decide
  · assumption

/-- Writing a live orb with a new id to a free slot, where it changes neither what is expanded nor what
is peripheral. -/
theorem SurfaceInv.setFree (h : SurfaceInv s) {k : Fin maxOrbs} {o : Orb}
    (hk : (s.orbs k).live = false) (ho : o.live = true) (hvoid : o.orbId ≠ voidU64)
    (hnew : ∀ i, (s.orbs i).live = true → (s.orbs i).orbId ≠ o.orbId)
    (hfull : o.state ≠ .fullscreen) (hper : o.state ≠ .peripheral) :
    SurfaceInv { s.setOrb k o with orbCount := u32 (s.orbCount + 1) } where
  initialized := h.initialized
  connected := h.connected
  count := count_create h.count hk ho
  ids := fun i j hij hi hj => by
    simp only [setOrb] at hi hj ⊢
    rcases eq_or_ne i k with rfl | hik
    · rw [Function.update_of_ne hij.symm] at hj ⊢
      rw [Function.update_self]
      exact (hnew j hj).symm
    · rw [Function.update_of_ne hik] at hi ⊢
      rcases eq_or_ne j k with rfl | hjk
      · rw [Function.update_self]
        exact hnew i hi
      · rw [Function.update_of_ne hjk] at hj ⊢
        exact h.ids i j hij hi hj
  valid := fun i hi => by
    simp only [setOrb] at hi ⊢
    rcases eq_or_ne i k with rfl | hik
    · rw [Function.update_self]
      exact hvoid
    · rw [Function.update_of_ne hik] at hi ⊢
      exact h.valid i hi
  expanded := fun j => by
    simp only [setOrb]
    rcases eq_or_ne j k with rfl | hjk
    · rw [Function.update_self, h.expanded]
      refine iff_of_false (fun hstate => ?_) hfull
      rw [Orb.live, hstate] at hk
      cases hk
    · rw [Function.update_of_ne hjk]
      exact h.expanded j
  range := h.range
  peripheral := fun j hj => by
    simp only [setOrb] at hj ⊢
    rcases eq_or_ne j k with rfl | hjk
    · rw [Function.update_self] at hj
      exact absurd hj hper
    · rw [Function.update_of_ne hjk] at hj
      exact h.peripheral j hj

theorem SurfaceInv.createOrb (h : SurfaceInv s) {counter : ℕ} {cap : Capability} {place : OrbPlace}
    (hnew : s.orbCount < maxOrbs → ∀ i, (s.orbs i).live = true →
      (s.orbs i).orbId ≠ generateOrbId counter) :
    SurfaceInv (s.createOrb counter cap place).1 := by
  rw [Surface.createOrb, if_neg (by simp [h.initialized])]
  by_cases hcount : s.orbCount ≥ maxOrbs
  · rw [if_pos hcount]
    exact h
  · rw [if_neg hcount]
    cases hfree : s.firstFree with
    | none => exact absurd hfree (firstFree_ne_none h (not_le.1 hcount))
    | some k =>
      exact h.setFree (firstFree_eq_some hfree) rfl (generateOrbId_ne_void counter)
        (hnew (not_le.1 hcount)) (by simp) (by simp)

theorem SurfaceInv.removeOrb (h : SurfaceInv s) {i : ℤ}
    (hper : s.expandedOrbIndex = i → ∀ k, (s.orbs k).state ≠ .peripheral) :
    SurfaceInv (s.removeOrb i).1 := by
  rw [Surface.removeOrb, if_neg (by simp [h.initialized])]
  cases hslot : slotOf i with
  | none => exact h
  | some k =>
    obtain rfl := slotOf_eq_some.1 hslot
    dsimp only
    by_cases hlive : (s.orbs k).live = true
    swap
    · rw [if_pos (by simpa using hlive)]
      exact h
    rw [if_neg (by simp [hlive])]
    have hvoid : Orb.void.live = false := rfl
    have hold : ∀ j, (Function.update s.orbs k Orb.void j).live = true →
        j ≠ k ∧ Function.update s.orbs k Orb.void j = s.orbs j := by
      intro j hj
      have hjk : j ≠ k := by
        rintro rfl
        rw [Function.update_self] at hj
        cases hj
      exact ⟨hjk, Function.update_of_ne hjk _ _⟩
    have hcount := Tally.tally_update_old (f := fun j => (s.orbs j).live) (i := k) (b := false)
      (by rw [hlive]; decide)
    rw [hlive, ← h.count] at hcount
    have hle := orbCount_le h.count
    refine ⟨h.initialized, h.connected, ?_, fun a b hab ha hb => ?_, fun a ha => ?_, fun j => ?_,
      fun hexp => ?_, fun j hj => ?_⟩
    · have hsmall := u32_pred (show 0 < s.orbCount by omega) (hle.trans_lt (by decide))
      simp only [setOrb]
      rw [live_update, hvoid, hsmall]
      omega
    · simp only [setOrb] at ha hb ⊢
      obtain ⟨-, hsame⟩ := hold a ha
      obtain ⟨-, hsame'⟩ := hold b hb
      rw [hsame] at ha ⊢
      rw [hsame'] at hb ⊢
      exact h.ids a b hab ha hb
    · simp only [setOrb] at ha ⊢
      obtain ⟨-, hsame⟩ := hold a ha
      rw [hsame] at ha ⊢
      exact h.valid a ha
    · simp only [setOrb]
      rcases eq_or_ne j k with rfl | hjk
      · rw [Function.update_self]
        refine iff_of_false ?_ (by decide)
        split
        · omega
        · assumption
      · rw [Function.update_of_ne hjk, ← h.expanded]
        split
        · rename_i heq
          refine iff_of_false (by omega) fun hj => hjk (Fin.ext (by omega))
        · exact Iff.rfl
    · dsimp only at hexp ⊢
      split at hexp
      · omega
      · rename_i hne
        rw [if_neg hne]
        exact h.range hexp
    · simp only [setOrb] at hj ⊢
      rcases eq_or_ne j k with rfl | hjk
      · rw [Function.update_self] at hj
        cases hj
      · rw [Function.update_of_ne hjk] at hj
        split
        · rename_i heq
          exact absurd hj (hper heq j)
        · exact h.peripheral j hj

/-! ## Physics -/

/-- An orb keeps its identity; whether it is fullscreen changes only where the cursor is inside it. -/
theorem approach_spec (p : Proximity) {o : Orb} (ho : o.live = true) :
    (approach p o).orbId = o.orbId ∧ (approach p o).live = true ∧
    (¬(o.state = .fullscreen ∧ p.near = true ∧ p.inside = true) →
      ((approach p o).state = .fullscreen ↔ o.state = .fullscreen)) ∧
    ((approach p o).state = .peripheral → o.state = .peripheral) := by
  rw [live_iff] at ho
  obtain ⟨place, near, inside⟩ := p
  cases near <;> cases inside <;> cases hstate : o.state <;>
    simp_all [approach, Orb.live]

theorem SurfaceInv.physicsStep (h : SurfaceInv s) {cursorActive : Bool}
    {physics : Fin maxOrbs → Proximity}
    (hfar : s.frame.physicsEnabled = true → cursorActive = true → ∀ i,
      (s.orbs i).state = .fullscreen → ¬((physics i).near = true ∧ (physics i).inside = true)) :
    SurfaceInv (s.physicsStep cursorActive physics) := by
  rw [Surface.physicsStep, if_neg (by simp [h.initialized])]
  by_cases henabled : s.frame.physicsEnabled = true
  swap
  · rw [if_pos (by simpa using henabled)]
    exact h
  rw [if_neg (by simp [henabled])]
  -- what becomes of one orb
  have horb : ∀ i, ∃ o, (if !(s.orbs i).live then s.orbs i
      else if cursorActive then approach (physics i) { s.orbs i with place := (physics i).place }
        else { s.orbs i with place := (physics i).place }) = o ∧ o.live = (s.orbs i).live ∧
      o.orbId = (s.orbs i).orbId ∧ (o.state = .fullscreen ↔ (s.orbs i).state = .fullscreen) ∧
      (o.state = .peripheral → (s.orbs i).state = .peripheral) := by
    intro i
    refine ⟨_, rfl, ?_⟩
    by_cases hlive : (s.orbs i).live = true
    swap
    · rw [if_pos (by simpa using hlive)]
      exact ⟨rfl, rfl, Iff.rfl, id⟩
    rw [if_neg (by simp [hlive])]
    by_cases hactive : cursorActive = true
    · obtain ⟨hid, hl, hfull, hper⟩ := approach_spec (physics i)
        (show ({ s.orbs i with place := (physics i).place } : Orb).live = true from hlive)
      rw [if_pos hactive]
      exact ⟨hl.trans hlive.symm, hid,
        hfull fun hall => hfar henabled hactive i hall.1 hall.2, hper⟩
    · rw [if_neg hactive]
      exact ⟨rfl, rfl, Iff.rfl, id⟩
  refine h.relabel rfl rfl rfl (fun i => ?_) (fun i => ?_) (fun k => ?_) h.range fun i hi => ?_
  · obtain ⟨o, ho, hl, -⟩ := horb i
    exact (congrArg Orb.live ho).trans hl
  · obtain ⟨o, ho, -, hid, -⟩ := horb i
    exact (congrArg Orb.orbId ho).trans hid
  · obtain ⟨o, ho, -, -, hfull, -⟩ := horb k
    exact (h.expanded k).trans ((congrArg Orb.state ho) ▸ hfull).symm
  · obtain ⟨o, ho, -, -, -, hper⟩ := horb i
    exact h.peripheral i (hper ((congrArg Orb.state ho).symm.trans hi))

/-! ## The ids -/

@[simp]
theorem setState_orbId (k : Fin maxOrbs) (state : OrbState) (i : Fin maxOrbs) :
    ((s.setState k state).orbs i).orbId = (s.orbs i).orbId := by
  rcases eq_or_ne i k with rfl | hik
  · simp [setState, setOrb]
  · simp [setState, setOrb, hik]

theorem contractCurrent_orbId (i : Fin maxOrbs) :
    (s.contractCurrent.1.orbs i).orbId = (s.orbs i).orbId := by
  unfold Surface.contractCurrent
  split
  · rfl
  split
  · rfl
  cases s.getOrb s.expandedOrbIndex with
  | none => rfl
  | some k =>
    have hstates : (((s.setState k .contracting).setState k .idle).orbs i).orbId =
        (s.orbs i).orbId := by simp
    simp only [restorePeripheral]
    split
    · exact hstates
    · exact hstates

theorem expandOrb_orbId (k : ℤ) (i : Fin maxOrbs) :
    ((s.expandOrb k).1.orbs i).orbId = (s.orbs i).orbId := by
  unfold Surface.expandOrb
  split
  · rfl
  cases s.getOrb k with
  | none => rfl
  | some j =>
    dsimp only
    split
    · rfl
    -- the surface with nothing expanded
    have hr : ((if 0 ≤ s.expandedOrbIndex ∧ s.expandedOrbIndex ≠ k then s.contractCurrent.1
        else s).orbs i).orbId = (s.orbs i).orbId := by
      split
      · exact contractCurrent_orbId i
      · rfl
    rw [← hr]
    generalize (if 0 ≤ s.expandedOrbIndex ∧ s.expandedOrbIndex ≠ k then s.contractCurrent.1
      else s) = r
    have hstates : ((({ r.setState j .expanding with
        expandedOrbIndex := k } : Surface).setState j .fullscreen).orbs i).orbId =
          (r.orbs i).orbId := by
      rw [setState_orbId]
      exact setState_orbId j _ i
    simp only [movePeripheral]
    split
    · exact hstates
    · exact hstates

theorem physicsStep_orbId (cursorActive : Bool) (physics : Fin maxOrbs → Proximity)
    (i : Fin maxOrbs) :
    ((s.physicsStep cursorActive physics).orbs i).orbId = (s.orbs i).orbId := by
  unfold Surface.physicsStep
  split
  · rfl
  split
  · rfl
  dsimp only
  split
  · rfl
  · next hdead =>
    have hlive : (s.orbs i).live = true := by simpa using hdead
    split
    · exact (approach_spec (physics i)
        (show ({ s.orbs i with place := (physics i).place } : Orb).live = true from hlive)).1
    · rfl

/-! ## Persistence -/

/-- The persistent orbs. -/
def PersistentState.entries (p : PersistentState) : List PersistentOrb :=
  (List.range p.orbCount).map p.orbs

/-- What holds of the persistent orbs, and of the record of what has been persisted. -/
structure StoreInv (p : PersistentState) (persisted : ℕ → Option PersistentOrb) : Prop where
  count : p.orbCount ≤ maxOrbs
  distinct : ∀ i < p.orbCount, ∀ j < p.orbCount, (p.orbs i).orbId = (p.orbs j).orbId → i = j
  valid : ∀ i < p.orbCount, (p.orbs i).orbId ≠ voidU64 ∧ (p.orbs i).state ≠ .void
  persisted : ∀ id q, persisted id = some q ↔ q.orbId = id ∧ ∃ i < p.orbCount, p.orbs i = q

variable {p : PersistentState} {persisted : ℕ → Option PersistentOrb}

@[simp] theorem length_entries (p : PersistentState) : p.entries.length = p.orbCount := by
  rw [PersistentState.entries, List.length_map, List.length_range]

theorem getElem_entries {i : ℕ} (hi : i < p.entries.length) : p.entries[i] = p.orbs i := by
  simp [PersistentState.entries]

theorem mem_entries {q : PersistentOrb} : q ∈ p.entries ↔ ∃ i < p.orbCount, p.orbs i = q := by
  simp [PersistentState.entries]

theorem entries_append (p : PersistentState) (o : Orb) :
    (appendPersistent p o).entries = p.entries ++ [syncOrbToPersistent o] := by
  refine List.ext_getElem (by simp [appendPersistent]) fun i hi hi' => ?_
  rw [getElem_entries]
  simp only [length_entries, appendPersistent] at hi
  rcases Nat.lt_succ_iff_lt_or_eq.1 hi with hlt | rfl
  · rw [List.getElem_append_left (by simpa using hlt), getElem_entries, appendPersistent]
    exact Function.update_of_ne hlt.ne _ _
  · simp [appendPersistent]

/-- An orb that is kept is that of a live one. -/
theorem liveOrb_eq_some (hids : ∀ i j, i ≠ j → (s.orbs i).live = true → (s.orbs j).live = true →
    (s.orbs i).orbId ≠ (s.orbs j).orbId) {id : ℕ} {q : PersistentOrb} :
    s.liveOrb id = some q ↔ q.orbId = id ∧
      ∃ i, (s.orbs i).live = true ∧ syncOrbToPersistent (s.orbs i) = q := by
  rw [liveOrb, Option.map_eq_some_iff]
  constructor
  · rintro ⟨i, hi, rfl⟩
    have hfound := List.find?_some hi
    rw [Bool.and_eq_true, beq_iff_eq] at hfound
    exact ⟨hfound.2, i, hfound.1, rfl⟩
  · rintro ⟨rfl, i, hlive, rfl⟩
    have hthere : ((List.finRange maxOrbs).find? fun j => (s.orbs j).live &&
        (s.orbs j).orbId == (syncOrbToPersistent (s.orbs i)).orbId).isSome = true := by
      rw [List.find?_isSome]
      exact ⟨i, List.mem_finRange i, by rw [hlive, Bool.true_and]; exact beq_self_eq_true _⟩
    obtain ⟨j, hj⟩ := Option.isSome_iff_exists.1 hthere
    have hfound := List.find?_some hj
    rw [Bool.and_eq_true, beq_iff_eq] at hfound
    refine ⟨j, hj, ?_⟩
    by_contra hne
    refine hids j i ?_ hfound.1 hlive hfound.2
    rintro rfl
    exact hne rfl

theorem entries_persist (s : Surface) (is : List (Fin maxOrbs)) (p : PersistentState) :
    (is.foldl (fun p i => if (s.orbs i).live then appendPersistent p (s.orbs i) else p) p).entries =
      p.entries ++ (is.filter fun i => (s.orbs i).live).map
        fun i => syncOrbToPersistent (s.orbs i) := by
  induction is generalizing p with
  | nil => rw [List.foldl_nil, List.filter_nil, List.map_nil, List.append_nil]
  | cons i is ih =>
    rw [List.foldl_cons, ih]
    by_cases hlive : (s.orbs i).live = true
    · rw [if_pos hlive, entries_append, List.filter_cons, if_pos hlive, List.map_cons,
        List.append_assoc, List.singleton_append]
    · rw [if_neg hlive, List.filter_cons, if_neg hlive]

theorem SurfaceInv.persist (h : SurfaceInv s) (hp : StoreInv p persisted) {tx : AtlasTx}
    (htx : tx ≠ .conflict) : StoreInv (s.persist p tx).1
      (if (s.persist p tx).2 = .true then s.liveOrb else persisted) := by
  rw [Surface.persist, if_neg (by simp [h.initialized]), if_neg (by simp [h.connected])]
  cases tx with
  | unavailable => exact hp
  | conflict => exact absurd rfl htx
  | committed =>
    rw [if_neg (by decide), if_pos (show (_, AtlasTx.committed.result).2 = Vbit.true from rfl)]
    dsimp only
    have hentries := entries_persist s (List.finRange maxOrbs)
      { p with frame := s.frame, orbCount := 0 }
    have hempty : ({ p with frame := s.frame, orbCount := 0 } : PersistentState).entries = [] := rfl
    rw [hempty, List.nil_append] at hentries
    generalize (List.finRange maxOrbs).foldl _ _ = p' at hentries ⊢
    have hmem : ∀ q, (∃ i < p'.orbCount, p'.orbs i = q) ↔
        ∃ i, (s.orbs i).live = true ∧ syncOrbToPersistent (s.orbs i) = q := by
      intro q
      rw [← mem_entries, hentries]
      simp
    have hnodup : (p'.entries.map PersistentOrb.orbId).Nodup := by
      rw [hentries, List.map_map]
      refine List.Nodup.map_on (fun i hi j hj heq => ?_) ((List.nodup_finRange _).filter _)
      by_contra hij
      rw [List.mem_filter] at hi hj
      exact h.ids i j hij hi.2 hj.2 heq
    refine ⟨?_, fun i hi j hj heq => ?_, fun i hi => ?_, fun id q => ?_⟩
    · rw [← length_entries, hentries, List.length_map]
      exact (List.length_filter_le _ _).trans (List.length_finRange).le
    · have hi' : i < (p'.entries.map PersistentOrb.orbId).length := by simpa using hi
      have hj' : j < (p'.entries.map PersistentOrb.orbId).length := by simpa using hj
      have hget : (p'.entries.map PersistentOrb.orbId)[i] =
          (p'.entries.map PersistentOrb.orbId)[j] := by simpa [getElem_entries] using heq
      exact hnodup.getElem_inj_iff.1 hget
    · obtain ⟨k, hk, heq⟩ := (hmem (p'.orbs i)).1 ⟨i, hi, rfl⟩
      rw [← heq]
      exact ⟨h.valid k hk, live_iff.1 hk⟩
    · rw [liveOrb_eq_some h.ids, hmem]

/-- An orb is written over the one with its id. -/
theorem StoreInv.replace (hp : StoreInv p persisted) {j : ℕ} {q : PersistentOrb}
    (hj : j < p.orbCount) (hid : (p.orbs j).orbId = q.orbId) (hvoid : q.orbId ≠ voidU64)
    (hstate : q.state ≠ .void) :
    StoreInv { p with orbs := Function.update p.orbs j q }
      (Function.update persisted q.orbId (some q)) := by
  have horbId : ∀ a, (Function.update p.orbs j q a).orbId = (p.orbs a).orbId := by
    intro a
    rcases eq_or_ne a j with rfl | haj
    · rw [Function.update_self, hid]
    · rw [Function.update_of_ne haj]
  refine ⟨hp.count, fun a ha b hb heq => ?_, fun a ha => ?_, fun id r => ?_⟩
  · dsimp only at heq
    rw [horbId, horbId] at heq
    exact hp.distinct a ha b hb heq
  · dsimp only
    rcases eq_or_ne a j with rfl | haj
    · rw [Function.update_self]
      exact ⟨hvoid, hstate⟩
    · rw [Function.update_of_ne haj]
      exact hp.valid a ha
  · dsimp only
    rcases eq_or_ne id q.orbId with rfl | hne
    · rw [Function.update_self]
      constructor
      · intro heq
        obtain rfl := Option.some.inj heq
        exact ⟨rfl, j, hj, Function.update_self _ _ _⟩
      · rintro ⟨hr, a, ha, rfl⟩
        rw [horbId, ← hid] at hr
        obtain rfl := hp.distinct a ha j hj hr
        rw [Function.update_self]
    · rw [Function.update_of_ne hne, hp.persisted]
      refine and_congr_right fun hr => exists_congr fun a => and_congr_right fun ha => ?_
      rcases eq_or_ne a j with rfl | haj
      · rw [Function.update_self]
        refine iff_of_false ?_ ?_
        · rintro rfl
          exact hne (hr.symm.trans hid)
        · rintro rfl
          exact hne hr.symm
      · rw [Function.update_of_ne haj]

/-- An orb with a new id is appended. -/
theorem StoreInv.append (hp : StoreInv p persisted) {q : PersistentOrb} (hroom : p.orbCount < maxOrbs)
    (hnew : ∀ a < p.orbCount, (p.orbs a).orbId ≠ q.orbId) (hvoid : q.orbId ≠ voidU64)
    (hstate : q.state ≠ .void) :
    StoreInv { p with orbs := Function.update p.orbs p.orbCount q, orbCount := p.orbCount + 1 }
      (Function.update persisted q.orbId (some q)) := by
  have hold : ∀ a < p.orbCount, Function.update p.orbs p.orbCount q a = p.orbs a :=
    fun a ha => Function.update_of_ne ha.ne _ _
  refine ⟨hroom, fun a ha b hb heq => ?_, fun a ha => ?_, fun id r => ?_⟩
  · dsimp only at ha hb heq
    rcases Nat.lt_succ_iff_lt_or_eq.1 ha with ha | rfl <;>
      rcases Nat.lt_succ_iff_lt_or_eq.1 hb with hb | rfl
    · rw [hold a ha, hold b hb] at heq
      exact hp.distinct a ha b hb heq
    · rw [hold a ha, Function.update_self] at heq
      exact absurd heq (hnew a ha)
    · rw [hold b hb, Function.update_self] at heq
      exact absurd heq.symm (hnew b hb)
    · rfl
  · dsimp only at ha ⊢
    rcases Nat.lt_succ_iff_lt_or_eq.1 ha with ha | rfl
    · rw [hold a ha]
      exact hp.valid a ha
    · rw [Function.update_self]
      exact ⟨hvoid, hstate⟩
  · have hmem : (∃ a < p.orbCount + 1, Function.update p.orbs p.orbCount q a = r) ↔
        (∃ a < p.orbCount, p.orbs a = r) ∨ q = r := by
      constructor
      · rintro ⟨a, ha, rfl⟩
        rcases Nat.lt_succ_iff_lt_or_eq.1 ha with ha | rfl
        · exact Or.inl ⟨a, ha, (hold a ha).symm⟩
        · exact Or.inr (Function.update_self p.orbCount q p.orbs).symm
      · rintro (⟨a, ha, rfl⟩ | rfl)
        · exact ⟨a, Nat.lt_succ_of_lt ha, hold a ha⟩
        · exact ⟨p.orbCount, Nat.lt_succ_self _, Function.update_self _ _ _⟩
    dsimp only
    rw [hmem]
    rcases eq_or_ne id q.orbId with rfl | hne
    · rw [Function.update_self, Option.some.injEq]
      refine ⟨fun heq => ⟨heq ▸ rfl, Or.inr heq⟩, ?_⟩
      rintro ⟨hr, ⟨a, ha, rfl⟩ | heq⟩
      · exact absurd hr (hnew a ha)
      · exact heq
    · rw [Function.update_of_ne hne, hp.persisted]
      refine and_congr_right fun hr => (or_iff_left ?_).symm
      rintro rfl
      exact hne hr.symm

/-- What a step that persists an orb does to the record. -/
theorem step_persistOrb {s : SurfaceSystem} {tx : AtlasTx} {i : ℤ} {k : Fin maxOrbs}
    {p' : PersistentState} {r : Vbit} (hget : s.surface.getOrb i = some k)
    (hdo : s.surface.persistOrb s.persistent tx i = (p', r)) :
    (s.step (.persistOrb tx i)).1 = { s with
      persistent := p'
      persisted := if r = .true then Function.update s.persisted (s.surface.orbs k).orbId
        (some (syncOrbToPersistent (s.surface.orbs k))) else s.persisted } := by
  simp only [SurfaceSystem.step, hget]
  rw [hdo]

/-- One orb is persisted in the place it has, or in a new one. -/
theorem persistOrb_storeInv {s : SurfaceSystem} (h : SurfaceInv s.surface)
    (hp : StoreInv s.persistent s.persisted) {tx : AtlasTx} (htx : tx ≠ .conflict) (i : ℤ) :
    StoreInv (s.step (.persistOrb tx i)).1.persistent (s.step (.persistOrb tx i)).1.persisted := by
  obtain ⟨r, hr⟩ : ∃ r, s.surface.persistOrb s.persistent tx i = r := ⟨_, rfl⟩
  have hdo := hr
  rw [Surface.persistOrb, if_neg (by simp [h.initialized]), if_neg (by simp [h.connected])] at hdo
  cases hget : s.surface.getOrb i with
  | none =>
    rw [hget] at hdo
    subst hdo
    simp only [SurfaceSystem.step, hget]
    rw [hr]
    exact hp
  | some k =>
    have hlive := ((getOrb_eq_some h.initialized).1 hget).2
    have hvoid : (syncOrbToPersistent (s.surface.orbs k)).orbId ≠ voidU64 := h.valid k hlive
    have hstate : (syncOrbToPersistent (s.surface.orbs k)).state ≠ .void := live_iff.1 hlive
    rw [hget] at hdo
    dsimp only at hdo
    cases tx with
    | unavailable =>
      rw [if_pos rfl] at hdo
      subst hdo
      rw [step_persistOrb hget hr]
      exact hp
    | conflict => exact absurd rfl htx
    | committed =>
      rw [if_neg (by decide)] at hdo
      cases hfind : (List.range s.persistent.orbCount).find?
          fun j => (s.persistent.orbs j).orbId == (s.surface.orbs k).orbId with
      | some j =>
        rw [hfind] at hdo
        subst hdo
        rw [step_persistOrb hget hr]
        have hid := List.find?_some hfind
        exact hp.replace (List.mem_range.1 (List.mem_of_find?_eq_some hfind)) (beq_iff_eq.1 hid)
          hvoid hstate
      | none =>
        have hnew : ∀ a < s.persistent.orbCount,
            (s.persistent.orbs a).orbId ≠ (s.surface.orbs k).orbId := by
          intro a ha
          simpa using List.find?_eq_none.1 hfind a (List.mem_range.2 ha)
        rw [hfind] at hdo
        dsimp only at hdo
        by_cases hfull : s.persistent.orbCount ≥ maxOrbs
        · rw [if_pos hfull] at hdo
          subst hdo
          rw [step_persistOrb hget hr]
          exact hp
        · rw [if_neg hfull] at hdo
          subst hdo
          rw [step_persistOrb hget hr]
          exact hp.append (not_le.1 hfull) hnew hvoid hstate

/-! ## Restart -/

/-- The first slots hold the orbs of a list, and the others are free. -/
structure SlotsFilled (s : Surface) (qs : List PersistentOrb) : Prop where
  initialized : s.initialized = true
  connected : s.connected = true
  index : s.expandedOrbIndex = -1
  count : s.orbCount = Tally.tally (fun i => (s.orbs i).live) true
  filled : ∀ i : Fin maxOrbs, ∀ h : i.val < qs.length,
    (s.orbs i).live = true ∧ syncOrbToPersistent (s.orbs i) = qs[i.val]
  free : ∀ i : Fin maxOrbs, qs.length ≤ i.val → (s.orbs i).live = false

variable {qs : List PersistentOrb}

theorem SlotsFilled.firstFree (h : SlotsFilled s qs) (hroom : qs.length < maxOrbs) :
    s.firstFree = some ⟨qs.length, hroom⟩ := by
  rw [Surface.firstFree, List.find?_eq_some_iff_getElem]
  refine ⟨by rw [h.free _ (le_refl _)]; rfl, qs.length, by simpa using hroom, ?_, fun j hj => ?_⟩
  · simp
  · have hlive := (h.filled ⟨j, hj.trans hroom⟩ hj).1
    simpa using hlive

/-- One round of the loop fills the next slot. -/
theorem SlotsFilled.restoreOrb (h : SlotsFilled s qs) {q : PersistentOrb} (hroom : qs.length < maxOrbs)
    (hvoid : q.orbId ≠ voidU64) (hstate : q.state ≠ .void) :
    SlotsFilled (s.restoreOrb q) (qs ++ [q]) := by
  have hlive : (syncOrbFromPersistent q (s.orbs ⟨qs.length, hroom⟩)).live = true :=
    live_iff.2 hstate
  have hdo : s.restoreOrb q = { s.setOrb ⟨qs.length, hroom⟩
      (syncOrbFromPersistent q (s.orbs ⟨qs.length, hroom⟩)) with
      orbCount := u32 (s.orbCount + 1) } := by
    rw [Surface.restoreOrb, if_neg hvoid, h.firstFree hroom]
  rw [hdo]
  refine ⟨h.initialized, h.connected, h.index,
    count_create h.count (h.free _ (le_refl _)) hlive, fun i hi => ?_, fun i hi => ?_⟩
  · simp only [setOrb]
    rw [List.length_append, List.length_singleton] at hi
    rcases Nat.lt_succ_iff_lt_or_eq.1 hi with hlt | heq
    · rw [Function.update_of_ne (fun hik => hlt.ne (congrArg Fin.val hik)),
        List.getElem_append_left hlt]
      exact h.filled i hlt
    · obtain rfl : i = ⟨qs.length, hroom⟩ := Fin.ext heq
      rw [Function.update_self, List.getElem_concat_length rfl]
      exact ⟨hlive, rfl⟩
  · simp only [setOrb]
    rw [List.length_append, List.length_singleton] at hi
    rw [Function.update_of_ne (fun hik => absurd (congrArg Fin.val hik) (by
      dsimp only
      omega))]
    exact h.free i (by omega)

theorem SlotsFilled.foldl (rs : List PersistentOrb) : ∀ {s : Surface} {qs : List PersistentOrb},
    SlotsFilled s qs → qs.length + rs.length ≤ maxOrbs →
    (∀ r ∈ rs, r.orbId ≠ voidU64 ∧ r.state ≠ .void) →
    SlotsFilled (rs.foldl Surface.restoreOrb s) (qs ++ rs) := by
  induction rs with
  | nil =>
    intro s qs h _ _
    rwa [List.append_nil]
  | cons r rs ih =>
    intro s qs h hroom hvalid
    rw [List.length_cons] at hroom
    have hr := hvalid r List.mem_cons_self
    have hnext := ih (h.restoreOrb (by omega) hr.1 hr.2) (by
      rw [List.length_append, List.length_singleton]
      omega) fun q hq => hvalid q (List.mem_cons_of_mem _ hq)
    rwa [List.append_assoc, List.singleton_append] at hnext

/-- A restart fills the slots with the persistent orbs. -/
theorem StoreInv.filled (hp : StoreInv p persisted) : SlotsFilled (initFromAtlas p) p.entries := by
  have hempty : SlotsFilled { init p.frame with connected := true } [] := by
    refine ⟨rfl, rfl, rfl, ?_, fun i hi => absurd hi (Nat.not_lt_zero _), fun _ _ => rfl⟩
    exact (Tally.tally_eq_zero fun i => show Orb.void.live ≠ true by decide).symm
  have hvalid : ∀ q ∈ p.entries, q.orbId ≠ voidU64 ∧ q.state ≠ .void := by
    intro q hq
    obtain ⟨i, hi, rfl⟩ := mem_entries.1 hq
    exact hp.valid i hi
  have hfold := SlotsFilled.foldl p.entries hempty
    (by rw [List.length_nil, Nat.zero_add, length_entries]; exact hp.count) hvalid
  rw [List.nil_append, PersistentState.entries, List.foldl_map] at hfold
  rw [initFromAtlas, Nat.min_eq_left hp.count]
  exact hfold

/-- The orbs after a restart are persistent ones. -/
theorem StoreInv.restored (hp : StoreInv p persisted) (i : Fin maxOrbs)
    (hi : ((initFromAtlas p).orbs i).live = true) : i.val < p.orbCount ∧
      syncOrbToPersistent ((initFromAtlas p).orbs i) = p.orbs i.val := by
  have hlt : i.val < p.entries.length := by
    by_contra hnot
    rw [hp.filled.free i (not_lt.1 hnot)] at hi
    cases hi
  have hsync := (hp.filled.filled i hlt).2
  rw [getElem_entries] at hsync
  exact ⟨by simpa using hlt, hsync⟩

theorem StoreInv.restored_ids (hp : StoreInv p persisted) (i j : Fin maxOrbs) (hij : i ≠ j)
    (hi : ((initFromAtlas p).orbs i).live = true) (hj : ((initFromAtlas p).orbs j).live = true) :
    ((initFromAtlas p).orbs i).orbId ≠ ((initFromAtlas p).orbs j).orbId := by
  intro heq
  obtain ⟨hilt, hisync⟩ := hp.restored i hi
  obtain ⟨hjlt, hjsync⟩ := hp.restored j hj
  refine hij (Fin.ext (hp.distinct i.val hilt j.val hjlt ?_))
  rw [← hisync, ← hjsync]
  exact heq

/-- A restart gives just what has been persisted. -/
theorem StoreInv.restores (hp : StoreInv p persisted) : (initFromAtlas p).liveOrb = persisted := by
  refine funext fun id => Option.ext fun q => ?_
  rw [liveOrb_eq_some hp.restored_ids, hp.persisted]
  refine and_congr_right fun _ => ⟨?_, ?_⟩
  · rintro ⟨i, hi, rfl⟩
    obtain ⟨hlt, hsync⟩ := hp.restored i hi
    exact ⟨i.val, hlt, hsync.symm⟩
  · rintro ⟨i, hi, rfl⟩
    have hlt : i < p.entries.length := by simpa using hi
    obtain ⟨hlive, hsync⟩ := hp.filled.filled ⟨i, hi.trans_le hp.count⟩ hlt
    rw [getElem_entries] at hsync
    exact ⟨_, hlive, hsync⟩

/-- The surface after a restart. -/
theorem StoreInv.restart (hp : StoreInv p persisted) (hstate : ∀ i < p.orbCount,
    (p.orbs i).state ≠ .fullscreen ∧ (p.orbs i).state ≠ .peripheral) :
    SurfaceInv (initFromAtlas p) := by
  have hf := hp.filled
  have hnone : ∀ i, ((initFromAtlas p).orbs i).state ≠ .fullscreen ∧
      ((initFromAtlas p).orbs i).state ≠ .peripheral := by
    intro i
    by_cases hi : ((initFromAtlas p).orbs i).live = true
    · obtain ⟨hlt, hsync⟩ := hp.restored i hi
      have heq : ((initFromAtlas p).orbs i).state = (p.orbs i.val).state :=
        congrArg PersistentOrb.state hsync
      rw [heq]
      exact hstate i.val hlt
    · have hvoid := not_not.1 (mt live_iff.2 hi)
      rw [hvoid]
      decide
  refine ⟨hf.initialized, hf.connected, hf.count, hp.restored_ids, fun i hi => ?_,
    fun k => ?_, fun hexp => ?_, fun i hi => absurd hi (hnone i).2⟩
  · obtain ⟨hlt, hsync⟩ := hp.restored i hi
    have hid : ((initFromAtlas p).orbs i).orbId = (p.orbs i.val).orbId :=
      congrArg PersistentOrb.orbId hsync
    rw [hid]
    exact (hp.valid i.val hlt).1
  · rw [hf.index]
    exact iff_of_false (by omega) (hnone k).1
  · rw [hf.index] at hexp
    exact absurd hexp (by decide)

/-! ## Runs -/

namespace SurfaceSystem

/-- What holds of every state of an allowed run. -/
structure Inv (s : SurfaceSystem) : Prop where
  surface : SurfaceInv s.surface
  store : StoreInv s.persistent s.persisted

theorem start_inv (frame : SurfaceFrame) : (start frame).Inv := by
  have hvoid : ∀ i, ((start frame).surface.orbs i).live = false := fun _ => rfl
  refine ⟨⟨rfl, rfl, ?_, fun i j _ hi => ?_, fun i hi => ?_, fun k => ?_, fun hexp => ?_,
    fun i hi => ?_⟩, ⟨Nat.zero_le _, fun i hi => absurd hi (Nat.not_lt_zero i),
    fun i hi => absurd hi (Nat.not_lt_zero i), fun id q => ?_⟩⟩
  · exact (Tally.tally_eq_zero fun i => by rw [hvoid]; decide).symm
  · rw [hvoid] at hi
    cases hi
  · rw [hvoid] at hi
    cases hi
  · refine iff_of_false ?_ fun hk => by cases hk
    have hindex : (start frame).surface.expandedOrbIndex = -1 := rfl
    rw [hindex]
    omega
  · exact absurd hexp (show ¬(0 : ℤ) ≤ -1 by decide)
  · cases hi
  · exact iff_of_false (by simp [start]) fun ⟨_, i, hi, _⟩ => absurd hi (Nat.not_lt_zero i)

/-- An allowed step keeps the invariant. -/
theorem Inv.step {s : SurfaceSystem} (h : s.Inv) {a : SurfaceAction} (ha : s.Allowed a) :
    (s.step a).1.Inv := by
  cases a with
  | createOrb cap place => exact ⟨h.surface.createOrb ha, h.store⟩
  | removeOrb i => exact ⟨h.surface.removeOrb ha, h.store⟩
  | expandOrb i => exact ⟨h.surface.expandOrb i, h.store⟩
  | contractCurrent => exact ⟨h.surface.contractCurrent.1, h.store⟩
  | physicsStep cursorActive physics => exact ⟨h.surface.physicsStep ha, h.store⟩
  | persist tx => exact ⟨h.surface, h.surface.persist h.store ha⟩
  | persistOrb tx i => exact ⟨h.surface, persistOrb_storeInv h.surface h.store ha i⟩
  | restart => exact ⟨h.store.restart ha, h.store⟩

theorem Inv.correct {s : SurfaceSystem} (h : s.Inv) : s.Correct where
  count := h.surface.count
  ids := h.surface.ids
  expanded := h.surface.expanded
  range := h.surface.range
  single := fun i j hi hj => by
    have hindex := (h.surface.expanded i).2 hi
    have hindex' := (h.surface.expanded j).2 hj
    exact Fin.ext (by omega)
  peripheral := h.surface.peripheral
  restores := h.store.restores

/-- Every state of an allowed run is correct. -/
theorem surface_run_correct (frame : SurfaceFrame) {as : List SurfaceAction}
    (has : Runs.Guarded step Allowed (start frame) as) :
    (Runs.run step (start frame) as).Correct :=
  Inv.correct (Runs.guarded_invariant (fun _ _ h ha => h.step ha) (start_inv frame) has)

/-- A surface to begin with. -/
def smallFrame : SurfaceFrame :=
  ⟨640, 480, .zero, .zero, true⟩

/-- Two orbs, of which one is expanded, persisted, contracted and removed. -/
def persistAndRestart : List SurfaceAction :=
  [.createOrb zeroCapability ⟨.zero, .zero, .zero, .zero, .zero⟩,
    .createOrb zeroCapability ⟨.zero, .zero, .zero, .zero, .zero⟩, .expandOrb 1, .persistOrb .committed 1,
    .contractCurrent, .removeOrb 1, .persist .committed, .restart, .expandOrb 0]

theorem surface_run_correct_restart :
    Runs.Guarded step Allowed (start smallFrame) persistAndRestart ∧
      (Runs.run step (start smallFrame) persistAndRestart).Correct ∧
      (Runs.run step (start smallFrame) persistAndRestart).surface.orbCount = 1 :=
  ⟨by decide, surface_run_correct smallFrame (by decide +kernel), by decide +kernel⟩

/-- The expanded orb is removed, and the other one stays at the edge. -/
theorem not_correct_removed : ¬(Runs.run step (start smallFrame)
    [.createOrb zeroCapability ⟨.zero, .zero, .zero, .zero, .zero⟩,
      .createOrb zeroCapability ⟨.zero, .zero, .zero, .zero, .zero⟩, .expandOrb 0,
      .removeOrb 0]).Correct := by
  intro h
  exact absurd (h.peripheral ⟨1, by decide⟩ (by decide)) (by decide +kernel)

/-! ## Without a restart -/

/-- The ids of the orbs are those that the counter has been at, or VOID; and it has counted no more
than `n` orbs. -/
structure Numbered (s : SurfaceSystem) (n : ℕ) : Prop where
  counter : s.orbIdCounter ≤ n
  ids : ∀ i, (s.surface.orbs i).orbId = voidU64 ∨ (s.surface.orbs i).orbId ≤ s.orbIdCounter

/-- The number of orbs that actions may create. -/
def creations (as : List SurfaceAction) : ℕ :=
  as.countP fun
    | .createOrb _ _ => true
    | _ => false

theorem numbered_start (frame : SurfaceFrame) : (start frame).Numbered 0 where
  counter := le_rfl
  ids := fun _ => .inl rfl

theorem generateOrbId_of_lt {counter : ℕ} (h : counter < 2 ^ 64 - 2) :
    generateOrbId counter = counter + 1 := by
  have hvoid : voidU64 = 2 ^ 64 - 1 := rfl
  rw [generateOrbId, u64_of_lt (by omega), if_neg (by omega)]

/-- An action that keeps the ids. -/
theorem Numbered.congr {s t : SurfaceSystem} {n : ℕ} (h : s.Numbered n)
    (hcounter : t.orbIdCounter = s.orbIdCounter)
    (hids : ∀ i, (t.surface.orbs i).orbId = (s.surface.orbs i).orbId) : t.Numbered n := by
  refine ⟨hcounter.trans_le h.counter, fun i => ?_⟩
  rw [hcounter, hids]
  exact h.ids i

/-- A slot gets an orb with the next id, or a VOID one. -/
theorem Numbered.setOrb {s t : SurfaceSystem} {n n' : ℕ} (h : s.Numbered n) {k : Fin maxOrbs}
    {o : Orb} (ht : t.surface.orbs = Function.update s.surface.orbs k o)
    (hle : s.orbIdCounter ≤ t.orbIdCounter) (hn : t.orbIdCounter ≤ n')
    (ho : o.orbId = voidU64 ∨ o.orbId ≤ t.orbIdCounter) : t.Numbered n' := by
  refine ⟨hn, fun i => ?_⟩
  rw [ht]
  rcases eq_or_ne i k with rfl | hik
  · rwa [Function.update_self]
  · rw [Function.update_of_ne hik]
    exact (h.ids i).imp_right fun hi => hi.trans hle

theorem Numbered.step {s : SurfaceSystem} {n : ℕ} (h : s.Numbered n) {a : SurfaceAction}
    (ha : a ≠ .restart) (hn : n + creations [a] < 2 ^ 64 - 1) :
    (s.step a).1.Numbered (n + creations [a]) := by
  cases a with
  | createOrb cap place =>
    have hone : creations [.createOrb cap place] = 1 := rfl
    rw [hone] at hn ⊢
    have hcounter := h.counter
    have hid : generateOrbId s.orbIdCounter = s.orbIdCounter + 1 := generateOrbId_of_lt (by omega)
    have hsame : s.Numbered (n + 1) := ⟨by omega, h.ids⟩
    simp only [SurfaceSystem.step, Surface.createOrb]
    split
    · exact hsame.congr rfl fun _ => rfl
    split
    · exact hsame.congr rfl fun _ => rfl
    cases s.surface.firstFree with
    | none => exact hsame.congr rfl fun _ => rfl
    | some k =>
      refine h.setOrb rfl ?_ ?_ (.inr le_rfl)
      · simp only [hid]
        omega
      · simp only [hid]
        omega
  | removeOrb i =>
    simp only [SurfaceSystem.step, Surface.removeOrb]
    split
    · exact h.congr rfl fun _ => rfl
    cases slotOf i with
    | none => exact h.congr rfl fun _ => rfl
    | some k =>
      dsimp only
      split
      · exact h.congr rfl fun _ => rfl
      · exact h.setOrb rfl le_rfl h.counter (.inl rfl)
  | expandOrb i => exact h.congr rfl (expandOrb_orbId i)
  | contractCurrent => exact h.congr rfl contractCurrent_orbId
  | physicsStep cursorActive physics => exact h.congr rfl (physicsStep_orbId cursorActive physics)
  | persist tx => exact h.congr rfl fun _ => rfl
  | persistOrb tx i => exact h.congr rfl fun _ => rfl
  | restart => exact absurd rfl ha

theorem Numbered.run {s : SurfaceSystem} {n : ℕ} (h : s.Numbered n) {as : List SurfaceAction}
    (has : .restart ∉ as) (hn : n + creations as < 2 ^ 64 - 1) :
    (Runs.run SurfaceSystem.step s as).Numbered (n + creations as) := by
  induction as generalizing s n with
  | nil => exact h
  | cons a as ih =>
    rw [List.mem_cons, not_or] at has
    have hcons : creations (a :: as) = creations [a] + creations as :=
      @List.countP_append _ _ [a] as
    rw [hcons, ← Nat.add_assoc] at hn ⊢
    exact ih (h.step (Ne.symm has.1) (by omega)) has.2 hn

/-- Without a restart an orb can always be created after fewer than `2 ^ 64 - 2` others. -/
theorem createOrb_allowed (frame : SurfaceFrame) {as : List SurfaceAction} (has : .restart ∉ as)
    (hfew : creations as < 2 ^ 64 - 2) (cap : Capability) (place : OrbPlace) :
    (Runs.run step (start frame) as).Allowed (.createOrb cap place) := by
  have hnumbered := (numbered_start frame).run has (by omega)
  rw [Nat.zero_add] at hnumbered
  have hcounter := hnumbered.counter
  have hvoid : voidU64 = 2 ^ 64 - 1 := rfl
  intro _ i _
  rw [generateOrbId_of_lt (by omega)]
  rcases hnumbered.ids i with hi | hi <;> omega

end SurfaceSystem

end Seraph
