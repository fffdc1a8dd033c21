import Mathlib.Algebra.BigOperators.Group.Finset.Piecewise
import Seraph.Strands

/-!
# Capability tables

Two views of the table of a strand : how many of its slots are not VOID, which the operations keep
in `cap_count` (`StrandRecord.Counted`), and what each slot is to one capability
(`StrandRecord.holds`), which changes in the slots that are written.
-/

namespace Seraph

variable {S M : Type}

/-- What an entry is to a capability : VOID where it has another one, or none. -/
def StrandCapEntry.holds (entry : StrandCapEntry) (c : Capability) : CapStatus :=
  if entry.cap = c then entry.status else .void

namespace StrandRecord

/-! ## The count of a table -/

/-- The number of slots that are not VOID. -/
def nonVoid (r : StrandRecord S M) : ℕ :=
  ((Finset.range strandCapTableSize).filter fun i => r.status i ≠ .void).card

/-- `cap_count` is the number of slots that are not VOID. -/
def Counted (r : StrandRecord S M) : Prop :=
  r.capCount = r.nonVoid

variable {r : StrandRecord S M}

/-- No more entries are in use than the table has. -/
theorem nonVoid_le (r : StrandRecord S M) : r.nonVoid ≤ strandCapTableSize := by
  have h := Finset.card_filter_le (Finset.range strandCapTableSize) fun i => r.status i ≠ .void
  rwa [Finset.card_range] at h

/-- Writing an entry changes its own status only. -/
@[simp] theorem status_setEntry (slot i : ℕ) (entry : StrandCapEntry) :
    (r.setEntry slot entry).status i = if i = slot then entry.status else r.status i := by
  simp only [status, setEntry, Function.update_apply]
  split <;> rfl

/-- The other slots of a table, when one is written. -/
theorem nonVoid_setEntry {slot : ℕ} (hslot : slot < strandCapTableSize) (entry : StrandCapEntry) :
    (r.setEntry slot entry).nonVoid + (if r.status slot ≠ .void then 1 else 0) =
      r.nonVoid + (if entry.status ≠ .void then 1 else 0) := by
  have hmem : slot ∈ Finset.range strandCapTableSize := Finset.mem_range.2 hslot
  simp only [nonVoid, Finset.card_filter]
  rw [← Finset.add_sum_erase _ _ hmem, ← Finset.add_sum_erase (Finset.range strandCapTableSize) _ hmem]
  have hrest : ∑ i ∈ (Finset.range strandCapTableSize).erase slot,
      (if (r.setEntry slot entry).status i ≠ .void then 1 else 0) =
      ∑ i ∈ (Finset.range strandCapTableSize).erase slot,
        (if r.status i ≠ .void then 1 else 0) := by
    refine Finset.sum_congr rfl fun i hi => ?_
    rw [status_setEntry, if_neg (Finset.ne_of_mem_erase hi)]
  rw [hrest, status_setEntry, if_pos rfl]
  omega

@[simp] theorem capCount_setEntry (slot : ℕ) (entry : StrandCapEntry) :
    (r.setEntry slot entry).capCount = r.capCount :=
  rfl

@[simp] theorem capCount_countUp : r.countUp.capCount = u32 (r.capCount + 1) :=
  rfl

@[simp] theorem capCount_countDown : r.countDown.capCount = u32 (r.capCount + (2 ^ 32 - 1)) :=
  rfl

/-- The number of entries in use depends on the table only. -/
theorem nonVoid_congr {r' : StrandRecord S M} (h : r'.capTable = r.capTable) :
    r'.nonVoid = r.nonVoid := by
  unfold nonVoid status
  rw [h]

@[simp] theorem capTable_countUp : r.countUp.capTable = r.capTable := by
  cases r
  rfl

@[simp] theorem capTable_countDown : r.countDown.capTable = r.capTable := by
  cases r
  rfl

@[simp] theorem status_countUp (slot : ℕ) : r.countUp.status slot = r.status slot := by
  simp only [status, capTable_countUp]

@[simp] theorem nonVoid_countUp : r.countUp.nonVoid = r.nonVoid :=
  nonVoid_congr capTable_countUp

@[simp] theorem nonVoid_countDown : r.countDown.nonVoid = r.nonVoid :=
  nonVoid_congr capTable_countDown

/-- An entry that comes into use is counted. -/
theorem Counted.setEntry_countUp (h : r.Counted) {slot : ℕ} {entry : StrandCapEntry}
    (hslot : slot < strandCapTableSize) (hold : r.status slot = .void)
    (hnew : entry.status ≠ .void) : (r.setEntry slot entry).countUp.Counted := by
  have hsum := nonVoid_setEntry (r := r) hslot entry
  have hle := nonVoid_le (r.setEntry slot entry)
  rw [if_neg (not_not.2 hold), if_pos hnew] at hsum
  rw [Counted] at h
  rw [strandCapTableSize] at hle
  rw [Counted, nonVoid_countUp, capCount_countUp, capCount_setEntry, h, u32]
  omega

/-- An entry that is given up is taken off the count. -/
theorem Counted.setEntry_countDown (h : r.Counted) {slot : ℕ} {entry : StrandCapEntry}
    (hslot : slot < strandCapTableSize) (hold : r.status slot ≠ .void)
    (hnew : entry.status = .void) : (r.setEntry slot entry).countDown.Counted := by
  have hsum := nonVoid_setEntry (r := r) hslot entry
  have hle := nonVoid_le r
  rw [if_pos hold, if_neg (not_not.2 hnew)] at hsum
  rw [strandCapTableSize] at hle
  rw [Counted] at h
  rw [Counted, nonVoid_countDown, capCount_countDown, capCount_setEntry, h, u32]
  omega

/-- Where an entry stays in use, or stays free, the count stays right. -/
theorem Counted.setEntry (h : r.Counted) {slot : ℕ} {entry : StrandCapEntry}
    (hslot : slot < strandCapTableSize) (hsame : r.status slot = .void ↔ entry.status = .void) :
    (r.setEntry slot entry).Counted := by
  have hsum := nonVoid_setEntry (r := r) hslot entry
  simp only [hsame, ne_eq] at hsum
  rw [Counted] at h
  rw [Counted, capCount_setEntry, h]
  omega

/-- Storing a capability keeps the count right. -/
theorem Counted.capStore (h : r.Counted) {slot : ℕ} (hslot : slot < strandCapTableSize)
    (cap : Capability) : (r.capStore slot cap).Counted := by
  by_cases hempty : r.status slot = .void
  · cases hvoid : cap.isVoid
    · simpa [StrandRecord.capStore, hempty, hvoid] using
        h.setEntry_countUp hslot hempty (by simp)
    · simpa [StrandRecord.capStore, hempty, hvoid] using
        h.setEntry hslot (iff_of_true hempty rfl)
  · cases hvoid : cap.isVoid
    · simpa [StrandRecord.capStore, hempty, hvoid] using
        h.setEntry hslot (iff_of_false hempty (by simp))
    · simpa [StrandRecord.capStore, hempty, hvoid] using
        h.setEntry_countDown hslot hempty rfl

/-- Clearing a slot keeps the count right. -/
theorem Counted.capClear (h : r.Counted) {slot : ℕ} (hslot : slot < strandCapTableSize) :
    (r.capClear slot).Counted := by
  simp only [StrandRecord.capClear]
  split_ifs with hempty
  · exact h.setEntry hslot (iff_of_true hempty rfl)
  · exact h.setEntry_countDown hslot hempty rfl

/-- Ending the lends that have run out keeps the count right. -/
theorem Counted.processLends (h : r.Counted) : r.processLends.Counted := by
  have hslots : ∀ i ∈ List.range strandCapTableSize, i < strandCapTableSize :=
    fun i => List.mem_range.1
  simp only [StrandRecord.processLends]
  generalize r.chronon = now, List.range strandCapTableSize = slots at hslots
  induction slots generalizing r with
  | nil => exact h
  | cons i slots ih =>
    rw [List.foldl_cons]
    refine ih ?_ fun j hj => hslots j (List.mem_cons_of_mem _ hj)
    split
    · rename_i hexpired
      refine h.setEntry_countDown (hslots i List.mem_cons_self) ?_ rfl
      rw [hexpired.1]
      decide
    · exact h

/-! ## What the slots are to one capability -/

/-- What a slot of the table is to a capability. -/
def holds (r : StrandRecord S M) (c : Capability) (slot : ℕ) : CapStatus :=
  if slot < strandCapTableSize then (r.capTable slot).holds c else .void

/-- What a record holds of a capability changes in the slot that is written. -/
theorem holds_setEntry {slot : ℕ} (hslot : slot < strandCapTableSize) (entry : StrandCapEntry)
    (c : Capability) :
    (r.setEntry slot entry).holds c = Function.update (r.holds c) slot (entry.holds c) := by
  funext i
  rw [Function.update_apply]
  by_cases hi : i = slot
  · simp [hi, holds, StrandRecord.setEntry, hslot]
  · simp [hi, holds, StrandRecord.setEntry]

@[simp] theorem holds_countUp : r.countUp.holds = r.holds := by
  funext c slot
  simp only [holds, capTable_countUp]

@[simp] theorem holds_countDown : r.countDown.holds = r.holds := by
  funext c slot
  simp only [holds, capTable_countDown]

/-- A capability that is stored is owned in its slot. -/
theorem holds_capStore {slot : ℕ} (hslot : slot < strandCapTableSize) {c : Capability}
    (hc : c.isVoid = false) (cap : Capability) :
    (r.capStore slot cap).holds c =
      Function.update (r.holds c) slot (if cap = c then .owned else .void) := by
  have hentry : StrandCapEntry.holds ⟨cap, if !cap.isVoid then .owned else .void, 0, voidU64⟩ c =
      if cap = c then .owned else .void := by
    by_cases heq : cap = c
    · simp [StrandCapEntry.holds, heq, hc]
    · simp [StrandCapEntry.holds, heq]
  rw [← hentry, ← holds_setEntry hslot]
  unfold StrandRecord.capStore
  dsimp only
  split
  · rw [holds_countUp]
  · split
    · rw [holds_countDown]
    · rfl

/-- Clearing a slot empties its entry. -/
@[simp] theorem capTable_capClear (slot : ℕ) :
    (r.capClear slot).capTable = Function.update r.capTable slot .empty := by
  simp only [StrandRecord.capClear]
  split <;> simp [StrandRecord.setEntry]

@[simp] theorem nextWaiter_capClear (slot : ℕ) :
    (r.capClear slot).nextWaiter = r.nextWaiter := by
  simp only [StrandRecord.capClear]
  split <;> rfl

@[simp] theorem blockedOnMutex_capClear (slot : ℕ) :
    (r.capClear slot).blockedOnMutex = r.blockedOnMutex := by
  simp only [StrandRecord.capClear]
  split <;> rfl

/-- Clearing a slot leaves the state of the strand. -/
@[simp] theorem state_capClear (slot : ℕ) : (r.capClear slot).state = r.state := by
  simp only [StrandRecord.capClear]
  split <;> rfl

/-- An empty entry holds nothing. -/
@[simp] theorem holds_empty (c : Capability) : StrandCapEntry.empty.holds c = .void :=
  ite_self _

/-- Nothing is held in a slot that has been cleared. -/
theorem holds_capClear {slot : ℕ} (hslot : slot < strandCapTableSize) (c : Capability) :
    (r.capClear slot).holds c = Function.update (r.holds c) slot .void := by
  rw [← holds_empty c, ← holds_setEntry hslot]
  unfold StrandRecord.capClear
  dsimp only
  split
  · rfl
  · rw [holds_countDown]

/-- What has expired is gone, and the other slots are as they were. -/
theorem holds_processLends (c : Capability) (slot : ℕ) :
    r.processLends.holds c slot =
      if r.Expired r.chronon slot then .void else r.holds c slot := by
  have hall : slot < strandCapTableSize ↔ slot ∈ List.range strandCapTableSize :=
    List.mem_range.symm
  simp only [StrandRecord.processLends, holds, hall]
  generalize r.chronon = now, List.range strandCapTableSize = slots
  have hfold : ∀ (slots : List ℕ) (r : StrandRecord S M), ((slots.foldl (fun r i =>
      if r.Expired now i then (r.setEntry i .empty).countDown else r) r).capTable slot) =
      if slot ∈ slots ∧ r.Expired now slot then .empty else r.capTable slot := by
    intro slots
    induction slots with
    | nil => intro r; simp
    | cons i slots ih =>
      intro r
      rw [List.foldl_cons, ih]
      by_cases hi : slot = i
      · subst hi
        by_cases hexpired : r.Expired now slot
        · simp [hexpired, setEntry, countDown]
        · simp [hexpired]
      · split
        · simp [hi, setEntry, countDown, Expired, status]
        · simp [hi]
  rw [hfold]
  by_cases hmem : slot ∈ slots
  · by_cases hexpired : r.Expired now slot
    · simp [hmem, hexpired, StrandCapEntry.holds, StrandCapEntry.empty]
    · simp [hmem, hexpired]
  · simp [hmem]

end StrandRecord

namespace Strands

variable {σ : Strands S M}

/-- The count of every strand is the number of its slots that are not VOID. -/
def Counts (σ : Strands S M) : Prop :=
  ∀ s, (σ.strand s).Counted

/-- All counts stay right if that of the record that changes does. -/
theorem Counts.modify [DecidableEq S] (h : σ.Counts) {s : S} {f : StrandRecord S M → StrandRecord S M}
    (hf : (f (σ.strand s)).Counted) : (σ.modify s f).Counts := by
  intro t
  rw [strand_modify]
  split
  · exact hf
  · exact h t

end Strands

end Seraph
