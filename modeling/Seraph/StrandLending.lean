import Seraph.StrandTables

/-!
# Lending

What grants, lends, revocations and returns do to one capability that is stored once. It stays in
one place, or with one lender and one borrower, as long as no loan ends on one side only
(`strandCaps_linear`) : a return or a timeout leaves the slot of the lender LENT, and a revocation
leaves the borrower its copy. `cap_count` is right whatever happens.
-/

namespace Seraph

/-! ## Places of one capability -/

namespace CapStatus

/-- The strand may use the capability of a slot. -/
def Usable (x : CapStatus) : Prop :=
  x = .owned ∨ x = .borrowed

/-- The capability of a slot is the strand's own. -/
def Kept (x : CapStatus) : Prop :=
  x = .owned ∨ x = .lent

end CapStatus

/-- At most one place has a capability of its own, and at most one may use it. -/
structure Linear {P : Type} (h : P → CapStatus) : Prop where
  kept : ∀ p q, (h p).Kept → (h q).Kept → p = q
  usable : ∀ p q, (h p).Usable → (h q).Usable → p = q

namespace Linear

variable {P : Type} {h h' : P → CapStatus}

/-- One place, and no other. -/
theorem of_only {p : P} (hother : ∀ q, q ≠ p → h q = .void) : Linear h := by
  have hall : ∀ q, h q ≠ .void → q = p := fun q hq => not_not.1 fun hne => hq (hother q hne)
  refine ⟨fun q r hq hr => ?_, fun q r hq hr => ?_⟩ <;>
  · rw [hall q, hall r]
    · rcases hr with hr | hr <;> rw [hr] <;> decide
    · rcases hq with hq | hq <;> rw [hq] <;> decide

/-- A lender and a borrower, and no other. -/
theorem of_lent {p q : P} (hp : h p = .lent) (hq : h q = .borrowed)
    (hother : ∀ r, r ≠ p → r ≠ q → h r = .void) : Linear h := by
  have hkept : ∀ r, (h r).Kept → r = p := by
    intro r hr
    by_contra hne
    by_cases hrq : r = q
    · rw [hrq, hq] at hr
      exact absurd hr (by simp [CapStatus.Kept])
    · rw [hother r hne hrq] at hr
      exact absurd hr (by simp [CapStatus.Kept])
  have husable : ∀ r, (h r).Usable → r = q := by
    intro r hr
    by_contra hne
    by_cases hrp : r = p
    · rw [hrp, hp] at hr
      exact absurd hr (by simp [CapStatus.Usable])
    · rw [hother r hrp hne] at hr
      exact absurd hr (by simp [CapStatus.Usable])
  exact ⟨fun r s hr hs => (hkept r hr).trans (hkept s hs).symm,
    fun r s hr hs => (husable r hr).trans (husable s hs).symm⟩

/-- Places that lose the capability do no harm. -/
theorem mono (hlin : Linear h) (hle : ∀ p, h' p = h p ∨ h' p = .void) : Linear h' := by
  have hback : ∀ p, h' p ≠ .void → h p = h' p := fun p hp =>
    ((hle p).resolve_right hp).symm
  refine ⟨fun p q hp hq => hlin.kept p q ?_ ?_, fun p q hp hq => hlin.usable p q ?_ ?_⟩
  · rwa [hback p (by rcases hp with hp | hp <;> rw [hp] <;> decide)]
  · rwa [hback q (by rcases hq with hq | hq <;> rw [hq] <;> decide)]
  · rwa [hback p (by rcases hp with hp | hp <;> rw [hp] <;> decide)]
  · rwa [hback q (by rcases hq with hq | hq <;> rw [hq] <;> decide)]

/-- An owner is alone. -/
theorem only_owned (hlin : Linear h) {p q : P} (hp : h p = .owned) (hne : q ≠ p) :
    h q = .void := by
  cases hq : h q with
  | void => rfl
  | owned => exact absurd (hlin.kept q p (Or.inl hq) (Or.inl hp)) hne
  | lent => exact absurd (hlin.kept q p (Or.inr hq) (Or.inl hp)) hne
  | borrowed => exact absurd (hlin.usable q p (Or.inr hq) (Or.inl hp)) hne

/-- A lender without a borrower is alone. -/
theorem only_lent (hlin : Linear h) {p q : P} (hp : h p = .lent)
    (hborrowed : ∀ r, h r ≠ .borrowed) (hne : q ≠ p) : h q = .void := by
  cases hq : h q with
  | void => rfl
  | owned => exact absurd (hlin.kept q p (Or.inl hq) (Or.inr hp)) hne
  | lent => exact absurd (hlin.kept q p (Or.inr hq) (Or.inr hp)) hne
  | borrowed => exact absurd hq (hborrowed q)

end Linear

variable {S M : Type} [DecidableEq S]

namespace Strands

/-! ## What the operations do to one capability -/

/-- What a slot of a strand is to a capability. -/
def holds (σ : Strands S M) (c : Capability) (p : S × ℕ) : CapStatus :=
  (σ.strand p.1).holds c p.2

variable {σ : Strands S M} {c : Capability}

omit [DecidableEq S] in
/-- `seraph_strand_cap_get` returns a capability where it may be used. -/
theorem capGet_eq_iff (hc : c.isVoid = false) (p : S × ℕ) :
    σ.capGet (some p.1) p.2 = c ↔ (σ.holds c p).Usable := by
  have hvoid : Capability.void ≠ c := by
    rintro rfl
    exact absurd hc (by decide)
  simp only [capGet, StrandRecord.capGet, holds, StrandRecord.holds, StrandCapEntry.holds,
    StrandRecord.status, CapStatus.Usable]
  by_cases hslot : p.2 < strandCapTableSize
  · rw [if_neg (not_le.2 hslot), if_pos hslot]
    obtain ⟨x, hx⟩ : ∃ x, ((σ.strand p.1).capTable p.2).status = x := ⟨_, rfl⟩
    by_cases hcap : ((σ.strand p.1).capTable p.2).cap = c <;>
      cases x <;> simp [hx, hvoid, hcap]
  · rw [if_pos (not_lt.1 hslot), if_neg hslot]
    simp [hvoid]

theorem holds_modify {s : S} {f : StrandRecord S M → StrandRecord S M} {slot : ℕ} {x : CapStatus}
    (hf : (f (σ.strand s)).holds c = Function.update ((σ.strand s).holds c) slot x) :
    (σ.modify s f).holds c = Function.update (σ.holds c) (s, slot) x := by
  funext ⟨t, i⟩
  rw [Function.update_apply, holds, strand_modify]
  by_cases ht : t = s
  · subst ht
    rw [if_pos rfl, hf, Function.update_apply]
    simp [holds]
  · simp [holds, ht]

/-- A change of something else than the table. -/
theorem holds_modify_other {s : S} {f : StrandRecord S M → StrandRecord S M}
    (hf : (f (σ.strand s)).capTable = (σ.strand s).capTable) :
    (σ.modify s f).holds c = σ.holds c := by
  funext ⟨t, i⟩
  rw [holds, strand_modify]
  by_cases ht : t = s
  · subst ht
    simp [holds, StrandRecord.holds, hf]
  · simp [holds, ht]

theorem holds_capStore (hc : c.isVoid = false) {s : S} {slot : ℕ}
    (hslot : slot < strandCapTableSize) (cap : Capability) :
    (σ.capStore (some s) slot cap).1.holds c =
      Function.update (σ.holds c) (s, slot) (if cap = c then .owned else .void) := by
  unfold capStore
  dsimp only
  rw [if_neg (not_le.2 hslot)]
  change (σ.modify s (·.capStore slot cap)).holds c = _
  refine holds_modify ?_
  exact StrandRecord.holds_capStore hslot hc cap

theorem holds_capClear {s : S} {slot : ℕ}
    (hslot : slot < strandCapTableSize) :
    (σ.capClear (some s) slot).1.holds c = Function.update (σ.holds c) (s, slot) .void := by
  unfold capClear
  dsimp only
  rw [if_neg (not_le.2 hslot)]
  change (σ.modify s (·.capClear slot)).holds c = _
  refine holds_modify ?_
  exact StrandRecord.holds_capClear hslot c

theorem holds_put {dest : S} {slot : ℕ} (hslot : slot < strandCapTableSize)
    (entry : StrandCapEntry) (wasEmpty : Prop) [Decidable wasEmpty] :
    (σ.modify dest fun r =>
      if wasEmpty then (r.setEntry slot entry).countUp else r.setEntry slot entry).holds c =
      Function.update (σ.holds c) (dest, slot) (entry.holds c) := by
  refine holds_modify ?_
  split
  · rw [StrandRecord.holds_countUp, StrandRecord.holds_setEntry hslot]
  · rw [StrandRecord.holds_setEntry hslot]

theorem holds_receive {dest : S} {slot : ℕ} (hslot : slot < strandCapTableSize)
    (entry : StrandCapEntry) :
    (σ.receive dest slot entry).holds c =
      Function.update (σ.holds c) (dest, slot) (entry.holds c) :=
  holds_put hslot entry _

omit [DecidableEq S] in
/-- What a slot is to a capability, of a status that is known. -/
theorem holds_of_status {s : S} {slot : ℕ} {x : CapStatus} (hslot : slot < strandCapTableSize)
    (hx : (σ.strand s).status slot = x) :
    σ.holds c (s, slot) = if ((σ.strand s).capTable slot).cap = c then x else .void := by
  rw [holds, StrandRecord.holds, if_pos hslot, StrandCapEntry.holds, ← hx]
  rfl

omit [DecidableEq S] in
theorem holds_ne_of_status {s : S} {slot : ℕ} {x : CapStatus} (hx : (σ.strand s).status slot ≠ x)
    (hvoid : .void ≠ x) : σ.holds c (s, slot) ≠ x := by
  simp only [holds, StrandRecord.holds, StrandCapEntry.holds]
  split
  · split
    · exact hx
    · exact hvoid
  · exact hvoid

/-- A grant moves what the source is to the capability, or fails. -/
theorem grant_cases (dest : Option S) (srcSlot destSlot : ℕ) :
    (σ.grant dest srcSlot destSlot).1 = σ ∨
    ∃ src d, σ.current = some src ∧ dest = some d ∧
      (σ.holds c (src, srcSlot) = .owned ∨ σ.holds c (src, srcSlot) = .void) ∧
      (σ.grant dest srcSlot destSlot).1.holds c =
        Function.update (Function.update (σ.holds c) (d, destSlot) (σ.holds c (src, srcSlot)))
          (src, srcSlot) .void := by
  unfold grant
  split
  · rename_i src d hcurrent
    split
    · exact Or.inl rfl
    · rename_i hslots
      split
      · exact Or.inl rfl
      · rename_i howned
        obtain ⟨hsrc, hdest⟩ := not_or.1 hslots
        have hfrom := holds_of_status (c := c) (not_le.1 hsrc) (not_not.1 howned)
        refine Or.inr ⟨src, d, hcurrent, rfl, ?_, ?_⟩
        · rw [hfrom]
          split <;> simp
        · have hentry : StrandCapEntry.holds
              ⟨((σ.strand src).capTable srcSlot).cap, .owned, 0, voidU64⟩ c =
              if ((σ.strand src).capTable srcSlot).cap = c then .owned else .void := rfl
          rw [hfrom, ← hentry, ← holds_receive (not_le.1 hdest)]
          dsimp only
          refine holds_modify ?_
          rw [StrandRecord.holds_countDown, StrandRecord.holds_setEntry (not_le.1 hsrc)]
          exact congrArg _ (ite_self _)
  · exact Or.inl rfl

/-- A loan leaves the source LENT and what it was to the destination, or fails. -/
theorem lend_cases (dest : Option S) (srcSlot destSlot timeout : ℕ) :
    (σ.lend dest srcSlot destSlot timeout).1 = σ ∧
      (dest.isSome = true → destSlot < strandCapTableSize → ∀ src, σ.current = some src →
        σ.holds c (src, srcSlot) ≠ .owned) ∨
    ∃ src d, σ.current = some src ∧ dest = some d ∧
      (σ.holds c (src, srcSlot) = .owned ∧ (σ.lend dest srcSlot destSlot timeout).1.holds c =
        Function.update (Function.update (σ.holds c) (src, srcSlot) .lent) (d, destSlot)
          .borrowed ∨
      σ.holds c (src, srcSlot) = .void ∧ (σ.lend dest srcSlot destSlot timeout).1.holds c =
        Function.update (σ.holds c) (d, destSlot) .void) := by
  unfold lend
  split
  · rename_i src d hcurrent
    split
    · rename_i hslots
      refine Or.inl ⟨rfl, fun _ hdest s hs => ?_⟩
      have hsrc := hslots.resolve_right (not_le.2 hdest)
      simp [holds, StrandRecord.holds, not_lt.2 hsrc]
    · rename_i hslots
      split
      · rename_i hstatus
        refine Or.inl ⟨rfl, fun _ _ s hs => ?_⟩
        obtain rfl := Option.some.inj (hcurrent.symm.trans hs)
        exact holds_ne_of_status hstatus (by decide)
      · rename_i howned
        obtain ⟨hsrc, hdest⟩ := not_or.1 hslots
        have hfrom := holds_of_status (c := c) (not_le.1 hsrc) (not_not.1 howned)
        refine Or.inr ⟨src, d, hcurrent, rfl, ?_⟩
        have hlent : (σ.modify src fun r =>
            r.setEntry srcSlot { r.capTable srcSlot with status := .lent }).holds c =
            Function.update (σ.holds c) (src, srcSlot)
              (if ((σ.strand src).capTable srcSlot).cap = c then .lent else .void) :=
          holds_modify (StrandRecord.holds_setEntry (not_le.1 hsrc) _ c)
        by_cases hcap : ((σ.strand src).capTable srcSlot).cap = c
        · rw [if_pos hcap] at hfrom hlent
          refine Or.inl ⟨hfrom, ?_⟩
          rw [← hlent]
          refine (holds_put (not_le.1 hdest) _ _).trans (congrArg _ ?_)
          exact if_pos hcap
        · rw [if_neg hcap] at hfrom hlent
          refine Or.inr ⟨hfrom, ?_⟩
          rw [← hfrom, Function.update_eq_self] at hlent
          rw [← hlent]
          refine (holds_put (not_le.1 hdest) _ _).trans (congrArg _ ?_)
          exact if_neg hcap
  · rename_i hnone
    refine Or.inl ⟨rfl, fun hdest _ s hs => ?_⟩
    obtain ⟨d, hd⟩ := Option.isSome_iff_exists.1 hdest
    exact absurd hd (hnone s d hs)

/-- A revocation makes a slot that is LENT OWNED again, or fails. -/
theorem revoke_cases (srcSlot : ℕ) :
    (σ.revoke srcSlot).1.holds c = σ.holds c ∧
      (∀ src, σ.current = some src → σ.holds c (src, srcSlot) ≠ .lent) ∨
    ∃ src, σ.current = some src ∧ σ.holds c (src, srcSlot) = .lent ∧
      (σ.revoke srcSlot).1.holds c = Function.update (σ.holds c) (src, srcSlot) .owned := by
  unfold revoke
  cases hcurrent : σ.current with
  | none => exact Or.inl ⟨rfl, by simp⟩
  | some src =>
    dsimp only
    split
    · rename_i hslot
      refine Or.inl ⟨rfl, fun s hs => ?_⟩
      simp [holds, StrandRecord.holds, not_lt.2 hslot]
    · rename_i hslot
      split
      · rename_i hlent
        refine Or.inl ⟨rfl, fun s hs => ?_⟩
        obtain rfl := Option.some.inj hs
        exact holds_ne_of_status hlent (by decide)
      · rename_i hlent
        have hfrom := holds_of_status (c := c) (not_le.1 hslot) (not_not.1 hlent)
        have hafter : (σ.modify src fun r =>
            r.setEntry srcSlot { r.capTable srcSlot with status := .owned }).holds c =
            Function.update (σ.holds c) (src, srcSlot)
              (if ((σ.strand src).capTable srcSlot).cap = c then .owned else .void) :=
          holds_modify (StrandRecord.holds_setEntry (not_le.1 hslot) _ c)
        by_cases hcap : ((σ.strand src).capTable srcSlot).cap = c
        · rw [if_pos hcap] at hfrom hafter
          exact Or.inr ⟨src, rfl, hfrom, hafter⟩
        · rw [if_neg hcap] at hfrom hafter
          refine Or.inl ⟨?_, fun s hs => ?_⟩
          · rw [hafter, ← hfrom, Function.update_eq_self]
          · obtain rfl := Option.some.inj hs
            rw [hfrom]
            decide

/-- A return empties a slot that is BORROWED, or fails. -/
theorem returnCap_cases (slot : ℕ) :
    (σ.returnCap slot).1 = σ ∨
    ∃ current, σ.current = some current ∧
      (σ.returnCap slot).1.holds c = Function.update (σ.holds c) (current, slot) .void := by
  unfold returnCap
  cases hcurrent : σ.current with
  | none => exact Or.inl rfl
  | some current =>
    dsimp only
    split
    · exact Or.inl rfl
    · rename_i hslot
      split
      · exact Or.inl rfl
      · refine Or.inr ⟨current, rfl, ?_⟩
        dsimp only
        refine holds_modify ?_
        rw [StrandRecord.holds_countDown, StrandRecord.holds_setEntry (not_le.1 hslot),
          StrandRecord.holds_empty]

theorem holds_processLends (s : S) (p : S × ℕ) :
    (σ.processLends (some s)).holds c p =
      if p.1 = s ∧ (σ.strand s).Expired (σ.strand s).chronon p.2 then .void else σ.holds c p := by
  rcases p with ⟨t, slot⟩
  simp only [processLends, holds, strand_modify]
  by_cases ht : t = s
  · subst ht
    simp [StrandRecord.holds_processLends]
  · simp [ht]

@[simp] theorem current_revoke (srcSlot : ℕ) : (σ.revoke srcSlot).1.current = σ.current := by
  unfold revoke
  split
  · rfl
  · split
    · rfl
    · split <;> rfl

/-- A slot of an exit. -/
theorem holds_exitSlot {s : S} (hcurrent : σ.current = some s) (i : ℕ) (p : S × ℕ) :
    (if (σ.strand s).status i = .lent then (σ.revoke i).1 else σ).holds c p =
      if p = (s, i) ∧ σ.holds c p = .lent then .owned else σ.holds c p := by
  split
  · obtain ⟨hsame, hnot⟩ | ⟨src, hsrc, hlent, hafter⟩ := revoke_cases (σ := σ) (c := c) i
    · rw [hsame, if_neg]
      rintro ⟨rfl, hlent⟩
      exact hnot s hcurrent hlent
    · obtain rfl : s = src := Option.some.inj (hcurrent.symm.trans hsrc)
      rw [hafter, Function.update_apply]
      by_cases hp : p = (s, i)
      · rw [if_pos hp, if_pos ⟨hp, hp ▸ hlent⟩]
      · rw [if_neg hp, if_neg fun h => hp h.1]
  · rename_i h
    rw [if_neg]
    rintro ⟨rfl, hlent⟩
    exact holds_ne_of_status h (by decide) hlent

/-- An exit revokes what the strand has lent. -/
theorem holds_exit {s : S} (hcurrent : σ.current = some s) (exitCode : ℕ) (p : S × ℕ) :
    (σ.exit exitCode).holds c p =
      if p.1 = s ∧ σ.holds c p = .lent then .owned else σ.holds c p := by
  have hfold : ∀ (slots : List ℕ) (τ : Strands S M), τ.current = some s →
      (slots.foldl (fun σ i => if (σ.strand s).status i = .lent then (σ.revoke i).1 else σ)
        τ).holds c p =
      if p.1 = s ∧ p.2 ∈ slots ∧ τ.holds c p = .lent then .owned else τ.holds c p := by
    intro slots
    induction slots with
    | nil => intro τ _; simp
    | cons i slots ih =>
      intro τ hτ
      have hnext : (if (τ.strand s).status i = .lent then (τ.revoke i).1 else τ).current =
          some s := by
        split
        · rw [current_revoke, hτ]
        · exact hτ
      rw [List.foldl_cons, ih _ hnext, holds_exitSlot hτ]
      have hp : p = (s, i) ↔ p.1 = s ∧ p.2 = i := Prod.ext_iff
      by_cases ht : p.1 = s
      · by_cases hj : p.2 = i
        · by_cases hlent : τ.holds c p = .lent <;> simp [hp, ht, hj, hlent]
        · simp [hp, ht, hj]
      · simp [hp, ht]
  have hslots : p.2 ∈ List.range strandCapTableSize ∨ σ.holds c p ≠ .lent := by
    by_cases hslot : p.2 < strandCapTableSize
    · exact Or.inl (List.mem_range.2 hslot)
    · right
      simp [holds, StrandRecord.holds, hslot]
  unfold exit
  simp only [hcurrent]
  rw [hfold (List.range strandCapTableSize) (σ.modify s _) hcurrent, holds_modify_other rfl]
  rcases hslots with hmem | hlent
  · simp [hmem]
  · simp [hlent]

/-! ## What the operations do to the counts -/

/-- An entry that is not VOID goes into a slot, and is counted where there was none. -/
theorem Counts.put (h : σ.Counts) {dest : S} {slot : ℕ} (hslot : slot < strandCapTableSize)
    {entry : StrandCapEntry} (hentry : entry.status ≠ .void) (wasEmpty : Prop) [Decidable wasEmpty]
    (hempty : wasEmpty ↔ (σ.strand dest).status slot = .void) :
    (σ.modify dest fun r =>
      if wasEmpty then (r.setEntry slot entry).countUp else r.setEntry slot entry).Counts := by
  refine h.modify ?_
  split
  · rename_i hwas
    exact (h dest).setEntry_countUp hslot (hempty.1 hwas) hentry
  · rename_i hwas
    exact (h dest).setEntry hslot (iff_of_false (fun hvoid => hwas (hempty.2 hvoid)) hentry)

theorem Counts.grant (h : σ.Counts) (dest : Option S) (srcSlot destSlot : ℕ) :
    (σ.grant dest srcSlot destSlot).1.Counts := by
  unfold Strands.grant
  split
  · rename_i src d _
    split
    · exact h
    · rename_i hslots
      split
      · exact h
      · rename_i howned
        obtain ⟨hsrc, hdest⟩ := not_or.1 hslots
        have hput : (σ.receive d destSlot
            ⟨((σ.strand src).capTable srcSlot).cap, .owned, 0, voidU64⟩).Counts :=
          h.put (not_le.1 hdest) (by simp) _ Iff.rfl
        dsimp only
        refine hput.modify ?_
        refine (hput src).setEntry_countDown (not_le.1 hsrc) ?_ rfl
        have howned : (σ.strand src).status srcSlot = .owned := not_not.1 howned
        rw [receive, strand_modify]
        split
        · rename_i hself
          split
          all_goals
            simp only [StrandRecord.status_countUp, StrandRecord.status_setEntry, ← hself, howned]
            split <;> simp
        · rw [howned]
          decide
  · exact h

theorem Counts.lend (h : σ.Counts) (dest : Option S) (srcSlot destSlot timeout : ℕ) :
    (σ.lend dest srcSlot destSlot timeout).1.Counts := by
  unfold Strands.lend
  split
  · rename_i src d _
    split
    · exact h
    · rename_i hslots
      split
      · exact h
      · rename_i howned
        obtain ⟨hsrc, hdest⟩ := not_or.1 hslots
        have howned : (σ.strand src).status srcSlot = .owned := not_not.1 howned
        have hlent : (σ.modify src fun r =>
            r.setEntry srcSlot { r.capTable srcSlot with status := .lent }).Counts :=
          h.modify ((h src).setEntry (not_le.1 hsrc)
            (iff_of_false (by rw [howned]; decide) (by simp)))
        refine hlent.put (not_le.1 hdest) (by simp) _ ?_
        rw [strand_modify]
        split
        · rename_i hself
          rw [StrandRecord.status_setEntry]
          split
          · rename_i hslot
            rw [hself, hslot, howned]
            exact iff_of_false (by simp) (by simp)
          · rw [hself]
        · rfl
  · exact h

theorem Counts.revoke (h : σ.Counts) (srcSlot : ℕ) : (σ.revoke srcSlot).1.Counts := by
  unfold Strands.revoke
  split
  · exact h
  · rename_i src _
    split
    · exact h
    · rename_i hslot
      split
      · exact h
      · rename_i hlent
        have hlent : (σ.strand src).status srcSlot = .lent := not_not.1 hlent
        dsimp only
        refine h.modify ?_
        exact (h src).setEntry (not_le.1 hslot) (iff_of_false (by rw [hlent]; decide) (by simp))

theorem Counts.returnCap (h : σ.Counts) (slot : ℕ) : (σ.returnCap slot).1.Counts := by
  unfold Strands.returnCap
  split
  · exact h
  · rename_i current _
    split
    · exact h
    · rename_i hslot
      split
      · exact h
      · rename_i hborrowed
        have hborrowed : (σ.strand current).status slot = .borrowed := not_not.1 hborrowed
        dsimp only
        refine h.modify ?_
        exact (h current).setEntry_countDown (not_le.1 hslot) (by rw [hborrowed]; decide) rfl

theorem Counts.exit (h : σ.Counts) (exitCode : ℕ) : (σ.exit exitCode).Counts := by
  unfold Strands.exit
  split
  · exact h
  · rename_i current _
    have hstart : (σ.modify current fun r =>
        { r with exitCode := exitCode, state := .terminated }).Counts :=
      h.modify (h current)
    dsimp only
    generalize (σ.modify current fun r =>
      { r with exitCode := exitCode, state := .terminated }) = τ at hstart
    generalize List.range strandCapTableSize = slots
    induction slots generalizing τ with
    | nil => exact hstart
    | cons i slots ih =>
      rw [List.foldl_cons]
      refine ih _ ?_
      split
      · exact hstart.revoke i
      · exact hstart

/-! ## Runs -/

/-- An operation on capabilities, by the strand that is current. -/
inductive CapOp (S : Type) where
  | store (strand : Option S) (slot : ℕ) (cap : Capability)
  | clear (strand : Option S) (slot : ℕ)
  | grant (current dest : Option S) (srcSlot destSlot : ℕ)
  | lend (current dest : Option S) (srcSlot destSlot timeout : ℕ)
  | revoke (current : Option S) (srcSlot : ℕ)
  | giveBack (current : Option S) (slot : ℕ)
  | processLends (strand : Option S)
  | exit (current : Option S) (exitCode : ℕ)
  | tick (current : Option S)

/-- An operation, and what it returned. -/
def capStep (σ : Strands S M) : CapOp S → Strands S M × StrandError
  | .store strand slot cap => σ.capStore strand slot cap
  | .clear strand slot => σ.capClear strand slot
  | .grant current dest srcSlot destSlot => (σ.setCurrent current).grant dest srcSlot destSlot
  | .lend current dest srcSlot destSlot timeout =>
    (σ.setCurrent current).lend dest srcSlot destSlot timeout
  | .revoke current srcSlot => (σ.setCurrent current).revoke srcSlot
  | .giveBack current slot => (σ.setCurrent current).returnCap slot
  | .processLends strand => (σ.processLends strand, .ok)
  | .exit current exitCode => ((σ.setCurrent current).exit exitCode, .ok)
  | .tick current => ((σ.setCurrent current).tick, .ok)

/-- The operation stores the capability. -/
def CapOp.stores (c : Capability) : CapOp S → Bool
  | .store strand slot cap => strand.isSome && slot < strandCapTableSize && cap = c
  | _ => false

/-- No table has a capability. -/
def Fresh (σ : Strands S M) : Prop :=
  ∀ s, (σ.strand s).capTable = (fun _ => .empty) ∧ (σ.strand s).capCount = 0

/-- A slot that has lent the capability may use it again by what the operation is meant to do : it
is revoked, or its strand exits, or what is borrowed is returned or expires. -/
def EndsLoan (c : Capability) (σ : Strands S M) (p : S × ℕ) : CapOp S → Prop
  | .revoke current srcSlot => current = some p.1 ∧ srcSlot = p.2
  | .exit current _ => current = some p.1
  | .giveBack current slot => ∃ s, current = some s ∧ σ.holds c (s, slot) = .borrowed
  | .processLends strand => ∃ s i, strand = some s ∧ σ.holds c (s, i) = .borrowed ∧
    (σ.strand s).Expired (σ.strand s).chronon i
  | _ => False

/-- The operation lends what the slot has. -/
def CapOp.Lends (p : S × ℕ) : CapOp S → Prop
  | .lend current dest srcSlot destSlot _ => current = some p.1 ∧ srcSlot = p.2 ∧
    dest.isSome = true ∧ destSlot < strandCapTableSize
  | _ => False

/-- At most one slot of one strand may use the capability. -/
def Exclusive (c : Capability) (σ : Strands S M) : Prop :=
  ∀ p q : S × ℕ, σ.capGet (some p.1) p.2 = c → σ.capGet (some q.1) q.2 = c → p = q

/-- The lender may use the capability again when its loan ends, and not before. -/
structure LoanKept (c : Capability) (σ : Strands S M) (a : CapOp S) : Prop where
  lent : ∀ p, σ.holds c p = .owned → a.Lends p → (capStep σ a).1.capGet (some p.1) p.2 ≠ c
  back : ∀ p, σ.holds c p = .lent →
    ((capStep σ a).1.capGet (some p.1) p.2 = c ↔ EndsLoan c σ p a)

/-- No loan ends on one side only, and no slot lends to itself. -/
def Settles (c : Capability) (σ : Strands S M) : CapOp S → Prop
  | .lend current dest srcSlot destSlot _ => ∀ s, current = some s → dest = some s →
    srcSlot = destSlot → σ.holds c (s, srcSlot) ≠ .owned
  | .revoke current srcSlot => ∀ s, current = some s → σ.holds c (s, srcSlot) = .lent →
    ∀ p, σ.holds c p ≠ .borrowed
  | .exit current _ => ∀ s i, current = some s → σ.holds c (s, i) = .lent →
    ∀ p, σ.holds c p ≠ .borrowed
  | .giveBack current slot => ∀ s, current = some s → σ.holds c (s, slot) = .borrowed →
    ∀ p, σ.holds c p ≠ .lent
  | .processLends strand => ∀ s i, strand = some s → σ.holds c (s, i) = .borrowed →
    (σ.strand s).Expired (σ.strand s).chronon i → ∀ p, σ.holds c p ≠ .lent
  | _ => True

/-- What one operation keeps of a capability. -/
structure StepKeeps (c : Capability) (σ : Strands S M) (a : CapOp S) : Prop where
  linear : Linear ((capStep σ a).1.holds c)
  loan : LoanKept c σ a
  nowhere : a.stores c = false → (∀ p, σ.holds c p = .void) →
    ∀ p, (capStep σ a).1.holds c p = .void

section steps

variable (hc : c.isVoid = false) {a : CapOp S}
include hc

/-- An operation that takes the capability from some places at most, and ends no loan. -/
theorem StepKeeps.of_mono (hlin : Linear (σ.holds c))
    (hle : ∀ p, (capStep σ a).1.holds c p = σ.holds c p ∨ (capStep σ a).1.holds c p = .void)
    (hends : ∀ p, σ.holds c p = .lent → ¬EndsLoan c σ p a)
    (hlends : ∀ p, σ.holds c p = .owned → ¬a.Lends p) : StepKeeps c σ a := by
  refine ⟨hlin.mono hle, ⟨fun p hp hlend => absurd hlend (hlends p hp), fun p hp => ?_⟩,
    fun _ hnone p => ?_⟩
  · rw [capGet_eq_iff hc]
    refine iff_of_false ?_ (hends p hp)
    rcases hle p with h | h <;> rw [h]
    · rw [hp]
      simp [CapStatus.Usable]
    · simp [CapStatus.Usable]
  · rcases hle p with h | h
    · rw [h, hnone p]
    · exact h

/-- An operation on a capability that an owner has. -/
theorem StepKeeps.of_owned {p : S × ℕ} (hlin : Linear (σ.holds c)) (hp : σ.holds c p = .owned)
    (hafter : Linear ((capStep σ a).1.holds c))
    (hlends : a.Lends p → (capStep σ a).1.holds c p = .lent) : StepKeeps c σ a := by
  have hother : ∀ q, σ.holds c q ≠ .void → q = p := fun q hq =>
    not_not.1 fun hne => hq (hlin.only_owned hp hne)
  refine ⟨hafter, ⟨fun q hq hlend => ?_, fun q hq => ?_⟩, fun _ hnone => ?_⟩
  · obtain rfl := hother q (by rw [hq]; decide)
    rw [Ne, capGet_eq_iff hc, hlends hlend]
    simp [CapStatus.Usable]
  · obtain rfl := hother q (by rw [hq]; decide)
    rw [hp] at hq
    cases hq
  · rw [hnone p] at hp
    cases hp

/-- An operation that gives the lender its capability back, which nobody has borrowed. -/
theorem StepKeeps.of_back {p : S × ℕ} (hlin : Linear (σ.holds c)) (hp : σ.holds c p = .lent)
    (hborrowed : ∀ q, σ.holds c q ≠ .borrowed)
    (hafter : ∀ q, (capStep σ a).1.holds c q = if q = p then .owned else σ.holds c q)
    (hends : EndsLoan c σ p a) : StepKeeps c σ a := by
  have hother : ∀ q, q ≠ p → σ.holds c q = .void := fun q hq => hlin.only_lent hp hborrowed hq
  refine ⟨.of_only (p := p) fun q hq => ?_, ⟨fun q hq => ?_, fun q hq => ?_⟩, fun _ hnone => ?_⟩
  · rw [hafter, if_neg hq, hother q hq]
  · by_cases hqp : q = p
    · rw [hqp, hp] at hq
      cases hq
    · rw [hother q hqp] at hq
      cases hq
  · obtain rfl : q = p := not_not.1 fun hne => by
      rw [hother q hne] at hq
      cases hq
    rw [capGet_eq_iff hc, hafter, if_pos rfl]
    exact iff_of_true (Or.inl rfl) hends
  · rw [hnone p] at hp
    cases hp

/-- A store of a capability that is nowhere, or of another one. -/
theorem store_keeps (hlin : Linear (σ.holds c)) {strand : Option S} {slot : ℕ} {cap : Capability}
    (honce : CapOp.stores c (.store strand slot cap) = true → ∀ p, σ.holds c p = .void) :
    StepKeeps c σ (.store strand slot cap) := by
  cases strand with
  | none => exact .of_mono hc hlin (fun _ => Or.inl rfl) (fun _ _ => id) fun _ _ => id
  | some s =>
    by_cases hslot : slot < strandCapTableSize
    · have hafter := holds_capStore (σ := σ) hc hslot (s := s) cap
      by_cases hcap : cap = c
      · have hnone := honce (by simp [CapOp.stores, hslot, hcap])
        rw [if_pos hcap] at hafter
        refine ⟨.of_only (p := (s, slot)) fun q hq => ?_, ⟨fun _ _ => False.elim, fun p hp => ?_⟩,
          fun hnot => ?_⟩
        · rw [capStep, hafter, Function.update_apply, if_neg hq, hnone]
        · rw [hnone p] at hp
          cases hp
        · simp [CapOp.stores, hslot, hcap] at hnot
      · rw [if_neg hcap] at hafter
        refine .of_mono hc hlin (fun p => ?_) (fun _ _ => id) fun _ _ => id
        rw [capStep, hafter, Function.update_apply]
        split
        · exact Or.inr rfl
        · exact Or.inl rfl
    · have hfails : (σ.capStore (some s) slot cap).1 = σ :=
        congrArg Prod.fst (if_pos (not_lt.1 hslot))
      refine .of_mono hc hlin (fun p => Or.inl ?_) (fun _ _ => id) fun _ _ => id
      rw [capStep, hfails]

theorem clear_keeps (hlin : Linear (σ.holds c)) {strand : Option S} {slot : ℕ} :
    StepKeeps c σ (.clear strand slot) := by
  refine .of_mono hc hlin (fun p => ?_) (fun _ _ => id) fun _ _ => id
  cases strand with
  | none => exact Or.inl rfl
  | some s =>
    rw [capStep]
    by_cases hslot : slot < strandCapTableSize
    · rw [holds_capClear hslot, Function.update_apply]
      split
      · exact Or.inr rfl
      · exact Or.inl rfl
    · have hfails : (σ.capClear (some s) slot).1 = σ :=
        congrArg Prod.fst (if_pos (not_lt.1 hslot))
      rw [hfails]
      exact Or.inl rfl

theorem grant_keeps (hlin : Linear (σ.holds c)) {current dest : Option S} {srcSlot destSlot : ℕ} :
    StepKeeps c σ (.grant current dest srcSlot destSlot) := by
  rcases grant_cases (σ := σ.setCurrent current) (c := c) dest srcSlot destSlot with
    hfails | ⟨src, d, -, -, howned | hvoid, hafter⟩
  · refine .of_mono hc hlin (fun p => Or.inl ?_) (fun _ _ => id) fun _ _ => id
    rw [capStep, hfails]
    rfl
  · refine .of_owned (p := (src, srcSlot)) hc hlin howned ?_ False.elim
    refine .of_only (p := (d, destSlot)) fun q hq => ?_
    rw [capStep, hafter, Function.update_apply]
    split
    · rfl
    · rename_i hne
      rw [Function.update_apply, if_neg hq]
      exact hlin.only_owned howned hne
  · refine .of_mono hc hlin (fun p => ?_) (fun _ _ => id) fun _ _ => id
    rw [capStep, hafter, hvoid, Function.update_apply, Function.update_apply]
    split
    · exact Or.inr rfl
    · split
      · exact Or.inr rfl
      · exact Or.inl rfl

theorem lend_keeps (hlin : Linear (σ.holds c)) {current dest : Option S}
    {srcSlot destSlot timeout : ℕ}
    (hsettles : Settles c σ (.lend current dest srcSlot destSlot timeout)) :
    StepKeeps c σ (.lend current dest srcSlot destSlot timeout) := by
  rcases lend_cases (σ := σ.setCurrent current) (c := c) dest srcSlot destSlot timeout with
    ⟨hfails, hnot⟩ | ⟨src, d, hcurrent, hd, ⟨howned, hafter⟩ | ⟨hvoid, hafter⟩⟩
  · refine .of_mono hc hlin (fun p => Or.inl ?_) (fun _ _ => id) ?_
    · rw [capStep, hfails]
      rfl
    · rintro ⟨s, _⟩ howned ⟨hs, rfl, hsome, hslot⟩
      exact hnot hsome hslot s hs howned
  · have hne : (src, srcSlot) ≠ (d, destSlot) := by
      intro heq
      obtain ⟨rfl, rfl⟩ := Prod.ext_iff.1 heq
      exact hsettles src hcurrent hd rfl howned
    have hp : (capStep σ (.lend current dest srcSlot destSlot timeout)).1.holds c
        (src, srcSlot) = .lent := by
      rw [capStep, hafter, Function.update_apply, if_neg hne, Function.update_self]
    refine .of_owned (p := (src, srcSlot)) hc hlin howned ?_ fun _ => hp
    refine .of_lent (q := (d, destSlot)) hp ?_ fun r hrp hrq => ?_
    · rw [capStep, hafter, Function.update_self]
    · rw [capStep, hafter, Function.update_apply, if_neg hrq, Function.update_apply, if_neg hrp]
      exact hlin.only_owned howned hrp
  · refine .of_mono hc hlin (fun p => ?_) (fun _ _ => id) ?_
    · rw [capStep, hafter, Function.update_apply]
      split
      · exact Or.inr rfl
      · exact Or.inl rfl
    · rintro ⟨s, _⟩ howned ⟨hs, rfl, -, -⟩
      obtain rfl := Option.some.inj (hcurrent.symm.trans hs)
      exact absurd (hvoid.symm.trans howned) (by decide)

theorem revoke_keeps (hlin : Linear (σ.holds c)) {current : Option S} {srcSlot : ℕ}
    (hsettles : Settles c σ (.revoke current srcSlot)) :
    StepKeeps c σ (.revoke current srcSlot) := by
  rcases revoke_cases (σ := σ.setCurrent current) (c := c) srcSlot with
    ⟨hsame, hnot⟩ | ⟨src, hcurrent, hlent, hafter⟩
  · refine .of_mono hc hlin (fun p => Or.inl ?_) ?_ fun _ _ => id
    · rw [capStep, hsame]
      rfl
    · rintro ⟨s, _⟩ hlent ⟨hs, rfl⟩
      exact hnot s hs hlent
  · refine .of_back (p := (src, srcSlot)) hc hlin hlent (hsettles src hcurrent hlent) (fun q => ?_)
      ⟨hcurrent, rfl⟩
    rw [capStep, hafter, Function.update_apply]
    rfl

theorem giveBack_keeps (hlin : Linear (σ.holds c)) {current : Option S} {slot : ℕ}
    (hsettles : Settles c σ (.giveBack current slot)) : StepKeeps c σ (.giveBack current slot) := by
  refine .of_mono hc hlin (fun p => ?_) ?_ fun _ _ => id
  · rcases returnCap_cases (σ := σ.setCurrent current) (c := c) slot with
      hfails | ⟨s, -, hafter⟩
    · left
      rw [capStep, hfails]
      rfl
    · rw [capStep, hafter, Function.update_apply]
      split
      · exact Or.inr rfl
      · exact Or.inl rfl
  · rintro p hlent ⟨s, hs, hborrowed⟩
    exact hsettles s hs hborrowed p hlent

theorem processLends_keeps (hlin : Linear (σ.holds c)) {strand : Option S}
    (hsettles : Settles c σ (.processLends strand)) : StepKeeps c σ (.processLends strand) := by
  refine .of_mono hc hlin (fun p => ?_) ?_ fun _ _ => id
  · cases strand with
    | none => exact Or.inl rfl
    | some s =>
      rw [capStep, holds_processLends]
      split
      · exact Or.inr rfl
      · exact Or.inl rfl
  · rintro p hlent ⟨s, i, hs, hborrowed, hexpired⟩
    exact hsettles s i hs hborrowed hexpired p hlent

theorem exit_keeps (hlin : Linear (σ.holds c)) {current : Option S} {exitCode : ℕ}
    (hsettles : Settles c σ (.exit current exitCode)) : StepKeeps c σ (.exit current exitCode) := by
  cases current with
  | none =>
    refine .of_mono hc hlin (fun p => Or.inl rfl) (fun p _ hends => ?_) fun _ _ => id
    cases hends
  | some s =>
    have hafter := holds_exit (σ := σ.setCurrent (some s)) (c := c) rfl exitCode
    by_cases hlent : ∃ i, σ.holds c (s, i) = .lent
    · obtain ⟨i, hlent⟩ := hlent
      refine .of_back (p := (s, i)) hc hlin hlent (hsettles s i rfl hlent) (fun q => ?_) rfl
      rw [capStep, hafter]
      refine if_congr ⟨fun h => ?_, fun h => ?_⟩ rfl rfl
      · exact hlin.kept _ _ (Or.inr h.2) (Or.inr hlent)
      · exact ⟨congrArg Prod.fst h, h ▸ hlent⟩
    · have hnot : ∀ p : S × ℕ, p.1 = s → σ.holds c p ≠ .lent := by
        rintro ⟨_, i⟩ rfl hp
        exact hlent ⟨i, hp⟩
      refine .of_mono hc hlin (fun p => Or.inl ?_) (fun p hp hends => ?_) fun _ _ => id
      · rw [capStep, hafter]
        exact if_neg fun h => hnot p h.1 h.2
      · exact hnot p (Option.some.inj hends).symm hp

theorem tick_keeps (hlin : Linear (σ.holds c)) {current : Option S} :
    StepKeeps c σ (.tick current) := by
  refine .of_mono hc hlin (fun p => Or.inl ?_) (fun _ _ => id) fun _ _ => id
  cases current with
  | none => rfl
  | some s =>
    have hafter : ((σ.setCurrent (some s)).modify s fun r =>
        { r with chronon := chrononAdd r.chronon 1 }).holds c = σ.holds c :=
      holds_modify_other (σ := σ.setCurrent (some s)) rfl
    exact congrFun hafter p

/-- Every operation that settles its loans keeps the capability linear. -/
theorem capStep_keeps (hlin : Linear (σ.holds c)) (hsettles : Settles c σ a)
    (honce : a.stores c = true → ∀ p, σ.holds c p = .void) : StepKeeps c σ a := by
  cases a with
  | store strand slot cap => exact store_keeps hc hlin honce
  | clear strand slot => exact clear_keeps hc hlin
  | grant current dest srcSlot destSlot => exact grant_keeps hc hlin
  | lend current dest srcSlot destSlot timeout => exact lend_keeps hc hlin hsettles
  | revoke current srcSlot => exact revoke_keeps hc hlin hsettles
  | giveBack current slot => exact giveBack_keeps hc hlin hsettles
  | processLends strand => exact processLends_keeps hc hlin hsettles
  | exit current exitCode => exact exit_keeps hc hlin hsettles
  | tick current => exact tick_keeps hc hlin

/-- Runs in which the capability is stored once at most, from where it is stored or nowhere. -/
theorem run_keeps {ops : List (CapOp S)} (hlin : Linear (σ.holds c))
    (honce : ops.countP (·.stores c) ≤ 1)
    (hnowhere : 0 < ops.countP (·.stores c) → ∀ p, σ.holds c p = .void)
    (hguarded : Runs.Guarded capStep (Settles c) σ ops) :
    Linear ((Runs.run capStep σ ops).holds c) ∧
      ∀ call ∈ Runs.calls capStep σ ops, LoanKept c call.before call.op := by
  induction ops generalizing σ with
  | nil => exact ⟨hlin, fun call hcall => by cases hcall⟩
  | cons a ops ih =>
    rw [List.countP_cons] at honce hnowhere
    have hstep := capStep_keeps hc hlin hguarded.1 fun hstores =>
      hnowhere (by rw [if_pos hstores]; omega)
    have hnext : 0 < ops.countP (·.stores c) → ∀ p, (capStep σ a).1.holds c p = .void := by
      intro hlater
      refine hstep.nowhere (Bool.eq_false_iff.2 fun hstores => ?_) (hnowhere (by omega))
      rw [if_pos hstores] at honce
      omega
    obtain ⟨hrun, hcalls⟩ := ih hstep.linear (by omega) hnext hguarded.2
    refine ⟨hrun, fun call hcall => ?_⟩
    rcases List.mem_cons.1 hcall with rfl | hcall
    · exact hstep.loan
    · exact hcalls call hcall

end steps

theorem capStep_counts (h : σ.Counts) (a : CapOp S) : (capStep σ a).1.Counts := by
  cases a with
  | store strand slot cap =>
    cases strand with
    | none => exact h
    | some s =>
      simp only [capStep, Strands.capStore]
      split
      · exact h
      · rename_i hslot
        dsimp only
        refine h.modify ?_
        exact (h s).capStore (not_le.1 hslot) cap
  | clear strand slot =>
    cases strand with
    | none => exact h
    | some s =>
      simp only [capStep, Strands.capClear]
      split
      · exact h
      · rename_i hslot
        dsimp only
        refine h.modify ?_
        exact (h s).capClear (not_le.1 hslot)
  | grant current dest srcSlot destSlot =>
    exact Counts.grant (σ := σ.setCurrent current) h dest srcSlot destSlot
  | lend current dest srcSlot destSlot timeout =>
    exact Counts.lend (σ := σ.setCurrent current) h dest srcSlot destSlot timeout
  | revoke current srcSlot => exact Counts.revoke (σ := σ.setCurrent current) h srcSlot
  | giveBack current slot => exact Counts.returnCap (σ := σ.setCurrent current) h slot
  | processLends strand =>
    cases strand with
    | none => exact h
    | some s => exact h.modify (h s).processLends
  | exit current exitCode => exact Counts.exit (σ := σ.setCurrent current) h exitCode
  | tick current =>
    cases current with
    | none => exact h
    | some s =>
      have htick : ((σ.setCurrent (some s)).modify s fun r =>
          { r with chronon := chrononAdd r.chronon 1 }).Counts :=
        Counts.modify (σ := σ.setCurrent (some s)) h (h s)
      exact htick

omit [DecidableEq S] in
theorem Fresh.counts (h : Fresh σ) : σ.Counts := by
  intro s
  obtain ⟨htable, hcount⟩ := h s
  simp [StrandRecord.Counted, StrandRecord.nonVoid, StrandRecord.status, htable, hcount,
    StrandCapEntry.empty]

omit [DecidableEq S] in
theorem Fresh.holds (h : Fresh σ) (p : S × ℕ) : σ.holds c p = .void := by
  simp [Strands.holds, StrandRecord.holds, (h p.1).1]

/-- `cap_count` is right in every run, and a capability that is stored once stays linear in runs
that settle its loans. -/
theorem strandCaps_linear (σ : Strands S M) (ops : List (CapOp S)) (hfresh : Fresh σ) :
    (∀ s, ((Runs.run capStep σ ops).strand s).Counted) ∧
    ∀ c : Capability, c.isVoid = false → ops.countP (·.stores c) ≤ 1 →
      Runs.Guarded capStep (Settles c) σ ops →
      Exclusive c (Runs.run capStep σ ops) ∧
        ∀ call ∈ Runs.calls capStep σ ops, LoanKept c call.before call.op := by
  refine ⟨Runs.run_invariant (I := Counts) (fun σ a h => capStep_counts h a) hfresh.counts ops,
    fun c hc honce hguarded => ?_⟩
  have hvoid : ∀ p : S × ℕ, σ.holds c p ≠ .void → False := fun p hp => hp (hfresh.holds p)
  have hlin : Linear (σ.holds c) := by
    refine ⟨fun p q hp _ => ?_, fun p q hp _ => ?_⟩
    · exact (hvoid p (by rcases hp with hp | hp <;> rw [hp] <;> decide)).elim
    · exact (hvoid p (by rcases hp with hp | hp <;> rw [hp] <;> decide)).elim
  obtain ⟨hrun, hcalls⟩ := run_keeps hc hlin honce (fun _ => hfresh.holds) hguarded
  refine ⟨fun p q hp hq => ?_, hcalls⟩
  rw [capGet_eq_iff hc] at hp hq
  exact hrun.usable p q hp hq

/-- Two strands with empty tables. -/
def unborn : Strands Bool Unit where
  strand := fun s => .create s.toNat
  mutex := fun _ => mutexInit 24 1
  current := none

/-- A capability to lend. -/
def token : Capability :=
  .create 4096 16 1 permRead

/-- One strand stores the token, lends it to the other and revokes the loan. -/
def revoked : List (CapOp Bool) :=
  [.store (some false) 0 token, .lend (some false) (some true) 0 0 voidU64, .revoke (some false) 0]

theorem fresh_unborn : Fresh unborn :=
  fun _ => ⟨rfl, rfl⟩

/-- Before the revocation, the borrower alone may use the token. -/
theorem strandCaps_linear_lent :
    Exclusive token (Runs.run capStep unborn (revoked.take 2)) := by
  refine ((strandCaps_linear unborn (revoked.take 2) fresh_unborn).2 token (by decide) (by decide)
    ⟨trivial, fun s hcurrent hdest => ?_, trivial⟩).1
  cases hcurrent
  cases hdest

/-- After it, both may. -/
theorem not_exclusive_revoked : Fresh unborn ∧ revoked.countP (·.stores token) = 1 ∧
    ¬Exclusive token (Runs.run capStep unborn revoked) := by
  refine ⟨fresh_unborn, by decide, fun h => ?_⟩
  have heq := h (false, 0) (true, 0) (by decide) (by decide)
  cases heq

end Strands

end Seraph
