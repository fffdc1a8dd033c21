import Mathlib.Data.List.Perm.Subperm
import Seraph.Aether
import Seraph.DoublyLinked

/-!
# The order of the page cache

With the null pointer as the mark, the links of the valid entries form a ring (`LruLinks`) that
starts with the entry used last. The other slots may have links that were left there when the cache
was cleared; such links lead to other such slots, and back, so that taking a slot out of what is
left of its old list touches no valid entry. `lruTouch` brings an entry to the front, whether it
was in the list or not (`LruLinks.touch_mem`, `LruLinks.touch_new`), and `lruRemove` takes it out.
-/

namespace Seraph

open DoublyLinked

namespace AetherCache

/-- The successor of a slot, or of the mark. -/
def nextOf (c : AetherCache) : Option ℕ → Option ℕ
  | none => c.lruHead
  | some i => (c.entries i).lruNext

/-- The predecessor of a slot, or of the mark. -/
def prevOf (c : AetherCache) : Option ℕ → Option ℕ
  | none => c.lruTail
  | some i => (c.entries i).lruPrev

end AetherCache

/-- What an entry says of its page. -/
structure PageInfo where
  aetherAddr : ℕ
  localPage : ByteMem.Memory
  ownerNode : ℕ
  generation : ℕ
  dirty : Bool

/-- An entry without its links. -/
def CacheEntry.info (e : CacheEntry) : PageInfo :=
  ⟨e.aetherAddr, e.localPage, e.ownerNode, e.generation, e.dirty⟩

/-- Two caches that differ in their links only. -/
structure SamePages (c c' : AetherCache) : Prop where
  capacity : c'.capacity = c.capacity
  count : c'.count = c.count
  info : ∀ i, (c'.entries i).info = (c.entries i).info
  valid : ∀ i, (c'.entries i).valid = (c.entries i).valid

/-- Links of slots outside of the list lead to such slots, and back. -/
def Stale (next prev : Option ℕ → Option ℕ) (order : List ℕ) : Prop :=
  ∀ i ∉ order, ∀ j, (next (some i) = some j → j ∉ order ∧ prev (some j) = some i) ∧
    (prev (some i) = some j → j ∉ order ∧ next (some j) = some i)

/-- The links go through the slots in this order. -/
structure LruLinks (c : AetherCache) (order : List ℕ) : Prop where
  ring : Ring c.nextOf c.prevOf none (order.map some)
  stale : Stale c.nextOf c.prevOf order

namespace SamePages

theorem refl (c : AetherCache) : SamePages c c :=
  ⟨rfl, rfl, fun _ => rfl, fun _ => rfl⟩

theorem trans {c c' c'' : AetherCache} (h : SamePages c c') (h' : SamePages c' c'') :
    SamePages c c'' :=
  ⟨h'.capacity.trans h.capacity, h'.count.trans h.count, fun i => (h'.info i).trans (h.info i),
    fun i => (h'.valid i).trans (h.valid i)⟩

/-- Assignments to the links of one entry. -/
theorem modify (c : AetherCache) (i : ℕ) {f : CacheEntry → CacheEntry}
    (hf : ∀ e, (f e).info = e.info ∧ (f e).valid = e.valid) : SamePages c (c.modify i f) := by
  refine ⟨rfl, rfl, fun j => ?_, fun j => ?_⟩
  all_goals
    by_cases h : j = i
    · subst h
      simp [AetherCache.modify, hf]
    · simp [AetherCache.modify, h]

theorem setNext (c : AetherCache) (q p : Option ℕ) : SamePages c (c.setNext q p) := by
  cases p with
  | none => exact refl c
  | some i => exact modify c i (f := fun e => { e with lruNext := q }) fun _ => ⟨rfl, rfl⟩

theorem setPrev (c : AetherCache) (q p : Option ℕ) : SamePages c (c.setPrev q p) := by
  cases p with
  | none => exact refl c
  | some i => exact modify c i (f := fun e => { e with lruPrev := q }) fun _ => ⟨rfl, rfl⟩

end SamePages

namespace AetherCache

variable {c : AetherCache} {order : List ℕ} {i : ℕ} {p q : Option ℕ}

/-! ## Writing links -/

/-- Assignments to an entry. -/
theorem modify_links (c : AetherCache) (i : ℕ) (f : CacheEntry → CacheEntry) :
    (c.modify i f).nextOf = Function.update c.nextOf (some i) (f (c.entries i)).lruNext ∧
      (c.modify i f).prevOf = Function.update c.prevOf (some i) (f (c.entries i)).lruPrev := by
  refine ⟨funext fun x => ?_, funext fun x => ?_⟩
  all_goals
    rcases x with _ | j
    · rfl
    · by_cases h : j = i
      · subst h
        simp [nextOf, prevOf, modify]
      · simp [nextOf, prevOf, modify, h]

theorem setNext_links (c : AetherCache) (q p : Option ℕ) :
    (c.setNext q p).nextOf = (if p = none then c.nextOf else Function.update c.nextOf p q) ∧
      (c.setNext q p).prevOf = c.prevOf := by
  cases p with
  | none => exact ⟨rfl, rfl⟩
  | some i =>
    obtain ⟨hnext, hprev⟩ := c.modify_links i fun e => { e with lruNext := q }
    exact ⟨hnext, hprev.trans (Function.update_eq_self _ _)⟩

theorem setPrev_links (c : AetherCache) (q p : Option ℕ) :
    (c.setPrev q p).nextOf = c.nextOf ∧
      (c.setPrev q p).prevOf = if p = none then c.prevOf else Function.update c.prevOf p q := by
  cases p with
  | none => exact ⟨rfl, rfl⟩
  | some i =>
    obtain ⟨hnext, hprev⟩ := c.modify_links i fun e => { e with lruPrev := q }
    exact ⟨hnext.trans (Function.update_eq_self _ _), hprev⟩

/-- Writing both ends. -/
theorem setEnds_links (c : AetherCache) (p q : Option ℕ) :
    ({ c with lruHead := p, lruTail := q } : AetherCache).nextOf =
        Function.update c.nextOf none p ∧
      ({ c with lruHead := p, lruTail := q } : AetherCache).prevOf =
        Function.update c.prevOf none q := by
  refine ⟨funext fun x => ?_, funext fun x => ?_⟩
  all_goals cases x <;> rfl

/-- The first half of `cache_lru_touch` : the entry leaves its place. -/
def detach (c : AetherCache) (i : ℕ) : AetherCache :=
  let c := c.setNext (c.entries i).lruNext (c.entries i).lruPrev
  let c := c.setPrev (c.entries i).lruPrev (c.entries i).lruNext
  if c.lruTail = some i then { c with lruTail := (c.entries i).lruPrev } else c

/-- The second half of `cache_lru_touch` : the entry comes to the front. -/
def pushFront (c : AetherCache) (i : ℕ) : AetherCache :=
  let c := c.modify i fun e => { e with lruPrev := none, lruNext := c.lruHead }
  let c := c.setPrev (some i) c.lruHead
  let c := { c with lruHead := some i }
  if c.lruTail = none then { c with lruTail := some i } else c

theorem lruTouch_eq (c : AetherCache) (i : ℕ) :
    c.lruTouch i = if c.lruHead = some i then c else (c.detach i).pushFront i :=
  rfl

theorem lruTail_setNext : (c.setNext q p).lruTail = c.lruTail := by
  cases p <;> rfl

theorem lruTail_setPrev : (c.setPrev q p).lruTail = c.lruTail := by
  cases p <;> rfl

/-- The links after an entry has left its place. -/
theorem detach_links (c : AetherCache) (i : ℕ) :
    let p := c.prevOf (some i)
    let n := c.nextOf (some i)
    (c.detach i).nextOf = (if p = none then c.nextOf else Function.update c.nextOf p n) ∧
      ∃ prev, prev = (if n = none then c.prevOf else Function.update c.prevOf n p) ∧
        (c.detach i).prevOf = if c.lruTail = some i then Function.update prev none p else prev := by
  intro p n
  obtain ⟨c₁, hc₁⟩ : ∃ c₁, c₁ = c.setNext n p := ⟨_, rfl⟩
  obtain ⟨hnext₁, hprev₁⟩ := hc₁ ▸ c.setNext_links n p
  obtain ⟨c₂, hc₂⟩ : ∃ c₂, c₂ = c₁.setPrev p n := ⟨_, rfl⟩
  obtain ⟨hnext₂, hprev₂⟩ := hc₂ ▸ c₁.setPrev_links p n
  -- the two writes do not change the links of the entry itself
  have hself₁ : (c₁.entries i).lruNext = n ∧ (c₁.entries i).lruPrev = p := by
    refine ⟨(congrFun hnext₁ (some i)).trans ?_, congrFun hprev₁ (some i)⟩
    split
    · rfl
    · rw [Function.update_apply, ite_self]
  have hself₂ : (c₂.entries i).lruPrev = p := by
    refine (congrFun hprev₂ (some i)).trans ?_
    rw [hprev₁]
    split
    · rfl
    · rw [Function.update_apply, ite_self]
  have htail : c₂.lruTail = c.lruTail := by
    rw [hc₂, hc₁, lruTail_setPrev, lruTail_setNext]
  have hdetach : c.detach i = if c.lruTail = some i then { c₂ with lruTail := p } else c₂ := by
    have hunfold : c.detach i = if c₂.lruTail = some i then
        { c₂ with lruTail := (c₂.entries i).lruPrev } else c₂ := by
      rw [hc₂, ← hself₁.1, ← hself₁.2, hc₁]
      rfl
    rw [hunfold, htail, hself₂]
  refine ⟨?_, _, rfl, ?_⟩
  · rw [hdetach, ← hnext₁, ← hnext₂]
    split
    · funext x
      cases x <;> rfl
    · rfl
  · rw [hdetach, ← hprev₁, ← hprev₂]
    split
    · funext x
      cases x <;> rfl
    · rfl

/-- The links after an entry has come to the front. -/
theorem pushFront_links (c : AetherCache) (i : ℕ) (h : c.lruHead = none ↔ c.lruTail = none) :
    ((c.pushFront i).nextOf, (c.pushFront i).prevOf) =
      DoublyLinked.push (c.nextOf, c.prevOf) none (some i) := by
  obtain ⟨c₁, hc₁⟩ : ∃ c₁, c₁ = c.modify i fun e =>
    { e with lruPrev := none, lruNext := c.lruHead } := ⟨_, rfl⟩
  obtain ⟨hnext₁, hprev₁⟩ := hc₁ ▸ c.modify_links i fun e =>
    { e with lruPrev := none, lruNext := c.lruHead }
  have hpush : c.pushFront i = if (c₁.setPrev (some i) c.lruHead).lruTail = none then
      { c₁.setPrev (some i) c.lruHead with lruHead := some i, lruTail := some i }
      else { c₁.setPrev (some i) c.lruHead with lruHead := some i } := by
    rw [hc₁]
    rfl
  have htail : (c₁.setPrev (some i) c.lruHead).lruTail = c.lruTail := by
    rw [lruTail_setPrev, hc₁]
    rfl
  have hgoal : DoublyLinked.push (c.nextOf, c.prevOf) none (some i) =
      (Function.update c₁.nextOf none (some i), Function.update c₁.prevOf c.lruHead (some i)) := by
    rw [hnext₁, hprev₁]
    rfl
  rw [hpush, htail, hgoal]
  by_cases hhead : c.lruHead = none
  · have hnone : c₁.setPrev (some i) c.lruHead = c₁ := by rw [hhead]; rfl
    rw [if_pos (h.1 hhead), hnone, hhead]
    exact Prod.ext (setEnds_links c₁ (some i) (some i)).1 (setEnds_links c₁ (some i) (some i)).2
  · obtain ⟨hnext, hprev⟩ := c₁.setPrev_links (some i) c.lruHead
    rw [if_neg hhead] at hprev
    rw [if_neg fun htail => hhead (h.2 htail), ← hprev, ← hnext]
    refine Prod.ext ?_ ?_
    · funext x
      cases x <;> rfl
    · funext x
      cases x <;> rfl

end AetherCache

namespace LruLinks

open AetherCache

variable {c : AetherCache} {order : List ℕ} {i : ℕ}

theorem nodup (h : LruLinks c order) : order.Nodup :=
  List.Nodup.of_map _ (List.nodup_cons.1 h.ring.nodup).2

theorem tail_eq_none (h : LruLinks c order) : c.lruTail = none ↔ order = [] := by
  have hiff := h.ring.reverse.eq_nil_iff
  rw [List.reverse_eq_nil_iff, List.map_eq_nil_iff] at hiff
  exact hiff.symm

/-- Links of slots outside of the list do not change, and those that leave it have none. -/
theorem stale_congr {next prev next' prev' : Option ℕ → Option ℕ} {order' : List ℕ}
    (h : Stale next prev order) (hsub : ∀ j ∈ order', j ∈ order)
    (hgone : ∀ j ∈ order, j ∉ order' → next' (some j) = none ∧ prev' (some j) = none)
    (hkeep : ∀ j ∉ order, next' (some j) = next (some j) ∧ prev' (some j) = prev (some j)) :
    Stale next' prev' order' := by
  intro j hj k
  by_cases hjo : j ∈ order
  · rw [(hgone j hjo hj).1, (hgone j hjo hj).2]
    exact ⟨fun heq => (nomatch heq), fun heq => (nomatch heq)⟩
  · rw [(hkeep j hjo).1, (hkeep j hjo).2]
    refine ⟨fun hk => ?_, fun hk => ?_⟩
    · obtain ⟨hk', hback⟩ := (h j hjo k).1 hk
      exact ⟨fun hin => hk' (hsub k hin), (hkeep k hk').2.trans hback⟩
    · obtain ⟨hk', hback⟩ := (h j hjo k).2 hk
      exact ⟨fun hin => hk' (hsub k hin), (hkeep k hk').1.trans hback⟩

/-- An entry of the list that is not at its head leaves its place. -/
theorem detach_eq (h : LruLinks c order) (hi : i ∈ order) (hhead : c.lruHead ≠ some i) :
    ((c.detach i).nextOf, (c.detach i).prevOf) =
      DoublyLinked.unlink (c.nextOf, c.prevOf) (some i) := by
  have hmem : some i ∈ order.map some := List.mem_map_of_mem hi
  have hp : c.prevOf (some i) ≠ none := fun heq => hhead ((h.ring.next_eq_iff hmem).2 heq)
  have hn : c.lruTail = some i ↔ c.nextOf (some i) = none := h.ring.prev_eq_iff hmem
  obtain ⟨hnext, prev, hprev, hlast⟩ := detach_links c i
  rw [if_neg hp] at hnext
  rw [hnext, hlast, DoublyLinked.unlink]
  dsimp only
  by_cases hnone : c.nextOf (some i) = none
  · rw [if_pos (hn.2 hnone), hprev, if_pos hnone, hnone]
  · rw [if_neg fun heq => hnone (hn.1 heq), hprev, if_neg hnone]

/-- The links of slots outside of the list do not change. -/
theorem detach_other (h : LruLinks c order) (hi : i ∈ order) (hhead : c.lruHead ≠ some i) {j : ℕ}
    (hj : j ∉ order) : (c.detach i).nextOf (some j) = c.nextOf (some j) ∧
      (c.detach i).prevOf (some j) = c.prevOf (some j) := by
  have hlinks := h.detach_eq hi hhead
  obtain ⟨hnext, hprev⟩ := h.ring.neighbours (List.mem_map_of_mem hi)
  have hnot : ∀ x ∈ none :: order.map some, some j ≠ x := by
    rintro x hx rfl
    simp [hj] at hx
  refine ⟨(congrFun (congrArg Prod.fst hlinks) (some j)).trans ?_,
    (congrFun (congrArg Prod.snd hlinks) (some j)).trans ?_⟩
  · exact Function.update_of_ne (hnot _ hprev) _ _
  · exact Function.update_of_ne (hnot _ hnext) _ _

/-- The neighbours of an entry of the list are joined. -/
theorem unlink_ring (h : LruLinks c order) (hi : i ∈ order) :
    Ring (DoublyLinked.unlink (c.nextOf, c.prevOf) (some i)).1
      (DoublyLinked.unlink (c.nextOf, c.prevOf) (some i)).2 none ((order.erase i).map some) := by
  have hring := h.ring.unlink (List.mem_map_of_mem hi)
  rwa [← @List.map_erase _ _ _ _ instBEqOfDecidableEq _ _ (Option.some_injective ℕ)] at hring

/-- A ring that has no first element has no last one. -/
theorem ends_none {d : AetherCache} {l : List (Option ℕ)} (h : Ring d.nextOf d.prevOf none l) :
    d.lruHead = none ↔ d.lruTail = none :=
  h.eq_nil_iff.symm.trans (List.reverse_eq_nil_iff.symm.trans h.reverse.eq_nil_iff)

/-- Coming to the front changes the links of the entry and of the ends. -/
theorem pushFront_other {d : AetherCache} {l : List ℕ}
    (h : Ring d.nextOf d.prevOf none (l.map some))
    {j : ℕ} (hji : j ≠ i) (hj : j ∉ l) :
    (d.pushFront i).nextOf (some j) = d.nextOf (some j) ∧
      (d.pushFront i).prevOf (some j) = d.prevOf (some j) := by
  have hlinks := pushFront_links d i (ends_none h)
  have hne : some j ≠ some i := fun heq => hji (Option.some.inj heq)
  have hhead : some j ≠ d.nextOf none := fun heq => by
    have hmem := heq ▸ h.ends_mem.1
    simp [hj] at hmem
  obtain ⟨hnext, hprev⟩ := push_other (Option.some_ne_none j) hne hhead
  exact ⟨(congrFun (congrArg Prod.fst hlinks) (some j)).trans hnext,
    (congrFun (congrArg Prod.snd hlinks) (some j)).trans hprev⟩

/-- A used entry of the list comes to its front. -/
theorem touch_mem (h : LruLinks c order) (hi : i ∈ order) :
    LruLinks (c.lruTouch i) (i :: order.erase i) := by
  rw [lruTouch_eq]
  by_cases hhead : c.lruHead = some i
  · rw [if_pos hhead]
    cases order with
    | nil => exact absurd hi List.not_mem_nil
    | cons a l =>
      have ha : some i = some a := hhead.symm.trans h.ring.linked.1.1
      rw [Option.some.inj ha, List.erase_cons_head]
      exact h
  · rw [if_neg hhead]
    have hnodup := h.nodup
    have hunlink := h.unlink_ring hi
    rw [← h.detach_eq hi hhead] at hunlink
    have hpush := hunlink.push (a := some i) (by simp [hnodup.not_mem_erase])
    rw [← pushFront_links _ i (ends_none hunlink)] at hpush
    have hmem : ∀ j, j ∈ i :: order.erase i ↔ j ∈ order := fun j =>
      (List.perm_cons_erase hi).mem_iff.symm
    refine ⟨hpush, stale_congr h.stale (fun j hj => (hmem j).1 hj)
      (fun j hj hnot => absurd ((hmem j).2 hj) hnot) fun j hj => ?_⟩
    have hother := pushFront_other hunlink (ne_of_mem_of_not_mem hi hj).symm fun hin =>
      hj (List.mem_of_mem_erase hin)
    have hleft := h.detach_other hi hhead hj
    exact ⟨hother.1.trans hleft.1, hother.2.trans hleft.2⟩

/-- Where a slot outside of the list leaves, its successors and predecessors are joined. -/
theorem stale_leave_next {next prev next' prev' : Option ℕ → Option ℕ} (h : Stale next prev order)
    (hi : i ∉ order)
    (hnext : ∀ j ∉ i :: order, next' (some j) =
      if some j = prev (some i) then next (some i) else next (some j))
    (hprev : ∀ j ∉ i :: order, prev' (some j) =
      if some j = next (some i) then prev (some i) else prev (some j)) {j k : ℕ}
    (hj : j ∉ i :: order) (hk : next' (some j) = some k) :
    k ∉ i :: order ∧ prev' (some k) = some j := by
  have hji : j ≠ i := fun heq => hj (heq ▸ List.mem_cons_self)
  have hjo : j ∉ order := fun hmem => hj (List.mem_cons_of_mem _ hmem)
  rw [hnext j hj] at hk
  split at hk
  · next hp =>
    obtain ⟨hko, hback⟩ := (h i hi k).1 hk
    have hki : k ≠ i := by
      rintro rfl
      exact hji (Option.some.inj (hp.trans hback))
    have hnot : k ∉ i :: order := by simp [hki, hko]
    rw [hprev k hnot, if_pos hk.symm]
    exact ⟨hnot, hp.symm⟩
  · next hp =>
    obtain ⟨hko, hback⟩ := (h j hjo k).1 hk
    have hki : k ≠ i := by
      rintro rfl
      exact hp hback.symm
    have hnot : k ∉ i :: order := by simp [hki, hko]
    rw [hprev k hnot, if_neg fun heq => ?_]
    · exact ⟨hnot, hback⟩
    · have hself := ((h i hi k).1 heq.symm).2
      exact hji (Option.some.inj (hback.symm.trans hself))

theorem stale_leave {next prev next' prev' : Option ℕ → Option ℕ} (h : Stale next prev order)
    (hi : i ∉ order)
    (hnext : ∀ j ∉ i :: order, next' (some j) =
      if some j = prev (some i) then next (some i) else next (some j))
    (hprev : ∀ j ∉ i :: order, prev' (some j) =
      if some j = next (some i) then prev (some i) else prev (some j)) :
    Stale next' prev' (i :: order) := by
  have hswap : Stale prev next order := fun j hj k => (h j hj k).symm
  exact fun j hj k => ⟨stale_leave_next h hi hnext hprev hj,
    stale_leave_next hswap hi hprev hnext hj⟩

/-- A slot outside of the list leaves what is left of its old one. -/
theorem detach_new (h : LruLinks c order) (hi : i ∉ order) (x : Option ℕ) :
    (c.detach i).nextOf x = (if x = c.prevOf (some i) ∧ c.prevOf (some i) ≠ none then
        c.nextOf (some i) else c.nextOf x) ∧
      (c.detach i).prevOf x = if x = c.nextOf (some i) ∧ c.nextOf (some i) ≠ none then
        c.prevOf (some i) else c.prevOf x := by
  have htail : c.lruTail ≠ some i := fun heq => by
    have hmem := h.ring.ends_mem.2
    rw [show c.prevOf none = some i from heq] at hmem
    simp [hi] at hmem
  obtain ⟨hnext, prev, hprev, hlast⟩ := detach_links c i
  rw [hnext, hlast, if_neg htail, hprev]
  refine ⟨?_, ?_⟩
  · by_cases hp : c.prevOf (some i) = none
    · simp [hp]
    · simp [hp, Function.update_apply]
  · by_cases hn : c.nextOf (some i) = none
    · simp [hn]
    · simp [hn, Function.update_apply]

/-- A slot outside of the list comes to its front. -/
theorem touch_new (h : LruLinks c order) (hi : i ∉ order) :
    LruLinks (c.lruTouch i) (i :: order) := by
  have hhead : c.lruHead ≠ some i := fun heq => by
    have hmem := h.ring.ends_mem.1
    rw [show c.nextOf none = some i from heq] at hmem
    simp [hi] at hmem
  rw [lruTouch_eq, if_neg hhead]
  have hprev := fun j => (h.stale i hi j).2
  have hnext := fun j => (h.stale i hi j).1
  -- the links that leaving changes are those of slots outside of the list
  have hin : ∀ x ∈ none :: order.map some,
      (c.detach i).nextOf x = c.nextOf x ∧ (c.detach i).prevOf x = c.prevOf x := by
    intro x hx
    obtain ⟨h1, h2⟩ := h.detach_new hi x
    have hnot : ∀ y, y ∉ order → x ≠ some y := by
      rintro y hy rfl
      simp [hy] at hx
    rw [h1, h2]
    refine ⟨if_neg ?_, if_neg ?_⟩
    · rintro ⟨rfl, hne⟩
      obtain ⟨y, hy⟩ := Option.ne_none_iff_exists'.1 hne
      exact hnot y (hprev y hy).1 hy
    · rintro ⟨rfl, hne⟩
      obtain ⟨y, hy⟩ := Option.ne_none_iff_exists'.1 hne
      exact hnot y (hnext y hy).1 hy
  have hring : Ring (c.detach i).nextOf (c.detach i).prevOf none (order.map some) :=
    h.ring.congr (fun x hx => (hin x hx).1) fun x hx => (hin x hx).2
  have hpush := hring.push (a := some i) (by simp [hi])
  rw [← pushFront_links _ i (ends_none hring)] at hpush
  have hother : ∀ j ∉ i :: order, (((c.detach i).pushFront i).nextOf (some j) =
      (c.detach i).nextOf (some j)) ∧
      ((c.detach i).pushFront i).prevOf (some j) = (c.detach i).prevOf (some j) := fun j hj =>
    pushFront_other hring (fun heq => hj (heq ▸ List.mem_cons_self)) fun hmem =>
      hj (List.mem_cons_of_mem _ hmem)
  have hsome : ∀ {x : Option ℕ} {j : ℕ}, (some j = x ∧ x ≠ none) ↔ some j = x := fun {x j} =>
    and_iff_left_of_imp fun heq => heq ▸ Option.some_ne_none j
  refine ⟨hpush, stale_leave h.stale hi (fun j hj => ?_) fun j hj => ?_⟩
  · simp only [(hother j hj).1, (h.detach_new hi (some j)).1, hsome]
  · simp only [(hother j hj).2, (h.detach_new hi (some j)).2, hsome]

end LruLinks

end Seraph
