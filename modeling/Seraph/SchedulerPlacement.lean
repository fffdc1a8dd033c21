import Mathlib.Tactic.IntervalCases
import Seraph.Runs
import Seraph.SchedulerLists

/-!
# The places of the strands

Between two calls the state of a strand says in which list it is, and whether it is the current one
(`InPlace`). While a call picks the next strand, the one that gives up the processor stands in its
queue already, and still runs (`Between`) ; `dispatch` ends this.
-/

namespace Seraph

open LinkedQueue Runs Scheduler

/-- The number of strands in the ready queues. -/
def queued (q : ℕ → List StrandPtr) : ℕ :=
  ((List.range priorityMax).flatMap q).length

/-- What holds of the states of the strands also while a strand gives up the processor. `made` are
the strands that have been made ready, `removed` those that have been removed. -/
structure Steady (c : SchedCore) (q : ℕ → List StrandPtr) (b made removed : List StrandPtr) :
    Prop where
  blocked : ∀ x, x ∈ b ↔ c.state x = .blocked
  idle : c.state c.idleStrand ≠ .ready ∧ c.state c.idleStrand ≠ .blocked
  alive : ∀ x ∈ made, x ∉ removed →
    c.state x = .ready ∨ c.state x = .running ∨ c.state x = .blocked
  fresh : ∀ x, x ∉ made → x ≠ c.idleStrand →
    c.state x ≠ .ready ∧ c.state x ≠ .running ∧ c.state x ≠ .blocked
  idle_fresh : c.idleStrand ∉ made
  idle_kept : c.idleStrand ∉ removed
  gone : ∀ x ∈ removed, c.state x = .terminated
  valid : ∀ x, c.priority x < priorityMax
  readyCount : c.readyCount = queued q
  blockedCount : c.blockedCount = b.length
  statsBlocked : c.statsBlocked = b.length

/-- The states of the strands say where they are. -/
structure InPlace (c : SchedCore) (q : ℕ → List StrandPtr) (b made removed : List StrandPtr) : Prop
    extends Steady c q b made removed where
  ready : ∀ x p, x ∈ q p ↔ c.state x = .ready ∧ c.priority x = p
  running : ∀ x, x ≠ c.idleStrand → c.state x = .running → c.current = some x
  current : ∀ x, c.current = some x → x ≠ c.idleStrand → c.state x = .running ∨ x ∈ removed

/-- The same while `cur` gives up the processor : it stands in its queue where it still runs. -/
structure Between (c : SchedCore) (q : ℕ → List StrandPtr) (b made removed : List StrandPtr)
    (cur : StrandPtr) : Prop extends Steady c q b made removed where
  ready : ∀ x p, x ∈ q p ↔
    (c.state x = .ready ∨ x = cur ∧ x ≠ c.idleStrand ∧ c.state x = .running) ∧ c.priority x = p
  running : ∀ x, x ≠ c.idleStrand → c.state x = .running → x = cur
  current : c.current = some cur
  not_ready : cur ≠ c.idleStrand → c.state cur ≠ .ready

section

variable {s : Scheduler} {q : ℕ → List StrandPtr} {b made removed : List StrandPtr}
  {cur x : StrandPtr} {p : ℕ}

/-! ## Counting -/

theorem queued_update {l : List StrandPtr} (hp : p < priorityMax) :
    queued (Function.update q p l) + (q p).length = queued q + l.length := by
  have hrange : List.range priorityMax = [0, 1, 2, 3, 4, 5, 6] := rfl
  unfold queued
  rw [hrange]
  simp only [List.flatMap_cons, List.flatMap_nil, List.length_append, List.length_nil]
  unfold priorityMax at hp
  interval_cases p <;> simp <;> omega

theorem queued_push (hp : p < priorityMax) :
    queued (Function.update q p (q p ++ [x])) = queued q + 1 := by
  have hsum := queued_update (q := q) (l := q p ++ [x]) hp
  rw [List.length_append, List.length_singleton] at hsum
  omega

/-- A strand is put into a queue. -/
theorem mem_push {y : StrandPtr} {p' : ℕ} :
    y ∈ Function.update q p (q p ++ [x]) p' ↔ y ∈ q p' ∨ y = x ∧ p = p' := by
  by_cases hp : p' = p
  · subst hp
    rw [Function.update_self, List.mem_append, List.mem_singleton]
    exact or_congr_right (iff_self_and.2 fun _ => rfl)
  · rw [Function.update_of_ne hp]
    exact (or_iff_left fun hy => hp hy.2.symm).symm

/-- A strand is taken out of a queue. -/
theorem Lists.mem_erase (h : Lists s q b) (hx : x ∈ q p) (y : StrandPtr) (p' : ℕ) :
    y ∈ Function.update q p ((q p).erase x) p' ↔ y ∈ q p' ∧ y ≠ x := by
  by_cases hp' : p' = p
  · subst hp'
    rw [Function.update_self, (h.queue p').nodup.mem_erase_iff, and_comm]
  · rw [Function.update_of_ne hp']
    exact ⟨fun hy => ⟨hy, fun heq => hp' (h.apart p' p x (heq ▸ hy) hx)⟩, fun hy => hy.1⟩

theorem queued_lt (h : Lists s q b) : queued q < 2 ^ 64 := by
  refine length_lt_of_not_mem (x := s.idleStrand) ?_ fun hmem => ?_
  · refine List.nodup_flatMap.2 ⟨fun p _ => (h.queue p).nodup, ?_⟩
    refine List.Pairwise.imp (fun {p p'} hlt x hx hx' => ?_) List.pairwise_lt_range
    exact absurd (h.apart p p' x hx hx') (Nat.ne_of_lt hlt)
  · obtain ⟨p, -, hp⟩ := List.mem_flatMap.1 hmem
    exact h.idle p hp

/-- The counter after a strand has been taken out. -/
theorem Lists.count_erase (h : Lists s q b) (hp : p < priorityMax) (hx : x ∈ q p) :
    u64 (queued q + (2 ^ 64 - 1)) = queued (Function.update q p ((q p).erase x)) := by
  have hsum := queued_update (q := q) (l := (q p).erase x) hp
  have hlen := List.length_erase_add_one hx
  rw [u64_pred (by omega) (queued_lt h)]
  omega

/-! ## One strand changes -/

/-- A strand gets a state, and the strands in the lists are counted. -/
def SchedCore.settled (c : SchedCore) (x : StrandPtr) (st : StrandState) (nr nb : ℕ) : SchedCore :=
  { c with
    state := Function.update c.state x st
    readyCount := nr
    blockedCount := nb
    statsBlocked := nb }

/-- A strand gets a priority. -/
def SchedCore.reprioritised (c : SchedCore) (x : StrandPtr) (p : ℕ) : SchedCore :=
  { c with priority := Function.update c.priority x p }

namespace SchedCore

variable {c : SchedCore} {st : StrandState} {nr nb : ℕ} {y : StrandPtr}

theorem settled_self : (c.settled x st nr nb).state x = st :=
  Function.update_self ..

theorem settled_of_ne (h : y ≠ x) : (c.settled x st nr nb).state y = c.state y :=
  Function.update_of_ne h ..

/-- The counters of the blocked strands are kept. -/
theorem settled_eq (hb : c.blockedCount = nb) (hs : c.statsBlocked = nb) :
    c.settled x st nr nb =
      { c with state := Function.update c.state x st, readyCount := nr } := by
  subst hb
  rw [settled]
  conv_lhs => rw [← hs]
  rw [hs]

theorem reprioritised_self : (c.reprioritised x p).priority x = p :=
  Function.update_self ..

theorem reprioritised_of_ne (h : y ≠ x) : (c.reprioritised x p).priority y = c.priority y :=
  Function.update_of_ne h ..

end SchedCore

/-- Where a strand stands that has just got a state. -/
def Stands (c : SchedCore) (made removed : List StrandPtr) (x : StrandPtr) (st : StrandState) :
    Prop :=
  (st = .ready ∨ st = .blocked) ∧ x ≠ c.idleStrand ∧ x ∈ made ∧ x ∉ removed ∨
    st = .terminated ∧ x ∈ removed

/-- A strand gets a state. -/
theorem Steady.setState {c : SchedCore} {q' : ℕ → List StrandPtr}
    {b' made' removed' : List StrandPtr} {st : StrandState}
    (h : Steady c q b made removed) (hx : Stands c made' removed' x st)
    (hb : ∀ y, y ≠ x → (y ∈ b' ↔ y ∈ b)) (hbx : x ∈ b' ↔ st = .blocked)
    (hmade : ∀ y, y ≠ x → (y ∈ made' ↔ y ∈ made))
    (hremoved : ∀ y, y ≠ x → (y ∈ removed' ↔ y ∈ removed))
    (hfresh : c.idleStrand ∉ made') (hkept : c.idleStrand ∉ removed') :
    Steady (c.settled x st (queued q') b'.length) q' b' made' removed' := by
  have hne : c.idleStrand ≠ x := by
    rintro rfl
    exact hx.elim (fun hx => hx.2.1 rfl) fun hx => hkept hx.2
  refine
    { blocked := fun y => ?_
      idle := ?_
      alive := fun y hy hnot => ?_
      fresh := fun y hy hyi => ?_
      idle_fresh := hfresh
      idle_kept := hkept
      gone := fun y hy => ?_
      valid := h.valid
      readyCount := rfl
      blockedCount := rfl
      statsBlocked := rfl }
  · by_cases hyx : y = x
    · subst hyx
      rw [SchedCore.settled_self]
      exact hbx
    · rw [SchedCore.settled_of_ne hyx, hb y hyx]
      exact h.blocked y
  · have hidle : (c.settled x st (queued q') b'.length).state c.idleStrand = c.state c.idleStrand :=
      SchedCore.settled_of_ne hne
    exact ⟨hidle ▸ h.idle.1, hidle ▸ h.idle.2⟩
  · by_cases hyx : y = x
    · subst hyx
      rw [SchedCore.settled_self]
      rcases hx with ⟨hst | hst, -⟩ | ⟨-, hgone⟩
      · exact .inl hst
      · exact .inr (.inr hst)
      · exact absurd hgone hnot
    · rw [SchedCore.settled_of_ne hyx]
      exact h.alive y ((hmade y hyx).1 hy) fun hgone => hnot ((hremoved y hyx).2 hgone)
  · by_cases hyx : y = x
    · subst hyx
      rw [SchedCore.settled_self]
      rcases hx with ⟨-, -, hmem, -⟩ | ⟨rfl, -⟩
      · exact absurd hmem hy
      · exact ⟨by decide, by decide, by decide⟩
    · rw [SchedCore.settled_of_ne hyx]
      exact h.fresh y (fun hmem => hy ((hmade y hyx).2 hmem)) hyi
  · by_cases hyx : y = x
    · subst hyx
      rw [SchedCore.settled_self]
      exact hx.elim (fun hx => absurd hy hx.2.2.2) And.left
    · rw [SchedCore.settled_of_ne hyx]
      exact h.gone y ((hremoved y hyx).1 hy)

/-- A strand gets a state and a place. -/
theorem InPlace.setState {c : SchedCore} {q' : ℕ → List StrandPtr}
    {b' made' removed' : List StrandPtr} {st : StrandState}
    (h : InPlace c q b made removed)
    (hsteady : Steady (c.settled x st (queued q') b'.length) q' b' made' removed')
    (hx : Stands c made' removed' x st)
    (hq : ∀ y p, y ≠ x → (y ∈ q' p ↔ y ∈ q p))
    (hqx : ∀ p, x ∈ q' p ↔ st = .ready ∧ c.priority x = p)
    (hremoved : ∀ y, y ≠ x → (y ∈ removed' ↔ y ∈ removed))
    (hcur : c.current = some x → x ∈ removed') :
    InPlace (c.settled x st (queued q') b'.length) q' b' made' removed' := by
  refine
    { hsteady with
      ready := fun y p => ?_
      running := fun y hy hrun => ?_
      current := fun y hy hyi => ?_ }
  · by_cases hyx : y = x
    · subst hyx
      rw [SchedCore.settled_self]
      exact hqx p
    · rw [SchedCore.settled_of_ne hyx, hq y p hyx]
      exact h.ready y p
  · by_cases hyx : y = x
    · subst hyx
      rw [SchedCore.settled_self] at hrun
      rcases hx with ⟨hst | hst, -⟩ | ⟨hst, -⟩
      all_goals
        rw [hrun] at hst
        cases hst
    · rw [SchedCore.settled_of_ne hyx] at hrun
      exact h.running y hy hrun
  · by_cases hyx : y = x
    · subst hyx
      exact .inr (hcur hy)
    · rw [SchedCore.settled_of_ne hyx]
      exact (h.current y hy hyi).imp_right (hremoved y hyx).2

/-- A strand becomes ready and gets a place in the queue of its priority. -/
theorem InPlace.setReady {c : SchedCore} {q' : ℕ → List StrandPtr} {b' made' : List StrandPtr}
    (h : InPlace c q b made removed) (hx : Stands c made' removed x .ready)
    (hb : ∀ y, y ≠ x → (y ∈ b' ↔ y ∈ b)) (hbx : x ∉ b')
    (hmade : ∀ y, y ≠ x → (y ∈ made' ↔ y ∈ made)) (hfresh : c.idleStrand ∉ made')
    (hnot : ∀ p, x ∉ q p)
    (hmem : ∀ y p, y ∈ q' p ↔ y ∈ q p ∨ y = x ∧ c.priority x = p)
    (hcur : c.current = some x → x ∈ removed) :
    InPlace (c.settled x .ready (queued q') b'.length) q' b' made' removed := by
  have hsteady : Steady (c.settled x .ready (queued q') b'.length) q' b' made' removed :=
    h.toSteady.setState hx hb (iff_of_false hbx fun heq => by cases heq) hmade
      (fun _ _ => Iff.rfl) hfresh h.idle_kept
  refine h.setState hsteady hx (fun y p hy => ?_) (fun p => ?_) (fun _ _ => Iff.rfl) hcur
  · rw [hmem]
    exact or_iff_left fun heq => hy heq.1
  · rw [hmem]
    exact ⟨fun hx => ⟨rfl, (hx.resolve_left (hnot p)).2⟩, fun hx => .inr ⟨rfl, hx.2⟩⟩

/-- A strand gets a priority, and another queue where it is ready. -/
theorem InPlace.setPriority {c : SchedCore} {q' : ℕ → List StrandPtr} {priority : ℕ}
    (h : InPlace c q b made removed) (hp : priority < priorityMax)
    (hq : ∀ y p, y ≠ x → (y ∈ q' p ↔ y ∈ q p))
    (hqx : ∀ p, x ∈ q' p ↔ c.state x = .ready ∧ priority = p) (hcount : queued q' = queued q) :
    InPlace (c.reprioritised x priority) q' b made removed := by
  refine
    { h.toSteady, h with
      valid := fun y => ?_
      readyCount := h.readyCount.trans hcount.symm
      ready := fun y p => ?_ }
  · by_cases hyx : y = x
    · subst hyx
      rw [SchedCore.reprioritised_self]
      exact hp
    · rw [SchedCore.reprioritised_of_ne hyx]
      exact h.valid y
  · by_cases hyx : y = x
    · subst hyx
      rw [SchedCore.reprioritised_self]
      exact hqx p
    · rw [SchedCore.reprioritised_of_ne hyx, hq y p hyx]
      exact h.ready y p

/-! ## The next strand -/

/-- The first strand of the highest queue is taken, if there is one. -/
theorem pickFrom_cases (h : Lists s q b) (n : ℕ) :
    ((∀ p < n, q p = []) ∧ s.pickFrom n = (s, none)) ∨
      ∃ p < n, ∃ x rest, q p = x :: rest ∧ (s.pickFrom n).2 = some x ∧
        Lists (s.pickFrom n).1 (Function.update q p rest) b ∧
        (s.pickFrom n).1.core =
          { s.core with readyCount := u64 (s.core.readyCount + (2 ^ 64 - 1)) } := by
  induction n with
  | zero => exact .inl ⟨fun p hp => absurd hp (Nat.not_lt_zero p), rfl⟩
  | succ n ih =>
    cases hq : q n with
    | nil =>
      have hpick : s.pickFrom (n + 1) = s.pickFrom n := by
        rw [pickFrom, h.pop_empty hq]
      rw [hpick]
      rcases ih with ⟨hall, heq⟩ | ⟨p, hp, hrest⟩
      · refine .inl ⟨fun p hp => ?_, heq⟩
        rcases Nat.lt_succ_iff_lt_or_eq.1 hp with hlt | rfl
        · exact hall p hlt
        · exact hq
      · exact .inr ⟨p, by omega, hrest⟩
    | cons x rest =>
      obtain ⟨hsome, hlists⟩ := h.pop hq
      have hpick : s.pickFrom (n + 1) =
          ((s.runqueuePop n).1.countReady (2 ^ 64 - 1), some x) := by
        rw [pickFrom]
        split
        · next t y heq =>
          rw [heq] at hsome ⊢
          cases hsome
          rfl
        · next t heq =>
          rw [heq] at hsome
          cases hsome
      rw [hpick]
      refine .inr ⟨n, Nat.lt_succ_self n, x, rest, hq, rfl, hlists.countReady _, ?_⟩
      rw [core_countReady, core_runqueuePop]

/-- The state of a strand after `switch_to`. -/
theorem switched_cases (c : SchedCore) (cur x y : StrandPtr) :
    y = x ∧ (c.switched cur x).state y = .running ∨
      y ≠ x ∧ y = cur ∧ y ≠ c.idleStrand ∧ c.state y = .running ∧
        (c.switched cur x).state y = .ready ∨
      y ≠ x ∧ ¬ (y = cur ∧ y ≠ c.idleStrand ∧ c.state y = .running) ∧
        (c.switched cur x).state y = c.state y := by
  unfold SchedCore.switched
  dsimp only
  by_cases hx : y = x
  · rw [hx, Function.update_self]
    exact .inl ⟨rfl, rfl⟩
  · rw [Function.update_of_ne hx]
    by_cases hcur : cur ≠ c.idleStrand ∧ c.state cur = .running
    · rw [if_pos hcur]
      by_cases hy : y = cur
      · subst hy
        rw [Function.update_self]
        exact .inr (.inl ⟨hx, rfl, hcur.1, hcur.2, rfl⟩)
      · rw [Function.update_of_ne hy]
        exact .inr (.inr ⟨hx, fun h => hy h.1, rfl⟩)
    · rw [if_neg hcur]
      refine .inr (.inr ⟨hx, fun h => hcur ?_, rfl⟩)
      rw [← h.1]
      exact h.2

/-- The current strand gives up the processor to another one, which is taken out of its queue. -/
theorem Between.switched {c : SchedCore} {q' : ℕ → List StrandPtr} {n : ℕ}
    (h : Between c q b made removed cur) (hx : x = c.idleStrand ∨ c.state x = .ready)
    (hmem : ∀ y p, y ∈ q' p ↔ y ∈ q p ∧ y ≠ x) (hcount : n = queued q') :
    InPlace ({ c with readyCount := n }.switched cur x) q' b made removed := by
  have hcases : ∀ y, y = x ∧ ({ c with readyCount := n }.switched cur x).state y = .running ∨
      y ≠ x ∧ y = cur ∧ y ≠ c.idleStrand ∧ c.state y = .running ∧
        ({ c with readyCount := n }.switched cur x).state y = .ready ∨
      y ≠ x ∧ ¬ (y = cur ∧ y ≠ c.idleStrand ∧ c.state y = .running) ∧
        ({ c with readyCount := n }.switched cur x).state y = c.state y :=
    switched_cases { c with readyCount := n } cur x
  have hidle : ({ c with readyCount := n }.switched cur x).idleStrand = c.idleStrand := rfl
  have hcurrent : ({ c with readyCount := n }.switched cur x).current = some x := rfl
  have hpriority : ({ c with readyCount := n }.switched cur x).priority = c.priority := rfl
  have hready : ({ c with readyCount := n }.switched cur x).readyCount = n := rfl
  have hblocked : ({ c with readyCount := n }.switched cur x).blockedCount = c.blockedCount := rfl
  have hstats : ({ c with readyCount := n }.switched cur x).statsBlocked = c.statsBlocked := rfl
  generalize { c with readyCount := n }.switched cur x = t at *
  have hx' : c.state x ≠ .blocked := by
    rcases hx with hx | hx
    · rw [hx]
      exact h.idle.2
    · rw [hx]
      decide
  refine
    { blocked := fun y => ?_
      idle := ?_
      alive := fun y hy hnot => ?_
      fresh := fun y hy hyi => ?_
      idle_fresh := hidle ▸ h.idle_fresh
      idle_kept := hidle ▸ h.idle_kept
      gone := fun y hy => ?_
      valid := hpriority ▸ h.valid
      readyCount := hready.trans hcount
      blockedCount := hblocked.trans h.blockedCount
      statsBlocked := hstats.trans h.statsBlocked
      ready := fun y p => ?_
      running := fun y hy hrun => ?_
      current := fun y hy _ => ?_ }
  · rw [h.blocked]
    rcases hcases y with ⟨rfl, hst⟩ | ⟨-, -, -, hold, hst⟩ | ⟨-, -, hst⟩
    · rw [hst]
      exact iff_of_false hx' fun heq => by cases heq
    · rw [hst, hold]
      exact iff_of_false (fun heq => by cases heq) fun heq => by cases heq
    · rw [hst]
  · rw [hidle]
    rcases hcases c.idleStrand with ⟨-, hst⟩ | ⟨-, -, hne, -⟩ | ⟨-, -, hst⟩
    · rw [hst]
      exact ⟨by decide, by decide⟩
    · exact absurd rfl hne
    · rw [hst]
      exact h.idle
  · rcases hcases y with ⟨-, hst⟩ | ⟨-, -, -, -, hst⟩ | ⟨-, -, hst⟩
    · exact .inr (.inl hst)
    · exact .inl hst
    · rw [hst]
      exact h.alive y hy hnot
  · rw [hidle] at hyi
    obtain ⟨hne, hne', hne''⟩ := h.fresh y hy hyi
    rcases hcases y with ⟨rfl, -⟩ | ⟨-, -, -, hold, -⟩ | ⟨-, -, hst⟩
    · exact absurd (hx.resolve_left hyi) hne
    · exact absurd hold hne'
    · rw [hst]
      exact ⟨hne, hne', hne''⟩
  · have hold := h.gone y hy
    rcases hcases y with ⟨rfl, -⟩ | ⟨-, -, -, hrun, -⟩ | ⟨-, -, hst⟩
    · rw [hx.resolve_left fun heq => h.idle_kept (heq ▸ hy)] at hold
      cases hold
    · rw [hrun] at hold
      cases hold
    · rw [hst]
      exact hold
  · rw [hmem, h.ready, hpriority]
    rcases hcases y with ⟨rfl, hst⟩ | ⟨hy, hcur, hyi, hold, hst⟩ | ⟨hy, hcur, hst⟩
    · rw [hst]
      exact iff_of_false (fun hall => hall.2 rfl) fun hall => by cases hall.1
    · rw [hst]
      exact ⟨fun hall => ⟨rfl, hall.1.2⟩, fun hall => ⟨⟨.inr ⟨hcur, hyi, hold⟩, hall.2⟩, hy⟩⟩
    · rw [hst]
      exact ⟨fun hall => ⟨hall.1.1.resolve_right hcur, hall.1.2⟩,
        fun hall => ⟨⟨.inl hall.1, hall.2⟩, hy⟩⟩
  · rcases hcases y with ⟨rfl, -⟩ | ⟨-, -, -, -, hst⟩ | ⟨-, hcur, hst⟩
    · exact hcurrent
    · rw [hst] at hrun
      cases hrun
    · rw [hst] at hrun
      rw [hidle] at hy
      exact absurd ⟨h.running y hy hrun, hy, hrun⟩ hcur
  · rw [hcurrent] at hy
    cases hy
    rcases hcases x with ⟨-, hst⟩ | ⟨hne, -⟩ | ⟨hne, -⟩
    · exact .inl hst
    · exact absurd rfl hne
    · exact absurd rfl hne

/-- The current strand keeps the processor. -/
theorem Between.kept {c : SchedCore} {q' : ℕ → List StrandPtr} {n : ℕ}
    (h : Between c q b made removed cur) (hcur : cur ≠ c.idleStrand → c.state cur = .running)
    (hmem : ∀ y p, y ∈ q' p ↔ y ∈ q p ∧ y ≠ cur) (hcount : n = queued q') :
    InPlace { c with readyCount := n } q' b made removed := by
  refine
    { h.toSteady with
      readyCount := hcount
      ready := fun y p => ?_
      running := fun y hy hrun => ?_
      current := fun y hy hyi => ?_ }
  · rw [hmem, h.ready]
    constructor
    · rintro ⟨⟨hready | ⟨heq, -⟩, hp⟩, hne⟩
      · exact ⟨hready, hp⟩
      · exact absurd heq hne
    · rintro ⟨hready, hp⟩
      refine ⟨⟨.inl hready, hp⟩, ?_⟩
      rintro rfl
      by_cases hyi : y = c.idleStrand
      · exact h.idle.1 (hyi ▸ hready)
      · exact h.not_ready hyi hready
  · rw [h.running y hy hrun]
    exact h.current
  · have heq := Option.some.inj (h.current.symm.trans hy)
    rw [← heq] at hyi ⊢
    exact .inl (hcur hyi)

/-- After `pick_next_strand` and, if it is another one, `switch_to`. -/
theorem dispatch (hl : Lists s q b) (h : Between s.core q b made removed cur) :
    ∃ q', Lists s.pickNextStrand.1 q' b ∧
      (s.pickNextStrand.2 = cur → InPlace s.pickNextStrand.1.core q' b made removed) ∧
      (s.pickNextStrand.2 ≠ cur →
        InPlace (s.pickNextStrand.1.core.switched cur s.pickNextStrand.2) q' b made removed) := by
  unfold pickNextStrand
  rcases pickFrom_cases hl priorityMax with
    ⟨hempty, hpick⟩ | ⟨p, hp, x, rest, hq, hpick, hlists, hcore⟩
  · have hidle : ∀ y p, y ∈ q p ↔ y ∈ q p ∧ y ≠ s.core.idleStrand := fun y p =>
      ⟨fun hy => ⟨hy, fun heq => hl.idle p (by rwa [heq] at hy)⟩, fun hy => hy.1⟩
    rw [hpick]
    refine ⟨q, hl, fun heq => ?_, fun hne => ?_⟩
    · have hcur : cur = s.core.idleStrand := heq.symm
      exact h.kept (fun hne => absurd hcur hne) (hcur ▸ hidle) h.readyCount
    · exact h.switched (.inl rfl) hidle h.readyCount
  · have hx : x ∈ q p := hq ▸ List.mem_cons_self
    obtain rfl : (q p).erase x = rest := by rw [hq, List.erase_cons_head]
    have hmem := hl.mem_erase hx
    have hcount := (congrArg (fun n => u64 (n + (2 ^ 64 - 1))) h.readyCount).trans
      (hl.count_erase hp hx)
    obtain ⟨hx, -⟩ := (h.ready x p).1 hx
    rw [hpick, hcore]
    refine ⟨_, hlists, fun heq => ?_, fun hne => ?_⟩
    · obtain rfl : x = cur := heq
      refine h.kept (fun hne => ?_) hmem hcount
      exact (hx.resolve_left (h.not_ready hne)).2.2
    · exact h.switched (.inr (hx.resolve_right fun hrun => hne hrun.1)) hmem hcount

end

end Seraph
