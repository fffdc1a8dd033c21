import Seraph.SchedulerPlacement

/-!
# The calls of the scheduler

Each call of the scheduler keeps the strands in their places (`SchedInv`), under the condition that
its own part of the bookkeeping needs.
-/

namespace Seraph

open LinkedQueue Scheduler

/-- There are lists in which the strands stand as their states say. -/
def SchedInv (s : Scheduler) (made removed : List StrandPtr) : Prop :=
  ∃ q b, Lists s q b ∧ InPlace s.core q b made removed

section

variable {s t : Scheduler} {q : ℕ → List StrandPtr} {b made removed : List StrandPtr}
  {cur x : StrandPtr}

theorem adjustPriority_lt {n : ℕ} (hn : n < priorityMax) (delta : ℤ) :
    adjustPriority n delta priorityBackground priorityRealtime < priorityMax := by
  unfold adjustPriority priorityBackground priorityRealtime priorityMax at *
  split
  · exact hn
  · omega

/-! ## Taking a place -/

theorem InPlace.free (h : InPlace s.core q b made removed) (hready : s.core.state x ≠ .ready)
    (hblocked : s.core.state x ≠ .blocked) (hidle : x ≠ s.idleStrand) : Free s q b x :=
  ⟨fun p hx => hready ((h.ready x p).1 hx).1, fun hx => hblocked ((h.blocked x).1 hx), hidle⟩

/-- A strand is put into the queue of its priority. -/
theorem enqueued (hl : Lists s q b) (hx : Free s q b x) (hp : s.core.priority x < priorityMax)
    (hcount : s.core.readyCount = queued q) :
    ∃ q', Lists (s.enqueue x) q' b ∧
      (∀ y p, y ∈ q' p ↔ y ∈ q p ∨ y = x ∧ s.core.priority x = p) ∧
      (s.enqueue x).core = { s.core with readyCount := queued q' } := by
  have hpush := hl.push (s.strands x).priority hx
  have hvalid : (s.strands x).priority < priorityMax := hp
  have hlt := queued_lt hpush
  rw [queued_push hvalid] at hlt
  refine ⟨_, hpush.countReady 1, fun _ _ => mem_push, ?_⟩
  unfold enqueue
  rw [core_countReady, core_runqueueAdd, hcount, u64_of_lt hlt, queued_push hvalid]

/-- A strand becomes ready. -/
theorem readied (hl : Lists s q b) (hx : Free s q b x) (hp : s.core.priority x < priorityMax)
    (hcount : s.core.readyCount = queued q) :
    ∃ q', Lists ((s.setState x .ready).enqueue x) q' b ∧
      (∀ y p, y ∈ q' p ↔ y ∈ q p ∨ y = x ∧ s.core.priority x = p) ∧
      ((s.setState x .ready).enqueue x).core = { s.core with
        state := Function.update s.core.state x .ready
        readyCount := queued q' } := by
  have hcore := core_setState (s := s) x .ready
  obtain ⟨q', hl', hmem, hcore'⟩ := enqueued (hl.setState x .ready)
    ⟨hx.queue, hx.blocked, hx.idle⟩ (by rw [hcore]; exact hp) (by rw [hcore]; exact hcount)
  rw [hcore] at hmem hcore'
  exact ⟨q', hl', hmem, hcore'⟩

/-- The current strand is put into its queue. -/
theorem InPlace.requeued (hl : Lists s q b) (h : InPlace s.core q b made removed)
    (hcur : s.core.current = some cur) (hidle : cur ≠ s.core.idleStrand)
    (hrun : s.core.state cur = .running) :
    ∃ q', Lists (s.enqueue cur) q' b ∧ Between (s.enqueue cur).core q' b made removed cur := by
  have hfree := h.free (x := cur) (by rw [hrun]; decide) (by rw [hrun]; decide) hidle
  obtain ⟨q', hlists, hmem, hcore⟩ := enqueued hl hfree (h.valid cur) h.readyCount
  refine ⟨q', hlists, ?_⟩
  rw [hcore]
  refine
    { h.toSteady with
      ready := fun y p => ?_
      running := fun y hy hyrun => ?_
      current := hcur
      not_ready := fun _ heq => ?_
      readyCount := rfl }
  · rw [hmem, h.ready]
    constructor
    · rintro (⟨hready, hp⟩ | ⟨rfl, hp⟩)
      · exact ⟨.inl hready, hp⟩
      · exact ⟨.inr ⟨rfl, hidle, hrun⟩, hp⟩
    · rintro ⟨hready | ⟨rfl, -, -⟩, hp⟩
      · exact .inl ⟨hready, hp⟩
      · exact .inr ⟨rfl, hp⟩
  · exact Option.some.inj ((h.running y hy hyrun).symm.trans hcur)
  · have hstate : s.core.state cur = .ready := heq
    rw [hrun] at hstate
    cases hstate

/-- A current strand that does not run, or the idle one, is put nowhere. -/
theorem InPlace.skipped {c : SchedCore} (h : InPlace c q b made removed)
    (hcur : c.current = some cur)
    (hskip : cur = c.idleStrand ∨ c.state cur ≠ .running) : Between c q b made removed cur := by
  refine
    { h.toSteady with
      ready := fun y p => ?_
      running := fun y hy hyrun => ?_
      current := hcur
      not_ready := fun hidle heq => ?_ }
  · rw [h.ready]
    constructor
    · exact fun hy => ⟨.inl hy.1, hy.2⟩
    · rintro ⟨hready | ⟨rfl, hidle, hyrun⟩, hp⟩
      · exact ⟨hready, hp⟩
      · exact (hskip.elim hidle fun hne => hne hyrun).elim
  · exact Option.some.inj ((h.running y hy hyrun).symm.trans hcur)
  · rcases h.current cur hcur hidle with hrun | hgone
    · rw [hrun] at heq
      cases heq
    · rw [h.gone cur hgone] at heq
      cases heq

/-- The current strand is put in front of the blocked ones. -/
theorem InPlace.linked (hl : Lists s q b) (h : InPlace s.core q b made removed)
    (hcur : s.core.current = some cur) (hidle : cur ≠ s.core.idleStrand)
    (hrun : s.core.state cur = .running) :
    Lists (s.linkBlocked cur) q (cur :: b) ∧
      Between (s.linkBlocked cur).core q (cur :: b) made removed cur := by
  have hfree := h.free (x := cur) (by rw [hrun]; decide) (by rw [hrun]; decide) hidle
  have hlists := hl.link hfree
  have hlen := hlists.length_blocked
  have hcore : (s.linkBlocked cur).core =
      s.core.settled cur .blocked (queued q) (cur :: b).length := by
    have hset : ((s.setState cur .blocked).setNext cur s.blockedHead).core =
        { s.core with state := Function.update s.core.state cur .blocked } := by
      rw [core_setNext, core_setState]
    have hcounts : (s.linkBlocked cur).core = { s.core with
        state := Function.update s.core.state cur .blocked
        blockedCount := u64 (s.core.blockedCount + 1)
        statsBlocked := u64 (s.core.statsBlocked + 1) } :=
      congrArg (fun c : SchedCore => { c with
        blockedCount := u64 (c.blockedCount + 1)
        statsBlocked := u64 (c.statsBlocked + 1) }) hset
    rw [List.length_cons] at hlen ⊢
    rw [hcounts, h.blockedCount, h.statsBlocked, u64_of_lt hlen, SchedCore.settled, ← h.readyCount]
  have hmade : cur ∈ made := by
    by_contra hnot
    exact (h.fresh cur hnot hidle).2.1 hrun
  have hgone : cur ∉ removed := fun hmem => by
    have hstate := h.gone cur hmem
    rw [hrun] at hstate
    cases hstate
  have hsteady : Steady (s.core.settled cur .blocked (queued q) (cur :: b).length) q (cur :: b)
      made removed :=
    h.toSteady.setState (.inl ⟨.inr rfl, hidle, hmade, hgone⟩)
      (fun y hy => List.mem_cons.trans (or_iff_right hy)) (iff_of_true List.mem_cons_self rfl)
      (fun _ _ => Iff.rfl) (fun _ _ => Iff.rfl) h.idle_fresh h.idle_kept
  refine ⟨hlists, ?_⟩
  rw [hcore]
  refine
    { hsteady with
      ready := fun y p => ?_
      running := fun y hy hyrun => ?_
      current := hcur
      not_ready := fun _ heq => ?_ }
  · rw [h.ready]
    by_cases hy : y = cur
    · subst hy
      rw [SchedCore.settled_self, hrun]
      exact iff_of_false (fun hall => by cases hall.1) fun hall => by
        rcases hall.1 with heq | ⟨-, -, heq⟩
        all_goals cases heq
    · rw [SchedCore.settled_of_ne hy]
      exact and_congr_left fun _ => ⟨.inl, fun hall => hall.resolve_right fun hy' => hy hy'.1⟩
  · by_cases hy' : y = cur
    · exact hy'
    · rw [SchedCore.settled_of_ne hy'] at hyrun
      exact Option.some.inj ((h.running y hy hyrun).symm.trans hcur)
  · rw [SchedCore.settled_self] at heq
    cases heq

/-- The current strand is put into its queue, or not. -/
theorem InPlace.gaveUp {P : Prop} [Decidable P] (hl : Lists s q b)
    (h : InPlace s.core q b made removed) (hcur : s.core.current = some cur) (preempted : Bool)
    (hput : P → cur ≠ s.core.idleStrand ∧ s.core.state cur = .running)
    (hskip : ¬ P → cur = s.core.idleStrand ∨ s.core.state cur ≠ .running) :
    let t := if P then (s.modify cur fun t => { t with preempted := preempted }).enqueue cur else s
    ∃ q', Lists t q' b ∧ Between t.core q' b made removed cur := by
  dsimp only
  split
  · next hP =>
    have hcore : (s.modify cur fun t => { t with preempted := preempted }).core = s.core :=
      core_modify cur fun _ => ⟨rfl, rfl⟩
    have hlists := hl.modify cur (f := fun t => { t with preempted := preempted }) fun _ => rfl
    refine InPlace.requeued hlists (hcore ▸ h) (hcore ▸ hcur) ?_ ?_
    · exact hcore ▸ (hput hP).1
    · exact hcore ▸ (hput hP).2
  · next hP => exact ⟨q, hl, h.skipped hcur (hskip hP)⟩

/-! ## The next strand -/

/-- A change of neither the strands nor their places. -/
def KeepsPlaces (f : Scheduler → Scheduler) : Prop :=
  ∀ t, (f t).core = t.core ∧ ∀ q b, Lists t q b → Lists (f t) q b

theorem KeepsPlaces.id : KeepsPlaces fun t => t :=
  fun _ => ⟨rfl, fun _ _ h => h⟩

theorem KeepsPlaces.quantum (f : Scheduler → ℕ) :
    KeepsPlaces fun t => { t with quantumRemaining := f t } :=
  fun _ => ⟨rfl, fun _ _ h => h.congr rfl rfl rfl rfl⟩

theorem KeepsPlaces.stats {f : SchedulerStats → SchedulerStats}
    (hf : ∀ n, (f n).readyCount = n.readyCount ∧ (f n).blockedCount = n.blockedCount) :
    KeepsPlaces fun t => { t with stats := f t.stats } := by
  refine fun t => ⟨?_, fun _ _ h => h.congr rfl rfl rfl rfl⟩
  unfold core
  dsimp only
  rw [(hf t.stats).1, (hf t.stats).2]

theorem KeepsPlaces.inv {f : Scheduler → Scheduler} (hf : KeepsPlaces f)
    (h : SchedInv s made removed) : SchedInv (f s) made removed := by
  obtain ⟨q, b, hl, ha⟩ := h
  exact ⟨q, b, (hf s).2 q b hl, (hf s).1 ▸ ha⟩

/-- The strand that is picked gets the processor, if it is another one. -/
theorem picked {f g : Scheduler → Scheduler} (hl : Lists s q b)
    (h : Between s.core q b made removed cur) (hf : KeepsPlaces f) (hg : KeepsPlaces g) :
    SchedInv (if s.pickNextStrand.2 ≠ cur then
        (f s.pickNextStrand.1).switchTo cur s.pickNextStrand.2
      else g s.pickNextStrand.1) made removed := by
  obtain ⟨q', hpick, hsame, hother⟩ := dispatch hl h
  split
  · next hne =>
    refine ⟨q', b, ((hf _).2 q' b hpick).switchTo cur _, ?_⟩
    rw [core_switchTo hne, (hf _).1]
    exact hother hne
  · next heq => exact hg.inv ⟨q', b, hpick, hsame (not_not.1 heq)⟩

/-! ## The calls -/

namespace SchedInv

theorem yield (h : SchedInv s made removed) (hok : ∀ x, s.current = some x → x ∉ removed) :
    SchedInv s.yield made removed := by
  obtain ⟨q, b, hl, ha⟩ := h
  unfold Scheduler.yield
  split
  · next cur hrunning hcur =>
    obtain ⟨q', hl', hb'⟩ := InPlace.gaveUp (P := cur ≠ s.idleStrand) hl ha hcur false
      (fun hidle => ⟨hidle, (ha.current cur hcur hidle).resolve_right (hok cur hcur)⟩)
      fun hidle => .inl (not_not.1 hidle)
    exact picked hl' hb'
      (KeepsPlaces.stats (f := fun n => { n with yields := u64 (n.yields + 1) })
        fun _ => ⟨rfl, rfl⟩)
      KeepsPlaces.id
  · exact ⟨q, b, hl, ha⟩

theorem block (h : SchedInv s made removed) (hok : ∀ x, s.current = some x → x ∉ removed) :
    SchedInv s.block made removed := by
  obtain ⟨q, b, hl, ha⟩ := h
  unfold Scheduler.block
  split
  · next cur hrunning hcur =>
    dsimp only
    by_cases hidle : cur ≠ s.idleStrand
    · have hrun := (ha.current cur hcur hidle).resolve_right (hok cur hcur)
      obtain ⟨hl', hb'⟩ := ha.linked hl hcur hidle hrun
      rw [if_pos hidle]
      exact picked hl' hb' KeepsPlaces.id KeepsPlaces.id
    · rw [if_neg hidle]
      exact picked hl (ha.skipped hcur (.inl (not_not.1 hidle))) KeepsPlaces.id KeepsPlaces.id
  · exact ⟨q, b, hl, ha⟩

/-- The current strand gets another priority. -/
theorem adjust (h : SchedInv s made removed) (hcur : s.current = some cur) (delta : Option ℤ) :
    SchedInv (s.adjust cur delta) made removed := by
  obtain ⟨q, b, hl, ha⟩ := h
  unfold Scheduler.adjust
  split
  · next hidle =>
    cases delta with
    | none => exact ⟨q, b, hl, ha⟩
    | some delta =>
      have hstate : s.core.state cur ≠ .ready := fun heq => by
        rcases ha.current cur hcur hidle.2 with hrun | hgone
        · rw [heq] at hrun
          cases hrun
        · rw [ha.gone cur hgone] at heq
          cases heq
      have hnot : ∀ p, cur ∉ q p := fun p hmem => hstate ((ha.ready cur p).1 hmem).1
      refine ⟨q, b, hl.modify cur fun _ => rfl, ?_⟩
      dsimp only
      rw [core_setPriority]
      exact ha.setPriority (adjustPriority_lt (ha.valid cur) delta) (fun _ _ _ => Iff.rfl)
        (fun p => iff_of_false (hnot p) fun hall => hstate hall.1) rfl
  · exact ⟨q, b, hl, ha⟩

theorem current_adjust (delta : Option ℤ) : (s.adjust cur delta).current = s.current := by
  unfold Scheduler.adjust
  split
  · cases delta <;> rfl
  · rfl

theorem tick (h : SchedInv s made removed) (delta : Option ℤ) :
    SchedInv (s.tick delta) made removed := by
  unfold Scheduler.tick
  split
  · next cur hrunning hcur =>
    dsimp only
    have hcounted : SchedInv { s with quantumRemaining := s.quantumRemaining - 1 } made removed :=
      (KeepsPlaces.quantum fun t => t.quantumRemaining - 1).inv h
    split
    · obtain ⟨q, b, hl, ha⟩ := hcounted.adjust hcur delta
      have hcur' : (({ s with quantumRemaining := s.quantumRemaining - 1 } : Scheduler).adjust cur
          delta).core.current = some cur :=
        (current_adjust delta).trans hcur
      obtain ⟨q', hl', hb'⟩ := InPlace.gaveUp hl ha hcur' true (fun hput => hput) fun hskip =>
        (not_and_or.1 hskip).imp_left not_not.1
      exact picked hl' hb'
        (KeepsPlaces.stats (f := fun n => { n with preemptions := u64 (n.preemptions + 1) })
          fun _ => ⟨rfl, rfl⟩)
        (KeepsPlaces.quantum fun t => priorityQuantum (t.strands cur).priority)
    · exact hcounted
  · exact h

theorem start (h : SchedInv s made removed) (hcur : s.current = none) :
    SchedInv s.start made removed := by
  obtain ⟨q, b, hl, ha⟩ := h
  refine ⟨q, b, hl.congr rfl rfl rfl rfl, ?_⟩
  refine
    { ha.toSteady, ha with
      running := fun x hx hrun => ?_
      current := fun x hx hidle => ?_ }
  · have hsome := (ha.running x hx hrun).symm.trans hcur
    cases hsome
  · cases hx
    exact absurd rfl hidle

theorem statsReset (h : SchedInv s made removed)
    (hok : ∀ x, (s.strands x).state ≠ .ready ∧ (s.strands x).state ≠ .blocked) :
    SchedInv s.statsReset made removed := by
  obtain ⟨q, b, hl, ha⟩ := h
  have hq : ∀ p, q p = [] := fun p =>
    List.eq_nil_iff_forall_not_mem.2 fun x hx => (hok x).1 ((ha.ready x p).1 hx).1
  have hb : b = [] :=
    List.eq_nil_iff_forall_not_mem.2 fun x hx => (hok x).2 ((ha.blocked x).1 hx)
  have hcount : queued q = 0 := by
    rw [queued, List.length_eq_zero_iff, List.flatMap_eq_nil_iff]
    exact fun p _ => hq p
  exact ⟨q, b, hl.congr rfl rfl rfl rfl,
    { ha.toSteady, ha with
      readyCount := hcount.symm
      statsBlocked := by rw [hb]; rfl }⟩

theorem ready (h : SchedInv s made removed) (hmade : x ∉ made) (hremoved : x ∉ removed)
    (hidle : x ≠ s.idleStrand) : SchedInv (s.ready x) (x :: made) removed := by
  obtain ⟨q, b, hl, ha⟩ := h
  obtain ⟨hready, hrunning, hblocked⟩ := ha.fresh x hmade hidle
  have hfree := ha.free hready hblocked hidle
  obtain ⟨q', hl', hmem, hcore⟩ := readied hl hfree (ha.valid x) ha.readyCount
  rw [← SchedCore.settled_eq ha.blockedCount ha.statsBlocked] at hcore
  refine ⟨q', b, hl', ?_⟩
  unfold Scheduler.ready
  rw [hcore]
  refine ha.setReady (.inl ⟨.inl rfl, hidle, List.mem_cons_self, hremoved⟩) (fun _ _ => Iff.rfl)
    hfree.blocked (fun y hy => List.mem_cons.trans (or_iff_right hy)) ?_ hfree.queue hmem ?_
  · exact fun hmem => (List.mem_cons.1 hmem).elim (fun heq => hidle heq.symm) ha.idle_fresh
  · exact fun hcur => (ha.current x hcur hidle).resolve_left hrunning

theorem wake (h : SchedInv s made removed) (x : StrandPtr) : SchedInv (s.wake x) made removed := by
  unfold Scheduler.wake
  split
  · next hstate =>
    obtain ⟨q, b, hl, ha⟩ := h
    have hblocked : s.core.state x = .blocked := hstate
    have hx : x ∈ b := (ha.blocked x).2 hblocked
    have hidle : x ≠ s.core.idleStrand := fun heq => ha.idle.2 (heq ▸ hblocked)
    have hnot : ∀ p, x ∉ q p := fun p hmem => hl.not_blocked p x hmem hx
    have hpred : u64 (b.length + (2 ^ 64 - 1)) = (b.erase x).length := by
      have hlen := List.length_erase_add_one hx
      rw [u64_pred (by omega) hl.length_blocked]
      omega
    have hcore : ((s.unlinkBlocked x).countBlocked (2 ^ 64 - 1)).core = { s.core with
        blockedCount := (b.erase x).length
        statsBlocked := (b.erase x).length } := by
      rw [core_countBlocked, core_unlinkBlocked, ha.blockedCount, ha.statsBlocked, hpred]
    have hlists := (hl.unlink hx).countBlocked (2 ^ 64 - 1)
    generalize (s.unlinkBlocked x).countBlocked (2 ^ 64 - 1) = u at *
    have hsame : u.idleStrand = s.idleStrand := congrArg SchedCore.idleStrand hcore
    obtain ⟨q', hl', hmem, hcore'⟩ := readied hlists
      ⟨hnot, hl.nodup.not_mem_erase, fun heq => hidle (heq.trans hsame)⟩
      (by rw [hcore]; exact ha.valid x) (by rw [hcore]; exact ha.readyCount)
    rw [hcore] at hmem hcore'
    refine ⟨q', b.erase x, hl', ?_⟩
    rw [hcore']
    refine ha.setReady (.inl ⟨.inl rfl, hidle, ?_, fun hgone => ?_⟩)
      (fun y hy => List.mem_erase_of_ne hy) hl.nodup.not_mem_erase (fun _ _ => Iff.rfl)
      ha.idle_fresh hnot hmem fun hcur => ?_
    · by_contra hnot
      exact (ha.fresh x hnot hidle).2.2 hblocked
    · have hgone := ha.gone x hgone
      rw [hblocked] at hgone
      cases hgone
    · refine (ha.current x hcur hidle).resolve_left fun hrun => ?_
      rw [hblocked] at hrun
      cases hrun
  · exact h

theorem remove (h : SchedInv s made removed) (hidle : x ≠ s.idleStrand)
    (hok : (s.strands x).state ≠ .blocked) : SchedInv (s.remove x) made (x :: removed) := by
  obtain ⟨q, b, hl, ha⟩ := h
  have hb : x ∉ b := fun hx => hok ((ha.blocked x).1 hx)
  have hcases : ∀ y, y ≠ x → (y ∈ x :: removed ↔ y ∈ removed) := fun y hy =>
    List.mem_cons.trans (or_iff_right hy)
  have hkept : s.core.idleStrand ∉ x :: removed := fun hmem =>
    (List.mem_cons.1 hmem).elim (fun heq => hidle heq.symm) ha.idle_kept
  have hsettled : Stands s.core made (x :: removed) x .terminated :=
    .inr ⟨rfl, List.mem_cons_self⟩
  -- whatever queue the strand has left, it is terminated then
  have hend : ∀ u q', Lists u q' b → (∀ y p, y ∈ q' p ↔ y ∈ q p ∧ y ≠ x) →
      u.core = { s.core with readyCount := queued q' } →
      SchedInv (u.setState x .terminated) made (x :: removed) := by
    intro u q' hl' hmem hcore
    have hcore' : (u.setState x .terminated).core =
        s.core.settled x .terminated (queued q') b.length := by
      rw [SchedCore.settled_eq ha.blockedCount ha.statsBlocked, core_setState, hcore]
    have hsteady : Steady (s.core.settled x .terminated (queued q') b.length) q' b made
        (x :: removed) := ha.toSteady.setState hsettled (fun _ _ => Iff.rfl)
      (iff_of_false hb fun heq => by cases heq) (fun _ _ => Iff.rfl) hcases ha.idle_fresh hkept
    refine ⟨q', b, hl'.setState x _, ?_⟩
    rw [hcore']
    refine ha.setState hsteady hsettled (fun y p hy => ?_) (fun p => ?_) hcases fun _ =>
      List.mem_cons_self
    · rw [hmem]
      exact and_iff_left hy
    · rw [hmem]
      exact iff_of_false (fun hx => hx.2 rfl) fun hx => by cases hx.1
  have hdestroyed := KeepsPlaces.stats
    (f := fun n => { n with strandsDestroyed := u64 (n.strandsDestroyed + 1) }) fun _ => ⟨rfl, rfl⟩
  unfold Scheduler.remove
  dsimp only
  refine hdestroyed.inv ?_
  split
  · next hready =>
    have hx : x ∈ q (s.strands x).priority := (ha.ready x _).2 ⟨hready, rfl⟩
    have hvalid : (s.strands x).priority < priorityMax := ha.valid x
    refine hend _ _ ((hl.remove hx).countReady _) (hl.mem_erase hx) ?_
    rw [core_countReady, core_runqueueRemove, ha.readyCount, hl.count_erase hvalid hx]
  · next hblocked => exact absurd hblocked hok
  · next hready _ =>
    refine hend s q hl (fun y p => ⟨fun hy => ⟨hy, ?_⟩, And.left⟩) ?_
    · rintro rfl
      exact hready ((ha.ready y p).1 hy).1
    · rw [← ha.readyCount]

theorem requeue (h : SchedInv s made removed) (x : StrandPtr) {priority : ℕ}
    (hp : priority < priorityMax) : SchedInv (s.requeue x priority) made removed := by
  obtain ⟨q, b, hl, ha⟩ := h
  have hvalid : (s.strands x).priority < priorityMax := ha.valid x
  unfold Scheduler.requeue
  dsimp only
  split
  · next hmoved =>
    have hx : x ∈ q (s.strands x).priority := (ha.ready x _).2 ⟨hmoved.1, rfl⟩
    have hmem := hl.mem_erase hx
    have hcount : queued q = queued
        (Function.update q (s.strands x).priority ((q (s.strands x).priority).erase x)) + 1 := by
      have hsum := queued_update (q := q) (l := (q (s.strands x).priority).erase x) hvalid
      have hlen := List.length_erase_add_one hx
      omega
    have hremoved := (hl.remove hx).modify x (f := fun t => { t with priority := priority })
      fun _ => rfl
    have hfree : Free ((s.runqueueRemove (s.strands x).priority x).modify x fun t =>
        { t with priority := priority }) (Function.update q (s.strands x).priority
          ((q (s.strands x).priority).erase x)) b x := by
      refine ⟨fun p hy => ((hmem x p).1 hy).2 rfl, hl.not_blocked _ x hx, fun heq => ?_⟩
      have hsame := congrArg SchedCore.idleStrand
        (core_runqueueRemove (s := s) (s.strands x).priority x)
      exact hl.idle _ ((heq.trans hsame) ▸ hx)
    have hpush := hremoved.push priority hfree
    generalize Function.update q (s.strands x).priority ((q (s.strands x).priority).erase x) = q'
      at *
    refine ⟨_, b, hpush, ?_⟩
    rw [core_runqueueAdd, core_setPriority, core_runqueueRemove]
    refine ha.setPriority hp (fun y p hy => ?_) (fun p => ?_) ((queued_push hp).trans hcount.symm)
    · rw [mem_push, hmem]
      exact (or_iff_left fun heq => hy heq.1).trans (and_iff_left hy)
    · rw [mem_push, hmem]
      exact ⟨fun hx => ⟨hmoved.1, (hx.resolve_left fun heq => heq.2 rfl).2⟩,
        fun hx => .inr ⟨rfl, hx.2⟩⟩
  · next hmoved =>
    refine ⟨q, b, hl.modify x fun _ => rfl, ?_⟩
    rw [core_setPriority]
    refine ha.setPriority hp (fun _ _ _ => Iff.rfl) (fun p => ?_) rfl
    rw [ha.ready]
    refine and_congr_right fun hready => ?_
    have hsame : s.core.priority x = priority := by
      by_contra hne
      exact hmoved ⟨hready, hne⟩
    rw [hsame]

theorem setPriority (h : SchedInv s made removed) (x : StrandPtr) (priority : ℕ) :
    SchedInv (s.setPriority x priority) made removed := by
  unfold Scheduler.setPriority
  split
  · exact h
  · next hp =>
    refine KeepsPlaces.inv (f := fun t => t.modify x fun u => { u with basePriority := priority })
      (fun t => ⟨core_modify x fun _ => ⟨rfl, rfl⟩, fun _ _ hl => hl.modify x fun _ => rfl⟩)
      (h.requeue x (Nat.lt_of_not_le hp))

theorem priorityBoost (h : SchedInv s made removed) (x : StrandPtr) (minPriority : ℕ) :
    SchedInv (s.priorityBoost x minPriority) made removed := by
  unfold Scheduler.priorityBoost
  split
  · exact h.setPriority x minPriority
  · exact h

theorem priorityRestore (h : SchedInv s made removed) (x : StrandPtr) :
    SchedInv (s.priorityRestore x) made removed := by
  unfold Scheduler.priorityRestore
  split
  · exact h.setPriority x _
  · exact h

theorem galacticBoost (h : SchedInv s made removed) (x : StrandPtr) (urgency : ℕ) :
    SchedInv (s.galacticBoost x urgency) made removed := by
  unfold Scheduler.galacticBoost
  split
  · exact h
  · refine h.requeue x ?_
    unfold priorityRealtime priorityMax
    split <;> omega

theorem onIpcLend (h : SchedInv s made removed) (lender receiver : StrandPtr) :
    SchedInv (s.onIpcLend lender receiver) made removed := by
  unfold Scheduler.onIpcLend
  split
  · exact h.priorityBoost receiver _
  · exact h

theorem onIpcReturn (h : SchedInv s made removed) (lender receiver : StrandPtr) :
    SchedInv (s.onIpcReturn lender receiver) made removed := by
  have hrestored := h.priorityRestore receiver
  unfold Scheduler.onIpcReturn
  dsimp only
  split
  · exact hrestored.wake lender
  · exact hrestored

end SchedInv

end

end Seraph
