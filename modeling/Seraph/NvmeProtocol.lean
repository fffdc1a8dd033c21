import Mathlib.Data.List.Perm.Basic
import Mathlib.Data.List.Range
import Seraph.NvmeQueue

/-!
# The protocol of an NVMe queue

The counters of the queue and of the controller are the lengths of the histories, modulo the depth
(`Counters`). The submissions the controller has not taken are a window of the submission queue, and
the completions not returned are one of the completion queue, in which the phase tells the host where
it ends (`Rings`). Every step that is `Allowed` keeps both (`Inv.step`), and they are what makes a state
`Correct` (`Inv.correct`); `nvme_run_correct` is about runs.
-/

namespace Seraph

open PhaseRing

namespace NvmeSystem

/-- The counters. -/
structure Counters (s : NvmeSystem) : Prop where
  depth_pos : 0 < s.queue.depth
  consumed_le : s.consumed.length ≤ s.submitted.length
  posted_le : s.posted.length ≤ s.consumed.length
  room : s.submitted.length < s.returned.length + s.queue.depth
  ids : s.submitted.length ≤ voidU16
  nextCid : s.queue.nextCid = s.submitted.length
  sqTail : s.queue.sqTail = s.submitted.length % s.queue.depth
  sqDoorbell : s.queue.sqDoorbell = s.submitted.length % s.queue.depth
  cqHead : s.queue.cqHead = s.returned.length % s.queue.depth
  hostPhase : s.queue.phase = PhaseRing.phase s.queue.depth s.returned.length
  head : s.head = s.consumed.length % s.queue.depth
  tail : s.tail = s.posted.length % s.queue.depth
  phase : s.phase = PhaseRing.phase s.queue.depth s.posted.length

/-- The entries of the two queues. -/
structure Rings (s : NvmeSystem) : Prop where
  submissions : Window s.queue.depth s.queue.sq s.submitted s.consumed.length
  completions : Phased s.queue.depth (fun cpl => statusPhase cpl.status) s.queue.cq
    (s.posted.map Posted.cpl) s.returned.length
  consumed : s.consumed <+: s.submitted
  returned : s.returned = (s.posted.map Posted.cpl).take s.returned.length

/-- The commands and their completions. -/
structure Commands (s : NvmeSystem) : Prop where
  cid : ∀ k, ∀ hk : k < s.submitted.length, (s.submitted[k]).cid = k
  taken : (s.inflight ++ s.posted.map Posted.command).Perm (List.range s.consumed.length)
  completes : ∀ p ∈ s.posted, p.cpl.cid = p.command

/-- The polls. -/
structure Polls (s : NvmeSystem) : Prop where
  polling : ∀ command ∈ s.polling, command < s.submitted.length
  reports : ∀ r ∈ s.reports, ∃ p, s.posted[r.before]? = some p ∧ p.command = r.command ∧
    r.result = if statusOk p.cpl.status then .true else .void
  dropped : s.dropped = []

/-- What holds of every state of an allowed run. -/
structure Inv (s : NvmeSystem) : Prop where
  counters : s.Counters
  rings : s.Rings
  commands : s.Commands
  polls : s.Polls

variable {s : NvmeSystem}

theorem statusPhase_eq (status : ℕ) : statusPhase status = status % 2 :=
  Nat.and_one_is_mod status

theorem start_inv {q : NvmeQueue} {qid depth : ℕ} (h : NvmeQueue.init qid depth = some q) :
    (start q).Inv := by
  unfold NvmeQueue.init at h
  by_cases hdepth : depth = 0 ∨ depth > 65536
  · rw [if_pos hdepth] at h
    cases h
  · rw [if_neg hdepth] at h
    cases h
    have hpos : 0 < depth := by omega
    have hphase : PhaseRing.phase depth 0 = 1 := by
      rw [PhaseRing.phase, Nat.zero_div]
    constructor
    · constructor <;> simp [start, hphase, hpos]
    · refine ⟨fun k _ hk => absurd hk (Nat.not_lt_zero k), Phased.nil fun k _ => ?_,
        List.nil_prefix, rfl⟩
      have hzero : statusPhase NvmeCpl.zero.status ≠ 1 := by decide
      exact hzero
    · exact ⟨fun k hk => absurd hk (Nat.not_lt_zero k), List.Perm.refl _,
        fun p hp => absurd hp List.not_mem_nil⟩
    · exact ⟨fun c hc => (by cases hc), fun r hr => absurd hr List.not_mem_nil, rfl⟩

/-- The number of outstanding commands, as the queue counts them. -/
theorem Counters.outstanding (h : s.Counters) (hle : s.returned.length ≤ s.submitted.length) :
    s.queue.outstanding + s.returned.length = s.submitted.length := by
  have hpos := h.depth_pos
  have hroom := h.room
  unfold NvmeQueue.outstanding
  rw [if_neg hpos.ne', h.cqHead, h.sqTail]
  have hr := Nat.div_add_mod s.returned.length s.queue.depth
  have hs := Nat.div_add_mod s.submitted.length s.queue.depth
  have hrlt := Nat.mod_lt s.returned.length hpos
  have hslt := Nat.mod_lt s.submitted.length hpos
  have hdiv : s.returned.length / s.queue.depth ≤ s.submitted.length / s.queue.depth :=
    Nat.div_le_div_right hle
  have hdiv' : s.submitted.length / s.queue.depth ≤ s.returned.length / s.queue.depth + 1 := by
    rw [← Nat.add_div_right _ hpos]
    exact Nat.div_le_div_right hroom.le
  generalize s.returned.length / s.queue.depth = a at *
  generalize s.submitted.length / s.queue.depth = b at *
  rcases eq_or_lt_of_le hdiv with rfl | hlt
  · rw [if_pos (by omega)]
    omega
  · obtain rfl : b = a + 1 := by omega
    rw [Nat.mul_succ] at hs
    rw [if_neg (by omega)]
    omega

/-- The queue is not full where there is room for a command beside the one that stays free. -/
theorem Counters.room_of_not_full (h : s.Counters) (hle : s.returned.length ≤ s.submitted.length)
    (hfull : s.queue.full = false) :
    s.submitted.length + 1 < s.returned.length + s.queue.depth := by
  have hout := h.outstanding hle
  have hpos := h.depth_pos
  unfold NvmeQueue.full at hfull
  rw [Bool.or_eq_false_iff, decide_eq_false_iff_not] at hfull
  omega

theorem Rings.returned_le (h : s.Rings) : s.returned.length ≤ s.posted.length := by
  have hle := h.completions.start_le
  rwa [List.length_map] at hle

theorem Inv.returned_le_submitted (h : s.Inv) : s.returned.length ≤ s.submitted.length :=
  h.rings.returned_le.trans (h.counters.posted_le.trans h.counters.consumed_le)

/-! ## Submissions -/

theorem cidOf_eq (h : s.Commands) {k : ℕ} (hk : k < s.submitted.length) : s.cidOf k = k := by
  rw [cidOf, List.getD_eq_getElem?_getD, List.getElem?_eq_getElem hk, Option.getD_some, h.cid k hk]

theorem Inv.submit (h : s.Inv) (hfull : s.queue.full = false)
    (hcid : s.queue.nextCid ≠ voidU16) (cmd : NvmeCmd) : (s.submit cmd).Inv := by
  have hc := h.counters
  have hroom := hc.room_of_not_full h.returned_le_submitted hfull
  have hlt : s.submitted.length < voidU16 := by
    have := hc.ids
    rw [hc.nextCid] at hcid
    omega
  constructor
  · constructor
    · exact hc.depth_pos
    · simpa [NvmeSystem.submit] using hc.consumed_le.trans (Nat.le_succ _)
    · exact hc.posted_le
    · simpa [NvmeSystem.submit, NvmeQueue.submit] using hroom
    · simpa [NvmeSystem.submit] using Nat.succ_le_of_lt hlt
    · have hsmall : u16 (s.submitted.length + 1) = s.submitted.length + 1 := by
        refine u16_of_lt ?_
        unfold voidU16 at hlt
        omega
      simpa [NvmeSystem.submit, NvmeQueue.submit, hc.nextCid] using hsmall
    · simp [NvmeSystem.submit, NvmeQueue.submit, hc.sqTail]
    · simp [NvmeSystem.submit, NvmeQueue.submit, hc.sqTail]
    · exact hc.cqHead
    · exact hc.hostPhase
    · exact hc.head
    · exact hc.tail
    · exact hc.phase
  · have hr := h.rings
    have hwindow := hr.submissions.push (by
      have hle := hr.returned_le
      have hle' := hc.posted_le
      omega) { cmd with cid := s.queue.nextCid }
    rw [← hc.sqTail] at hwindow
    exact ⟨hwindow, hr.completions, hr.consumed.trans (List.prefix_append _ _), hr.returned⟩
  · have hm := h.commands
    refine ⟨fun k hk => ?_, hm.taken, hm.completes⟩
    simp only [NvmeSystem.submit, NvmeQueue.submit, List.length_append, List.length_singleton] at hk ⊢
    rcases Nat.lt_succ_iff_lt_or_eq.1 hk with hold | rfl
    · rw [List.getElem_append_left hold]
      exact hm.cid k hold
    · rw [List.getElem_concat_length rfl]
      exact hc.nextCid
  · have hp := h.polls
    refine ⟨fun command hcommand => ?_, hp.reports, hp.dropped⟩
    simpa [NvmeSystem.submit] using (hp.polling command hcommand).trans (Nat.lt_succ_self _)

/-! ## Completions -/

/-- The host sees a completion just where one has been posted that it has not returned. -/
theorem Inv.phase_eq_iff (h : s.Inv) :
    statusPhase (s.queue.cq s.queue.cqHead).status = s.queue.phase ↔
      s.returned.length < s.posted.length := by
  have hiff := h.rings.completions.phase_eq_iff h.counters.depth_pos
  rw [List.length_map] at hiff
  rw [h.counters.cqHead, h.counters.hostPhase]
  exact hiff

theorem Inv.checkCompletion_none (h : s.Inv) (hle : s.posted.length ≤ s.returned.length) :
    s.queue.checkCompletion = (s.queue, none) := by
  rw [NvmeQueue.checkCompletion, if_pos fun heq => absurd (h.phase_eq_iff.1 heq) (not_lt.2 hle)]

theorem Inv.checkCompletion_some (h : s.Inv) (hlt : s.returned.length < s.posted.length) :
    s.queue.checkCompletion = ({ s.queue with
      cqHead := (s.returned.length + 1) % s.queue.depth
      phase := PhaseRing.phase s.queue.depth (s.returned.length + 1)
      cqDoorbell := (s.returned.length + 1) % s.queue.depth },
      some (s.posted[s.returned.length]).cpl) := by
  have hc := h.counters
  obtain ⟨hmod, hphase⟩ := mod_succ hc.depth_pos s.returned.length
  have hentry := h.rings.completions.window s.returned.length (le_refl _)
    (by rwa [List.length_map])
  rw [List.getElem_map] at hentry
  rw [NvmeQueue.checkCompletion, if_neg (not_not.2 (h.phase_eq_iff.2 hlt))]
  dsimp only
  rw [hc.cqHead, hc.hostPhase, hmod, hphase, hentry]

/-- The next completion is there when it has been posted. -/
theorem Inv.next (h : s.Inv) :
    s.queue.checkCompletion.2 = (s.posted.map Posted.cpl)[s.returned.length]? := by
  rw [List.getElem?_map]
  rcases Nat.lt_or_ge s.returned.length s.posted.length with hlt | hle
  · rw [h.checkCompletion_some hlt, List.getElem?_eq_getElem hlt, Option.map_some]
  · rw [h.checkCompletion_none hle, List.getElem?_eq_none hle, Option.map_none]

/-- The queue and the controller do not depend on the polls. -/
theorem Inv.withPolls (h : s.Inv) {polling : Option ℕ} {reports : List PollReport}
    (hp : Polls { s with polling := polling, reports := reports }) :
    Inv { s with polling := polling, reports := reports } := by
  obtain ⟨hcounters, hrings, hcommands, -⟩ := h
  refine ⟨?_, ?_, ?_, hp⟩
  · cases hcounters
    constructor <;> assumption
  · cases hrings
    constructor <;> assumption
  · cases hcommands
    constructor <;> assumption

theorem Inv.check (h : s.Inv) : s.check.Inv := by
  rcases Nat.lt_or_ge s.returned.length s.posted.length with hlt | hle
  · have hcheck : s.check = { s with
        queue := { s.queue with
          cqHead := (s.returned.length + 1) % s.queue.depth
          phase := PhaseRing.phase s.queue.depth (s.returned.length + 1)
          cqDoorbell := (s.returned.length + 1) % s.queue.depth }
        returned := s.returned ++ [(s.posted[s.returned.length]).cpl] } := by
      rw [NvmeSystem.check, h.checkCompletion_some hlt]
      rfl
    rw [hcheck]
    have hc := h.counters
    have hr := h.rings
    have hlen : (s.returned ++ [(s.posted[s.returned.length]).cpl]).length =
        s.returned.length + 1 := by
      rw [List.length_append, List.length_singleton]
    refine ⟨?_, ?_, ⟨h.commands.cid, h.commands.taken, h.commands.completes⟩,
      ⟨h.polls.polling, h.polls.reports, h.polls.dropped⟩⟩
    · constructor
      · exact hc.depth_pos
      · exact hc.consumed_le
      · exact hc.posted_le
      · have hroom := hc.room
        dsimp only
        omega
      · exact hc.ids
      · exact hc.nextCid
      · exact hc.sqTail
      · exact hc.sqDoorbell
      · rw [hlen]
      · rw [hlen]
      · exact hc.head
      · exact hc.tail
      · exact hc.phase
    · refine ⟨hr.submissions, ?_, hr.consumed, ?_⟩
      · rw [hlen]
        exact hr.completions.next (by rwa [List.length_map])
      · have hlt' : s.returned.length < (s.posted.map Posted.cpl).length := by
          rwa [List.length_map]
        rw [hlen, List.take_succ_eq_append_getElem hlt', ← hr.returned, List.getElem_map]
  · have hcheck : s.check = s := by
      rw [NvmeSystem.check, h.checkCompletion_none hle]
      dsimp only
      rw [Option.toList_none, List.append_nil]
    rwa [hcheck]

/-- A round of a poll is a check; where it ends the poll, it reports what it has found. -/
theorem Inv.pollRound (h : s.Inv) {command : ℕ} (hcommand : command < s.submitted.length)
    (hours : ∀ cpl ∈ s.queue.checkCompletion.2, cpl.cid = s.cidOf command) :
    (s.pollRound command).Inv := by
  rcases Nat.lt_or_ge s.returned.length s.posted.length with hlt | hle
  · have hcid := hours (s.posted[s.returned.length]).cpl (by rw [h.checkCompletion_some hlt]; rfl)
    have hround : s.pollRound command = { s.check with
        polling := none
        reports := s.reports ++ [⟨command, s.returned.length,
          if statusOk (s.posted[s.returned.length]).cpl.status then .true else .void⟩] } := by
      rw [NvmeSystem.pollRound, NvmeSystem.check, NvmeQueue.pollRound, h.checkCompletion_some hlt]
      dsimp only
      rw [if_pos hcid]
    rw [hround]
    refine h.check.withPolls ⟨fun c hc => (by cases hc), fun r hr => ?_, h.polls.dropped⟩
    rcases List.mem_append.1 hr with hold | hnew
    · exact h.polls.reports r hold
    · rw [List.mem_singleton.1 hnew]
      refine ⟨s.posted[s.returned.length], List.getElem?_eq_getElem hlt, ?_, rfl⟩
      rw [← h.commands.completes _ (List.getElem_mem hlt), hcid, cidOf_eq h.commands hcommand]
  · have hround : s.pollRound command = s := by
      rw [NvmeSystem.pollRound, NvmeQueue.pollRound, h.checkCompletion_none hle]
    rwa [hround]

/-! ## The controller -/

theorem Inv.consume (h : s.Inv) : s.consume.Inv := by
  have hc := h.counters
  unfold NvmeSystem.consume
  by_cases heq : s.head = s.queue.sqDoorbell
  · rwa [if_pos heq]
  rw [if_neg heq]
  have hlt : s.consumed.length < s.submitted.length := by
    refine lt_of_le_of_ne hc.consumed_le fun hlen => heq ?_
    rw [hc.head, hc.sqDoorbell, hlen]
  have hr := h.rings
  have hentry : s.queue.sq s.head = s.submitted[s.consumed.length] := by
    rw [hc.head]
    exact hr.submissions _ (le_refl _) hlt
  have hlen : (s.consumed ++ [s.queue.sq s.head]).length = s.consumed.length + 1 := by
    rw [List.length_append, List.length_singleton]
  refine ⟨?_, ?_, ?_, ⟨h.polls.polling, h.polls.reports, h.polls.dropped⟩⟩
  · cases hc
    constructor <;> try assumption
    · exact hlen.trans_le hlt
    · rw [hlen]
      exact Nat.le_succ_of_le ‹_›
    · rw [hlen, ‹s.head = _›]
      exact Nat.mod_add_mod _ _ _
  · refine ⟨?_, hr.completions, ?_, hr.returned⟩
    · rw [hlen]
      exact hr.submissions.mono (Nat.le_succ _)
    · have htake := List.prefix_iff_eq_take.1 hr.consumed
      rw [hentry, List.prefix_iff_eq_take, List.length_append, List.length_singleton,
        List.take_succ_eq_append_getElem hlt, ← htake]
  · refine ⟨h.commands.cid, ?_, h.commands.completes⟩
    rw [hlen, List.range_succ]
    refine List.Perm.trans ?_ (h.commands.taken.append_right [s.consumed.length])
    rw [List.append_assoc, List.append_assoc]
    exact List.Perm.append_left _ List.perm_append_comm

/-- A command that the controller has taken is the submitted one. -/
theorem Inv.consumed_getD (h : s.Inv) {command : ℕ} (hc : command < s.consumed.length) :
    (s.consumed.getD command .zero).cid = command := by
  rw [List.getD_eq_getElem?_getD, List.getElem?_eq_getElem hc, Option.getD_some,
    h.rings.consumed.getElem hc]
  exact h.commands.cid command (hc.trans_le h.counters.consumed_le)

theorem Inv.post (h : s.Inv) (command dw0 dw1 sqHead sqId status : ℕ) :
    (s.post command dw0 dw1 sqHead sqId status).Inv := by
  unfold NvmeSystem.post
  by_cases hin : command ∈ s.inflight
  swap
  · rwa [if_neg hin]
  rw [if_pos hin]
  have hc := h.counters
  have hm := h.commands
  have hperm := hm.taken
  have htaken : command < s.consumed.length :=
    List.mem_range.1 (hperm.subset (List.mem_append_left _ hin))
  have hnext : (s.inflight.erase command ++ (s.posted.map Posted.command ++ [command])).Perm
      (List.range s.consumed.length) := by
    refine List.Perm.trans ?_ hperm
    rw [← List.append_assoc]
    exact List.perm_append_comm.trans
      ((List.perm_cons_erase hin).symm.append_right (s.posted.map Posted.command))
  have hroom : s.posted.length < s.consumed.length := by
    have hlen := hnext.length_eq
    simp only [List.length_append, List.length_map, List.length_singleton, List.length_range] at hlen
    omega
  have hphase : s.phase < 2 := by
    rw [hc.phase]
    exact Nat.mod_lt _ (by decide)
  obtain ⟨hmod, hturn⟩ := mod_succ hc.depth_pos s.posted.length
  have hplen : ∀ p : Posted, (s.posted ++ [p]).length = s.posted.length + 1 := fun p => by
    rw [List.length_append, List.length_singleton]
  refine ⟨?_, ?_, ?_, ⟨h.polls.polling, fun r hr => ?_, h.polls.dropped⟩⟩
  · have htail := hc.tail
    have hold := hc.phase
    cases hc
    constructor <;> try assumption
    · rw [hplen]
      exact hroom
    · rw [hplen, htail]
      exact hmod
    · rw [hplen, htail, hold]
      exact hturn
  · have hr := h.rings
    refine ⟨hr.submissions, ?_, hr.consumed, ?_⟩
    · have hpush := hr.completions.push hc.depth_pos (by
        have hsub := hc.room
        have hle := hc.consumed_le
        rw [List.length_map]
        omega) (x := ⟨dw0, dw1, sqHead, sqId, (s.consumed.getD command .zero).cid,
          2 * status + s.phase⟩) (by
        rw [statusPhase_eq, List.length_map, ← hc.phase]
        dsimp only
        omega)
      rw [List.length_map, ← hc.tail] at hpush
      rw [List.map_append]
      exact hpush
    · rw [List.map_append, List.take_append_of_le_length]
      · exact hr.returned
      · rw [List.length_map]
        exact hr.returned_le
  · refine ⟨hm.cid, ?_, fun p hp => ?_⟩
    · rw [List.map_append]
      exact hnext
    · rcases List.mem_append.1 hp with hold | hnew
      · exact hm.completes p hold
      · rw [List.mem_singleton.1 hnew]
        exact h.consumed_getD htaken
  · obtain ⟨p, hp, hreport⟩ := h.polls.reports r hr
    refine ⟨p, ?_, hreport⟩
    dsimp only
    rw [List.getElem?_append_left (List.getElem?_eq_some_iff.1 hp).1]
    exact hp

/-! ## Runs -/

/-- An allowed step keeps the invariant. -/
theorem Inv.step (h : s.Inv) {a : NvmeAction} (ha : s.Allowed a) : (s.step a).1.Inv := by
  cases a with
  | submit cmd => exact h.submit ha.1 ha.2 cmd
  | check => exact h.check
  | poll command =>
    by_cases hcommand : command < s.submitted.length
    · have hstep : (s.step (.poll command)).1 =
          { s with polling := some command, reports := s.reports } := if_pos hcommand
      rw [hstep]
      refine h.withPolls ⟨fun c hc => ?_, h.polls.reports, h.polls.dropped⟩
      rw [← Option.some.inj hc]
      exact hcommand
    · have hstep : (s.step (.poll command)).1 = s := if_neg hcommand
      rwa [hstep]
  | pollRound =>
    cases hpolling : s.polling with
    | none =>
      have hstep : (s.step .pollRound).1 = s := by
        rw [NvmeSystem.step, hpolling]
        rfl
      rwa [hstep]
    | some command =>
      have hstep : (s.step .pollRound).1 = s.pollRound command := by
        rw [NvmeSystem.step, hpolling]
        rfl
      rw [hstep]
      exact h.pollRound (h.polls.polling command hpolling) (ha command hpolling)
  | pollTimeout =>
    have hpolls : Polls { s with polling := none, reports := s.reports } :=
      ⟨fun c hc => (by cases hc), h.polls.reports, h.polls.dropped⟩
    exact h.withPolls hpolls
  | consume => exact h.consume
  | post command dw0 dw1 sqHead sqId status => exact h.post command dw0 dw1 sqHead sqId status

/-- The invariant is what makes a state correct. -/
theorem Inv.correct (h : s.Inv) : s.Correct := by
  have hc := h.counters
  have hout : ∀ command ∈ s.outstanding, command < s.submitted.length := by
    intro command hcommand
    exact List.mem_range.1 (List.mem_of_mem_filter hcommand)
  have hids : s.outstanding.map s.cidOf = s.outstanding := by
    refine (List.map_congr_left fun command hcommand => ?_).trans (List.map_id _)
    exact cidOf_eq h.commands (hout command hcommand)
  constructor
  · rw [h.rings.returned]
    exact List.take_prefix _ _
  · exact h.next
  · exact h.rings.consumed
  · exact h.rings.submissions
  · rw [hids]
    exact List.nodup_range.filter _
  · rw [hids]
    intro hvoid
    exact absurd (hout voidU16 hvoid) (not_lt.2 hc.ids)
  · exact hc.outstanding h.returned_le_submitted
  · exact h.polls.reports
  · exact h.polls.dropped

/-- Every state of an allowed run is correct. -/
theorem nvme_run_correct {q : NvmeQueue} {qid depth : ℕ} (hq : NvmeQueue.init qid depth = some q)
    {as : List NvmeAction} (has : Runs.Guarded step Allowed (start q) as) :
    (Runs.run step (start q) as).Correct :=
  Inv.correct (Runs.guarded_invariant (fun _ _ h ha => h.step ha) (start_inv hq) has)

/-- Two commands that are completed in the other order, and polled for. -/
def outOfOrder : List NvmeAction :=
  [.submit .zero, .submit .zero, .consume, .consume, .post 1 0 0 0 0 0, .post 0 0 0 0 0 1, .poll 1,
    .pollRound, .poll 0, .pollRound]

/-- A queue of four entries. -/
def fourEntries : NvmeQueue :=
  ⟨fun _ => .zero, fun _ => .zero, 0, 0, 4, 1, 1, 0, 0, 0⟩

theorem nvme_run_correct_outOfOrder :
    NvmeQueue.init 1 4 = some fourEntries ∧
      Runs.Guarded step Allowed (start fourEntries) outOfOrder ∧
      (Runs.run step (start fourEntries) outOfOrder).Correct ∧
      (Runs.run step (start fourEntries) outOfOrder).reports = [⟨1, 0, .true⟩, ⟨0, 1, .void⟩] :=
  ⟨rfl, by decide,
    nvme_run_correct (show NvmeQueue.init 1 4 = some fourEntries from rfl) (by decide), by decide⟩

/-- A fourth command is submitted although the queue is full, and a fifth takes the place of the
first. -/
theorem not_correct_overfull :
    ¬(Runs.run step (start fourEntries) [.submit { NvmeCmd.zero with opc := 1 }, .submit .zero,
      .submit .zero, .submit .zero, .submit { NvmeCmd.zero with opc := 2 }]).Correct := by
  intro h
  exact absurd h.outstanding (by decide)

end NvmeSystem

end Seraph
