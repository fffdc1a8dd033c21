import Mathlib.Data.List.Perm.Subperm
import Seraph.Scheduler

/-!
# The lists of the scheduler

The ready queues and the list of blocked strands share one link of each strand and have no strand
in common (`Lists`). Each operation on one of them changes this one as it says and leaves the
others (`Lists.push`, `Lists.pop`, `Lists.remove`, `Lists.link`, `Lists.unlink`), and changes
nothing else of the strands and the scheduler (`Scheduler.core`).
-/

namespace Seraph

open LinkedQueue

/-- All but the links and the queues that decides where a strand is. -/
structure SchedCore where
  state : StrandPtr → StrandState
  priority : StrandPtr → ℕ
  current : Option StrandPtr
  idleStrand : StrandPtr
  running : Bool
  readyCount : ℕ
  blockedCount : ℕ
  statsBlocked : ℕ

/-- What `switch_to` changes. -/
def SchedCore.switched (c : SchedCore) (prev x : StrandPtr) : SchedCore :=
  { c with
    state := Function.update
      (if prev ≠ c.idleStrand ∧ c.state prev = .running then Function.update c.state prev .ready
        else c.state) x .running
    current := some x }

/-- The strands of the queues, by priority, and those that are blocked. -/
structure Lists (s : Scheduler) (q : ℕ → List StrandPtr) (b : List StrandPtr) : Prop where
  queue : ∀ p, Queue s.next (s.readyQueues p).head (s.readyQueues p).tail (q p)
  count : ∀ p, (s.readyQueues p).count = (q p).length
  path : Path s.next s.blockedHead b none
  nodup : b.Nodup
  apart : ∀ p p' x, x ∈ q p → x ∈ q p' → p = p'
  not_blocked : ∀ p, ∀ x ∈ q p, x ∉ b
  idle : ∀ p, s.idleStrand ∉ q p
  idle_blocked : s.idleStrand ∉ b

/-- The strand is in none of the lists. -/
structure Free (s : Scheduler) (q : ℕ → List StrandPtr) (b : List StrandPtr)
    (strand : StrandPtr) : Prop where
  queue : ∀ p, strand ∉ q p
  blocked : strand ∉ b
  idle : strand ≠ s.idleStrand

/-- There are fewer strands in a list than there are addresses. -/
theorem length_lt_of_not_mem {l : List StrandPtr} {x : StrandPtr} (hnodup : l.Nodup) (hx : x ∉ l) :
    l.length < 2 ^ 64 := by
  have hall : ((x :: l).map UInt64.toNat).Nodup :=
    (List.nodup_cons.2 ⟨hx, hnodup⟩).map fun _ _ => UInt64.toNat_inj.1
  have hsub : (x :: l).map UInt64.toNat ⊆ List.range (2 ^ 64) := by
    intro n hn
    obtain ⟨y, -, rfl⟩ := List.mem_map.1 hn
    exact List.mem_range.2 y.toNat_lt
  have hlen := (hall.subperm hsub).length_le
  rw [List.length_map, List.length_range, List.length_cons] at hlen
  omega

/-- A counter goes down by one. -/
theorem u64_pred {n : ℕ} (hpos : 0 < n) (hlt : n < 2 ^ 64) : u64 (n + (2 ^ 64 - 1)) = n - 1 := by
  have hsum : n + (2 ^ 64 - 1) = n - 1 + 2 ^ 64 := by omega
  rw [u64, hsum, Nat.add_mod_right, Nat.mod_eq_of_lt (by omega)]

namespace Scheduler

variable {s : Scheduler}

/-- What the queues have to do with. -/
def core (s : Scheduler) : SchedCore where
  state := fun x => (s.strands x).state
  priority := fun x => (s.strands x).priority
  current := s.current
  idleStrand := s.idleStrand
  running := s.running
  readyCount := s.stats.readyCount
  blockedCount := s.blockedCount
  statsBlocked := s.stats.blockedCount

theorem next_setNext (x : StrandPtr) (n : Option StrandPtr) :
    (s.setNext x n).next = Function.update s.next x n := by
  funext y
  unfold next setNext
  by_cases hy : y = x
  · rw [hy, modify_self, Function.update_self]
  · rw [modify_of_ne _ hy, Function.update_of_ne hy]

theorem next_modify (x : StrandPtr) {f : Strand → Strand}
    (hf : ∀ t, (f t).nextInQueue = t.nextInQueue) : (s.modify x f).next = s.next := by
  funext y
  unfold next
  by_cases hy : y = x
  · rw [hy, modify_self, hf]
  · rw [modify_of_ne _ hy]

theorem core_modify (x : StrandPtr) {f : Strand → Strand}
    (hf : ∀ t, (f t).state = t.state ∧ (f t).priority = t.priority) :
    (s.modify x f).core = s.core := by
  have hall : ∀ y, ((s.modify x f).strands y).state = (s.strands y).state ∧
      ((s.modify x f).strands y).priority = (s.strands y).priority := by
    intro y
    by_cases hy : y = x
    · rw [hy, modify_self]
      exact hf _
    · rw [modify_of_ne _ hy]
      exact ⟨rfl, rfl⟩
  unfold core
  congr 1
  · exact funext fun y => (hall y).1
  · exact funext fun y => (hall y).2

theorem core_setNext (x : StrandPtr) (n : Option StrandPtr) : (s.setNext x n).core = s.core :=
  core_modify x fun _ => ⟨rfl, rfl⟩

theorem core_setQueue (p : ℕ) (queue : RunQueue) : (s.setQueue p queue).core = s.core :=
  rfl

theorem core_countReady (n : ℕ) :
    (s.countReady n).core = { s.core with readyCount := u64 (s.core.readyCount + n) } :=
  rfl

theorem core_countBlocked (n : ℕ) :
    (s.countBlocked n).core = { s.core with statsBlocked := u64 (s.core.statsBlocked + n) } :=
  rfl

theorem core_setState (x : StrandPtr) (state : StrandState) :
    (s.setState x state).core =
      { s.core with state := Function.update s.core.state x state } := by
  have hall : ∀ y, ((s.setState x state).strands y).state =
        Function.update s.core.state x state y ∧
      ((s.setState x state).strands y).priority = (s.strands y).priority := by
    intro y
    unfold setState
    by_cases hy : y = x
    · rw [hy, modify_self, Function.update_self]
      exact ⟨rfl, rfl⟩
    · rw [modify_of_ne _ hy, Function.update_of_ne hy]
      exact ⟨rfl, rfl⟩
  unfold core
  congr 1
  · exact funext fun y => (hall y).1
  · exact funext fun y => (hall y).2

theorem core_setPriority (x : StrandPtr) (priority : ℕ) :
    (s.modify x fun t => { t with priority := priority }).core =
      { s.core with priority := Function.update s.core.priority x priority } := by
  have hall : ∀ y, ((s.modify x fun t => { t with priority := priority }).strands y).state =
        (s.strands y).state ∧
      ((s.modify x fun t => { t with priority := priority }).strands y).priority =
        Function.update s.core.priority x priority y := by
    intro y
    by_cases hy : y = x
    · rw [hy, modify_self, Function.update_self]
      exact ⟨rfl, rfl⟩
    · rw [modify_of_ne _ hy, Function.update_of_ne hy]
      exact ⟨rfl, rfl⟩
  unfold core
  congr 1
  · exact funext fun y => (hall y).1
  · exact funext fun y => (hall y).2

theorem core_switchTo {prev x : StrandPtr} (hne : x ≠ prev) :
    (s.switchTo prev x).core = s.core.switched prev x := by
  unfold switchTo SchedCore.switched
  rw [if_neg hne]
  dsimp only
  by_cases hprev : prev ≠ s.idleStrand ∧ (s.strands prev).state = .running
  · have hcore : prev ≠ s.core.idleStrand ∧ s.core.state prev = .running := hprev
    rw [if_pos hprev, if_pos hcore]
    have hset : ((s.setState prev .ready).setState x .running).core = { s.core with
        state := Function.update (Function.update s.core.state prev .ready) x .running } := by
      rw [core_setState, core_setState]
    exact congrArg (fun c : SchedCore => { c with current := some x }) hset
  · have hcore : ¬ (prev ≠ s.core.idleStrand ∧ s.core.state prev = .running) := hprev
    rw [if_neg hprev, if_neg hcore]
    exact congrArg (fun c : SchedCore => { c with current := some x }) (core_setState x .running)

theorem core_runqueueAdd (p : ℕ) (x : StrandPtr) : (s.runqueueAdd p x).core = s.core := by
  unfold runqueueAdd
  dsimp only
  split
  · rw [core_setQueue, core_setNext, core_setNext]
  · rw [core_setQueue, core_setNext]

theorem core_runqueuePop (p : ℕ) : (s.runqueuePop p).1.core = s.core := by
  unfold runqueuePop
  dsimp only
  split
  · rfl
  · rw [core_setNext, core_setQueue]

theorem core_runqueueRemove (p : ℕ) (x : StrandPtr) : (s.runqueueRemove p x).core = s.core := by
  unfold runqueueRemove
  dsimp only
  split
  · exact core_runqueuePop p
  · split
    · rfl
    · rw [core_setQueue, core_setNext]

theorem core_unlinkBlocked (x : StrandPtr) :
    (s.unlinkBlocked x).core =
      { s.core with blockedCount := u64 (s.core.blockedCount + (2 ^ 64 - 1)) } := by
  have hcount : ∀ t : Scheduler, t.core = s.core → (t.countList (2 ^ 64 - 1)).core =
      { s.core with blockedCount := u64 (s.core.blockedCount + (2 ^ 64 - 1)) } := by
    intro t ht
    rw [← ht]
    rfl
  unfold unlinkBlocked
  split
  · exact hcount _ rfl
  · split
    · exact hcount _ rfl
    · exact hcount _ (core_setNext _ _)

end Scheduler

namespace Lists

open Scheduler

variable {s t : Scheduler} {q : ℕ → List StrandPtr} {b : List StrandPtr} {p : ℕ} {x : StrandPtr}

/-- The lists depend on the links and their ends. -/
theorem congr (h : Lists s q b) (hnext : t.next = s.next) (hqueues : t.readyQueues = s.readyQueues)
    (hhead : t.blockedHead = s.blockedHead) (hidle : t.idleStrand = s.idleStrand) :
    Lists t q b := by
  obtain ⟨hqueue, hcount, hpath, hnodup, hapart, hnot, hfree, hfree'⟩ := h
  refine ⟨?_, ?_, ?_, hnodup, hapart, hnot, ?_, ?_⟩
  · rwa [hnext, hqueues]
  · rwa [hqueues]
  · rwa [hnext, hhead]
  · rwa [hidle]
  · rwa [hidle]

theorem length_queue (h : Lists s q b) (p : ℕ) : (q p).length < 2 ^ 64 :=
  length_lt_of_not_mem (h.queue p).nodup (h.idle p)

theorem length_blocked (h : Lists s q b) : b.length < 2 ^ 64 :=
  length_lt_of_not_mem h.nodup h.idle_blocked

/-- One queue changes : the links of the others and of the blocked strands do not. -/
theorem update (h : Lists s q b) {l : List StrandPtr} {queue : RunQueue}
    (hqueues : t.readyQueues = Function.update s.readyQueues p queue)
    (hqueue : Queue t.next queue.head queue.tail l) (hcount : queue.count = l.length)
    (hhead : t.blockedHead = s.blockedHead) (hidle : t.idleStrand = s.idleStrand)
    (hl : ∀ y ∈ l, y ∈ q p ∨ Free s q b y)
    (hnext : ∀ y, y ∉ q p → ¬ Free s q b y → t.next y = s.next y) :
    Lists t (Function.update q p l) b := by
  have hother : ∀ p', p' ≠ p → ∀ y ∈ q p', t.next y = s.next y := fun p' hp' y hy =>
    hnext y (fun hy' => hp' (h.apart p' p y hy hy')) fun hfree => hfree.queue p' hy
  have hmem : ∀ p' y, y ∈ Function.update q p l p' →
      y ∈ q p' ∨ p' = p ∧ Free s q b y := by
    intro p' y hy
    by_cases hp' : p' = p
    · subst hp'
      rw [Function.update_self] at hy
      exact (hl y hy).imp_right fun hfree => ⟨rfl, hfree⟩
    · rw [Function.update_of_ne hp'] at hy
      exact .inl hy
  refine ⟨fun p' => ?_, fun p' => ?_, ?_, h.nodup, fun p' p'' y hy hy' => ?_, fun p' y hy => ?_,
    fun p' hy => ?_, hidle ▸ h.idle_blocked⟩
  · rw [hqueues]
    by_cases hp' : p' = p
    · subst hp'
      rw [Function.update_self, Function.update_self]
      exact hqueue
    · rw [Function.update_of_ne hp', Function.update_of_ne hp']
      exact (h.queue p').congr (hother p' hp')
  · rw [hqueues]
    by_cases hp' : p' = p
    · subst hp'
      rw [Function.update_self, Function.update_self]
      exact hcount
    · rw [Function.update_of_ne hp', Function.update_of_ne hp']
      exact h.count p'
  · rw [hhead]
    exact h.path.congr fun y hy => hnext y (fun hq => h.not_blocked p y hq hy)
      fun hfree => hfree.blocked hy
  · rcases hmem p' y hy with hy | ⟨rfl, hfree⟩
    · rcases hmem p'' y hy' with hy' | ⟨-, hfree⟩
      · exact h.apart p' p'' y hy hy'
      · exact absurd hy (hfree.queue p')
    · rcases hmem p'' y hy' with hy' | ⟨rfl, -⟩
      · exact absurd hy' (hfree.queue p'')
      · rfl
  · rcases hmem p' y hy with hy | ⟨-, hfree⟩
    · exact h.not_blocked p' y hy
    · exact hfree.blocked
  · rw [hidle] at hy
    rcases hmem p' _ hy with hy | ⟨-, hfree⟩
    · exact h.idle p' hy
    · exact hfree.idle rfl

/-- `runqueue_add`. -/
theorem push (h : Lists s q b) (p : ℕ) (hx : Free s q b x) :
    Lists (s.runqueueAdd p x) (Function.update q p (q p ++ [x])) b := by
  have hqueue := h.queue p
  have hnot := hx.queue p
  have hl : ∀ y ∈ q p ++ [x], y ∈ q p ∨ Free s q b y := by
    intro y hy
    rcases List.mem_append.1 hy with hy | hy
    · exact .inl hy
    · rw [List.mem_singleton.1 hy]
      exact .inr hx
  have hlen : (q p).length + 1 < 2 ^ 64 := by
    have hidle : s.idleStrand ∉ q p ++ [x] := fun hmem =>
      (hl _ hmem).elim (h.idle p) fun hfree => hfree.idle rfl
    have hnodup : (q p ++ [x]).Nodup := List.nodup_append.2 ⟨hqueue.nodup, List.nodup_singleton x,
      fun y hy z hz heq => hnot (by rwa [← List.mem_singleton.1 hz, ← heq])⟩
    simpa using length_lt_of_not_mem hnodup hidle
  have hcount : u64 ((s.readyQueues p).count + 1) = (q p ++ [x]).length := by
    rw [h.count p, List.length_append, u64_of_lt hlen, List.length_singleton]
  have hfirst := next_setNext (s := s) x none
  unfold runqueueAdd
  dsimp only
  cases htail : (s.readyQueues p).tail with
  | none =>
    rw [htail] at hqueue
    refine h.update rfl (hqueue.push_empty ?_) hcount rfl rfl hl fun y hy hfree => ?_
    · exact (congrFun hfirst x).trans (Function.update_self ..)
    · have hne : y ≠ x := fun heq => hfree (heq ▸ hx)
      exact (congrFun hfirst y).trans (Function.update_of_ne hne ..)
  | some tail =>
    rw [htail] at hqueue
    have htail_mem : tail ∈ q p := List.mem_of_getLast? hqueue.tail_eq.symm
    have hne : x ≠ tail := fun heq => hnot (heq ▸ htail_mem)
    have hnext : ((s.setNext x none).setNext tail (some x)).next =
        Function.update (Function.update s.next x none) tail (some x) := by
      rw [next_setNext, hfirst]
    have hlast := congrFun hnext tail
    have hnew := congrFun hnext x
    rw [Function.update_self] at hlast
    rw [Function.update_of_ne hne, Function.update_self] at hnew
    have hkeep : ∀ y, y ≠ x → y ≠ tail →
        ((s.setNext x none).setNext tail (some x)).next y = s.next y := fun y hy hy' => by
      rw [hnext, Function.update_of_ne hy', Function.update_of_ne hy]
    refine h.update rfl (hqueue.push hnot hnew hlast fun y hy hy' => ?_) hcount rfl rfl hl
      fun y hy hfree => ?_
    · exact hkeep y (fun heq => hnot (heq ▸ hy)) hy'
    · exact hkeep y (fun heq => hfree (heq ▸ hx)) fun heq => hy (heq ▸ htail_mem)

/-- `runqueue_pop` on a queue that is empty. -/
theorem pop_empty (h : Lists s q b) (hq : q p = []) : s.runqueuePop p = (s, none) := by
  have hhead := (h.queue p).path.head_eq
  rw [hq] at hhead
  unfold runqueuePop
  dsimp only
  rw [hhead]
  rfl

/-- `runqueue_pop`. -/
theorem pop (h : Lists s q b) {rest : List StrandPtr} (hq : q p = x :: rest) :
    (s.runqueuePop p).2 = some x ∧
      Lists (s.runqueuePop p).1 (Function.update q p rest) b := by
  have hqueue := h.queue p
  have hhead := hqueue.path.head_eq
  rw [hq] at hhead hqueue
  have hcount : u64 ((s.readyQueues p).count + (2 ^ 64 - 1)) = rest.length := by
    have hlen := h.length_queue p
    rw [hq, List.length_cons] at hlen
    rw [h.count p, hq, List.length_cons, u64_pred (by omega) hlen, Nat.add_sub_cancel]
  unfold runqueuePop
  dsimp only
  rw [hhead]
  refine ⟨rfl, ?_⟩
  rw [hhead] at hqueue
  have hkeep : ∀ y, y ≠ x → (s.setNext x none).next y = s.next y := fun y hy => by
    rw [next_setNext, Function.update_of_ne hy]
  obtain ⟨rest', heq, -, hpop⟩ := hqueue.pop hkeep
  cases heq
  refine h.update rfl hpop hcount rfl rfl (fun y hy => .inl ?_) fun y hy _ => ?_
  · rw [hq]
    exact List.mem_cons_of_mem x hy
  · refine hkeep y fun heq => hy ?_
    rw [hq, heq]
    exact List.mem_cons_self

/-- `runqueue_remove`. -/
theorem remove (h : Lists s q b) (hx : x ∈ q p) :
    Lists (s.runqueueRemove p x) (Function.update q p ((q p).erase x)) b := by
  have hqueue := h.queue p
  have hlen := h.length_queue p
  have hcount : u64 ((s.readyQueues p).count + (2 ^ 64 - 1)) = ((q p).erase x).length := by
    rw [List.length_erase_of_mem hx, h.count p, u64_pred (List.length_pos_of_mem hx) hlen]
  unfold runqueueRemove
  dsimp only
  rcases hqueue.path.first_or_behind hqueue.nodup hx with
    ⟨rest, hl, hhead, herase⟩ | ⟨l₁, prev, l₂, hl, hhead, herase⟩
  · rw [if_pos hhead, herase]
    exact (h.pop hl).2
  · have hprev_mem : prev ∈ q p := by
      rw [hl]
      exact List.mem_append_right _ List.mem_cons_self
    rw [hl] at hqueue hlen
    have hfind : s.findPrev (s.readyQueues p).head x = some prev :=
      findPrev_eq hqueue.path hqueue.nodup (by rw [List.length_append] at hlen; omega)
    have hnext := next_setNext (s := s) prev (s.next x)
    have hprev : (s.setNext prev (s.next x)).next prev = s.next x := by
      rw [hnext, Function.update_self]
    have hkeep : ∀ y, y ≠ prev → (s.setNext prev (s.next x)).next y = s.next y := fun y hy => by
      rw [hnext, Function.update_of_ne hy]
    rw [if_neg hhead, hfind]
    refine h.update rfl ?_ hcount rfl rfl (fun y hy => .inl (List.mem_of_mem_erase hy))
      fun y hy _ => hkeep y fun heq => hy (heq ▸ hprev_mem)
    rw [herase]
    exact hqueue.remove hprev hkeep

/-- The blocked strands change : the links of the queues do not. -/
theorem relist (h : Lists s q b) {b' : List StrandPtr}
    (hpath : Path t.next t.blockedHead b' none) (hnodup : b'.Nodup)
    (hqueues : t.readyQueues = s.readyQueues) (hidle : t.idleStrand = s.idleStrand)
    (hb : ∀ y ∈ b', y ∈ b ∨ Free s q b y)
    (hnext : ∀ y, y ∉ b → ¬ Free s q b y → t.next y = s.next y) : Lists t q b' := by
  refine ⟨fun p => ?_, fun p => ?_, hpath, hnodup, h.apart, fun p y hy hy' => ?_, fun p => ?_,
    fun hmem => ?_⟩
  · rw [hqueues]
    exact (h.queue p).congr fun y hy => hnext y (h.not_blocked p y hy) fun hfree => hfree.queue p hy
  · rw [hqueues]
    exact h.count p
  · exact (hb y hy').elim (h.not_blocked p y hy) fun hfree => hfree.queue p hy
  · rw [hidle]
    exact h.idle p
  · rw [hidle] at hmem
    exact (hb _ hmem).elim h.idle_blocked fun hfree => hfree.idle rfl

/-- A strand is put in front of the blocked ones. -/
theorem link (h : Lists s q b) (hx : Free s q b x) : Lists (s.linkBlocked x) q (x :: b) := by
  have hnext : (s.linkBlocked x).next = Function.update s.next x s.blockedHead := by
    have hset := next_setNext (s := s.setState x .blocked) x s.blockedHead
    have hstate : (s.setState x .blocked).next = s.next := next_modify x fun _ => rfl
    rw [hstate] at hset
    exact hset
  have hkeep : ∀ y, y ≠ x → (s.linkBlocked x).next y = s.next y := fun y hy => by
    rw [hnext, Function.update_of_ne hy]
  refine h.relist ⟨rfl, ?_⟩ (List.nodup_cons.2 ⟨hx.blocked, h.nodup⟩) rfl rfl (fun y hy => ?_)
    fun y hy hfree => hkeep y fun heq => hfree (heq ▸ hx)
  · rw [hnext, Function.update_self]
    refine h.path.congr fun y hy => ?_
    have hne : y ≠ x := fun heq => hx.blocked (heq ▸ hy)
    rw [Function.update_of_ne hne]
  · rcases List.mem_cons.1 hy with rfl | hy
    · exact .inr hx
    · exact .inl hy

theorem countList (h : Lists s q b) (n : ℕ) : Lists (s.countList n) q b :=
  h.congr rfl rfl rfl rfl

theorem countReady (h : Lists s q b) (n : ℕ) : Lists (s.countReady n) q b :=
  h.congr rfl rfl rfl rfl

theorem countBlocked (h : Lists s q b) (n : ℕ) : Lists (s.countBlocked n) q b :=
  h.congr rfl rfl rfl rfl

theorem modify (h : Lists s q b) (y : StrandPtr) {f : Strand → Strand}
    (hf : ∀ t, (f t).nextInQueue = t.nextInQueue) : Lists (s.modify y f) q b :=
  h.congr (next_modify y hf) rfl rfl rfl

theorem setState (h : Lists s q b) (y : StrandPtr) (state : StrandState) :
    Lists (s.setState y state) q b :=
  h.modify y fun _ => rfl

theorem switchTo (h : Lists s q b) (prev x : StrandPtr) : Lists (s.switchTo prev x) q b := by
  unfold Scheduler.switchTo
  split
  · exact h
  · dsimp only
    split
    · exact ((h.setState prev .ready).setState x .running).congr rfl rfl rfl rfl
    · exact (h.setState x .running).congr rfl rfl rfl rfl

/-- A strand is taken off the blocked ones. -/
theorem unlink (h : Lists s q b) (hx : x ∈ b) : Lists (s.unlinkBlocked x) q (b.erase x) := by
  have hpath := h.path
  have hlen := h.length_blocked
  have hnodup := h.nodup
  have hsub : ∀ y ∈ b.erase x, y ∈ b ∨ Free s q b y := fun y hy => .inl (List.mem_of_mem_erase hy)
  unfold unlinkBlocked
  rcases hpath.first_or_behind hnodup hx with
    ⟨rest, hl, hhead, herase⟩ | ⟨l₁, prev, l₂, hl, hhead, herase⟩
  · rw [if_pos hhead]
    rw [hl] at hpath
    have hlists : Lists { s with blockedHead := s.next x } q (b.erase x) := by
      refine h.relist ?_ (hnodup.erase x) rfl rfl hsub fun _ _ _ => rfl
      rw [herase]
      exact hpath.2
    exact hlists.countList _
  · have hprev_mem : prev ∈ b := by
      rw [hl]
      exact List.mem_append_right _ List.mem_cons_self
    rw [hl] at hpath hlen hnodup
    have hfind : s.findPrev s.blockedHead x = some prev :=
      findPrev_eq hpath hnodup (by rw [List.length_append] at hlen; omega)
    have hnext := next_setNext (s := s) prev (s.next x)
    have hprev : (s.setNext prev (s.next x)).next prev = s.next x := by
      rw [hnext, Function.update_self]
    have hkeep : ∀ y, y ≠ prev → (s.setNext prev (s.next x)).next y = s.next y := fun y hy => by
      rw [hnext, Function.update_of_ne hy]
    rw [if_neg hhead, hfind]
    have hlists : Lists (s.setNext prev (s.next x)) q (b.erase x) := by
      refine h.relist ?_ (h.nodup.erase x) rfl rfl hsub fun y hy _ =>
        hkeep y fun heq => hy (heq ▸ hprev_mem)
      rw [herase]
      exact hpath.remove hnodup hprev hkeep
    exact hlists.countList _

end Lists

end Seraph
