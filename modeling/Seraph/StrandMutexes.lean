import Seraph.StrandTables

/-!
# Mutexes as capabilities

Who holds a mutex, who waits for it and whose table has its capability, in runs of acquisitions and
releases. Beside the state a run keeps the requests that wait, in order of arrival. As long as no
mutex is released with strands waiting, no capability goes into a slot that is taken and no strand
that is blocked asks for another mutex, the three agree (`mutexes_orderly`). A release hands the
mutex to the strand that came last, and its capability to nobody.
-/

namespace Seraph

open LinkedQueue (Path)

variable {S M : Type} [DecidableEq S] [DecidableEq M]

/-- A call on a mutex, by the strand that is current. -/
inductive MutexOp (S M : Type) where
  | acquire (current : S) (mutex : Option M) (destSlot : ℕ)
  | tryAcquire (current : S) (mutex : Option M) (destSlot : ℕ)
  | release (current : S) (mutex : Option M) (held : Capability)

namespace Strands

variable (σ : Strands S M)

/-- The mutexes are at addresses of their own, as `seraph_strand_mutex_init` leaves them, no table
has a capability of theirs, no strand is blocked, and the counts are right. -/
structure Started : Prop where
  init : ∃ addr generation : M → ℕ, addr.Injective ∧
    (∀ m, addr m < voidU64 ∧ generation m < voidU32) ∧
    ∀ m, σ.mutex m = mutexInit (addr m) (generation m)
  table : ∀ m s slot, slot < strandCapTableSize →
    sameRegion ((σ.strand s).capTable slot).cap (σ.mutex m).cap = false
  free : ∀ s, (σ.strand s).blockedOnMutex = none ∧ (σ.strand s).state ≠ .blocked
  counted : σ.Counts

/-- An acquisition by `current` blocks. -/
def blocks (current : S) (m : M) (destSlot : ℕ) : Bool :=
  destSlot < strandCapTableSize &&
    (σ.mutex m).holder.any fun holder => (σ.strand holder).waitingOn ≠ some current

/-- A call on a mutex, what it returned and the requests that wait after it. -/
def mutexStep (x : Strands S M × (M → List (S × ℕ))) :
    MutexOp S M → (Strands S M × (M → List (S × ℕ))) × (StrandError ⊕ Capability)
  | .acquire current mutex destSlot =>
    let r := (x.1.setCurrent (some current)).mutexAcquire mutex destSlot
    let requests := match mutex with
      | none => x.2
      | some m => if x.1.blocks current m destSlot then
          Function.update x.2 m (x.2 m ++ [(current, destSlot)]) else x.2
    ((r.1, requests), .inr r.2)
  | .tryAcquire current mutex destSlot =>
    let r := (x.1.setCurrent (some current)).mutexTryAcquire mutex destSlot
    ((r.1, x.2), .inr r.2)
  | .release current mutex held =>
    let r := (x.1.setCurrent (some current)).mutexRelease mutex held
    let requests := match mutex with
      | none => x.2
      | some m => if r.2 = .ok then Function.update x.2 m (x.2 m).tail else x.2
    ((r.1, requests), .inl r.2)

/-- The strand may use the capability of the mutex, from a slot of its table. -/
def HasMutex (m : M) (s : S) : Prop :=
  ∃ slot, σ.capGet (some s) slot = (σ.mutex m).cap

/-- What holders, wait queues, tables and counts have to do with each other. -/
structure MutexesAgree : Prop where
  owner : ∀ m s, σ.HasMutex m s ↔ (σ.mutex m).holder = some s
  queue : ∀ m, ∃ waiters : List S,
    Path (fun s => (σ.strand s).nextWaiter) (σ.mutex m).waitQueue waiters none ∧ waiters.Nodup ∧
      ∀ s, s ∈ waiters ↔ (σ.strand s).blockedOnMutex = some m
  blocked : ∀ s, (σ.strand s).state = .blocked ↔ ∃ m, (σ.strand s).blockedOnMutex = some m
  counted : σ.Counts

/-- A release with requests waiting gives the mutex to the first, and its capability into the slot
that it has asked for. -/
def HandsOver (x : Strands S M × (M → List (S × ℕ))) : MutexOp S M → Prop
  | .release current (some m) held =>
    let τ := (mutexStep x (.release current (some m) held)).1.1
    ∀ waiter slot rest, x.2 m = (waiter, slot) :: rest →
      (mutexStep x (.release current (some m) held)).2 = .inl .ok →
      (τ.mutex m).holder = some waiter ∧ (τ.strand waiter).state = .ready ∧
        ((τ.strand waiter).capTable slot).cap = (τ.mutex m).cap ∧
        (τ.strand waiter).status slot = .owned
  | _ => True

/-- A capability goes into an empty slot only, a strand that waits for a mutex does not ask for
another one, and a mutex that strands wait for is not released. -/
def Orderly (x : Strands S M × (M → List (S × ℕ))) : MutexOp S M → Prop
  | .acquire current (some m) destSlot => destSlot < strandCapTableSize →
    ((x.1.mutex m).holder = none → (x.1.strand current).status destSlot = .void) ∧
    (x.1.blocks current m destSlot = true → (x.1.strand current).blockedOnMutex = none)
  | .tryAcquire current (some m) destSlot => destSlot < strandCapTableSize →
    (x.1.mutex m).holder = none → (x.1.strand current).status destSlot = .void
  | .release current (some m) held => (x.1.mutex m).holder = some current →
    sameRegion held (x.1.mutex m).cap = true → (x.1.mutex m).waitQueue = none
  | _ => True

/-! ## The invariant -/

/-- A slot of a table has the capability of a mutex. -/
def Token (m : M) (s : S) (slot : ℕ) : Prop :=
  slot < strandCapTableSize ∧
    sameRegion ((σ.strand s).capTable slot).cap (σ.mutex m).cap = true

/-- The capability of a mutex that is held is in one slot, of the holder. -/
structure TokenInvariant : Prop where
  distinct : ∀ m n, sameRegion (σ.mutex m).cap (σ.mutex n).cap = true → m = n
  live : ∀ m, (σ.mutex m).cap.isVoid = false
  token : ∀ m s slot, σ.Token m s slot → (σ.mutex m).holder = some s ∧
    ((σ.strand s).capTable slot).cap = (σ.mutex m).cap ∧ (σ.strand s).status slot = .owned
  unique : ∀ m s i j, σ.Token m s i → σ.Token m s j → i = j
  held : ∀ m s, (σ.mutex m).holder = some s → ∃ slot, σ.Token m s slot

/-- The wait queue of a mutex has the strands that are blocked on it, the last one first. -/
structure QueueInvariant (requests : M → List (S × ℕ)) : Prop where
  queue : ∀ m, Path (fun s => (σ.strand s).nextWaiter) (σ.mutex m).waitQueue
    ((requests m).map Prod.fst).reverse none
  nodup : ∀ m, ((requests m).map Prod.fst).Nodup
  waiting : ∀ m s, s ∈ (requests m).map Prod.fst ↔ (σ.strand s).blockedOnMutex = some m
  blocked : ∀ s, (σ.strand s).state = .blocked ↔ ∃ m, (σ.strand s).blockedOnMutex = some m

/-- What `Orderly` steps preserve, of the state and the requests. -/
structure MutexInvariant (requests : M → List (S × ℕ)) : Prop where
  tokens : σ.TokenInvariant
  queues : σ.QueueInvariant requests
  counted : σ.Counts

variable {σ} {τ : Strands S M} {requests : M → List (S × ℕ)}

omit [DecidableEq S] [DecidableEq M] in
theorem sameRegion_self (cap : Capability) : sameRegion cap cap = true := by
  simp [sameRegion]

omit [DecidableEq S] [DecidableEq M] in
theorem Started.invariant (h : σ.Started) : σ.MutexInvariant fun _ => [] := by
  obtain ⟨addr, generation, hinj, hvalid, hinit⟩ := h.init
  have hcap : ∀ m, (σ.mutex m).cap = ⟨addr m, 24, generation m, permRead, 0, 0⟩ := by
    intro m
    have h24 : (24 : ℕ) ≠ voidU64 := by decide
    rw [hinit m, mutexInit, Capability.create, if_neg]
    rintro (h | h | h)
    · exact absurd h (hvalid m).1.ne
    · exact h24 h
    · exact absurd h (hvalid m).2.ne
  have hnone : ∀ m s slot, ¬σ.Token m s slot := fun m s slot ⟨hslot, hsame⟩ => by
    rw [h.table m s slot hslot] at hsame
    cases hsame
  refine ⟨⟨fun m n hsame => ?_, fun m => ?_, fun m s slot ht => (hnone m s slot ht).elim,
    fun m s i _ ht => (hnone m s i ht).elim, fun m s hheld => ?_⟩, ⟨fun m => ?_,
    fun m => List.nodup_nil, fun m s => ?_, fun s => ?_⟩, h.counted⟩
  · refine hinj ?_
    simp only [sameRegion, hcap, decide_eq_true_eq] at hsame
    exact hsame.1
  · have h24 : (24 : ℕ) ≠ voidU64 := by decide
    simp [hcap, Capability.isVoid, (hvalid m).1.ne, (hvalid m).2.ne, h24]
  · rw [hinit m] at hheld
    cases hheld
  · exact congrArg StrandMutex.waitQueue (hinit m)
  · simp [(h.free s).1]
  · simp [(h.free s).1, (h.free s).2]

omit [DecidableEq S] [DecidableEq M] in
theorem MutexInvariant.agree (h : σ.MutexInvariant requests) : σ.MutexesAgree := by
  obtain ⟨htokens, hqueues, hcounted⟩ := h
  refine ⟨fun m s => ⟨?_, fun hheld => ?_⟩, fun m => ?_, hqueues.blocked, hcounted⟩
  · rintro ⟨slot, hslot⟩
    have hvoid : Capability.void ≠ (σ.mutex m).cap := fun heq =>
      absurd (heq ▸ htokens.live m) (by decide)
    simp only [capGet, StrandRecord.capGet] at hslot
    split at hslot
    · exact absurd hslot hvoid
    · rename_i hin
      split at hslot
      · exact absurd hslot hvoid
      · split at hslot
        · exact absurd hslot hvoid
        · exact (htokens.token m s slot ⟨not_le.1 hin, hslot ▸ sameRegion_self _⟩).1
  · obtain ⟨slot, ht⟩ := htokens.held m s hheld
    obtain ⟨-, hcap, hstatus⟩ := htokens.token m s slot ht
    refine ⟨slot, ?_⟩
    simp [capGet, StrandRecord.capGet, not_le.2 ht.1, hstatus, hcap]
  · exact ⟨_, hqueues.queue m, List.nodup_reverse.2 (hqueues.nodup m), fun s => by
      rw [List.mem_reverse, hqueues.waiting]⟩

/-! ## What the calls preserve -/

omit [DecidableEq S] [DecidableEq M] in
theorem TokenInvariant.congr (h : σ.TokenInvariant)
    (hcap : ∀ m, (τ.mutex m).cap = (σ.mutex m).cap)
    (hholder : ∀ m, (τ.mutex m).holder = (σ.mutex m).holder)
    (htable : ∀ s, (τ.strand s).capTable = (σ.strand s).capTable) : τ.TokenInvariant := by
  have htoken : ∀ m s i, τ.Token m s i ↔ σ.Token m s i := fun m s i => by
    rw [Token, Token, hcap, htable]
  refine ⟨fun m n hsame => ?_, fun m => ?_, fun m s i ht => ?_, fun m s i j hi hj => ?_,
    fun m s hheld => ?_⟩
  · rw [hcap, hcap] at hsame
    exact h.distinct m n hsame
  · rw [hcap]
    exact h.live m
  · rw [hholder, hcap, StrandRecord.status, htable]
    exact h.token m s i ((htoken m s i).1 ht)
  · exact h.unique m s i j ((htoken m s i).1 hi) ((htoken m s j).1 hj)
  · rw [hholder] at hheld
    obtain ⟨slot, ht⟩ := h.held m s hheld
    exact ⟨slot, (htoken m s slot).2 ht⟩

omit [DecidableEq S] [DecidableEq M] in
theorem QueueInvariant.congr (h : σ.QueueInvariant requests)
    (hqueue : ∀ m, (τ.mutex m).waitQueue = (σ.mutex m).waitQueue)
    (hnext : ∀ s, (τ.strand s).nextWaiter = (σ.strand s).nextWaiter)
    (hblocked : ∀ s, (τ.strand s).blockedOnMutex = (σ.strand s).blockedOnMutex)
    (hstate : ∀ s, (τ.strand s).state = (σ.strand s).state) : τ.QueueInvariant requests := by
  refine ⟨fun m => ?_, h.nodup, fun m s => ?_, fun s => ?_⟩
  · rw [hqueue]
    exact (h.queue m).congr fun s _ => hnext s
  · rw [hblocked, h.waiting]
  · simp only [hstate, hblocked, h.blocked]

omit [DecidableEq S] [DecidableEq M] in
theorem mutexInvariant_setCurrent {current : Option S} :
    (σ.setCurrent current).MutexInvariant requests ↔ σ.MutexInvariant requests :=
  ⟨fun h => ⟨h.tokens.congr (fun _ => rfl) (fun _ => rfl) fun _ => rfl,
    h.queues.congr (fun _ => rfl) (fun _ => rfl) (fun _ => rfl) fun _ => rfl, h.counted⟩,
  fun h => ⟨h.tokens.congr (fun _ => rfl) (fun _ => rfl) fun _ => rfl,
    h.queues.congr (fun _ => rfl) (fun _ => rfl) (fun _ => rfl) fun _ => rfl, h.counted⟩⟩

/-- The capability of a free mutex goes into an empty slot. -/
theorem TokenInvariant.take (h : σ.TokenInvariant) {m : M} {current : S} {slot : ℕ}
    (hslot : slot < strandCapTableSize) (hfree : (σ.mutex m).holder = none)
    (hempty : (σ.strand current).status slot = .void) :
    (σ.take m current slot).TokenInvariant := by
  have hcap : ∀ n, ((σ.take m current slot).mutex n).cap = (σ.mutex n).cap := by
    intro n
    by_cases hn : n = m <;> simp [Strands.take, hn]
  have hholder : ∀ n, ((σ.take m current slot).mutex n).holder =
      if n = m then some current else (σ.mutex n).holder := by
    intro n
    by_cases hn : n = m <;> simp [Strands.take, hn]
  have hentry : ((σ.take m current slot).strand current).capTable slot =
      { (σ.strand current).capTable slot with cap := (σ.mutex m).cap, status := .owned } := by
    simp [Strands.take, StrandRecord.setEntry]
  have htable : ∀ s i, ¬(s = current ∧ i = slot) →
      ((σ.take m current slot).strand s).capTable i = (σ.strand s).capTable i := by
    intro s i hne
    by_cases hs : s = current
    · have hi : i ≠ slot := fun hi => hne ⟨hs, hi⟩
      simp [Strands.take, StrandRecord.setEntry, hs, hi]
    · simp [Strands.take, hs]
  have hnot : ∀ n, ¬σ.Token n current slot := fun n ht => by
    rw [(h.token n current slot ht).2.2] at hempty
    cases hempty
  have hnone : ∀ s i, ¬σ.Token m s i := fun s i ht => by
    rw [(h.token m s i ht).1] at hfree
    cases hfree
  have htoken : ∀ n s i, (σ.take m current slot).Token n s i ↔
      s = current ∧ i = slot ∧ n = m ∨ σ.Token n s i := by
    intro n s i
    by_cases hsi : s = current ∧ i = slot
    · obtain ⟨rfl, rfl⟩ := hsi
      rw [Token, hentry, hcap]
      refine ⟨fun ht => Or.inl ⟨rfl, rfl, (h.distinct m n ht.2).symm⟩, fun ht => ?_⟩
      rcases ht with ⟨-, -, rfl⟩ | ht
      · exact ⟨hslot, sameRegion_self _⟩
      · exact (hnot n ht).elim
    · rw [Token, htable s i hsi, hcap]
      exact ⟨Or.inr, fun ht => ht.resolve_left fun hnew => hsi ⟨hnew.1, hnew.2.1⟩⟩
  refine ⟨fun n k hsame => ?_, fun n => ?_, fun n s i ht => ?_, fun n s i j hi hj => ?_,
    fun n s hheld => ?_⟩
  · rw [hcap, hcap] at hsame
    exact h.distinct n k hsame
  · rw [hcap]
    exact h.live n
  · rcases (htoken n s i).1 ht with ⟨rfl, rfl, rfl⟩ | hold
    · rw [hholder, if_pos rfl, StrandRecord.status, hentry, hcap]
      exact ⟨rfl, rfl, rfl⟩
    · have hn : n ≠ m := fun hn => hnone s i (hn ▸ hold)
      have hsi : ¬(s = current ∧ i = slot) := fun hsi => hnot n (hsi.1 ▸ hsi.2 ▸ hold)
      rw [hholder, if_neg hn, StrandRecord.status, htable s i hsi, hcap]
      exact h.token n s i hold
  · rcases (htoken n s i).1 hi with ⟨-, hi', hn⟩ | hi'
    · rcases (htoken n s j).1 hj with ⟨-, hj', -⟩ | hj'
      · rw [hi', hj']
      · exact (hnone s j (hn ▸ hj')).elim
    · rcases (htoken n s j).1 hj with ⟨-, -, hn⟩ | hj'
      · exact (hnone s i (hn ▸ hi')).elim
      · exact h.unique n s i j hi' hj'
  · rw [hholder] at hheld
    split at hheld
    · rename_i hn
      exact ⟨slot, (htoken n s slot).2 (Or.inl ⟨(Option.some.inj hheld).symm, rfl, hn⟩)⟩
    · obtain ⟨i, ht⟩ := h.held n s hheld
      exact ⟨i, (htoken n s i).2 (Or.inr ht)⟩

/-- A free mutex goes into an empty slot. -/
theorem MutexInvariant.take (h : σ.MutexInvariant requests) {m : M} {current : S} {slot : ℕ}
    (hslot : slot < strandCapTableSize) (hfree : (σ.mutex m).holder = none)
    (hempty : (σ.strand current).status slot = .void) :
    (σ.take m current slot).MutexInvariant requests := by
  refine ⟨h.tokens.take hslot hfree hempty, h.queues.congr ?_ ?_ ?_ ?_, ?_⟩
  · intro n
    by_cases hn : n = m <;> simp [Strands.take, hn]
  · intro s
    by_cases hs : s = current <;>
      simp [Strands.take, hs, StrandRecord.setEntry, StrandRecord.countUp]
  · intro s
    by_cases hs : s = current <;>
      simp [Strands.take, hs, StrandRecord.setEntry, StrandRecord.countUp]
  · intro s
    by_cases hs : s = current <;>
      simp [Strands.take, hs, StrandRecord.setEntry, StrandRecord.countUp]
  · have hcounted : (σ.modifyMutex m fun mutex =>
        { mutex with
          holder := some current
          acquisitions := u64 (mutex.acquisitions + 1) }).Counts := h.counted
    unfold Strands.take
    dsimp only
    refine hcounted.modify ?_
    exact (h.counted current).setEntry_countUp hslot hempty (by simp)

/-- A strand that is not blocked waits for a mutex that is held. -/
theorem QueueInvariant.push (h : σ.QueueInvariant requests) {m : M} {current : S} {slot : ℕ}
    (hfree : (σ.strand current).blockedOnMutex = none)
    (hqueue : ∀ n, (τ.mutex n).waitQueue = if n = m then some current else (σ.mutex n).waitQueue)
    (hcurrent : (τ.strand current).nextWaiter = (σ.mutex m).waitQueue ∧
      (τ.strand current).blockedOnMutex = some m ∧ (τ.strand current).state = .blocked)
    (hother : ∀ s, s ≠ current → τ.strand s = σ.strand s) :
    τ.QueueInvariant (Function.update requests m (requests m ++ [(current, slot)])) := by
  have hnew : ∀ n, current ∉ (requests n).map Prod.fst := fun n hmem => by
    rw [h.waiting, hfree] at hmem
    cases hmem
  have hpath : ∀ n, Path (fun s => (τ.strand s).nextWaiter) (σ.mutex n).waitQueue
      ((requests n).map Prod.fst).reverse none := fun n =>
    (h.queue n).congr fun s hs => by
      rw [hother s fun heq => hnew n (heq ▸ List.mem_reverse.1 hs)]
  refine ⟨fun n => ?_, fun n => ?_, fun n s => ?_, fun s => ?_⟩
  · rw [hqueue]
    by_cases hn : n = m
    · subst hn
      simp only [Function.update_self, if_true, List.map_append, List.map_cons, List.map_nil,
        List.reverse_append, List.reverse_cons, List.reverse_nil, List.nil_append, List.cons_append]
      have hbehind := hpath n
      rw [← hcurrent.1] at hbehind
      exact ⟨rfl, hbehind⟩
    · simpa [hn] using hpath n
  · by_cases hn : n = m
    · subst hn
      simp only [Function.update_self, List.map_append, List.map_cons, List.map_nil]
      exact List.nodup_append'.2 ⟨h.nodup n, List.nodup_singleton _, by simpa using hnew n⟩
    · simpa [hn] using h.nodup n
  · by_cases hs : s = current
    · subst hs
      rw [hcurrent.2.1]
      by_cases hn : n = m
      · simp [hn]
      · simp only [Function.update_apply, if_neg hn]
        exact iff_of_false (hnew n) fun heq => hn (Option.some.inj heq).symm
    · rw [hother s hs, ← h.waiting]
      by_cases hn : n = m
      · subst hn
        simp [hs]
      · simp [hn]
  · by_cases hs : s = current
    · rw [hs]
      exact iff_of_true hcurrent.2.2 ⟨m, hcurrent.2.1⟩
    · rw [hother s hs]
      exact h.blocked s

omit [DecidableEq S] in
/-- The capability of a mutex that is released leaves the table of its holder. -/
theorem TokenInvariant.release (h : σ.TokenInvariant) {m : M} {current : S} {slot : ℕ}
    (ht : σ.Token m current slot)
    (hmutex : ∀ n, (τ.mutex n).cap = (σ.mutex n).cap ∧
      (τ.mutex n).holder = if n = m then none else (σ.mutex n).holder)
    (hentry : (τ.strand current).capTable slot = .empty)
    (htable : ∀ s i, ¬(s = current ∧ i = slot) →
      (τ.strand s).capTable i = (σ.strand s).capTable i) : τ.TokenInvariant := by
  have hgone : ∀ n, ¬τ.Token n current slot := by
    rintro n ⟨-, hsame⟩
    have hlive := h.live n
    rw [hentry, (hmutex n).1] at hsame
    have hbase : voidU64 = (σ.mutex n).cap.base := (of_decide_eq_true hsame).1
    rw [Capability.isVoid, ← hbase] at hlive
    simp at hlive
  have htoken : ∀ n s i, τ.Token n s i → σ.Token n s i ∧ ¬(s = current ∧ i = slot) := by
    intro n s i hnew
    have hsi : ¬(s = current ∧ i = slot) := fun hsi => hgone n (hsi.1 ▸ hsi.2 ▸ hnew)
    refine ⟨?_, hsi⟩
    rw [Token, htable s i hsi, (hmutex n).1] at hnew
    exact hnew
  have hother : ∀ n s i, τ.Token n s i → n ≠ m := by
    rintro n s i hnew rfl
    obtain ⟨hold, hsi⟩ := htoken n s i hnew
    have hs : s = current := Option.some.inj ((h.token n s i hold).1.symm.trans
      (h.token n current slot ht).1)
    subst hs
    exact hsi ⟨rfl, h.unique n s i slot hold ht⟩
  refine ⟨fun n k hsame => ?_, fun n => ?_, fun n s i hnew => ?_, fun n s i j hi hj => ?_,
    fun n s hheld => ?_⟩
  · rw [(hmutex n).1, (hmutex k).1] at hsame
    exact h.distinct n k hsame
  · rw [(hmutex n).1]
    exact h.live n
  · obtain ⟨hold, hsi⟩ := htoken n s i hnew
    rw [(hmutex n).2, if_neg (hother n s i hnew), (hmutex n).1, StrandRecord.status,
      htable s i hsi]
    exact h.token n s i hold
  · exact h.unique n s i j (htoken n s i hi).1 (htoken n s j hj).1
  · rw [(hmutex n).2] at hheld
    split at hheld
    · cases hheld
    · rename_i hn
      obtain ⟨i, hold⟩ := h.held n s hheld
      refine ⟨i, ?_⟩
      have hsi : ¬(s = current ∧ i = slot) := by
        rintro ⟨rfl, rfl⟩
        have hcap := (h.token n s i hold).2.1.symm.trans (h.token m s i ht).2.1
        exact hn (h.distinct n m (hcap ▸ sameRegion_self _))
      rw [Token, htable s i hsi, (hmutex n).1]
      exact hold

/-- A mutex that nobody waits for is released. -/
theorem MutexInvariant.release (h : σ.MutexInvariant requests) {m : M} {current : S}
    {held : Capability} (hcurrent : σ.current = some current)
    (hlast : (σ.mutex m).holder = some current → sameRegion held (σ.mutex m).cap = true →
      (σ.mutex m).waitQueue = none) :
    (σ.mutexRelease (some m) held).1.MutexInvariant requests ∧
      ((σ.mutexRelease (some m) held).2 = .ok → requests m = []) := by
  unfold mutexRelease
  simp only [hcurrent]
  split
  · exact ⟨h, fun hok => by cases hok⟩
  · rename_i hholder
    split
    · exact ⟨h, fun hok => by cases hok⟩
    · rename_i hregion
      have hholder : (σ.mutex m).holder = some current := not_not.1 hholder
      have hqueue := hlast hholder (by simpa using hregion)
      have hempty : requests m = [] := by
        have hhead := (h.queues.queue m).head_eq
        rw [hqueue, eq_comm, List.head?_eq_none_iff, List.reverse_eq_nil_iff] at hhead
        exact List.map_eq_nil_iff.1 hhead
      refine ⟨?_, fun _ => hempty⟩
      obtain ⟨slot, ht⟩ := h.tokens.held m current hholder
      have hfind : ((List.range strandCapTableSize).find? fun i =>
          sameRegion ((σ.strand current).capTable i).cap (σ.mutex m).cap) = some slot := by
        cases hfound : (List.range strandCapTableSize).find? fun i =>
            sameRegion ((σ.strand current).capTable i).cap (σ.mutex m).cap with
        | none =>
          have hno := List.find?_eq_none.1 hfound slot (List.mem_range.2 ht.1)
          exact absurd ht.2 hno
        | some i =>
          have hi := List.mem_range.1 (List.mem_of_find?_eq_some hfound)
          have hsame := List.find?_some hfound
          rw [h.tokens.unique m current i slot ⟨hi, hsame⟩ ht]
      have hclear : (σ.capClear (some current) slot).1 = σ.modify current (·.capClear slot) :=
        congrArg Prod.fst (if_neg (not_le.2 ht.1))
      simp only [hfind, hclear, mutex_modify, hqueue]
      refine ⟨h.tokens.release ht (fun n => ?_) ?_ (fun s i hsi => ?_), h.queues.congr ?_ ?_ ?_ ?_,
        ?_⟩
      · by_cases hn : n = m <;> simp [hn]
      · simp
      · by_cases hs : s = current
        · have hi : i ≠ slot := fun hi => hsi ⟨hs, hi⟩
          simp [hs, hi]
        · simp [hs]
      · intro n
        by_cases hn : n = m <;> simp [hn]
      · intro s
        by_cases hs : s = current <;> simp [hs]
      · intro s
        by_cases hs : s = current <;> simp [hs]
      · intro s
        by_cases hs : s = current <;> simp [hs]
      · have hcounts : (σ.modify current (·.capClear slot)).Counts := by
          refine h.counted.modify ?_
          exact (h.counted current).capClear ht.1
        exact hcounts

/-- An acquisition that blocks puts its request last. -/
theorem MutexInvariant.acquire (h : σ.MutexInvariant requests) {m : M} {current : S}
    {destSlot : ℕ} (hcurrent : σ.current = some current)
    (hempty : destSlot < strandCapTableSize → (σ.mutex m).holder = none →
      (σ.strand current).status destSlot = .void)
    (hfree : σ.blocks current m destSlot = true → (σ.strand current).blockedOnMutex = none) :
    (σ.mutexAcquire (some m) destSlot).1.MutexInvariant
      (if σ.blocks current m destSlot then
        Function.update requests m (requests m ++ [(current, destSlot)]) else requests) := by
  unfold mutexAcquire
  simp only [hcurrent]
  split
  · rename_i hslot
    rw [if_neg (by simp [blocks, hslot])]
    exact h
  · rename_i hslot
    split
    · rename_i hheld
      rw [if_neg (by simp [blocks, hheld])]
      exact h.take (not_le.1 hslot) hheld (hempty (not_le.1 hslot) hheld)
    · rename_i holder hheld
      split
      · rename_i hdirect
        rw [if_neg (by simp [blocks, hheld, hdirect])]
        exact h
      · rename_i hdirect
        have hblocks : σ.blocks current m destSlot = true := by
          simp [blocks, not_le.1 hslot, hheld, hdirect]
        rw [if_pos hblocks]
        refine ⟨h.tokens.congr (fun n => ?_) (fun n => ?_) fun s => ?_,
          h.queues.push (hfree hblocks) (fun n => ?_) ?_ fun s hs => ?_, ?_⟩
        · by_cases hn : n = m <;> simp [hn]
        · by_cases hn : n = m <;> simp [hn]
        · by_cases hs : s = current <;> simp [hs]
        · by_cases hn : n = m <;> simp [hn]
        · simp
        · simp [hs]
        · have hcounted : (σ.modifyMutex m fun mutex =>
              { mutex with
                contentions := u64 (mutex.contentions + 1)
                waitQueue := some current }).Counts := h.counted
          dsimp only
          refine hcounted.modify ?_
          exact h.counted current

omit [DecidableEq M] in
theorem slot_of_blocks {current : S} {m : M} {destSlot : ℕ}
    (h : σ.blocks current m destSlot = true) : destSlot < strandCapTableSize :=
  of_decide_eq_true (Bool.and_eq_true_iff.1 h).1

theorem MutexInvariant.tryAcquire (h : σ.MutexInvariant requests) {m : M} {current : S}
    {destSlot : ℕ} (hcurrent : σ.current = some current)
    (hempty : destSlot < strandCapTableSize → (σ.mutex m).holder = none →
      (σ.strand current).status destSlot = .void) :
    (σ.mutexTryAcquire (some m) destSlot).1.MutexInvariant requests := by
  unfold mutexTryAcquire
  simp only [hcurrent]
  split
  · exact h
  · rename_i hslot
    split
    · rename_i hheld
      exact h.take (not_le.1 hslot) hheld (hempty (not_le.1 hslot) hheld)
    · exact h

/-- What an orderly call preserves. -/
theorem mutexStep_invariant {x : Strands S M × (M → List (S × ℕ))} {a : MutexOp S M}
    (h : x.1.MutexInvariant x.2) (hok : Orderly x a) :
    (mutexStep x a).1.1.MutexInvariant (mutexStep x a).1.2 := by
  cases a with
  | acquire current mutex destSlot =>
    have hset : (x.1.setCurrent (some current)).MutexInvariant x.2 := mutexInvariant_setCurrent.2 h
    cases mutex with
    | none => exact hset
    | some m => exact hset.acquire rfl (fun hslot => (hok hslot).1) fun hblocks =>
      (hok (slot_of_blocks hblocks)).2 hblocks
  | tryAcquire current mutex destSlot =>
    have hset : (x.1.setCurrent (some current)).MutexInvariant x.2 := mutexInvariant_setCurrent.2 h
    cases mutex with
    | none => exact hset
    | some m => exact hset.tryAcquire rfl hok
  | release current mutex held =>
    have hset : (x.1.setCurrent (some current)).MutexInvariant x.2 := mutexInvariant_setCurrent.2 h
    cases mutex with
    | none => exact hset
    | some m =>
      obtain ⟨hafter, hempty⟩ := hset.release rfl hok
      have hsame : (mutexStep x (.release current (some m) held)).1.2 = x.2 := by
        simp only [mutexStep]
        split
        · rename_i hreleased
          rw [hempty hreleased, List.tail_nil, ← hempty hreleased, Function.update_eq_self]
        · rfl
      rw [hsame]
      exact hafter

/-- A mutex that is released in an orderly run has no requests to hand it to. -/
theorem handsOver_of_orderly {x : Strands S M × (M → List (S × ℕ))} {a : MutexOp S M}
    (h : x.1.MutexInvariant x.2) (hok : Orderly x a) : HandsOver x a := by
  cases a with
  | acquire current mutex destSlot => trivial
  | tryAcquire current mutex destSlot => trivial
  | release current mutex held =>
    cases mutex with
    | none => trivial
    | some m =>
      intro waiter slot rest hrequests hreleased
      have hset : (x.1.setCurrent (some current)).MutexInvariant x.2 := mutexInvariant_setCurrent.2 h
      have hempty := (hset.release rfl hok).2 (Sum.inl.inj hreleased)
      rw [hempty] at hrequests
      cases hrequests

/-- In orderly runs holders, wait queues, tables and counts agree, and no release owes anything to a
strand that waits. -/
theorem mutexes_orderly (σ : Strands S M) (ops : List (MutexOp S M)) (hstarted : σ.Started)
    (hguarded : Runs.Guarded mutexStep Orderly (σ, fun _ => []) ops) :
    (Runs.run mutexStep (σ, fun _ => []) ops).1.MutexesAgree ∧
      ∀ call ∈ Runs.calls mutexStep (σ, fun _ => []) ops, HandsOver call.before call.op := by
  have hstep : ∀ (x : Strands S M × (M → List (S × ℕ))) (a : MutexOp S M),
      x.1.MutexInvariant x.2 → Orderly x a →
      (mutexStep x a).1.1.MutexInvariant (mutexStep x a).1.2 :=
    fun _ _ h hok => mutexStep_invariant h hok
  exact ⟨(Runs.guarded_invariant (I := fun x => MutexInvariant x.1 x.2) hstep hstarted.invariant
      hguarded).agree,
    Runs.guarded_calls (I := fun x => MutexInvariant x.1 x.2) (P := fun c => HandsOver c.before c.op)
      hstep (fun x _ h hok => handsOver_of_orderly (x := x) h hok) hstarted.invariant hguarded⟩

/-- Two strands with empty tables and a mutex. -/
def opening : Strands Bool Unit where
  strand := fun s => .create s.toNat
  mutex := fun _ => mutexInit 24 1
  current := none

theorem started_opening : opening.Started := by
  have haddr : 24 < voidU64 := by decide
  have hgeneration : 1 < voidU32 := by decide
  refine ⟨⟨fun _ => 24, fun _ => 1, fun _ _ _ => rfl, fun _ => ⟨haddr, hgeneration⟩, fun _ => rfl⟩,
    fun _ _ _ _ => rfl, fun _ => ⟨rfl, by simp [opening, StrandRecord.create]⟩, fun s => ?_⟩
  simp [StrandRecord.Counted, StrandRecord.nonVoid, StrandRecord.status, opening,
    StrandRecord.create, StrandCapEntry.empty]

/-- One strand takes the mutex, the other asks for it, and the first releases it. -/
def contended : List (MutexOp Bool Unit) :=
  [.acquire false (some ()) 0, .acquire true (some ()) 0,
    .release false (some ()) (mutexInit (S := Bool) 24 1).cap]

/-- The mutex is held and the other strand waits. -/
theorem mutexes_orderly_contended :
    (Runs.run mutexStep (opening, fun _ => []) (contended.take 2)).1.MutexesAgree := by
  refine (mutexes_orderly opening (contended.take 2) started_opening ⟨?_, ?_, trivial⟩).1
  · exact fun _ => ⟨fun _ => rfl, fun _ => rfl⟩
  · exact fun _ => ⟨fun hfree => (by cases hfree), fun _ => rfl⟩

/-- The strand that waited becomes the holder, without the capability. -/
theorem not_handsOver_contended : opening.Started ∧
    ¬∀ call ∈ Runs.calls mutexStep (opening, fun _ => []) contended,
      HandsOver call.before call.op := by
  refine ⟨started_opening, fun h => ?_⟩
  have hreleased := h _ (.tail _ (.tail _ (.head _)))
  have howned := (hreleased true 0 [] rfl rfl).2.2.2
  exact absurd howned (by decide)

end Strands

end Seraph
