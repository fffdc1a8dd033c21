import Seraph.CausalHistory
import Seraph.Runs
import Seraph.VectorClock

/-!
# Vector clocks and causality

The nodes of a distributed system tick, send the snapshot taken after a tick and receive
snapshots : in any order, more than once or never. Each event is recorded with its node and, for
a receive, the event that sent the message (`CausalSystem.event`), and the clock of the node is
captured after it. The captured clocks are those of a causal history (`Causal`), so `compare`
tells for any two events which happened before the other (`compare_causal`).
-/

namespace Seraph

open CausalHistory Runs CausalOrder

/-- The clocks of `N` nodes, what has happened, and the messages that have been sent. -/
structure CausalSystem (N : ℕ) where
  clock : Fin N → VClock
  /-- Number of events. -/
  count : ℕ
  event : ℕ → Event (Fin N)
  /-- The clock of the node after an event. -/
  captured : ℕ → VClock
  /-- The snapshot that an event has sent. -/
  sent : ℕ → Option (ℕ → ℕ)

/-- What a node does next. A message is told by the event that sent it. -/
inductive CausalAction (N : ℕ) where
  | tick (node : Fin N)
  | send (node : Fin N)
  | receive (node : Fin N) (source : ℕ)

namespace CausalSystem

variable {N : ℕ}

/-- New clocks at all nodes, as `VClock.init` makes them. -/
def start (N : ℕ) [NeZero N] : CausalSystem N :=
  ⟨fun p => VClock.initTimestamps N p, 0, fun _ => ⟨0, none⟩,
    fun _ => VClock.initTimestamps N 0, fun _ => none⟩

variable (s : CausalSystem N)

/-- The event of node `p`, after which its clock is `c`. -/
def record (p : Fin N) (source : Option ℕ) (c : VClock) (message : Option (ℕ → ℕ)) :
    CausalSystem N :=
  ⟨Function.update s.clock p c, s.count + 1, Function.update s.event s.count ⟨p, source⟩,
    Function.update s.captured s.count c, Function.update s.sent s.count message⟩

/-- An action, and whether its call has succeeded. -/
def step : CausalAction N → CausalSystem N × Vbit
  | .tick p =>
    let ticked := (s.clock p).tick
    (s.record p none ticked.1 none, if ticked.2 = voidU64 then .void else .true)
  | .send p =>
    let ticked := (s.clock p).tick
    (s.record p none ticked.1 (some (ticked.1.snapshot (fun _ => 0) N).1),
      if ticked.2 = voidU64 then .void else .true)
  | .receive p m =>
    match s.sent m with
    | none => (s, .false)
    | some message =>
      let received := (s.clock p).receive message N
      (s.record p (some m) received.1 none, received.2)

/-- The timestamp of the node is below the maximum, and a message has been sent. -/
def Allowed : CausalAction N → Prop
  | .tick p => (s.clock p).timestamps p < maxChronon
  | .send p => (s.clock p).timestamps p < maxChronon
  | .receive p m => (s.clock p).timestamps p < maxChronon ∧ (s.sent m).isSome

instance (a : CausalAction N) : Decidable (s.Allowed a) :=
  match a with
  | .tick _ => inferInstanceAs (Decidable (_ < _))
  | .send _ => inferInstanceAs (Decidable (_ < _))
  | .receive _ _ => inferInstanceAs (Decidable (_ ∧ _))

/-- The clocks are those of the history. -/
structure Causal : Prop where
  clock : ∀ p, (s.clock p).Sound N p
  captured : ∀ i < s.count, (s.captured i).Sound N (s.event i).node
  sent : ∀ m message, s.sent m = some message →
    m < s.count ∧ ∀ k < N, message k = (s.captured m).timestamps k
  clocked : Clocked s.event s.count (fun i => (s.captured i).stamp N)
    fun p => (s.clock p).stamp N

variable {s}

theorem causal_start (N : ℕ) [NeZero N] : (start N).Causal := by
  refine ⟨fun p => VClock.sound_initTimestamps p.isLt,
    fun i hi => absurd hi (Nat.not_lt_zero i), fun m message hm => ?_, Clocked.zero _ _⟩
  cases hm

/-- Recording an event whose clock has taken in its message and counted it. -/
theorem Causal.record (h : s.Causal) {p : Fin N} {source : Option ℕ} {c : VClock}
    {message : Option (ℕ → ℕ)} (hc : c.Sound N p) (hsource : ∀ m, source = some m → m < s.count)
    (hmessage : ∀ buffer, message = some buffer → ∀ k < N, buffer k = c.timestamps k)
    (hstamp : c.stamp N = Function.update
      ((s.clock p).stamp N ⊔ Clocked.learned (fun i => (s.captured i).stamp N) source) p
      (((s.clock p).stamp N ⊔ Clocked.learned (fun i => (s.captured i).stamp N) source) p + 1)) :
    (s.record p source c message).Causal := by
  have hold : ∀ i < s.count, (s.record p source c message).event i = s.event i ∧
      (s.record p source c message).captured i = s.captured i :=
    fun i hi => ⟨Function.update_of_ne hi.ne _ _, Function.update_of_ne hi.ne _ _⟩
  have hevent : (s.record p source c message).event s.count = ⟨p, source⟩ :=
    Function.update_self _ _ _
  have hcaptured : (s.record p source c message).captured s.count = c :=
    Function.update_self _ _ _
  have hsent : (s.record p source c message).sent s.count = message :=
    Function.update_self _ _ _
  have hsent' : ∀ m, m ≠ s.count → (s.record p source c message).sent m = s.sent m :=
    fun m hm => Function.update_of_ne hm _ _
  refine ⟨fun q => ?_, fun i hi => ?_, fun m buffer hm => ?_, ?_⟩
  · rcases eq_or_ne q p with rfl | hq
    · simpa only [CausalSystem.record, Function.update_self] using hc
    · simpa only [CausalSystem.record, Function.update_of_ne hq] using h.clock q
  · rcases Nat.lt_succ_iff_lt_or_eq.1 hi with hi | rfl
    · rw [(hold i hi).1, (hold i hi).2]
      exact h.captured i hi
    · rw [hevent, hcaptured]
      exact hc
  · rcases eq_or_ne m s.count with rfl | hne
    · rw [hcaptured]
      exact ⟨Nat.lt_succ_self _, hmessage buffer (hsent.symm.trans hm)⟩
    · obtain ⟨hlt, heq⟩ := h.sent m buffer ((hsent' m hne).symm.trans hm)
      rw [(hold m hlt).2]
      exact ⟨hlt.trans (Nat.lt_succ_self _), heq⟩
  · have hclocked : Clocked (s.record p source c message).event s.count
        (fun i => ((s.record p source c message).captured i).stamp N)
        fun q => (s.clock q).stamp N :=
      h.clocked.congr (fun i hi => (hold i hi).1) fun i hi => by rw [(hold i hi).2]
    have hlearned : Clocked.learned (fun i => ((s.record p source c message).captured i).stamp N)
        source = Clocked.learned (fun i => (s.captured i).stamp N) source := by
      cases source with
      | none => rfl
      | some m => exact congrArg (fun c => c.stamp N) (hold m (hsource m rfl)).2
    refine hclocked.next ⟨?_, ?_, ?_⟩
    · rw [hevent]
      exact hsource
    · simp only [Clocked.gathered, hevent, hcaptured, hlearned]
      exact hstamp
    · rw [hevent, hcaptured]
      funext q
      rcases eq_or_ne q p with rfl | hq
      · simp only [CausalSystem.record, Function.update_self]
      · simp only [CausalSystem.record, Function.update_of_ne hq]

theorem Causal.tick (h : s.Causal) {p : Fin N} {message : Option (ℕ → ℕ)}
    (hmax : (s.clock p).timestamps p < maxChronon)
    (hmessage : ∀ buffer, message = some buffer →
      ∀ k < N, buffer k = (s.clock p).tick.1.timestamps k) :
    (s.record p none (s.clock p).tick.1 message).Causal := by
  refine h.record ((h.clock p).tick hmax) (fun m hm => by cases hm) hmessage ?_
  have hnone : (s.clock p).stamp N ⊔
      Clocked.learned (fun i => (s.captured i).stamp N) none = (s.clock p).stamp N :=
    sup_of_le_left fun k => Nat.zero_le _
  rw [hnone]
  exact VClock.stamp_tick p (h.clock p) hmax

theorem Causal.receive (h : s.Causal) {p : Fin N} {m : ℕ} {message : ℕ → ℕ}
    (hmax : (s.clock p).timestamps p < maxChronon) (hm : s.sent m = some message) :
    (s.record p (some m) ((s.clock p).receive message N).1 none).Causal := by
  obtain ⟨hlt, hbuffer⟩ := h.sent m message hm
  have hsource := h.captured m hlt
  have hvalid : ∀ k < N, message k < voidU64 := by
    intro k hk
    rw [hbuffer k hk]
    exact hsource.timestamps k hk
  have hmessage : (fun k : Fin N => message k) = (s.captured m).stamp N := by
    funext k
    exact hbuffer k k.isLt
  have hmerged := (h.clock p).mergeReceived hvalid
  have hstamp := VClock.stamp_mergeReceived (h.clock p) hvalid
  -- The message knows no more about the receiver than the receiver itself.
  have hown : ((s.clock p).mergeReceived message).timestamps p = (s.clock p).timestamps p := by
    have hself := congrFun hstamp p
    rw [hmessage] at hself
    exact hself.trans (sup_of_le_left (h.clocked.own m hlt p))
  rw [VClock.receive_eq (h.clock p) hvalid (by rwa [hown])]
  refine h.record (hmerged.tick (by rwa [hown])) (fun k hk => ?_) (fun _ hb => by cases hb) ?_
  · obtain rfl := Option.some.inj hk
    exact hlt
  · rw [VClock.stamp_tick p hmerged (by rwa [hown]), hstamp, hmessage]
    rfl

/-- An allowed action keeps the clocks those of the history. -/
theorem causal_step (h : s.Causal) {a : CausalAction N} (ha : s.Allowed a) :
    (s.step a).1.Causal := by
  cases a with
  | tick p => exact h.tick ha fun _ hb => by cases hb
  | send p =>
    refine h.tick ha fun buffer hb k hk => ?_
    obtain rfl := Option.some.inj hb
    have hcount : ((s.clock p).tick.1).nodeCount = N := ((h.clock p).tick ha).nodeCount
    rw [VClock.snapshot, hcount, if_neg (Nat.lt_irrefl N)]
    exact if_pos hk
  | receive p m =>
    obtain ⟨hmax, hsome⟩ := ha
    obtain ⟨message, hm⟩ := Option.isSome_iff_exists.1 hsome
    simp only [step, hm]
    exact h.receive hmax hm

theorem causal_run [NeZero N] {as : List (CausalAction N)}
    (ha : Guarded step Allowed (start N) as) : (run step (start N) as).Causal :=
  guarded_invariant (I := Causal) (fun _ _ h ha => causal_step h ha) (causal_start N) ha

/-- `compare` tells what happened before what. -/
structure TellsCausality (s : CausalSystem N) (a b : ℕ) : Prop where
  before : (s.captured a).compare (s.captured b) = .before ↔ HappensBefore s.event a b
  equal : (s.captured a).compare (s.captured b) = .equal ↔ a = b
  concurrent : (s.captured a).compare (s.captured b) = .concurrent ↔
    a ≠ b ∧ ¬ HappensBefore s.event a b ∧ ¬ HappensBefore s.event b a

/-- **Causality.** In every run of any number of nodes, whatever the order in which messages
arrive, `compare` of the clocks captured after two events is BEFORE exactly if one happened before
the other, EQUAL exactly for one event, and CONCURRENT exactly if neither happened before the
other. -/
theorem compare_causal [NeZero N] {as : List (CausalAction N)}
    (ha : Guarded step Allowed (start N) as) :
    ∀ a < (run step (start N) as).count, ∀ b < (run step (start N) as).count,
      TellsCausality (run step (start N) as) a b := by
  intro a hlta b hltb
  have h := causal_run ha
  have htells := VClock.compare_tells (h.captured a hlta) (h.captured b hltb)
  refine ⟨?_, ?_, ?_⟩
  · rw [htells.before]
    exact h.clocked.lt_iff hlta hltb
  · rw [htells.equal]
    exact h.clocked.eq_iff hlta hltb
  · rw [htells.concurrent, h.clocked.le_iff hlta hltb, h.clocked.le_iff hltb hlta, past_iff,
      past_iff, not_or, not_or]
    constructor
    · rintro ⟨⟨hne, hab⟩, -, hba⟩
      exact ⟨hne, hab, hba⟩
    · rintro ⟨hne, hab, hba⟩
      exact ⟨⟨hne, hab⟩, hne.symm, hba⟩

/-- Node 1 receives the message of node 0, which has another event meanwhile. -/
def messageRun : List (CausalAction 2) :=
  [.send 0, .receive 1 0, .tick 0]

theorem compare_causal_message : HappensBefore (run step (start 2) messageRun).event 0 1 ∧
    ¬ HappensBefore (run step (start 2) messageRun).event 1 2 := by
  have hallowed : Guarded step Allowed (start 2) messageRun :=
    ⟨by decide, by decide, by decide, trivial⟩
  have h := compare_causal hallowed
  exact ⟨(h 0 (by decide) 1 (by decide)).before.1 (by decide),
    ((h 1 (by decide) 2 (by decide)).concurrent.1 (by decide)).2.1⟩

end CausalSystem

end Seraph
