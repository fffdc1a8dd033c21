import Mathlib.Algebra.GroupWithZero.Nat
import Mathlib.Algebra.Notation.Pi.Defs
import Mathlib.Logic.Relation
import Mathlib.Logic.Function.Basic
import Mathlib.Order.Lattice

/-!
# Causal histories

The events of a distributed run are numbered in an order in which they happened. An event takes
place at a node and may receive the message of an earlier event. One event happened before
another if a chain of turns at one node and of messages leads from it to the other; clocks play
no part in this. A node that keeps a map from nodes to numbers, takes in the maps of the messages
that it receives, and counts its own events, has `Clocked` the history : the maps after two
events are ordered exactly as the events are (`Clocked.le_iff`, `Clocked.lt_iff`).
-/

namespace CausalHistory

open Relation

/-- Where an event takes place, and the event whose message it receives. -/
structure Event (ν : Type*) where
  node : ν
  source : Option ℕ

variable {ν : Type*} {h h' : ℕ → Event ν} {i j l n : ℕ}

/-- A later event of the same node, or one that receives the message. -/
def Direct (h : ℕ → Event ν) (i j : ℕ) : Prop :=
  i < j ∧ ((h i).node = (h j).node ∨ (h j).source = some i)

/-- A chain of direct steps. -/
def HappensBefore (h : ℕ → Event ν) : ℕ → ℕ → Prop :=
  TransGen (Direct h)

/-- The event itself, or one before it. -/
def Past (h : ℕ → Event ν) : ℕ → ℕ → Prop :=
  ReflTransGen (Direct h)

theorem past_iff : Past h i j ↔ i = j ∨ HappensBefore h i j := by
  rw [Past, reflTransGen_iff_eq_or_transGen, eq_comm]
  rfl

theorem HappensBefore.lt (hb : HappensBefore h i j) : i < j := by
  induction hb with
  | single hd => exact hd.1
  | tail _ hd ih => exact ih.trans hd.1

theorem Past.le (hp : Past h i j) : i ≤ j := by
  rcases past_iff.1 hp with rfl | hb
  · exact le_rfl
  · exact hb.lt.le

/-- Events are ordered : of two different ones, only one can happen before the other. -/
theorem Past.antisymm (hp : Past h i j) (hp' : Past h j i) : i = j :=
  Nat.le_antisymm hp.le hp'.le

theorem Past.trans (hp : Past h i j) (hp' : Past h j l) : Past h i l :=
  ReflTransGen.trans hp hp'

theorem happensBefore_iff_past (hij : i ≠ j) : HappensBefore h i j ↔ Past h i j := by
  rw [past_iff, or_iff_right hij]

/-- The last step of a chain. -/
theorem happensBefore_iff_last : HappensBefore h i j ↔ ∃ d, Past h i d ∧ Direct h d j :=
  TransGen.tail'_iff

theorem Past.of_happensBefore (hb : HappensBefore h i j) : Past h i j :=
  past_iff.2 (.inr hb)

/-- An event at the node of an earlier one. -/
theorem past_of_node (hij : i ≤ j) (hnode : (h i).node = (h j).node) : Past h i j := by
  rcases Nat.eq_or_lt_of_le hij with rfl | hlt
  · exact past_iff.2 (.inl rfl)
  · exact .of_happensBefore (TransGen.single ⟨hlt, .inl hnode⟩)

/-- A chain depends on the events up to its end. -/
theorem HappensBefore.congr (heq : ∀ k < n, h' k = h k) (hb : HappensBefore h i j) (hj : j < n) :
    HappensBefore h' i j := by
  have hdirect : ∀ a b, Direct h a b → b < n → Direct h' a b := by
    rintro a b ⟨hlt, hd⟩ hb
    refine ⟨hlt, ?_⟩
    rwa [heq a (hlt.trans hb), heq b hb]
  induction hb with
  | single hd => exact TransGen.single (hdirect _ _ hd hj)
  | tail _ hd ih => exact (ih (hd.1.trans hj)).tail (hdirect _ _ hd hj)

theorem past_congr (heq : ∀ k < n, h' k = h k) (hj : j < n) : Past h' i j ↔ Past h i j := by
  rw [past_iff, past_iff]
  exact or_congr_right
    ⟨fun hb => hb.congr (fun k hk => (heq k hk).symm) hj, fun hb => hb.congr heq hj⟩

/-! ## Clocks -/

/-- The clocks of the nodes, and the clock after each of the first `n` events, tell what has
happened. -/
structure Clocked (h : ℕ → Event ν) (n : ℕ) (stamp : ℕ → ν → ℕ) (clock : ν → ν → ℕ) : Prop where
  /-- A clock has counted an event exactly if the event is in its past. -/
  threshold : ∀ i < n, ∀ j < n, stamp i (h i).node ≤ stamp j (h i).node ↔ Past h i j
  mono : ∀ i < n, ∀ j < n, Past h i j → stamp i ≤ stamp j
  /-- Nobody has counted more events of a node than the node. -/
  own : ∀ i < n, ∀ p, stamp i p ≤ clock p p
  pos : ∀ i < n, 0 < stamp i (h i).node
  /-- The clock of a node is the clock after its last event. -/
  last : ∀ p, clock p = 0 ∧ (∀ i < n, (h i).node ≠ p) ∨
    ∃ l < n, (h l).node = p ∧ clock p = stamp l ∧ ∀ i < n, (h i).node = p → i ≤ l

namespace Clocked

variable {stamp stamp' : ℕ → ν → ℕ} {clock clock' : ν → ν → ℕ}

/-- Before the first event. -/
theorem zero (h : ℕ → Event ν) (stamp : ℕ → ν → ℕ) : Clocked h 0 stamp 0 :=
  ⟨fun i hi => absurd hi (Nat.not_lt_zero i), fun i hi => absurd hi (Nat.not_lt_zero i),
    fun i hi => absurd hi (Nat.not_lt_zero i), fun i hi => absurd hi (Nat.not_lt_zero i),
    fun _ => .inl ⟨rfl, fun i hi => absurd hi (Nat.not_lt_zero i)⟩⟩

theorem congr (hc : Clocked h n stamp clock) (heq : ∀ k < n, h' k = h k)
    (hstamp : ∀ k < n, stamp' k = stamp k) : Clocked h' n stamp' clock := by
  refine ⟨fun i hi j hj => ?_, fun i hi j hj => ?_, fun i hi => ?_, fun i hi => ?_, fun p => ?_⟩
  · rw [heq i hi, hstamp i hi, hstamp j hj, past_congr heq hj]
    exact hc.threshold i hi j hj
  · rw [hstamp i hi, hstamp j hj, past_congr heq hj]
    exact hc.mono i hi j hj
  · rw [hstamp i hi]
    exact hc.own i hi
  · rw [heq i hi, hstamp i hi]
    exact hc.pos i hi
  · refine (hc.last p).imp (fun hnone => ⟨hnone.1, fun i hi => ?_⟩) ?_
    · rw [heq i hi]
      exact hnone.2 i hi
    · rintro ⟨l, hl, hnode, hclock, hmax⟩
      refine ⟨l, hl, ?_, ?_, fun i hi hi' => hmax i hi ?_⟩
      · rwa [heq l hl]
      · rwa [hstamp l hl]
      · rwa [heq i hi] at hi'

/-- No clock has counted more events of a node than the node. -/
theorem clock_le (hc : Clocked h n stamp clock) (p q : ν) : clock p q ≤ clock q q := by
  rcases hc.last p with ⟨hzero, -⟩ | ⟨l, hl, -, hclock, -⟩
  · rw [hzero]
    exact Nat.zero_le _
  · rw [hclock]
    exact hc.own l hl q

/-- What a node has counted is in the past of one of its events. -/
theorem le_clock_iff (hc : Clocked h n stamp clock) (hi : i < n) (p : ν) :
    stamp i (h i).node ≤ clock p (h i).node ↔ ∃ l < n, (h l).node = p ∧ Past h i l := by
  rcases hc.last p with ⟨hzero, hnone⟩ | ⟨l, hl, hnode, hclock, hmax⟩
  · refine iff_of_false (fun hle => ?_) ?_
    · rw [hzero] at hle
      exact absurd (hc.pos i hi) (Nat.not_lt.2 hle)
    · rintro ⟨l, hl, hnode, -⟩
      exact hnone l hl hnode
  · rw [hclock, hc.threshold i hi l hl]
    refine ⟨fun hpast => ⟨l, hl, hnode, hpast⟩, ?_⟩
    rintro ⟨k, hk, hknode, hpast⟩
    exact hpast.trans (past_of_node (hmax k hk hknode) (hknode.trans hnode.symm))

/-- The clock after an event of a node is at most the clock of the node. -/
theorem stamp_le_clock (hc : Clocked h n stamp clock) (hi : i < n) :
    stamp i ≤ clock (h i).node := by
  rcases hc.last (h i).node with ⟨-, hnone⟩ | ⟨l, hl, hnode, hclock, hmax⟩
  · exact absurd rfl (hnone i hi)
  · rw [hclock]
    exact hc.mono i hi l hl (past_of_node (hmax i hi rfl) hnode.symm)

/-! ## The next event -/

/-- What the message of an event brings. -/
def learned (stamp : ℕ → ν → ℕ) : Option ℕ → ν → ℕ
  | none => 0
  | some m => stamp m

/-- What a node has before it counts its next event. -/
def gathered (h : ℕ → Event ν) (n : ℕ) (stamp : ℕ → ν → ℕ) (clock : ν → ν → ℕ) : ν → ℕ :=
  clock (h n).node ⊔ learned stamp (h n).source

theorem learned_le (hc : Clocked h n stamp clock)
    (hsource : ∀ m, (h n).source = some m → m < n) (p : ν) :
    learned stamp (h n).source p ≤ clock p p := by
  cases hs : (h n).source with
  | none => exact Nat.zero_le _
  | some m => exact hc.own m (hsource m hs) p

/-- A node knows best about itself. -/
theorem gathered_self (hc : Clocked h n stamp clock)
    (hsource : ∀ m, (h n).source = some m → m < n) :
    gathered h n stamp clock (h n).node = clock (h n).node (h n).node :=
  sup_of_le_left (hc.learned_le hsource _)

/-- What is gathered of an event is its past. -/
theorem le_gathered_iff (hc : Clocked h n stamp clock)
    (hsource : ∀ m, (h n).source = some m → m < n) (hi : i < n) :
    stamp i (h i).node ≤ gathered h n stamp clock (h i).node ↔ HappensBefore h i n := by
  rw [gathered, Pi.sup_apply, le_sup_iff, hc.le_clock_iff hi, happensBefore_iff_last]
  constructor
  · rintro (⟨l, hl, hnode, hpast⟩ | hle)
    · exact ⟨l, hpast, hl, .inl hnode⟩
    · cases hs : (h n).source with
      | none =>
        rw [hs] at hle
        exact absurd (hc.pos i hi) (Nat.not_lt.2 hle)
      | some m =>
        rw [hs] at hle
        have hm := hsource m hs
        exact ⟨m, (hc.threshold i hi m hm).1 hle, hm, .inr hs⟩
  · rintro ⟨d, hpast, hd, hnode | hs⟩
    · exact .inl ⟨d, hd, hnode, hpast⟩
    · rw [hs]
      exact .inr ((hc.threshold i hi d hd).2 hpast)

/-- What is gathered is at least the clock of each event in the past. -/
theorem stamp_le_gathered (hc : Clocked h n stamp clock) (hb : HappensBefore h i n) :
    stamp i ≤ gathered h n stamp clock := by
  obtain ⟨d, hpast, hd, hnode | hs⟩ := happensBefore_iff_last.1 hb
  · have hle := hc.stamp_le_clock hd
    rw [hnode] at hle
    exact ((hc.mono i (hpast.le.trans_lt hd) d hd hpast).trans hle).trans le_sup_left
  · refine (hc.mono i (hpast.le.trans_lt hd) d hd hpast).trans ?_
    rw [gathered, hs]
    exact le_sup_right

section Next

variable [DecidableEq ν]

/-- The next event of a node : it takes in a message, if it receives one, and is counted. -/
structure Next (h : ℕ → Event ν) (n : ℕ) (stamp : ℕ → ν → ℕ)
    (clock clock' : ν → ν → ℕ) : Prop where
  source_lt : ∀ m, (h n).source = some m → m < n
  stamp_eq : stamp n = Function.update (gathered h n stamp clock) (h n).node
    (gathered h n stamp clock (h n).node + 1)
  clock_eq : clock' = Function.update clock (h n).node (stamp n)

theorem Next.stamp_self (hn : Next h n stamp clock clock') (hc : Clocked h n stamp clock) :
    stamp n (h n).node = clock (h n).node (h n).node + 1 := by
  rw [hn.stamp_eq, Function.update_self, hc.gathered_self hn.source_lt]

theorem Next.gathered_le (hn : Next h n stamp clock clock') :
    gathered h n stamp clock ≤ stamp n := by
  intro p
  rw [hn.stamp_eq, Function.update_apply]
  split
  · next hp =>
    rw [hp]
    exact Nat.le_succ _
  · exact le_rfl

/-- The clock after the next event tells its past. -/
theorem Next.threshold (hn : Next h n stamp clock clock') (hc : Clocked h n stamp clock)
    (hi : i < n) : stamp i (h i).node ≤ stamp n (h i).node ↔ HappensBefore h i n := by
  by_cases hnode : (h i).node = (h n).node
  · refine iff_of_true ?_ (TransGen.single ⟨hi, .inl hnode⟩)
    rw [hnode, hn.stamp_self hc]
    exact (hc.own i hi _).trans (Nat.le_succ _)
  · rw [hn.stamp_eq, Function.update_of_ne hnode]
    exact hc.le_gathered_iff hn.source_lt hi

/-- Nobody has counted the next event yet. -/
theorem Next.fresh (hn : Next h n stamp clock clock') (hc : Clocked h n stamp clock) (hi : i < n) :
    ¬ stamp n (h n).node ≤ stamp i (h n).node := by
  rw [hn.stamp_self hc]
  exact Nat.not_le.2 (Nat.lt_succ_of_le (hc.own i hi _))

/-- What a node knows of another after its event, the other knows too. -/
theorem Next.own (hn : Next h n stamp clock clock') (hc : Clocked h n stamp clock) {p : ν}
    (hp : p ≠ (h n).node) : stamp n p ≤ clock p p := by
  rw [hn.stamp_eq, Function.update_of_ne hp]
  exact sup_le (hc.clock_le _ p) (hc.learned_le hn.source_lt p)

/-- The clocks tell the history up to the next event. -/
theorem next (hc : Clocked h n stamp clock) (hn : Next h n stamp clock clock') :
    Clocked h (n + 1) stamp clock' := by
  have hself : clock' (h n).node = stamp n := by
    rw [hn.clock_eq, Function.update_self]
  have hother : ∀ p, p ≠ (h n).node → clock' p = clock p := by
    intro p hp
    rw [hn.clock_eq, Function.update_of_ne hp]
  constructor
  case threshold =>
    intro i hi j hj
    rcases Nat.lt_succ_iff_lt_or_eq.1 hi with hi | rfl
    · rcases Nat.lt_succ_iff_lt_or_eq.1 hj with hj | rfl
      · exact hc.threshold i hi j hj
      · rw [hn.threshold hc hi, happensBefore_iff_past hi.ne]
    · rcases Nat.lt_succ_iff_lt_or_eq.1 hj with hj | rfl
      · exact iff_of_false (hn.fresh hc hj) fun hpast => absurd hpast.le (Nat.not_le.2 hj)
      · exact iff_of_true le_rfl (past_iff.2 (.inl rfl))
  case mono =>
    intro i hi j hj hpast
    rcases Nat.lt_succ_iff_lt_or_eq.1 hj with hj | rfl
    · exact hc.mono i (hpast.le.trans_lt hj) j hj hpast
    · rcases past_iff.1 hpast with rfl | hb
      · exact le_rfl
      · exact (hc.stamp_le_gathered hb).trans hn.gathered_le
  case own =>
    intro i hi p
    by_cases hp : p = (h n).node
    · subst hp
      rw [hself]
      rcases Nat.lt_succ_iff_lt_or_eq.1 hi with hi | rfl
      · rw [hn.stamp_self hc]
        exact (hc.own i hi _).trans (Nat.le_succ _)
      · exact le_rfl
    · rw [hother p hp]
      rcases Nat.lt_succ_iff_lt_or_eq.1 hi with hi | rfl
      · exact hc.own i hi p
      · exact hn.own hc hp
  case pos =>
    intro i hi
    rcases Nat.lt_succ_iff_lt_or_eq.1 hi with hi | rfl
    · exact hc.pos i hi
    · rw [hn.stamp_self hc]
      exact Nat.succ_pos _
  case last =>
    intro p
    by_cases hp : p = (h n).node
    · subst hp
      exact .inr ⟨n, Nat.lt_succ_self n, rfl, hself, fun i hi _ => Nat.lt_succ_iff.1 hi⟩
    · -- The new event is at another node.
      have hne : ∀ i < n + 1, (h i).node = p → i < n := by
        intro i hi hnode
        refine (Nat.lt_succ_iff_lt_or_eq.1 hi).resolve_right ?_
        rintro rfl
        exact hp hnode.symm
      rw [hother p hp]
      refine (hc.last p).imp (fun hnone => ⟨hnone.1, fun i hi hnode => ?_⟩) ?_
      · exact hnone.2 i (hne i hi hnode) hnode
      · rintro ⟨l, hl, hnode, hclock, hmax⟩
        exact ⟨l, hl.trans (Nat.lt_succ_self n), hnode, hclock,
          fun i hi hnode => hmax i (hne i hi hnode) hnode⟩

end Next

/-! ## Order of the clocks -/

/-- The clocks after two events are ordered as the events. -/
theorem le_iff (hc : Clocked h n stamp clock) (hi : i < n) (hj : j < n) :
    stamp i ≤ stamp j ↔ Past h i j :=
  ⟨fun hle => (hc.threshold i hi j hj).1 (hle _), hc.mono i hi j hj⟩

theorem eq_iff (hc : Clocked h n stamp clock) (hi : i < n) (hj : j < n) :
    stamp i = stamp j ↔ i = j := by
  constructor
  · intro heq
    exact ((hc.le_iff hi hj).1 heq.le).antisymm ((hc.le_iff hj hi).1 heq.ge)
  · rintro rfl
    rfl

theorem lt_iff (hc : Clocked h n stamp clock) (hi : i < n) (hj : j < n) :
    stamp i < stamp j ↔ HappensBefore h i j := by
  rw [lt_iff_le_and_ne, hc.le_iff hi hj, Ne, hc.eq_iff hi hj, past_iff]
  constructor
  · rintro ⟨heq | hb, hne⟩
    · exact absurd heq hne
    · exact hb
  · exact fun hb => ⟨.inr hb, hb.lt.ne⟩

end Clocked

end CausalHistory
