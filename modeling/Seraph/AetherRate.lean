import Mathlib.Data.Nat.ModEq
import Seraph.AetherSecurityRuns
import Seraph.TokenBucket

/-!
# Rates of frames

`available` is what a token bucket holds in exact arithmetic. A frame of a node that fits
(`RateFits`) is not sent at tick 0, its bucket and the time since the last refill are small enough
for the machine arithmetic, it finds no token or a whole one, and in the second case the frame is
valid, so that a token is taken for it. In a run of frames that fit the tokens are exact, and no
window has more frames that pass than a token bucket allows (`rate_bounded`).
-/

namespace Seraph

open Runs TokenBucket

namespace RateConfig

/-- The tokens for a time. -/
def gain (config : RateConfig) (e : ℕ) : ℕ :=
  e * config.tokensPerSecond * rateFpOne / config.ticksPerSecond

theorem gain_superadditive (config : RateConfig) : Superadditive config.gain := by
  intro a b
  rw [gain, gain, gain, Nat.add_mul, Nat.add_mul]
  exact Nat.div_add_div_le_add_div

theorem gain_mono (config : RateConfig) {a b : ℕ} (h : a ≤ b) : config.gain a ≤ config.gain b :=
  Nat.div_le_div_right (Nat.mul_le_mul_right _ (Nat.mul_le_mul_right _ h))

/-- A full bucket. -/
def cap (config : RateConfig) : ℕ :=
  config.bucketSize * rateFpOne

end RateConfig

namespace RateState

/-- What the bucket holds at a tick. -/
def available (state : RateState) (config : RateConfig) (t : ℕ) : ℕ :=
  if state.lastRefillTick = 0 then config.cap
  else min config.cap (state.tokens + config.gain (t - state.lastRefillTick))

/-- The machine arithmetic is exact. -/
structure Fits (state : RateState) (config : RateConfig) (t : ℕ) : Prop where
  bucket : config.bucketSize < 2 ^ 16
  elapsed : state.lastRefillTick ≠ 0 →
    (t - state.lastRefillTick) * config.tokensPerSecond * rateFpOne < 2 ^ 64
  tokens : state.lastRefillTick ≠ 0 →
    state.tokens + config.gain (t - state.lastRefillTick) < 2 ^ 64

variable {state : RateState} {config : RateConfig} {t : ℕ}

/-- The bucket is never more than full. -/
def Level (state : RateState) (config : RateConfig) : Prop :=
  state.lastRefillTick ≠ 0 → state.tokens ≤ config.cap

theorem available_le_cap : state.available config t ≤ config.cap := by
  unfold available
  split <;> omega

/-- The refill in exact arithmetic. -/
theorem refill_of_fits (h : state.Fits config t) (hlevel : state.Level config) (ht : t < 2 ^ 64)
    (hlast : state.lastRefillTick ≤ t) :
    ((state.start config t).refill config t).tokens = state.available config t ∧
      ((state.start config t).refill config t).lastRefillTick = t := by
  obtain ⟨hbucket, helapsed, htokens⟩ := h
  have hcap : u32 (config.bucketSize <<< rateFpShift) = config.cap := by
    rw [Nat.shiftLeft_eq, RateConfig.cap]
    exact u32_of_lt (by unfold rateFpShift; omega)
  have hcaplt : config.cap < 2 ^ 32 := by
    unfold RateConfig.cap rateFpOne
    omega
  by_cases hzero : state.lastRefillTick = 0
  · have hstart : state.start config t =
        { state with tokens := config.cap, lastRefillTick := t } := by
      rw [start, if_pos hzero, hcap]
    have hsame : u64 (2 ^ 64 - t + t) = 0 := by
      rw [Nat.sub_add_cancel ht.le]
      rfl
    rw [hstart, refill]
    dsimp only
    rw [hsame, if_neg (Nat.lt_irrefl 0), available, if_pos hzero]
    exact ⟨rfl, rfl⟩
  · have hstart : state.start config t = state := if_neg hzero
    have htime : u64 (2 ^ 64 - state.lastRefillTick + t) = t - state.lastRefillTick := by
      unfold u64
      omega
    rw [hstart, refill, available, if_neg hzero]
    dsimp only
    rw [htime]
    by_cases hpos : t - state.lastRefillTick > 0
    · have hprod := helapsed hzero
      have hone : (t - state.lastRefillTick) * config.tokensPerSecond < 2 ^ 64 := by
        unfold rateFpOne at hprod
        omega
      have hgain := htokens hzero
      rw [if_pos hpos, u64_of_lt hone, u64_of_lt hprod, hcap]
      change u32 (if u64 (state.tokens + config.gain (t - state.lastRefillTick)) > config.cap then
        config.cap else u64 (state.tokens + config.gain (t - state.lastRefillTick))) = _ ∧ t = t
      rw [u64_of_lt hgain]
      refine ⟨?_, rfl⟩
      split
      · rw [u32_of_lt hcaplt]
        omega
      · rw [u32_of_lt (by omega)]
        omega
    · have hle := hlevel hzero
      have hnow : t - state.lastRefillTick = 0 := by omega
      have hgain : config.gain 0 = 0 := by rw [RateConfig.gain, Nat.zero_mul, Nat.zero_mul,
        Nat.zero_div]
      rw [if_neg hpos, hnow, hgain]
      exact ⟨by omega, by omega⟩

/-- The answers of `aether_rate_check`. -/
theorem check_eq (state : RateState) (config : RateConfig) (t : ℕ) :
    ((state.check config t).1.tokens = ((state.start config t).refill config t).tokens ∧
      (state.check config t).1.lastRefillTick =
        ((state.start config t).refill config t).lastRefillTick) ∧
      ((state.check config t).2 = .ok ↔
        rateFpOne ≤ ((state.start config t).refill config t).tokens) ∧
      ((state.check config t).2 = .limited ↔
        ((state.start config t).refill config t).tokens = 0) := by
  unfold check
  generalize (state.start config t).refill config t = r
  dsimp only
  by_cases hone : r.tokens ≥ rateFpOne
  · rw [if_pos hone]
    refine ⟨⟨rfl, rfl⟩, iff_of_true rfl hone, iff_of_false (fun h => by cases h) fun h => ?_⟩
    rw [h] at hone
    cases hone
  · rw [if_neg hone]
    by_cases hpos : r.tokens > 0
    · rw [if_pos hpos]
      exact ⟨⟨rfl, rfl⟩, iff_of_false (fun h => by cases h) hone,
        iff_of_false (fun h => by cases h) (by omega)⟩
    · rw [if_neg hpos]
      exact ⟨⟨rfl, rfl⟩, iff_of_false (fun h => by cases h) hone, iff_of_true rfl (by omega)⟩

end RateState

/-! ## One call -/

namespace SecurityOp

/-- The tick of a validation. -/
def tick? : SecurityOp → Option ℕ
  | .validate _ currentTick => some currentTick
  | _ => none

end SecurityOp

namespace SecurityState

/-- A frame of the node has passed the second step. -/
def passesRate (n : ℕ) (c : Call SecurityState SecurityOp (Option ValidateResult)) : Bool :=
  match c.op, c.result with
  | .validate frame _, some r =>
    (readHeader frame).any (fun header => header.srcNode = n) &&
      (r ≠ .malformed && r ≠ .rateLimited)
  | _, _ => false

/-- The frames of the node that pass in a run. -/
def passes (n : ℕ) (s : SecurityState) (ops : List SecurityOp) : ℕ :=
  ((calls step s ops).filter (passesRate n)).length

/-- A frame of the node fits. -/
def RateFits (n : ℕ) (s : SecurityState) : SecurityOp → Prop
  | .validate frame t => ∀ header, WellFormed frame header → header.srcNode = n →
    t ≠ 0 ∧ (s.rate n).Fits s.rateConfig t ∧
      ((s.rate n).available s.rateConfig t = 0 ∨
        rateFpOne ≤ (s.rate n).available s.rateConfig t ∧
          s.hmacStep header frame = some true ∧
          s.replayStep header.srcNode header.seqNum = true ∧ s.permissionStep header = true)
  | _ => True

/-- The tokens of a call are defined and exact, and it does not pass in back-off. -/
def RateExact (n : ℕ) (c : Call SecurityState SecurityOp (Option ValidateResult)) : Prop :=
  ∀ frame t header, c.op = .validate frame t → WellFormed frame header → header.srcNode = n →
    0 < c.before.rateConfig.ticksPerSecond ∧
      (((c.before.rate n).start c.before.rateConfig t).refill c.before.rateConfig t).tokens =
        (c.before.rate n).available c.before.rateConfig t ∧
      (((c.before.rate n).check c.before.rateConfig t).2 = .backoff → passesRate n c = false)

/-- The frames of a node that pass in a run : the tokens are exact, no frame passes in back-off, and
no window of `T` ticks has more of them than the bucket and the rate allow. -/
structure RateBounded (n : ℕ) (s : SecurityState) (ops : List SecurityOp) : Prop where
  exact : ∀ c ∈ calls step s ops, RateExact n c
  window : ∀ pre win post, ops = pre ++ (win ++ post) → ∀ t T,
    (∀ x ∈ win.filterMap SecurityOp.tick?, t ≤ x ∧ x ≤ t + T) →
      passes n (run step s pre) win ≤
        s.rateConfig.bucketSize + s.rateConfig.tokensPerSecond * T / s.rateConfig.ticksPerSecond + 1

variable {s : SecurityState} {n : ℕ} {frame : List UInt8} {header : AetherHeader} {t : ℕ}

theorem rateStep_on (hflag : s.flags &&& secFlagRateLimit ≠ 0) (src : ℕ) :
    s.rateStep src t =
      ({ s with
          rate := Function.update s.rate src ((s.rate src).check s.rateConfig t).1 },
        decide (((s.rate src).check s.rateConfig t).2 ≠ .limited)) :=
  if_pos hflag

/-- The results of the validation of a frame that is well formed. -/
theorem validated_rate (frame : List UInt8) (header : AetherHeader) (t : ℕ)
    (hflag : s.flags &&& secFlagRateLimit ≠ 0) {src : ℕ}
    (hsrc : header.srcNode = src) :
    let r := (s.rate src).check s.rateConfig t
    let v := s.validated header frame t
    (v.2 = .rateLimited ↔ r.2 = .limited) ∧ v.2 ≠ .malformed ∧
      (r.2 ≠ .limited → s.hmacStep header frame = some true →
        s.replayStep header.srcNode header.seqNum = true → s.permissionStep header = true →
        v.2 = .ok) ∧
      v.1.rate = Function.update s.rate src (if v.2 = .ok then r.1.consume else r.1) ∧
      v.1.flags = s.flags ∧ v.1.rateConfig = s.rateConfig ∧ v.1.initialized = s.initialized := by
  subst hsrc
  intro r v
  have hv : v = s.validated header frame t := rfl
  unfold validated at hv
  rw [rateStep_on hflag] at hv
  dsimp only at hv
  change v = if (!decide (r.2 ≠ .limited)) = true then _ else _ at hv
  by_cases hlim : r.2 = .limited
  · rw [if_pos (by simp [hlim])] at hv
    rw [hv]
    simp [hlim]
    rfl
  · rw [if_neg (by simp [hlim])] at hv
    split_ifs at hv with h1 h2 h3
    · rw [hv]
      refine ⟨by simp [hlim], by simp, fun _ h => absurd h h1, rfl, rfl, rfl, rfl⟩
    · rw [hv]
      refine ⟨by simp [hlim], by simp, fun _ _ h => ?_, rfl, rfl, rfl, rfl⟩
      change (!s.replayStep header.srcNode header.seqNum) = true at h2
      rw [h] at h2
      cases h2
    · rw [hv]
      refine ⟨by simp [hlim], by simp, fun _ _ _ h => ?_, rfl, rfl, rfl, rfl⟩
      change (!s.permissionStep header) = true at h3
      rw [h] at h3
      cases h3
    · rw [hv]
      refine ⟨by simp [hlim], by simp, fun _ _ _ _ => rfl, ?_⟩
      unfold consumeToken
      rw [if_pos hflag]
      refine ⟨?_, rfl, rfl, rfl⟩
      simp only [if_pos, Function.update_self, Function.update_idem]
      rfl

/-- What a call does to the bucket of a node : nothing, or a refill at its tick and a take if the
frame passes. -/
theorem step_rate (hflag : s.flags &&& secFlagRateLimit ≠ 0)
    (hdivisor : 0 < s.rateConfig.ticksPerSecond) {op : SecurityOp}
    (hfits : RateFits n s op) (hlevel : (s.rate n).Level s.rateConfig)
    (htick : ∀ x ∈ op.tick?, x < 2 ^ 64 ∧ (s.rate n).lastRefillTick ≤ x) :
    let s' := (step s op).1
    let c : Call SecurityState SecurityOp (Option ValidateResult) := ⟨s, op, (step s op).2⟩
    (s'.flags = s.flags ∧ s'.rateConfig = s.rateConfig) ∧ RateExact n c ∧
      ((s'.rate n = s.rate n ∧ passesRate n c = false) ∨
        ∃ x, op.tick? = some x ∧ x ≠ 0 ∧ (s'.rate n).lastRefillTick = x ∧
          (passesRate n c = true → rateFpOne ≤ (s.rate n).available s.rateConfig x) ∧
          (s'.rate n).tokens = (s.rate n).available s.rateConfig x -
            (if passesRate n c = true then rateFpOne else 0)) := by
  intro s' c
  cases op with
  | accept src seqNum =>
    have hs : s' = s.acceptPacket src seqNum := rfl
    have hkeep : s'.flags = s.flags ∧ s'.rateConfig = s.rateConfig ∧ s'.rate = s.rate := by
      rw [hs]
      unfold acceptPacket
      split_ifs <;> exact ⟨rfl, rfl, rfl⟩
    obtain ⟨h1, h2, h3⟩ := hkeep
    exact ⟨⟨h1, h2⟩, fun _ _ _ heq => (by cases heq), .inl ⟨by rw [h3], rfl⟩⟩
  | setKey src key perms =>
    have hs : s' = s.setNodeKey src key perms := rfl
    have hkeep : s'.flags = s.flags ∧ s'.rateConfig = s.rateConfig ∧ s'.rate = s.rate := by
      rw [hs]
      unfold setNodeKey
      split_ifs <;> exact ⟨rfl, rfl, rfl⟩
    obtain ⟨h1, h2, h3⟩ := hkeep
    exact ⟨⟨h1, h2⟩, fun _ _ _ heq => (by cases heq), .inl ⟨by rw [h3], rfl⟩⟩
  | validate frame t =>
    obtain ⟨htlt, hlast⟩ := htick t rfl
    have hexact : RateExact n c := by
      intro frame' t' header heq hw hsrc
      cases heq
      obtain ⟨-, hf, hor⟩ := hfits header hw hsrc
      obtain ⟨htokens, -⟩ := RateState.refill_of_fits hf hlevel htlt hlast
      refine ⟨hdivisor, htokens, fun hback => ?_⟩
      obtain ⟨-, hok, hlim⟩ := RateState.check_eq (s.rate n) s.rateConfig t
      have hback' : ((s.rate n).check s.rateConfig t).2 = .backoff := hback
      rw [htokens, hback'] at hok hlim
      rcases hor with hzero | ⟨hone, -⟩
      · cases hlim.2 hzero
      · cases hok.2 hone
    have hcases := validateFrame_cases s frame t
    rcases hcases with ⟨-, hbad⟩ | ⟨header, -, hw, hgood⟩
    · have hs : step s (.validate frame t) = (s, some .malformed) := by rw [step, hbad]
      have hpass : passesRate n c = false := by simp [c, hs, passesRate]
      have hs' : s' = s := congrArg Prod.fst hs
      rw [hs']
      exact ⟨⟨rfl, rfl⟩, hexact, .inl ⟨rfl, hpass⟩⟩
    obtain ⟨v, hv⟩ : ∃ v, v = s.validated header frame t := ⟨_, rfl⟩
    rw [← hv] at hgood
    have hs : step s (.validate frame t) = (v.1, some v.2) := by rw [step, hgood]
    have hs' : s' = v.1 := congrArg Prod.fst hs
    have hpass : passesRate n c =
        (decide (header.srcNode = n) && (v.2 ≠ .malformed && v.2 ≠ .rateLimited)) := by
      simp [c, hs, passesRate, hw.read]
    obtain ⟨hlimited, hmal, hvalid, hrate, hflags, hconfig, -⟩ :=
      validated_rate frame header t hflag rfl
    rw [← hv] at hlimited hmal hvalid hrate hflags hconfig
    rw [hs', hrate]
    refine ⟨⟨hflags, hconfig⟩, hexact, ?_⟩
    by_cases hsrc : header.srcNode = n
    · subst hsrc
      obtain ⟨hne, hf, hor⟩ := hfits header hw rfl
      obtain ⟨htokens, hlast'⟩ := RateState.refill_of_fits hf hlevel htlt hlast
      obtain ⟨⟨hcheck, hchecklast⟩, hok, hlim⟩ := RateState.check_eq (s.rate header.srcNode)
        s.rateConfig t
      rw [htokens] at hcheck hok hlim
      rw [hlast'] at hchecklast
      refine .inr ⟨t, rfl, hne, ?_⟩
      rw [Function.update_self]
      rcases hor with hzero | ⟨hone, hhmac, hreplay, hperm⟩
      · have hres : v.2 = .rateLimited := hlimited.2 (hlim.2 hzero)
        have hno : passesRate header.srcNode c = false := by simp [hpass, hres]
        rw [hno, hres, if_neg (by decide), hcheck, hchecklast, hzero]
        exact ⟨rfl, fun h => (by cases h), rfl⟩
      · have hres : v.2 = .ok := hvalid (fun heq => by
          rw [hok.2 hone] at heq
          cases heq) hhmac hreplay hperm
        have hyes : passesRate header.srcNode c = true := by simp [hpass, hres]
        rw [hyes, hres, if_pos rfl, RateState.consume, hcheck, if_pos hone]
        exact ⟨hchecklast, fun _ => hone, by rw [if_pos rfl]⟩
    · rw [Function.update_of_ne fun heq => hsrc heq.symm]
      refine .inl ⟨rfl, ?_⟩
      rw [hpass, decide_eq_false hsrc, Bool.false_and]

/-! ## Runs -/

/-- The bucket of a node, where the next tick is not before `x`. -/
structure RateInv (n : ℕ) (s₀ s : SecurityState) (ops : List SecurityOp) : Prop where
  flags : s.flags = s₀.flags
  config : s.rateConfig = s₀.rateConfig
  divisor : 0 < s.rateConfig.ticksPerSecond
  level : (s.rate n).Level s.rateConfig
  sorted : (ops.filterMap SecurityOp.tick?).Pairwise (· ≤ ·)
  last : ∀ x ∈ ops.filterMap SecurityOp.tick?, x < 2 ^ 64 ∧ (s.rate n).lastRefillTick ≤ x

/-- One call of a run keeps what is known of the bucket. -/
theorem RateInv.step {s₀ : SecurityState} (hflag : s₀.flags &&& secFlagRateLimit ≠ 0)
    {op : SecurityOp} {ops : List SecurityOp} (h : RateInv n s₀ s (op :: ops))
    (hfits : RateFits n s op) : RateInv n s₀ (step s op).1 ops := by
  obtain ⟨hflags, hconfig, hdivisor, hlevel, hsorted, hlast⟩ := h
  have htick : ∀ x ∈ op.tick?, x < 2 ^ 64 ∧ (s.rate n).lastRefillTick ≤ x := fun x hx =>
    hlast x (by rw [List.filterMap_cons, Option.mem_def.1 hx]; exact List.mem_cons_self)
  obtain ⟨⟨hf, hc⟩, -, hor⟩ := step_rate (by rwa [hflags]) hdivisor hfits hlevel htick
  have hsub : (ops.filterMap SecurityOp.tick?).Sublist
      ((op :: ops).filterMap SecurityOp.tick?) := (List.sublist_cons_self op ops).filterMap _
  refine ⟨hf.trans hflags, hc.trans hconfig, by rwa [hc], ?_, hsorted.sublist hsub, fun x hx => ?_⟩
  · rw [hc]
    rcases hor with ⟨hsame, -⟩ | ⟨x, -, -, -, -, htokens⟩
    · rwa [hsame]
    · intro _
      rw [htokens]
      exact (Nat.sub_le _ _).trans RateState.available_le_cap
  · refine ⟨(hlast x (hsub.subset hx)).1, ?_⟩
    rcases hor with ⟨hsame, -⟩ | ⟨y, hy, -, hnow, -⟩
    · rw [hsame]
      exact (hlast x (hsub.subset hx)).2
    · rw [List.filterMap_cons, hy] at hsorted
      rw [hnow]
      exact (List.pairwise_cons.1 hsorted).1 x hx

/-- A run keeps it. -/
theorem RateInv.run {s₀ : SecurityState} (hflag : s₀.flags &&& secFlagRateLimit ≠ 0)
    {ops rest : List SecurityOp} (h : RateInv n s₀ s (ops ++ rest))
    (hfits : Guarded SecurityState.step (RateFits n) s ops) :
    RateInv n s₀ (run SecurityState.step s ops) rest := by
  induction ops generalizing s with
  | nil => exact h
  | cons op ops ih => exact ih (h.step hflag hfits.1) hfits.2

/-- The takes from a bucket since a tick in `[t, e]`, if there were any. -/
def Paid (config : RateConfig) (r : RateState) (t e k : ℕ) : Prop :=
  k = 0 ∨ r.lastRefillTick ≠ 0 ∧ r.lastRefillTick ≤ e ∧
    ∃ t₀, t ≤ t₀ ∧ Spent config.cap rateFpOne config.gain t₀ r.tokens r.lastRefillTick k

/-- A refill, and a take if there is a whole token. -/
theorem Paid.refill {config : RateConfig} {r r' : RateState} {t e k x c : ℕ}
    (h : Paid config r t e k) (hne : x ≠ 0) (hlast : r.lastRefillTick ≤ x) (ht : t ≤ x)
    (he : x ≤ e) (hlast' : r'.lastRefillTick = x)
    (htokens : r'.tokens = r.available config x - c * rateFpOne)
    (htake : c = 0 ∨ c = 1 ∧ rateFpOne ≤ r.available config x) : Paid config r' t e (k + c) := by
  obtain ⟨t₀, ht₀, hspent⟩ : ∃ t₀, t ≤ t₀ ∧ Spent config.cap rateFpOne config.gain t₀
      (r.available config x) x k := by
    rcases h with rfl | ⟨hnz, -, t₀, ht₀, hspent⟩
    · exact ⟨x, ht, .first RateState.available_le_cap⟩
    · refine ⟨t₀, ht₀, hspent.refill config.gain_superadditive hlast ?_⟩
      rw [RateState.available, if_neg hnz]
      exact Nat.min_le_right _ _
  refine .inr ⟨hlast' ▸ hne, hlast' ▸ he, t₀, ht₀, ?_⟩
  rw [hlast', htokens]
  rcases htake with rfl | ⟨rfl, hone⟩
  · rwa [Nat.zero_mul]
  · rw [Nat.one_mul]
    exact hspent.take hone

theorem Paid.takes_le {config : RateConfig} {r : RateState} {t e k : ℕ} (h : Paid config r t e k) :
    k * rateFpOne ≤ config.cap + config.gain (e - t) := by
  rcases h with rfl | ⟨-, hlast, t₀, ht₀, hspent⟩
  · rw [Nat.zero_mul]
    exact Nat.zero_le _
  · exact hspent.takes_le.trans (Nat.add_le_add_left (config.gain_mono (by omega)) _)

/-- The frames that pass in a window. -/
theorem RateInv.paid {s₀ : SecurityState} (hflag : s₀.flags &&& secFlagRateLimit ≠ 0)
    {win : List SecurityOp} (h : RateInv n s₀ s win)
    (hfits : Guarded SecurityState.step (RateFits n) s win) {t e k : ℕ}
    (hticks : ∀ x ∈ win.filterMap SecurityOp.tick?, t ≤ x ∧ x ≤ e)
    (hpaid : Paid s₀.rateConfig (s.rate n) t e k) :
    (k + passes n s win) * rateFpOne ≤ s₀.rateConfig.cap + s₀.rateConfig.gain (e - t) := by
  induction win generalizing s k with
  | nil => exact hpaid.takes_le
  | cons op win ih =>
    have htick : ∀ x ∈ op.tick?, x ∈ (op :: win).filterMap SecurityOp.tick? := fun x hx => by
      rw [List.filterMap_cons, Option.mem_def.1 hx]
      exact List.mem_cons_self
    obtain ⟨-, -, hor⟩ := step_rate (by rw [h.flags]; exact hflag) h.divisor hfits.1 h.level
      fun x hx =>
      h.last x (htick x hx)
    have hsub : (win.filterMap SecurityOp.tick?).Sublist
        ((op :: win).filterMap SecurityOp.tick?) := (List.sublist_cons_self op win).filterMap _
    have hrest := fun x hx => hticks x (hsub.subset hx)
    obtain ⟨c, hc⟩ : ∃ c, c = if passesRate n ⟨s, op, (SecurityState.step s op).2⟩ = true
      then 1 else 0 := ⟨_, rfl⟩
    have hcount : passes n s (op :: win) = c + passes n (SecurityState.step s op).1 win := by
      rw [passes, calls, List.filter_cons, hc]
      split
      · rw [List.length_cons, Nat.add_comm]
        rfl
      · rw [Nat.zero_add]
        rfl
    rw [hcount, ← Nat.add_assoc]
    refine ih (h.step hflag hfits.1) hfits.2 hrest ?_
    rcases hor with ⟨hsame, hno⟩ | ⟨x, hx, hne, hlast, hwhole, htokens⟩
    · rw [hsame, hc, if_neg (by rw [hno]; decide)]
      exact hpaid
    · obtain ⟨ht, he⟩ := hticks x (htick x hx)
      rw [h.config] at htokens hwhole
      refine hpaid.refill hne (h.last x (htick x hx)).2 ht he hlast ?_ ?_
      · rw [htokens, hc]
        split <;> omega
      · rw [hc]
        split
        · next hpass => exact .inr ⟨rfl, hwhole hpass⟩
        · exact .inl rfl

/-- Rounding down once or twice. -/
theorem takes_of_gain {config : RateConfig} {k e : ℕ}
    (h : k * rateFpOne ≤ config.cap + config.gain e) :
    k ≤ config.bucketSize + config.tokensPerSecond * e / config.ticksPerSecond := by
  have hpos : 0 < rateFpOne := by decide
  have hdiv : config.gain e / rateFpOne =
      config.tokensPerSecond * e / config.ticksPerSecond := by
    rw [RateConfig.gain, Nat.div_div_eq_div_mul, Nat.mul_comm config.ticksPerSecond,
      Nat.mul_comm _ rateFpOne, Nat.mul_div_mul_left _ _ hpos, Nat.mul_comm e]
  calc k = k * rateFpOne / rateFpOne := (Nat.mul_div_cancel k hpos).symm
    _ ≤ (config.gain e + config.bucketSize * rateFpOne) / rateFpOne :=
      Nat.div_le_div_right (by rw [Nat.add_comm]; exact h)
    _ = config.bucketSize + config.tokensPerSecond * e / config.ticksPerSecond := by
      rw [Nat.add_mul_div_right _ _ hpos, hdiv, Nat.add_comm]

/-- A run of frames that fit keeps to the rate. -/
theorem rate_bounded {pps burst ticksPerSec : ℕ} (hflag : s.flags &&& secFlagRateLimit ≠ 0)
    (hconfig : s.rateConfig = .init pps burst ticksPerSec) (hreset : s.rate n = .reset)
    {ops : List SecurityOp} (hsorted : (ops.filterMap SecurityOp.tick?).Pairwise (· ≤ ·))
    (hticks : ∀ x ∈ ops.filterMap SecurityOp.tick?, x < 2 ^ 64)
    (hfits : Guarded step (RateFits n) s ops) : RateBounded n s ops := by
  have hinv : RateInv n s s ops := by
    refine ⟨rfl, rfl, ?_, fun hne => ?_, hsorted, fun x hx => ⟨hticks x hx, ?_⟩⟩
    · rw [hconfig, RateConfig.init]
      dsimp only
      split <;> omega
    · rw [hreset] at hne
      exact absurd rfl hne
    · rw [hreset]
      exact Nat.zero_le x
  refine ⟨?_, ?_⟩
  · clear hreset hconfig hticks hsorted
    obtain ⟨s₀, hs₀⟩ : ∃ s₀, s₀ = s := ⟨s, rfl⟩
    rw [← hs₀] at hflag
    nth_rewrite 1 [← hs₀] at hinv
    clear hs₀
    induction ops generalizing s with
    | nil => exact fun c hc => (by cases hc)
    | cons op ops ih =>
      intro c hc
      have htick : ∀ x ∈ op.tick?, x ∈ (op :: ops).filterMap SecurityOp.tick? := fun x hx => by
        rw [List.filterMap_cons, Option.mem_def.1 hx]
        exact List.mem_cons_self
      have hnext := hinv.step hflag hfits.1
      rcases List.mem_cons.1 hc with rfl | hc
      · exact (step_rate (by rw [hinv.flags]; exact hflag) hinv.divisor hfits.1 hinv.level
          fun x hx => hinv.last x (htick x hx)).2.1
      · exact ih hfits.2 hnext c hc
  · rintro pre win post rfl t T hwin
    obtain ⟨hpre, hrest⟩ := guarded_append.1 hfits
    have hsuf := hinv.run hflag hpre
    have hsub : (win.filterMap SecurityOp.tick?).Sublist
        ((win ++ post).filterMap SecurityOp.tick?) :=
      (List.sublist_append_left win post).filterMap _
    have hmid : RateInv n s (run step s pre) win :=
      ⟨hsuf.flags, hsuf.config, hsuf.divisor, hsuf.level, hsuf.sorted.sublist hsub, fun x hx =>
        hsuf.last x (hsub.subset hx)⟩
    have hpaid := hmid.paid hflag (guarded_append.1 hrest).1 hwin (.inl rfl)
    rw [Nat.zero_add, Nat.add_sub_cancel_left] at hpaid
    exact (takes_of_gain hpaid).trans (Nat.le_succ _)

theorem rate_bounded_acks : RateBounded 1 (initFlags secFlagRateLimit)
    [.validate bareAck 5, .validate bareAck 5, .validate bareAck 6] := by
  refine rate_bounded (by decide) rfl rfl
    (by decide) (by decide) ⟨?_, ?_, ?_, trivial⟩
  all_goals
    intro header _ _
    exact ⟨by decide, ⟨by decide, by decide +kernel, by decide +kernel⟩,
      .inr ⟨by decide +kernel, rfl, rfl, rfl⟩⟩

/-- With one token, four frames of a node without a key pass at one tick : none of them takes the
token. -/
theorem not_rateBounded : ¬ RateBounded 1
    { initFlags (secFlagRateLimit ||| secFlagRequireHmac) with rateConfig := .init 1 1 1 }
    (List.replicate 4 (.validate bareAck 1)) := by
  intro h
  have hwin := h.window [] (List.replicate 4 (.validate bareAck 1)) [] rfl 1 0 (by decide)
  revert hwin
  decide +kernel

end SecurityState

end Seraph
