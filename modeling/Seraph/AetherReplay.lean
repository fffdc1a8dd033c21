import Seraph.AetherSecurity
import Seraph.Runs
import Seraph.SlidingWindow

/-!
# Replay windows

Every source has a window of its own. After any run the window of a source knows exactly which
numbers it has accepted (`Tracks`), so that a number passes if and only if it has not been accepted
and is less than 64 below all that have (`Tracks.check_eq_ok`).
-/

namespace Seraph

open Runs SlidingWindow

/-- The window of a source from which these numbers have been accepted. -/
structure Tracks (state : ReplayState) (acc : List UInt32) : Prop where
  initialized : state.initialized = true ↔ acc ≠ []
  covers : acc ≠ [] →
    Covers state.windowBitmap state.lastSeq.toNat (acc.map UInt32.toNat)

variable {state : ReplayState} {acc : List UInt32} {seqNum : UInt32}

theorem mem_map_toNat {n : UInt32} : n.toNat ∈ acc.map UInt32.toNat ↔ n ∈ acc :=
  List.mem_map_of_injective fun _ _ => UInt32.toNat_inj.1

theorem and_shift_ne_zero (bits : BitVec 64) {i : ℕ} (hi : i < 64) :
    bits &&& 1#64 <<< i ≠ 0#64 ↔ bits.getLsbD i = true := by
  constructor
  · intro hne
    by_contra hbit
    refine hne (BitVec.eq_of_getLsbD_eq fun k hk => ?_)
    rw [BitVec.getLsbD_and, BitVec.getLsbD_shiftLeft, getLsbD_one (by omega), BitVec.getLsbD_zero]
    rcases eq_or_ne k i with rfl | hki
    · rw [Bool.eq_false_of_not_eq_true hbit, Bool.false_and]
    · by_cases hlt : k < i
      · simp [hlt]
      · have hsub : k - i ≠ 0 := by omega
        simp [hsub]
  · intro hbit hzero
    have hmask : (1#64 <<< i).getLsbD i = true := by simp [hi]
    have h : (bits &&& 1#64 <<< i).getLsbD i = false := by rw [hzero, BitVec.getLsbD_zero]
    rw [BitVec.getLsbD_and, hbit, hmask] at h
    cases h

namespace Tracks

theorem reset : Tracks .reset [] :=
  ⟨by simp [ReplayState.reset], fun h => absurd rfl h⟩

/-- The numbers that pass. -/
theorem check_eq_ok (h : Tracks state acc) : state.check seqNum = .ok ↔
    seqNum ∉ acc ∧ ∀ a ∈ acc, a.toNat < seqNum.toNat + 64 := by
  unfold ReplayState.check
  by_cases hempty : acc = []
  · have hnot : state.initialized = false := by
      by_contra hinit
      exact h.initialized.1 (Bool.eq_true_of_not_eq_false hinit) hempty
    simp [hnot, hempty]
  have hinit := h.initialized.2 hempty
  have hcovers := h.covers hempty
  have hle : ∀ a ∈ acc, a.toNat ≤ state.lastSeq.toNat := fun a ha =>
    hcovers.le_last _ (mem_map_toNat.2 ha)
  have hlast : state.lastSeq ∈ acc := mem_map_toNat.1 hcovers.last_mem
  rw [hinit, if_neg (by simp)]
  by_cases hgt : seqNum > state.lastSeq
  · rw [if_pos hgt]
    refine iff_of_true rfl ⟨fun hmem => ?_, fun a ha => ?_⟩
    · exact absurd (hle _ hmem) (Nat.not_le.2 (UInt32.lt_iff_toNat_lt.1 hgt))
    · have := UInt32.lt_iff_toNat_lt.1 hgt
      have := hle a ha
      omega
  · rw [if_neg hgt]
    have hback : seqNum.toNat ≤ state.lastSeq.toNat := by
      rw [gt_iff_lt, UInt32.lt_iff_toNat_lt] at hgt
      omega
    have hdiff : (state.lastSeq - seqNum).toNat = state.lastSeq.toNat - seqNum.toNat :=
      UInt32.toNat_sub_of_le _ _ (UInt32.le_iff_toNat_le.2 hback)
    dsimp only
    rw [hdiff, aetherReplayWindowSize]
    by_cases hold : state.lastSeq.toNat - seqNum.toNat ≥ 64
    · rw [if_pos hold]
      refine iff_of_false (fun heq => by cases heq) fun hall => ?_
      have := hall.2 _ hlast
      omega
    · rw [if_neg hold]
      have hmem := hcovers.mem_iff hback (by omega)
      rw [mem_map_toNat, ← and_shift_ne_zero _ (by omega)] at hmem
      by_cases hseen : seqNum ∈ acc
      · rw [if_pos (hmem.1 hseen)]
        exact iff_of_false (fun heq => by cases heq) fun hall => hall.1 hseen
      · rw [if_neg fun hbit => hseen (hmem.2 hbit)]
        refine iff_of_true rfl ⟨hseen, fun a ha => ?_⟩
        have := hle a ha
        omega

/-- A number that has passed is entered. -/
theorem accept (h : Tracks state acc) (hok : state.check seqNum = .ok) :
    Tracks (state.accept seqNum) (seqNum :: acc) := by
  obtain ⟨-, hnear⟩ := h.check_eq_ok.1 hok
  unfold ReplayState.accept
  by_cases hempty : acc = []
  · have hnot : state.initialized = false := by
      by_contra hinit
      exact h.initialized.1 (Bool.eq_true_of_not_eq_false hinit) hempty
    rw [hnot, hempty]
    exact ⟨by simp, fun _ => Covers.first (by omega) _⟩
  have hinit := h.initialized.2 hempty
  have hcovers := h.covers hempty
  have hlast := hnear _ (mem_map_toNat.1 hcovers.last_mem)
  rw [hinit, if_neg (by simp)]
  by_cases hgt : seqNum > state.lastSeq
  · have hlt := UInt32.lt_iff_toNat_lt.1 hgt
    have hshift : (seqNum - state.lastSeq).toNat = seqNum.toNat - state.lastSeq.toNat :=
      UInt32.toNat_sub_of_le _ _ (UInt32.le_iff_toNat_le.2 hlt.le)
    rw [if_pos hgt]
    dsimp only
    rw [hshift, aetherReplayWindowSize]
    split
    · next hjump => exact ⟨by simp, fun _ => hcovers.jump (n := seqNum.toNat) (by omega) (by omega)⟩
    · next hjump => exact ⟨by simp, fun _ => hcovers.advance (by omega) hlt⟩
  · rw [if_neg hgt]
    have hback : seqNum.toNat ≤ state.lastSeq.toNat := by
      rw [gt_iff_lt, UInt32.lt_iff_toNat_lt] at hgt
      omega
    have hdiff : (state.lastSeq - seqNum).toNat = state.lastSeq.toNat - seqNum.toNat :=
      UInt32.toNat_sub_of_le _ _ (UInt32.le_iff_toNat_le.2 hback)
    dsimp only
    rw [hdiff, aetherReplayWindowSize, if_pos (by omega)]
    exact ⟨by simp, fun _ => hcovers.mark hback (by omega)⟩

end Tracks

/-! ## Runs -/

namespace SecurityState

/-- A number of a source is presented to its window, and entered if it passes. -/
def present (s : SecurityState) (p : ℕ × UInt32) : SecurityState × Bool :=
  if p.1 < aetherSecurityMaxNodes ∧ s.replayStep p.1 p.2 = true then (s.acceptPacket p.1 p.2, true)
  else (s, false)

/-- The numbers of a source that a run has accepted, the last one first. -/
def accepted (s : SecurityState) (ps : List (ℕ × UInt32)) (src : ℕ) : List UInt32 :=
  (((calls present s ps).filter fun c => c.result && c.op.1 = src).map fun c => c.op.2).reverse

theorem accepted_concat (s : SecurityState) (ps : List (ℕ × UInt32)) (p : ℕ × UInt32)
    (src : ℕ) : s.accepted (ps ++ [p]) src =
      if (present (run present s ps) p).2 = true ∧ p.1 = src then p.2 :: s.accepted ps src
      else s.accepted ps src := by
  rw [accepted, accepted, calls_concat, List.filter_append, List.map_append, List.reverse_append]
  by_cases h : (present (run present s ps) p).2 = true ∧ p.1 = src
  · rw [if_pos h]
    simp [h.1, h.2]
  · rw [if_neg h]
    simp [h]

variable {s : SecurityState} {src : ℕ} {seqNum : UInt32}

theorem acceptPacket_flags : (s.acceptPacket src seqNum).flags = s.flags := by
  unfold acceptPacket
  split
  · rfl
  · split <;> rfl

theorem present_flags (p : ℕ × UInt32) : (s.present p).1.flags = s.flags := by
  unfold present
  split
  · exact acceptPacket_flags
  · rfl

/-- Where replays are looked for, a number passes if the window of its source lets it. -/
theorem present_eq_true (hflag : s.flags &&& secFlagEnforceReplay ≠ 0)
    (hsrc : src < aetherSecurityMaxNodes) :
    (s.present (src, seqNum)).2 = true ↔ (s.replay src).check seqNum = .ok := by
  unfold present replayStep
  rw [if_pos hflag]
  split
  · next h => exact iff_of_true rfl (by simpa using h.2)
  · next h => exact iff_of_false (by simp) fun hok => h ⟨hsrc, by simpa using hok⟩

/-- What every window knows after a run. -/
theorem run_tracks (hflag : s.flags &&& secFlagEnforceReplay ≠ 0)
    (hreset : ∀ src, s.replay src = .reset) (ps : List (ℕ × UInt32)) :
    (run present s ps).flags = s.flags ∧
      ∀ src, Tracks ((run present s ps).replay src) (s.accepted ps src) ∧
        (s.accepted ps src).Nodup := by
  induction ps using List.reverseRecOn with
  | nil =>
    refine ⟨rfl, fun src => ⟨?_, List.nodup_nil⟩⟩
    rw [run_nil, hreset]
    exact Tracks.reset
  | append_singleton ps p ih =>
    obtain ⟨hflags, htracks⟩ := ih
    rw [run_concat]
    refine ⟨(present_flags p).trans hflags, fun src => ?_⟩
    rw [accepted_concat]
    generalize run present s ps = t at hflags htracks
    by_cases hpass : (t.present p).2 = true
    · obtain ⟨q, n⟩ := p
      have hq : q < aetherSecurityMaxNodes := by
        by_contra hq
        simp [present, hq] at hpass
      have hflag' : t.flags &&& secFlagEnforceReplay ≠ 0 := by rwa [hflags]
      have hok := (present_eq_true hflag' hq).1 hpass
      have hnext : (t.present (q, n)).1.replay =
          Function.update t.replay q ((t.replay q).accept n) := by
        unfold present at hpass ⊢
        split at hpass
        · next h =>
          rw [if_pos h]
          simp only [acceptPacket, if_neg (Nat.not_le.2 hq), if_pos hflag']
        · cases hpass
      rw [hnext]
      by_cases hsrc : q = src
      · subst hsrc
        rw [if_pos ⟨hpass, rfl⟩, Function.update_self]
        obtain ⟨hwindow, hnodup⟩ := htracks q
        exact ⟨hwindow.accept hok, List.nodup_cons.2 ⟨(hwindow.check_eq_ok.1 hok).1, hnodup⟩⟩
      · rw [if_neg fun h => hsrc h.2, Function.update_of_ne fun h => hsrc h.symm]
        exact htracks src
    · have hsame : (t.present p).1 = t := by
        unfold present at hpass ⊢
        split at hpass
        · exact absurd rfl hpass
        · next h => rw [if_neg h]
      rw [if_neg fun h => hpass h.1, hsame]
      exact htracks src

/-- No number is accepted twice, and every other number of the window or above it passes. -/
theorem replay_window {flags : ℕ} (hflag : flags &&& secFlagEnforceReplay ≠ 0)
    (ps : List (ℕ × UInt32)) {src : ℕ} (hsrc : src < aetherSecurityMaxNodes) :
    let acc := (initFlags flags).accepted ps src
    let passes := fun seqNum => ((run present (initFlags flags) ps).present (src, seqNum)).2 = true
    acc.Nodup ∧ (∀ seqNum, (∀ a ∈ acc, a < seqNum) → passes seqNum) ∧
      ∀ seqNum top, top ∈ acc → (∀ a ∈ acc, a ≤ top) → seqNum ≤ top →
        top.toNat - seqNum.toNat < aetherReplayWindowSize → seqNum ∉ acc → passes seqNum := by
  intro acc passes
  obtain ⟨hflags, htracks⟩ := run_tracks (s := initFlags flags) hflag (fun _ => rfl) ps
  obtain ⟨hwindow, hnodup⟩ := htracks src
  have hpass : ∀ seqNum, passes seqNum ↔
      seqNum ∉ acc ∧ ∀ a ∈ acc, a.toNat < seqNum.toNat + 64 := fun seqNum =>
    (present_eq_true (by rwa [hflags]) hsrc).trans hwindow.check_eq_ok
  refine ⟨hnodup, fun seqNum hall => ?_, fun seqNum top htop hmax hle hlt hnot => ?_⟩
  · refine (hpass seqNum).2 ⟨fun hmem => UInt32.lt_irrefl _ (hall _ hmem), fun a ha => ?_⟩
    have := UInt32.lt_iff_toNat_lt.1 (hall a ha)
    omega
  · refine (hpass seqNum).2 ⟨hnot, fun a ha => ?_⟩
    have := UInt32.le_iff_toNat_le.1 (hmax a ha)
    have := UInt32.le_iff_toNat_le.1 hle
    rw [aetherReplayWindowSize] at hlt
    omega

theorem replay_window_strict :
    let acc := init.accepted [(3, 70), (3, 7), (3, 7), (3, 8)] 3
    let passes := fun seqNum =>
      ((run present init [(3, 70), (3, 7), (3, 7), (3, 8)]).present (3, seqNum)).2 = true
    acc.Nodup ∧ (∀ seqNum, (∀ a ∈ acc, a < seqNum) → passes seqNum) ∧
      ∀ seqNum top, top ∈ acc → (∀ a ∈ acc, a ≤ top) → seqNum ≤ top →
        top.toNat - seqNum.toNat < aetherReplayWindowSize → seqNum ∉ acc → passes seqNum :=
  replay_window (by decide) _ (by decide)

end SecurityState

end Seraph
