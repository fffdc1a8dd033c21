import Mathlib.Tactic.DeriveFintype
import Seraph.Tally
import Seraph.WhisperEndpoint

/-!
# Whisper lends

A lend is registered as ACTIVE when it is sent and ends when it expires, when it is revoked or
when the capability comes back in a RETURN message. Each of the five counters of an endpoint
is updated next to the record, and `Accounts` says that they agree with the registry, and that
no two records that are in use have one message id.

`Advances` is what happens to records in use : they stay in use under the same message id,
and one that has ended stays as it ended. With the accounts it follows that an ended lend
never becomes active again (`Accounts.never_again`).
-/

namespace Seraph

open Tally

namespace Endpoint

variable (e : Endpoint)

/-- The lend in a slot expires. -/
def expire (slot : Fin maxLends) : Endpoint :=
  { e.settle slot .expired with totalExpirations := u64 (e.totalExpirations + 1) }

/-- The lend in a slot is revoked. -/
def revoke (slot : Fin maxLends) : Endpoint :=
  { e.settle slot .revoked with totalRevocations := u64 (e.totalRevocations + 1) }

/-- The lend in a slot is returned. -/
def giveBack (slot : Fin maxLends) : Endpoint :=
  { e.settle slot .returned with totalReturns := u64 (e.totalReturns + 1) }

/-- The record in a slot is active and has expired. -/
def due (currentChronon : ℕ) (slot : Fin maxLends) : Bool :=
  (e.lendRegistry slot).status = .active ∧ 0 < (e.lendRegistry slot).expiryChronon ∧
    (e.lendRegistry slot).expiryChronon ≤ currentChronon

/-- A round of the loop of `seraph_whisper_process_lends`, with the lends expired so far. -/
def processLend (currentChronon : ℕ) (s : Endpoint × ℕ) (slot : Fin maxLends) : Endpoint × ℕ :=
  if s.1.due currentChronon slot then (s.1.expire slot, u32 (s.2 + 1)) else s

/-- `seraph_whisper_process_lends`. -/
def processLends (currentChronon : ℕ) : Endpoint × ℕ :=
  (List.finRange maxLends).foldl (processLend currentChronon) (e, 0)

/-- `seraph_whisper_revoke_lend`. -/
def revokeLend (lendMessageId : ℕ) : Endpoint × Vbit :=
  if lendMessageId = voidU64 then (e, .void)
  else
    match e.findById lendMessageId with
    | none => (e, .false)
    | some slot =>
      if (e.lendRegistry slot).status ≠ .active then (e, .false) else (e.revoke slot, .true)

/-- The record that a RETURN message is for : the one with the message id it carries, or else
an active one for the capability it carries. -/
def returnSlot (msg : Message) : Option (Fin maxLends) :=
  let byId :=
    if msg.reserved ≠ 0 ∧ msg.reserved ≠ voidU64 then e.findById msg.reserved else none
  match byId with
  | some slot => some slot
  | none =>
    if 0 < msg.capCount then
      (List.finRange maxLends).find? fun i =>
        (e.lendRegistry i).status = .active ∧
          (e.lendRegistry i).borrowedCap.base = (msg.caps 0).base
    else none

/-- `seraph_whisper_handle_return`. -/
def handleReturn (msg : Message) : Endpoint × Vbit :=
  if msg.type ≠ .ret then (e, .void)
  else
    match e.returnSlot msg with
    | none => (e, .false)
    | some slot =>
      if (e.lendRegistry slot).status ≠ .active then (e, .false) else (e.giveBack slot, .true)

/-- Note who borrowed in the record of a LEND message. -/
def setBorrower (messageId borrowerEndpointId : ℕ) : Endpoint :=
  match e.findById messageId with
  | none => e
  | some slot =>
    { e with
      lendRegistry := Function.update e.lendRegistry slot
        { e.lendRegistry slot with borrowerEndpointId := borrowerEndpointId } }

end Endpoint

namespace Local

variable (l : Local)

/-- A round of the loop of `seraph_whisper_process_lends_tracked`, with the lends expired so
far and the VOID ids given out, at most `maxVoidIds`. -/
def processLendTracked (currentChronon maxVoidIds : ℕ) (s : Local × ℕ × List ℕ)
    (slot : Fin maxLends) : Local × ℕ × List ℕ :=
  if s.1.ep.due currentChronon slot then
    ({ s.1.recorded with ep := s.1.ep.expire slot }, u32 (s.2.1 + 1),
      if s.2.2.length < maxVoidIds then s.2.2 ++ [s.1.ids.recordVoid.1] else s.2.2)
  else s

/-- `seraph_whisper_process_lends_tracked`; no array is `maxVoidIds = 0`. -/
def processLendsTracked (currentChronon maxVoidIds : ℕ) : Local × ℕ × List ℕ :=
  (List.finRange maxLends).foldl (processLendTracked currentChronon maxVoidIds) (l, 0, [])

/-- `seraph_whisper_revoke_lend_tracked`, with the VOID id it gives out : it revokes as
`seraph_whisper_revoke_lend` does, and each of its branches records a VOID. -/
def revokeLendTracked (lendMessageId : ℕ) : Local × Vbit × ℕ :=
  ({ l.recorded with ep := (l.ep.revokeLend lendMessageId).1 },
    (l.ep.revokeLend lendMessageId).2, l.ids.recordVoid.1)

end Local

/-! ## The accounts -/

namespace Endpoint

/-- The counter for the records of a status. -/
def counter (e : Endpoint) : LendStatus → ℕ
  | .void => 0
  | .active => e.activeLendCount
  | .returned => e.totalReturns
  | .expired => e.totalExpirations
  | .revoked => e.totalRevocations

/-- Number of records of a status. -/
def lendsWith (e : Endpoint) (status : LendStatus) : ℕ :=
  tally (fun i => (e.lendRegistry i).status) status

/-- A record is in use. -/
def InUse (e : Endpoint) (slot : Fin maxLends) : Prop :=
  (e.lendRegistry slot).status ≠ .void

/-- The counters agree with the registry, and message ids with slots. -/
structure Accounts (e : Endpoint) : Prop where
  counter : ∀ status, status ≠ .void → e.counter status = e.lendsWith status
  totalLends : e.totalLends =
    e.activeLendCount + e.totalReturns + e.totalExpirations + e.totalRevocations
  unique : ∀ i j, e.InUse i → e.InUse j →
    (e.lendRegistry i).lendMessageId = (e.lendRegistry j).lendMessageId → i = j

/-- Records in use stay in use, and lends that have ended stay as they are. -/
def Evolves (e e' : Endpoint) : Prop :=
  ∀ i, e.InUse i → e'.InUse i ∧
    (e'.lendRegistry i).lendMessageId = (e.lendRegistry i).lendMessageId ∧
    ((e.lendRegistry i).status ≠ .active →
      (e'.lendRegistry i).status = (e.lendRegistry i).status)

/-- The accounts are right, and records in use have evolved from those of `e`. -/
structure Settled (e e' : Endpoint) : Prop where
  accounts : e'.Accounts
  evolves : Evolves e e'

/-- The same statuses, message ids and counters. -/
structure SameLends (e e' : Endpoint) : Prop where
  status : ∀ i, (e'.lendRegistry i).status = (e.lendRegistry i).status
  lendMessageId : ∀ i, (e'.lendRegistry i).lendMessageId = (e.lendRegistry i).lendMessageId
  counter : ∀ status, e'.counter status = e.counter status
  totalLends : e'.totalLends = e.totalLends

namespace Evolves

variable {e e' e'' : Endpoint}

theorem refl (e : Endpoint) : Evolves e e :=
  fun _ hi => ⟨hi, rfl, fun _ => rfl⟩

theorem trans (h : Evolves e e') (h' : Evolves e' e'') : Evolves e e'' := by
  intro i hi
  obtain ⟨huse, hid, hstay⟩ := h i hi
  obtain ⟨huse', hid', hstay'⟩ := h' i huse
  refine ⟨huse', hid'.trans hid, fun hne => ?_⟩
  have hsame := hstay hne
  exact (hstay' (by rwa [hsame])).trans hsame

end Evolves

theorem Accounts.refl {e : Endpoint} (h : e.Accounts) : Settled e e :=
  ⟨h, Evolves.refl e⟩

theorem Settled.trans {e e' e'' : Endpoint} (h : Settled e e') (h' : Settled e' e'') :
    Settled e e'' :=
  ⟨h'.accounts, h.evolves.trans h'.evolves⟩

namespace SameLends

variable {e e' : Endpoint}

theorem refl (e : Endpoint) : SameLends e e :=
  ⟨fun _ => rfl, fun _ => rfl, fun _ => rfl, rfl⟩

theorem inUse (h : SameLends e e') {i : Fin maxLends} : e'.InUse i ↔ e.InUse i := by
  rw [InUse, InUse, h.status]

theorem evolves (h : SameLends e e') : Evolves e e' :=
  fun i hi => ⟨h.inUse.2 hi, h.lendMessageId i, fun _ => h.status i⟩

theorem accounts (h : SameLends e e') (he : Accounts e) : Accounts e' where
  counter := fun status hne => by
    rw [h.counter, he.counter status hne, lendsWith, lendsWith]
    exact congrArg₂ tally (funext fun i => (h.status i).symm) rfl
  totalLends := by
    have hactive := h.counter .active
    have hreturned := h.counter .returned
    have hexpired := h.counter .expired
    have hrevoked := h.counter .revoked
    simp only [Endpoint.counter] at hactive hreturned hexpired hrevoked
    rw [h.totalLends, hactive, hreturned, hexpired, hrevoked, he.totalLends]
  unique := fun i j hi hj hid => by
    rw [h.lendMessageId, h.lendMessageId] at hid
    exact he.unique i j (h.inUse.1 hi) (h.inUse.1 hj) hid

theorem settled (h : SameLends e e') (he : Accounts e) : Settled e e' :=
  ⟨h.accounts he, h.evolves⟩

end SameLends

/-- A new endpoint has no lends. -/
theorem accounts_init (ids : Ids) : (init ids).1.Accounts where
  counter := fun status hne => by
    have hcounter : (init ids).1.counter status = 0 := by cases status <;> rfl
    rw [hcounter, lendsWith]
    exact (tally_eq_zero fun _ => hne.symm).symm
  totalLends := rfl
  unique := fun _ _ hi => absurd rfl hi

/-! ## Registering and ending a lend -/

section Records

variable {e : Endpoint}

theorem findById_eq_none {messageId : ℕ} (h : e.findById messageId = none) {i : Fin maxLends}
    (hi : e.InUse i) : (e.lendRegistry i).lendMessageId ≠ messageId := by
  intro hid
  have hall := List.find?_eq_none.1 h i (List.mem_finRange i)
  exact hall (decide_eq_true ⟨hid, hi⟩)

theorem status_of_findEmpty {slot : Fin maxLends} (h : e.findEmpty = some slot) :
    (e.lendRegistry slot).status = .void := by
  simpa using List.find?_some h

/-- The statuses after a record is overwritten. -/
theorem status_update (slot : Fin maxLends) (record : LendRecord) :
    (fun i => (Function.update e.lendRegistry slot record i).status) =
      Function.update (fun i => (e.lendRegistry i).status) slot record.status := by
  funext i
  rcases eq_or_ne i slot with rfl | hi
  · simp only [Function.update_self]
  · simp only [Function.update_of_ne hi]

theorem lendsWith_le (e : Endpoint) (status : LendStatus) : e.lendsWith status ≤ 64 :=
  tally_le _ _

namespace Accounts

variable (h : e.Accounts)

include h

theorem counter_le {status : LendStatus} (hne : status ≠ .void) : e.counter status ≤ 64 :=
  (h.counter status hne).trans_le (e.lendsWith_le status)

/-- No counter wraps. -/
theorem counters_le : e.activeLendCount ≤ 64 ∧ e.totalLends ≤ 256 := by
  have hactive : e.activeLendCount ≤ 64 := h.counter_le (by decide : LendStatus.active ≠ .void)
  have hreturned : e.totalReturns ≤ 64 := h.counter_le (by decide : LendStatus.returned ≠ .void)
  have hexpired : e.totalExpirations ≤ 64 :=
    h.counter_le (by decide : LendStatus.expired ≠ .void)
  have hrevoked : e.totalRevocations ≤ 64 :=
    h.counter_le (by decide : LendStatus.revoked ≠ .void)
  have hlends := h.totalLends
  omega

omit h in
/-- An ended lend is not active in a later state. -/
theorem never_again {e' : Endpoint} (hlater : Evolves e e') (h' : e'.Accounts)
    {i j : Fin maxLends} (hi : e.InUse i) (hended : (e.lendRegistry i).status ≠ .active)
    (hid : (e'.lendRegistry j).lendMessageId = (e.lendRegistry i).lendMessageId) :
    (e'.lendRegistry j).status ≠ .active := by
  intro hactive
  obtain ⟨huse, hid', hstay⟩ := hlater i hi
  have hj : e'.InUse j := by simp [InUse, hactive]
  obtain rfl := h'.unique j i hj huse (hid.trans hid'.symm)
  exact hended ((hstay hended).symm.trans hactive)

/-- A lend is registered under a message id that no record in use has. -/
theorem create {slot : Fin maxLends} (hslot : (e.lendRegistry slot).status = .void)
    {record : LendRecord} (hrecord : record.status = .active)
    (hfresh : ∀ i, e.InUse i → (e.lendRegistry i).lendMessageId ≠ record.lendMessageId)
    {e' : Endpoint} (hregistry : e'.lendRegistry = Function.update e.lendRegistry slot record)
    (hlends : e'.totalLends = u64 (e.totalLends + 1))
    (hactive : e'.activeLendCount = u32 (e.activeLendCount + 1))
    (hother : ∀ s, s ≠ .active → e'.counter s = e.counter s) :
    Settled e e' := by
  have hself : e'.lendRegistry slot = record := by rw [hregistry, Function.update_self]
  have hne : ∀ i, i ≠ slot → e'.lendRegistry i = e.lendRegistry i := by
    intro i hi
    rw [hregistry, Function.update_of_ne hi]
  have huse : ∀ i, i ≠ slot → e'.InUse i → e.InUse i := by
    intro i hi h
    rwa [InUse, hne i hi] at h
  have htally : ∀ s, e'.lendsWith s =
      tally (Function.update (fun i => (e.lendRegistry i).status) slot .active) s := by
    intro s
    rw [lendsWith, hregistry, status_update, hrecord]
  obtain ⟨hle, hlends_le⟩ := h.counters_le
  have hcount : e'.activeLendCount = e.activeLendCount + 1 :=
    hactive.trans (u32_of_lt (by omega))
  refine ⟨⟨fun s hs => ?_, ?_, fun i j hi hj hij => ?_⟩, fun i hi => ?_⟩
  · rw [htally]
    rcases eq_or_ne s .active with rfl | hs'
    · rw [tally_update_self (by simp [hslot])]
      exact hcount.trans (congrArg (· + 1) (h.counter .active hs))
    · rw [tally_update_of_ne (by simpa [hslot] using hs.symm) hs'.symm, hother s hs']
      exact h.counter s hs
  · have hreturned := hother .returned (by decide)
    have hexpired := hother .expired (by decide)
    have hrevoked := hother .revoked (by decide)
    simp only [Endpoint.counter] at hreturned hexpired hrevoked
    rw [hlends, hcount, hreturned, hexpired, hrevoked, u64_of_lt (by omega), h.totalLends]
    omega
  · by_cases hi' : i = slot <;> by_cases hj' : j = slot
    · exact hi'.trans hj'.symm
    · rw [hi', hself, hne j hj'] at hij
      exact absurd hij.symm (hfresh j (huse j hj' hj))
    · rw [hj', hself, hne i hi'] at hij
      exact absurd hij (hfresh i (huse i hi' hi))
    · rw [hne i hi', hne j hj'] at hij
      exact h.unique i j (huse i hi' hi) (huse j hj' hj) hij
  · have hi' : i ≠ slot := by
      rintro rfl
      exact hi hslot
    rw [InUse, hne i hi']
    exact ⟨hi, rfl, fun _ => rfl⟩

/-- An active lend ends with a status, and the counter of that status goes up. -/
theorem settle {slot : Fin maxLends} (hslot : (e.lendRegistry slot).status = .active)
    {status : LendStatus} (hvoid : status ≠ .void) (hne : status ≠ .active) {e' : Endpoint}
    (hregistry : e'.lendRegistry = (e.settle slot status).lendRegistry)
    (hlends : e'.totalLends = e.totalLends)
    (hactive : e'.activeLendCount = u32 (e.activeLendCount + 2 ^ 32 - 1))
    (hup : e'.counter status = u64 (e.counter status + 1))
    (hother : ∀ s, s ≠ .active → s ≠ status → e'.counter s = e.counter s) :
    Settled e e' := by
  have hstatus : (fun i => (e'.lendRegistry i).status) =
      Function.update (fun i => (e.lendRegistry i).status) slot status := by
    rw [hregistry]
    exact status_update slot _
  have hsame : ∀ i, i ≠ slot → (e'.lendRegistry i).status = (e.lendRegistry i).status := by
    intro i hi
    exact (congrFun hstatus i).trans (Function.update_of_ne hi _ _)
  have hself : (e'.lendRegistry slot).status = status :=
    (congrFun hstatus slot).trans (Function.update_self _ _ _)
  have hid : ∀ i, (e'.lendRegistry i).lendMessageId = (e.lendRegistry i).lendMessageId := by
    intro i
    rw [hregistry, Endpoint.settle]
    rcases eq_or_ne i slot with rfl | hi
    · simp only [Function.update_self]
    · simp only [Function.update_of_ne hi]
  have huse : ∀ i, e'.InUse i ↔ e.InUse i := by
    intro i
    rcases eq_or_ne i slot with rfl | hi
    · rw [InUse, InUse, hself, hslot]
      exact iff_of_true hvoid (by decide)
    · rw [InUse, InUse, hsame i hi]
  have hold : tally (Function.update (fun i => (e.lendRegistry i).status) slot status) .active +
      1 = e.lendsWith .active := by
    have := tally_update_old (f := fun i => (e.lendRegistry i).status) (i := slot) (b := status)
      (by simpa [hslot] using hne.symm)
    rwa [hslot] at this
  have hwas : e.activeLendCount = e.lendsWith .active := h.counter .active (by decide)
  have hle := h.counters_le.1
  have hcount : e'.activeLendCount + 1 = e.activeLendCount := by
    rw [hactive, u32]
    omega
  have hmore : e'.counter status = e.counter status + 1 := by
    have := h.counter_le hvoid
    exact hup.trans (u64_of_lt (by omega))
  refine ⟨⟨fun s hs => ?_, ?_, fun i j hi hj hij => ?_⟩, fun i hi => ?_⟩
  · rw [lendsWith, hstatus]
    rcases eq_or_ne s .active with rfl | hs'
    · exact Nat.add_right_cancel (hcount.trans (hwas.trans hold.symm))
    · rcases eq_or_ne s status with rfl | hs''
      · rw [tally_update_self (by simpa [hslot] using hs'.symm), hmore]
        exact congrArg (· + 1) (h.counter s hs)
      · rw [tally_update_of_ne (by simpa [hslot] using hs'.symm) hs''.symm, hother s hs' hs'']
        exact h.counter s hs
  · have hsum := h.totalLends
    have hreturned := hother .returned (by decide)
    have hexpired := hother .expired (by decide)
    have hrevoked := hother .revoked (by decide)
    rw [hlends]
    cases status <;> simp only [Endpoint.counter] at hmore hreturned hexpired hrevoked
    case void => exact absurd rfl hvoid
    case active => exact absurd rfl hne
    all_goals
      simp at hreturned hexpired hrevoked
      omega
  · rw [hid, hid] at hij
    exact h.unique i j ((huse i).1 hi) ((huse j).1 hj) hij
  · refine ⟨(huse i).2 hi, hid i, fun hended => hsame i ?_⟩
    rintro rfl
    exact hended hslot

end Accounts

end Records

/-! ## What the operations do to the accounts -/

section Operations

variable {e : Endpoint} (h : e.Accounts)

include h

theorem settled_expire {slot : Fin maxLends} (hslot : (e.lendRegistry slot).status = .active) :
    Settled e (e.expire slot) := by
  refine h.settle hslot (by decide : LendStatus.expired ≠ .void) (by decide) rfl rfl rfl rfl ?_
  rintro (_ | _ | _ | _ | _) hactive hne <;> first | contradiction | rfl

theorem settled_revoke {slot : Fin maxLends} (hslot : (e.lendRegistry slot).status = .active) :
    Settled e (e.revoke slot) := by
  refine h.settle hslot (by decide : LendStatus.revoked ≠ .void) (by decide) rfl rfl rfl rfl ?_
  rintro (_ | _ | _ | _ | _) hactive hne <;> first | contradiction | rfl

theorem settled_giveBack {slot : Fin maxLends}
    (hslot : (e.lendRegistry slot).status = .active) : Settled e (e.giveBack slot) := by
  refine h.settle hslot (by decide : LendStatus.returned ≠ .void) (by decide) rfl rfl rfl rfl ?_
  rintro (_ | _ | _ | _ | _) hactive hne <;> first | contradiction | rfl

theorem settled_revokeLend (lendMessageId : ℕ) : Settled e (e.revokeLend lendMessageId).1 := by
  unfold revokeLend
  split
  · exact h.refl
  cases e.findById lendMessageId with
  | none => exact h.refl
  | some slot =>
    dsimp only
    split
    · exact h.refl
    · next hslot => exact settled_revoke h (not_not.1 hslot)

theorem settled_handleReturn (msg : Message) : Settled e (e.handleReturn msg).1 := by
  unfold handleReturn
  split
  · exact h.refl
  cases e.returnSlot msg with
  | none => exact h.refl
  | some slot =>
    dsimp only
    split
    · exact h.refl
    · next hslot => exact settled_giveBack h (not_not.1 hslot)

omit h in
/-- A loop over the registry whose rounds keep the accounts. -/
theorem settled_foldl {S : Type*} {f : S → Endpoint} {g : S → Fin maxLends → S}
    (hround : ∀ s i, (f s).Accounts → Settled (f s) (f (g s i))) (slots : List (Fin maxLends))
    {s : S} (hs : (f s).Accounts) : Settled (f s) (f (slots.foldl g s)) := by
  induction slots generalizing s with
  | nil => exact hs.refl
  | cons i slots ih => exact (hround s i hs).trans (ih (hround s i hs).accounts)

omit h in
theorem due_active {currentChronon : ℕ} {slot : Fin maxLends}
    (hdue : e.due currentChronon slot = true) : (e.lendRegistry slot).status = .active :=
  (of_decide_eq_true hdue).1

theorem settled_processLends (currentChronon : ℕ) :
    Settled e (e.processLends currentChronon).1 := by
  refine settled_foldl (f := Prod.fst) (s := (e, 0)) (fun s i hs => ?_) _ h
  unfold processLend
  split
  · next hdue => exact settled_expire hs (due_active hdue)
  · exact hs.refl

omit h in
/-- Noting the borrower changes nothing that is counted. -/
theorem sameLends_setBorrower (messageId borrower : ℕ) :
    SameLends e (e.setBorrower messageId borrower) := by
  unfold setBorrower
  cases e.findById messageId with
  | none => exact SameLends.refl e
  | some slot =>
    refine ⟨fun i => ?_, fun i => ?_, fun s => ?_, rfl⟩
    · rcases eq_or_ne i slot with rfl | hi
      · simp only [Function.update_self]
      · simp only [Function.update_of_ne hi]
    · rcases eq_or_ne i slot with rfl | hi
      · simp only [Function.update_self]
      · simp only [Function.update_of_ne hi]
    · cases s <;> rfl

end Operations

end Endpoint

namespace Local

variable {l : Local}

theorem settled_processLendsTracked (h : l.ep.Accounts) (currentChronon maxVoidIds : ℕ) :
    l.ep.Settled (l.processLendsTracked currentChronon maxVoidIds).1.ep := by
  have hround : ∀ (s : Local × ℕ × List ℕ) i, s.1.ep.Accounts →
      s.1.ep.Settled (processLendTracked currentChronon maxVoidIds s i).1.ep := by
    intro s i hs
    unfold processLendTracked
    split
    · next hdue => exact Endpoint.settled_expire hs (Endpoint.due_active hdue)
    · exact hs.refl
  exact Endpoint.settled_foldl (f := fun s => s.1.ep) hround _ (s := (l, 0, [])) h

/-- Sending changes nothing that is counted. -/
theorem sameLends_post (l : Local) (stamped : Message × Ids) :
    l.ep.SameLends (l.post stamped).1.ep := by
  unfold post
  split
  · exact Endpoint.SameLends.refl l.ep
  split <;> exact ⟨fun _ => rfl, fun _ => rfl, fun s => by cases s <;> rfl, rfl⟩

/-- A send succeeds where the endpoint is valid and its queue is not full. -/
theorem post_eq_true (stamped : Message × Ids) :
    (l.post stamped).2 = .true ↔ l.ep.isValid = true ∧ l.ep.sendQueueFull = false := by
  unfold post
  cases l.ep.isValid <;> cases l.ep.sendQueueFull <;> simp

/-- A lend can be sent if it can be registered, and its message id is not in use. -/
def LendFits (l : Local) : Prop :=
  l.ep.isValid = true → l.ep.findEmpty ≠ none →
    l.ep.sendQueueFull = false ∧ l.ep.findById l.ids.generateMessageId.1 = none

/-- Registering a lend and sending its message. -/
theorem settled_lendVia (h : l.ep.Accounts) (cap : Capability) (timeout : ℕ)
    {message : Message} {full : Local → Local} {send : Local → Message → Local × Vbit}
    (hfull : ∀ l, (full l).ep = l.ep)
    (hsend : ∀ l m, l.ep.SameLends (send l m).1.ep ∧
      (l.ep.isValid = true → l.ep.sendQueueFull = false → (send l m).2 = .true))
    (hvalid : l.ep.isValid = true)
    (hfits : l.ep.findEmpty ≠ none → l.ep.sendQueueFull = false ∧
      l.ep.findById message.messageId = none) :
    l.ep.Settled (l.lendVia cap timeout message full send).1.ep := by
  unfold lendVia
  dsimp only
  cases hslot : l.ep.findEmpty with
  | none =>
    simp only [Endpoint.lendRegistryCreate, hslot]
    rw [if_neg (by decide), hfull]
    exact h.refl
  | some slot =>
    obtain ⟨hroom, hfresh⟩ := hfits (by simp [hslot])
    have hcreated : l.ep.Settled
        (l.ep.lendRegistryCreate cap cap message.messageId 0 timeout 0).1 := by
      simp only [Endpoint.lendRegistryCreate, hslot]
      refine h.create (Endpoint.status_of_findEmpty hslot) rfl
        (fun i hi => Endpoint.findById_eq_none hfresh hi) rfl rfl rfl ?_
      rintro (_ | _ | _ | _ | _) hactive <;> first | contradiction | rfl
    have hregistered : (l.ep.lendRegistryCreate cap cap message.messageId 0 timeout 0).2 =
        .true := by
      simp only [Endpoint.lendRegistryCreate, hslot]
    have hsame : (l.ep.lendRegistryCreate cap cap message.messageId 0 timeout 0).1.isValid =
        l.ep.isValid ∧
        (l.ep.lendRegistryCreate cap cap message.messageId 0 timeout 0).1.sendQueueFull =
          l.ep.sendQueueFull := by
      simp only [Endpoint.lendRegistryCreate, hslot]
      exact ⟨rfl, rfl⟩
    obtain ⟨hlends, hsent⟩ := hsend
      { l with ep := (l.ep.lendRegistryCreate cap cap message.messageId 0 timeout 0).1 } message
    rw [if_pos hregistered, if_pos (hsent (hsame.1.trans hvalid) (hsame.2.trans hroom))]
    exact hcreated.trans (hlends.settled hcreated.accounts)

theorem lendMessage_messageId (ids : Ids) (cap : Capability) (timeout : ℕ) :
    (lendMessage ids cap timeout).messageId = ids.generateMessageId.1 :=
  Message.addCap_messageId _ cap

theorem settled_lend (h : l.ep.Accounts) (hfits : l.LendFits) (cap : Capability)
    (timeout : ℕ) : l.ep.Settled (l.lend cap timeout).1.ep := by
  unfold lend
  cases hvalid : l.ep.isValid with
  | false => exact h.refl
  | true =>
    rw [if_neg (by decide)]
    refine settled_lendVia (l := l.drawn) h cap timeout (fun _ => rfl)
      (fun l m => ⟨sameLends_post l _, fun hv hf => (post_eq_true _).2 ⟨hv, hf⟩⟩) hvalid ?_
    rw [lendMessage_messageId]
    exact hfits hvalid

theorem settled_lendTracked (h : l.ep.Accounts) (hfits : l.LendFits) (cap : Capability)
    (timeout predecessorVoidId : ℕ) :
    l.ep.Settled (l.lendTracked cap timeout predecessorVoidId).1.ep := by
  unfold lendTracked
  cases hvalid : l.ep.isValid with
  | false => exact h.refl
  | true =>
    rw [if_neg (by decide)]
    dsimp only
    generalize hnoted : (if cap.isVoid then l.recorded else l) = l'
    have hep : l'.ep = l.ep := by
      rw [← hnoted]
      split <;> rfl
    have hids : l'.ids.generateMessageId.1 = l.ids.generateMessageId.1 := by
      rw [← hnoted, Ids.generateMessageId, Ids.generateMessageId]
      split
      · rw [recorded, Ids.recordVoid_message]
      · rfl
    rw [← hep] at h hvalid ⊢
    refine settled_lendVia (l := l'.drawn) h cap timeout recorded_ep
      (fun l m => ⟨sameLends_post l _, fun hv hf => (post_eq_true _).2 ⟨hv, hf⟩⟩) hvalid ?_
    rw [lendMessage_messageId, hids, drawn, hep]
    rw [hep] at hvalid
    exact hfits hvalid

end Local

/-! ## Which lend a RETURN message ends -/

namespace Endpoint

variable {e : Endpoint}

/-- A lend that is found by its message id. -/
theorem findById_eq_some {messageId : ℕ} {slot : Fin maxLends}
    (h : e.findById messageId = some slot) :
    (e.lendRegistry slot).lendMessageId = messageId ∧ e.InUse slot := by
  simpa [InUse] using List.find?_some h

/-- A record that a RETURN message is for has the message id that it carries, if it carries one of a
record in use, and if it carries none lends out the base address that it returns. -/
theorem returnSlot_eq_some {msg : Message} {slot : Fin maxLends} (h : e.returnSlot msg = some slot) :
    (msg.reserved ≠ 0 → msg.reserved ≠ voidU64 →
      (∃ i, e.InUse i ∧ (e.lendRegistry i).lendMessageId = msg.reserved) →
      (e.lendRegistry slot).lendMessageId = msg.reserved) ∧
    (msg.reserved = 0 ∨ msg.reserved = voidU64 → 0 < msg.capCount ∧
      (e.lendRegistry slot).borrowedCap.base = (msg.caps 0).base) := by
  unfold returnSlot at h
  dsimp only at h
  by_cases hid : msg.reserved ≠ 0 ∧ msg.reserved ≠ voidU64
  · refine ⟨fun _ _ ⟨i, huse, heq⟩ => ?_, fun hnone => ?_⟩
    · rw [if_pos hid] at h
      cases hfind : e.findById msg.reserved with
      | none => exact absurd heq (findById_eq_none hfind huse)
      | some found =>
        rw [hfind] at h
        cases h
        exact (findById_eq_some hfind).1
    · exact absurd hnone (not_or.2 hid)
  · refine ⟨fun hzero hvoid => absurd ⟨hzero, hvoid⟩ hid, fun _ => ?_⟩
    rw [if_neg hid] at h
    dsimp only at h
    split at h
    · next hcaps =>
      have hfound := List.find?_some h
      exact ⟨hcaps, (of_decide_eq_true hfound).2⟩
    · cases h

/-- A RETURN message changes nothing, or it ends one lend that was active. -/
theorem handleReturn_ends_one (e : Endpoint) (msg : Message) :
    (∃ v, v ≠ Vbit.true ∧ e.handleReturn msg = (e, v)) ∨
    ∃ slot, (e.lendRegistry slot).status = .active ∧
      e.handleReturn msg = ({ e with
        lendRegistry := Function.update e.lendRegistry slot
          { e.lendRegistry slot with status := .returned }
        activeLendCount := u32 (e.activeLendCount + 2 ^ 32 - 1)
        totalReturns := u64 (e.totalReturns + 1) }, .true) ∧
      (msg.reserved ≠ 0 → msg.reserved ≠ voidU64 →
        (∃ i, e.InUse i ∧ (e.lendRegistry i).lendMessageId = msg.reserved) →
        (e.lendRegistry slot).lendMessageId = msg.reserved) ∧
      (msg.reserved = 0 ∨ msg.reserved = voidU64 → 0 < msg.capCount ∧
        (e.lendRegistry slot).borrowedCap.base = (msg.caps 0).base) := by
  unfold handleReturn
  by_cases htype : msg.type ≠ .ret
  · rw [if_pos htype]
    exact .inl ⟨.void, by decide, rfl⟩
  rw [if_neg htype]
  cases hslot : e.returnSlot msg with
  | none => exact .inl ⟨.false, by decide, rfl⟩
  | some slot =>
    dsimp only
    by_cases hactive : (e.lendRegistry slot).status = .active
    · rw [if_neg (not_not.2 hactive)]
      exact .inr ⟨slot, hactive, rfl, returnSlot_eq_some hslot⟩
    · rw [if_pos hactive]
      exact .inl ⟨.false, by decide, rfl⟩

/-- An endpoint that has lent 16 bytes at an address out, with message id 5. -/
def lentOnce : Endpoint :=
  ((Endpoint.init Ids.first).1.lendRegistryCreate { Capability.zero with base := 4096, length := 16 }
    { Capability.zero with base := 4096, length := 16 } 5 0 0 0).1

/-- A RETURN with the id of another lend ends this one, and so does one of another capability at the
same address. -/
theorem handleReturn_other :
    ((lentOnce.handleReturn (returnMessage Ids.first
        { Capability.zero with base := 4096, length := 16 } 9)).1.lendRegistry 0).status = .returned ∧
      (lentOnce.lendRegistry 0).lendMessageId ≠ 9 ∧
    ((lentOnce.handleReturn (returnMessage Ids.first
        { Capability.zero with base := 4096, length := 8 } 0)).1.lendRegistry 0).status = .returned ∧
      (lentOnce.lendRegistry 0).borrowedCap ≠ { Capability.zero with base := 4096, length := 8 } := by
  decide

end Endpoint

end Seraph
