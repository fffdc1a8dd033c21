import Seraph.CapabilityAttenuation
import Seraph.CapabilityTable

/-!
# Sealed capabilities

`SealState` follows the capabilities that are made from one capability : those its holder has
(`held`), and the entries of the descriptor table that store one (`marked`). Others use the
table as well. A capability is `Refused` if no read, write or copy gets through it, which is
the case where it is sealed or has neither of the permissions READ and WRITE
(`refused_iff`). `derive` returns an unsealed capability also from a sealed one, so what is
made from a sealed capability without unsealing stays refused exactly where every derivation
that succeeds asks for neither READ nor WRITE (`sealed_iff`).
-/

namespace Seraph

open Runs ByteMem

namespace Capability

variable {cap : Capability}

/-- No access through the capability succeeds, and none changes the memory. -/
structure Refused (cap : Capability) : Prop where
  readU8 : ∀ (m : Memory) offset, cap.readU8 m offset = voidU8
  readU16 : ∀ (m : Memory) offset, cap.readU16 m offset = voidU16
  readU32 : ∀ (m : Memory) offset, cap.readU32 m offset = voidU32
  readU64 : ∀ (m : Memory) offset, cap.readU64 m offset = voidU64
  writeU8 : ∀ (m : Memory) offset value, (cap.writeU8 m offset value).1 = m ∧
    (cap.writeU8 m offset value).2 ≠ .true
  writeU16 : ∀ (m : Memory) offset value, (cap.writeU16 m offset value).1 = m ∧
    (cap.writeU16 m offset value).2 ≠ .true
  writeU32 : ∀ (m : Memory) offset value, (cap.writeU32 m offset value).1 = m ∧
    (cap.writeU32 m offset value).2 ≠ .true
  writeU64 : ∀ (m : Memory) offset value, (cap.writeU64 m offset value).1 = m ∧
    (cap.writeU64 m offset value).2 ≠ .true
  copyTo : ∀ (m : Memory) dstOffset src srcOffset length,
    (copy m cap dstOffset src srcOffset length).1 = m ∧
      (copy m cap dstOffset src srcOffset length).2 ≠ .true
  copyFrom : ∀ (m : Memory) dst dstOffset srcOffset length,
    (copy m dst dstOffset cap srcOffset length).1 = m ∧
      (copy m dst dstOffset cap srcOffset length).2 ≠ .true

/-- The capability is sealed, or may neither be read nor written through. -/
def Unusable (cap : Capability) : Prop :=
  cap.isSealed = true ∨ cap.canRead = false ∧ cap.canWrite = false

theorem unusable_of_isVoid (h : cap.isVoid = true) : cap.Unusable :=
  .inr ⟨by simp [canRead, hasPerm, h], by simp [canWrite, hasPerm, h]⟩

theorem Unusable.readWord (h : cap.Unusable) (m : Memory) (offset width void : ℕ) :
    cap.readWord m offset width void = void := by
  unfold Capability.readWord
  rcases h with hsealed | ⟨hread, -⟩
  · simp [hsealed]
  · simp [hread]

theorem Unusable.writeWord (h : cap.Unusable) (m : Memory) (offset width void value : ℕ) :
    (cap.writeWord m offset width void value).1 = m ∧
      (cap.writeWord m offset width void value).2 ≠ .true := by
  unfold Capability.writeWord
  split
  · exact ⟨rfl, by simp⟩
  split
  · exact ⟨rfl, by simp⟩
  split
  · exact ⟨rfl, by simp⟩
  split
  · exact ⟨rfl, by simp⟩
  · next hwrite _ hsealed =>
    rcases h with h | ⟨-, h⟩
    · exact (hsealed h).elim
    · exact (hwrite (by simp [h])).elim

theorem Unusable.readU8 (h : cap.Unusable) (m : Memory) (offset : ℕ) :
    cap.readU8 m offset = voidU8 := by
  unfold Capability.readU8
  rcases h with hsealed | ⟨hread, -⟩
  · simp [hsealed]
  · simp [hread]

theorem Unusable.writeU8 (h : cap.Unusable) (m : Memory) (offset value : ℕ) :
    (cap.writeU8 m offset value).1 = m ∧ (cap.writeU8 m offset value).2 ≠ .true := by
  unfold Capability.writeU8
  split
  · exact ⟨rfl, by simp⟩
  split
  · exact ⟨rfl, by simp⟩
  split
  · exact ⟨rfl, by simp⟩
  split
  · exact ⟨rfl, by simp⟩
  · next hwrite _ hsealed =>
    rcases h with h | ⟨-, h⟩
    · exact (hsealed h).elim
    · exact (hwrite (by simp [h])).elim

/-- A copy needs a destination and a source that are usable. -/
theorem copy_refused {dst src : Capability} (h : dst.Unusable ∨ src.Unusable) (m : Memory)
    (dstOffset srcOffset length : ℕ) :
    (copy m dst dstOffset src srcOffset length).1 = m ∧
      (copy m dst dstOffset src srcOffset length).2 ≠ .true := by
  unfold copy
  split
  · exact ⟨rfl, by simp⟩
  split
  · exact ⟨rfl, by simp⟩
  split
  · exact ⟨rfl, by simp⟩
  split
  · exact ⟨rfl, by simp⟩
  split
  · exact ⟨rfl, by simp⟩
  split
  · exact ⟨rfl, by simp⟩
  · next hwrite hread _ _ hsealed =>
    refine (hsealed ?_).elim
    rw [Bool.or_eq_true]
    rcases h with (h | ⟨-, h⟩) | (h | ⟨h, -⟩)
    · exact .inl h
    · exact (hwrite (by simp [h])).elim
    · exact .inr h
    · exact (hread (by simp [h])).elim

/-- An unsealed capability with a permission to read or write lends itself to a copy, if only
of no bytes. -/
theorem exists_copy (h : ¬ cap.Unusable) (m : Memory) : ∃ other,
    (copy m cap 0 other 0 0).2 = .true ∨ (copy m other 0 cap 0 0).2 = .true := by
  obtain ⟨hsealed, hperms⟩ := not_or.1 h
  cases hread : cap.canRead with
  | true =>
    have hvoid := (hasPerm_iff.1 hread).1
    refine ⟨⟨0, 0, 0, permWrite, 0, 0⟩, .inr ?_⟩
    have hrange : cap.rangeValid 0 0 = true := rangeValid_iff.2 ⟨hvoid, Nat.zero_le _⟩
    have hother : (⟨0, 0, 0, permWrite, 0, 0⟩ : Capability).isVoid = false ∧
        (⟨0, 0, 0, permWrite, 0, 0⟩ : Capability).canWrite = true ∧
        (⟨0, 0, 0, permWrite, 0, 0⟩ : Capability).rangeValid 0 0 = true ∧
        (⟨0, 0, 0, permWrite, 0, 0⟩ : Capability).isSealed = false := by decide
    simp [copy, hread, hvoid, hrange, hsealed, hother]
  | false =>
    have hwrite : cap.canWrite = true := by
      by_contra hwrite
      exact hperms ⟨hread, by simpa using hwrite⟩
    have hvoid := (hasPerm_iff.1 hwrite).1
    refine ⟨⟨0, 0, 0, permRead, 0, 0⟩, .inl ?_⟩
    have hrange : cap.rangeValid 0 0 = true := rangeValid_iff.2 ⟨hvoid, Nat.zero_le _⟩
    have hother : (⟨0, 0, 0, permRead, 0, 0⟩ : Capability).isVoid = false ∧
        (⟨0, 0, 0, permRead, 0, 0⟩ : Capability).canRead = true ∧
        (⟨0, 0, 0, permRead, 0, 0⟩ : Capability).rangeValid 0 0 = true ∧
        (⟨0, 0, 0, permRead, 0, 0⟩ : Capability).isSealed = false := by decide
    simp [copy, hwrite, hvoid, hrange, hsealed, hother]

theorem refused_iff : cap.Refused ↔ cap.Unusable := by
  constructor
  · intro h
    by_contra husable
    obtain ⟨other, hto | hfrom⟩ := exists_copy husable fun _ => 0
    · exact (h.copyTo _ 0 other 0 0).2 hto
    · exact (h.copyFrom _ other 0 0 0).2 hfrom
  · intro h
    exact ⟨h.readU8, fun m offset => h.readWord m offset 2 voidU16,
      fun m offset => h.readWord m offset 4 voidU32, fun m offset => h.readWord m offset 8 voidU64,
      h.writeU8, fun m offset => h.writeWord m offset 2 voidU16,
      fun m offset => h.writeWord m offset 4 voidU32,
      fun m offset => h.writeWord m offset 8 voidU64,
      fun m dstOffset _ => copy_refused (.inl h) m dstOffset,
      fun m _ => copy_refused (.inr h) m⟩

/-! ## What is made from an unusable capability -/

/-- The derivation is refused, or makes a capability with a VOID base or length, or asks for
neither READ nor WRITE. -/
def DerivesBlind (cap : Capability) (offset length perms : ℕ) : Prop :=
  Derivable cap offset length perms → u64 (cap.base + offset) ≠ voidU64 → length ≠ voidU64 →
    perms &&& permRead ≠ permRead ∧ perms &&& permWrite ≠ permWrite

/-- What `derive` returns is unusable exactly where the request is blind. -/
theorem unusable_derive_iff (offset length perms : ℕ) :
    (cap.derive offset length perms).Unusable ↔ DerivesBlind cap offset length perms := by
  rcases derive_cases cap offset length perms with ⟨hreq, h⟩ | ⟨hreq, h⟩
  · rw [h]
    exact iff_of_true (unusable_of_isVoid rfl) fun hreq' => (hreq hreq').elim
  rw [h]
  by_cases hvoid : u64 (cap.base + offset) = voidU64 ∨ length = voidU64
  · refine iff_of_true (unusable_of_isVoid ?_) fun _ hbase hlength =>
      (hvoid.elim hbase hlength).elim
    rcases hvoid with hvoid | hvoid <;> simp [isVoid, hvoid]
  · obtain ⟨hbase, hlength⟩ := not_or.1 hvoid
    have hgeneration : cap.generation ≠ voidU32 := by
      have hnot := hreq.notVoid
      simp only [isVoid, decide_eq_false_iff_not, not_or] at hnot
      exact hnot.2.2
    simp [Unusable, DerivesBlind, hreq, isSealed, canRead, canWrite, hasPerm, isVoid, hbase,
      hlength, hgeneration]

/-- The capability is sealed or has neither of the two permissions, whether it is VOID or
not. -/
def Mute (cap : Capability) : Prop :=
  cap.isSealed = true ∨
    cap.permissions &&& permRead ≠ permRead ∧ cap.permissions &&& permWrite ≠ permWrite

theorem mute_void : Mute void :=
  .inl rfl

theorem Mute.unusable (h : cap.Mute) : cap.Unusable := by
  rcases h with hsealed | ⟨hread, hwrite⟩
  · exact .inl hsealed
  · exact .inr ⟨by simp [canRead, hasPerm, hread], by simp [canWrite, hasPerm, hwrite]⟩

theorem Unusable.mute (h : cap.Unusable) (hvoid : cap.isVoid = false) : cap.Mute := by
  rcases h with hsealed | ⟨hread, hwrite⟩
  · exact .inl hsealed
  · exact .inr ⟨by simpa [canRead, hasPerm, hvoid] using hread,
      by simpa [canWrite, hasPerm, hvoid] using hwrite⟩

/-- With the same type and no more permissions, a capability stays mute. -/
theorem Mute.of_subset (h : cap.Mute) {cap' : Capability} (htype : cap'.type = cap.type)
    (hperms : cap'.permissions &&& cap.permissions = cap'.permissions) : cap'.Mute := by
  rcases h with hsealed | ⟨hread, hwrite⟩
  · refine .inl ?_
    rwa [isSealed, htype]
  · exact .inr ⟨fun hyes => hread (and_eq_of_subset hperms hyes),
      fun hyes => hwrite (and_eq_of_subset hperms hyes)⟩

theorem Mute.mask (h : cap.Mute) (mask base length : ℕ) :
    Mute { cap with base, length, permissions := cap.permissions &&& mask } := by
  refine h.of_subset rfl ?_
  simp only
  rw [Nat.and_assoc, Nat.and_comm mask, ← Nat.and_assoc, Nat.and_self]

end Capability

open Capability

namespace CapOp

variable {cap : Capability}

/-- The operation is no derivation, or a blind one. -/
def Blind (cap : Capability) : CapOp → Prop
  | derive offset length perms => cap.DerivesBlind offset length perms
  | _ => True

/-- The operation is no unsealing, or one that fails. -/
def NoUnseal (cap : Capability) : CapOp → Prop
  | unsealAs expectedType => (cap.unsealAs expectedType).isVoid = true
  | _ => True

/-- What an operation makes from an unusable capability without unsealing it. -/
theorem unusable_run (h : cap.Unusable) {op : CapOp} (hseal : op.NoUnseal cap) :
    (op.run cap).Unusable ↔ op.Blind cap := by
  cases hvoid : cap.isVoid with
  | true =>
    rw [run_of_isVoid hvoid]
    refine iff_of_true (unusable_of_isVoid rfl) ?_
    cases op with
    | derive offset length perms =>
      intro hreq
      exact absurd hreq.notVoid (by simp [hvoid])
    | _ => trivial
  | false =>
    cases op with
    | derive offset length perms => exact unusable_derive_iff offset length perms
    | shrink offset newLength =>
      refine iff_of_true ?_ trivial
      rcases shrink_cases cap offset newLength with heq | ⟨-, heq⟩
      · rw [run, heq]
        exact unusable_of_isVoid rfl
      · rw [run, heq]
        refine Mute.unusable ?_
        exact (h.mute hvoid).of_subset rfl (Nat.and_self _)
    | restrict removePerms =>
      refine iff_of_true ?_ trivial
      rcases restrict_cases cap removePerms with heq | heq
      · rw [run, heq]
        exact unusable_of_isVoid rfl
      · rw [run, heq]
        exact ((h.mute hvoid).mask _ cap.base cap.length).unusable
    | sealAs type =>
      refine iff_of_true ?_ trivial
      rcases sealAs_cases cap type with heq | ⟨htype, heq⟩
      · rw [run, heq]
        exact unusable_of_isVoid rfl
      · rw [run, heq]
        exact .inl (by simpa [isSealed] using htype)
    | unsealAs expectedType => exact iff_of_true (unusable_of_isVoid hseal) trivial

end CapOp

/-! ## Runs with the descriptor table -/

/-- A descriptor table, and the capabilities made from one capability. -/
structure SealState where
  table : Cdt
  /-- Those that the holder has. -/
  held : List Capability
  /-- The entries that store one. -/
  marked : ℕ → Bool

/-- An operation of the holder, by the place of a capability among those held, or of others
on the table. -/
inductive SealOp where
  | make (place : ℕ) (op : CapOp)
  | alloc (place : ℕ)
  | lookup (compact : CapCompact)
  | allocOther (cap : Capability)
  | addref (compact : CapCompact)
  | release (compact : CapCompact)
deriving DecidableEq, Repr

namespace SealState

/-- Before the first operation, with a table that stores no capability made from `root`. -/
def start (root : Capability) (table : Cdt) : SealState :=
  ⟨table, [root], fun _ => false⟩

variable (s : SealState)

/-- The holder gets a capability. -/
def gain (cap : Capability) : SealState :=
  { s with held := s.held ++ [cap] }

/-- `seraph_cdt_alloc` for a capability that is made from the first one, or is not. -/
def alloc (cap : Capability) (mark : Bool) : SealState :=
  { s with
    table := (s.table.alloc cap).1
    marked :=
      if (s.table.alloc cap).2.isVoid then s.marked
      else Function.update s.marked (s.table.alloc cap).2.cdtIndex mark }

/-- One operation, with the capability that the holder uses. -/
def step (s : SealState) : SealOp → SealState × Option Capability
  | .make place op =>
    match s.held[place]? with
    | none => (s, none)
    | some cap => (s.gain (op.run cap), some cap)
  | .alloc place =>
    match s.held[place]? with
    | none => (s, none)
    | some cap => (s.alloc cap true, some cap)
  | .lookup compact =>
    (if s.marked compact.cdtIndex then s.gain (s.table.lookup compact) else s, none)
  | .allocOther cap => (s.alloc cap false, none)
  | .addref compact => ({ s with table := (s.table.addref compact).1 }, none)
  | .release compact => ({ s with table := (s.table.release compact).1 }, none)

variable {s : SealState}

/-- What the holder has is unusable, and what a marked entry stores is mute. -/
structure Hidden (s : SealState) : Prop where
  held : ∀ cap ∈ s.held, cap.Unusable
  marked : ∀ i, s.marked i = true → (s.table.entries i).cap.Mute

/-- No unsealing succeeds. -/
def NoUnseal (s : SealState) : SealOp → Prop
  | .make place op => ∀ cap, s.held[place]? = some cap → op.NoUnseal cap
  | _ => True

/-- A derivation from a capability that the holder has is blind. -/
def Blind (s : SealState) : SealOp → Prop
  | .make place op => ∀ cap, s.held[place]? = some cap → op.Blind cap
  | _ => True

/-- The holder loses nothing. -/
theorem held_step (s : SealState) (op : SealOp) : s.held <+: (s.step op).1.held := by
  cases op with
  | make place op =>
    cases hplace : s.held[place]? with
    | none => simp only [step, hplace, List.prefix_rfl]
    | some cap => simp only [step, hplace, gain, List.prefix_append]
  | alloc place =>
    cases hplace : s.held[place]? with
    | none => simp only [step, hplace, List.prefix_rfl]
    | some cap => simp only [step, hplace, alloc, List.prefix_rfl]
  | lookup compact =>
    simp only [step]
    split
    · exact List.prefix_append _ _
    · exact List.prefix_rfl
  | allocOther cap => exact List.prefix_rfl
  | addref compact => exact List.prefix_rfl
  | release compact => exact List.prefix_rfl

theorem hidden_gain (h : s.Hidden) {cap : Capability} (hcap : cap.Unusable) :
    (s.gain cap).Hidden := by
  refine ⟨fun c hc => ?_, h.marked⟩
  rcases List.mem_append.1 hc with hc | hc
  · exact h.held c hc
  · rwa [List.mem_singleton.1 hc]

theorem hidden_alloc (h : s.Hidden) {cap : Capability} {mark : Bool}
    (hcap : mark = true → cap.Unusable) : (s.alloc cap mark).Hidden := by
  refine ⟨h.held, fun i hi => ?_⟩
  unfold alloc at hi ⊢
  rcases Cdt.alloc_cases s.table cap with ⟨-, heq⟩ | ⟨hvoid, hhead, heq⟩
  · simp only [heq] at hi ⊢
    exact h.marked i hi
  · simp only [heq, CapCompact.isVoid, hhead, decide_false, Bool.false_eq_true, if_false] at hi ⊢
    rcases eq_or_ne i s.table.freeHead with rfl | hne
    · rw [Function.update_self] at hi
      rw [Cdt.put_self]
      exact (hcap hi).mute hvoid
    · rw [Function.update_of_ne hne] at hi
      rw [Cdt.put_of_ne _ hne]
      exact h.marked i hi

/-- Only the reference count of an entry changes, unless the entry is freed. -/
theorem hidden_table (h : s.Hidden) {table : Cdt}
    (htable : ∀ i, (table.entries i).cap = (s.table.entries i).cap ∨
      (table.entries i).cap = .void) : Hidden { s with table } := by
  refine ⟨h.held, fun i hi => ?_⟩
  rcases htable i with heq | heq
  · rw [heq]
    exact h.marked i hi
  · rw [heq]
    exact mute_void

theorem cap_addref (t : Cdt) (compact : CapCompact) (i : ℕ) :
    ((t.addref compact).1.entries i).cap = (t.entries i).cap := by
  rcases Cdt.addref_cases t compact with ⟨-, heq, -⟩ | ⟨-, heq⟩
  · rw [heq]
  · rw [heq]
    rcases eq_or_ne i compact.cdtIndex with rfl | hne
    · rw [Cdt.put_self]
    · rw [Cdt.put_of_ne _ hne]

theorem cap_release (t : Cdt) (compact : CapCompact) (i : ℕ) :
    ((t.release compact).1.entries i).cap = (t.entries i).cap ∨
      ((t.release compact).1.entries i).cap = .void := by
  by_cases hi : i = compact.cdtIndex
  · subst hi
    rcases Cdt.release_cases t compact with ⟨-, heq, -⟩ | ⟨-, -, heq⟩ | ⟨-, -, heq⟩
    · exact .inl (by rw [heq])
    · exact .inr (by simp only [heq, Cdt.put_self])
    · exact .inl (by rw [heq, Cdt.put_self])
  · rcases Cdt.release_cases t compact with ⟨-, heq, -⟩ | ⟨-, -, heq⟩ | ⟨-, -, heq⟩
    · exact .inl (by rw [heq])
    · exact .inl (by simp only [heq, Cdt.put_of_ne t hi])
    · exact .inl (by rw [heq, Cdt.put_of_ne t hi])

/-- A lookup returns VOID, or what the entry stores with no more permissions. -/
theorem mute_lookup {t : Cdt} {compact : CapCompact}
    (h : (t.entries compact.cdtIndex).cap.Mute) : (t.lookup compact).Mute := by
  unfold Cdt.lookup
  dsimp only
  split
  · exact mute_void
  split
  · exact mute_void
  split
  · exact mute_void
  split
  · split
    · exact mute_void
    · exact h.mask _ _ _
  · exact h.mask _ _ _

/-- A step whose derivation is blind keeps everything hidden. -/
theorem hidden_step (h : s.Hidden) {op : SealOp} (hseal : s.NoUnseal op) (hblind : s.Blind op) :
    (s.step op).1.Hidden := by
  cases op with
  | make place op =>
    cases hplace : s.held[place]? with
    | none =>
      simp only [step, hplace]
      exact h
    | some cap =>
      simp only [step, hplace]
      have hcap := h.held cap (List.mem_of_getElem? hplace)
      exact hidden_gain h ((CapOp.unusable_run hcap (hseal cap hplace)).2 (hblind cap hplace))
  | alloc place =>
    cases hplace : s.held[place]? with
    | none =>
      simp only [step, hplace]
      exact h
    | some cap =>
      simp only [step, hplace]
      exact hidden_alloc h fun _ => h.held cap (List.mem_of_getElem? hplace)
  | lookup compact =>
    simp only [step]
    split
    · next hmark => exact hidden_gain h (mute_lookup (h.marked _ hmark)).unusable
    · exact h
  | allocOther cap => exact hidden_alloc h (fun hmark => Bool.noConfusion hmark)
  | addref compact => exact hidden_table h fun i => .inl (cap_addref _ compact i)
  | release compact => exact hidden_table h (cap_release _ compact)

/-- A derivation that is not blind gives the holder a usable capability. -/
theorem usable_of_not_blind (h : s.Hidden) {op : SealOp} (hseal : s.NoUnseal op)
    (hblind : ¬ s.Blind op) : ∃ cap ∈ (s.step op).1.held, ¬ cap.Unusable := by
  cases op with
  | make place op =>
    simp only [Blind, not_forall] at hblind
    obtain ⟨cap, hplace, hblind⟩ := hblind
    have hcap := h.held cap (List.mem_of_getElem? hplace)
    refine ⟨op.run cap, ?_, fun hrun =>
      hblind ((CapOp.unusable_run hcap (hseal cap hplace)).1 hrun)⟩
    simp only [step, hplace, gain]
    exact List.mem_append_right _ (List.mem_singleton_self _)
  | _ => exact absurd trivial hblind

/-- **Sealing.** Whatever is made from a sealed capability without unsealing it, also through
the descriptor table, is refused every access, exactly where each derivation of the run is
refused or asks for neither READ nor WRITE. -/
theorem sealed_iff {root : Capability} (hroot : root.isSealed = true) (table : Cdt)
    (ops : List SealOp) (hseal : Guarded step NoUnseal (start root table) ops) :
    (∀ cap ∈ (run step (start root table) ops).held, cap.Refused) ↔
      Guarded step Blind (start root table) ops := by
  have hstart : (start root table).Hidden := by
    refine ⟨fun cap hcap => ?_, fun i hi => Bool.noConfusion hi⟩
    rw [List.mem_singleton.1 hcap]
    exact .inl hroot
  generalize start root table = s at hstart hseal
  induction ops generalizing s with
  | nil => exact iff_of_true (fun cap hcap => refused_iff.2 (hstart.held cap hcap)) trivial
  | cons op ops ih =>
    by_cases hblind : s.Blind op
    · exact (ih _ (hidden_step hstart hseal.1 hblind) hseal.2).trans
        (and_iff_right hblind).symm
    · refine iff_of_false (fun h => ?_) fun h => hblind h.1
      obtain ⟨cap, hcap, husable⟩ := usable_of_not_blind hstart hseal.1 hblind
      have hmem : cap ∈ (run step s (op :: ops)).held :=
        (run_invariant (I := fun t => cap ∈ t.held)
          (fun t op ht => (held_step t op).subset ht) hcap ops)
      exact husable (refused_iff.1 (h cap hmem))

/-- A sealed page that is shrunk, stored, looked up, restricted and derived from without
READ and WRITE. -/
def sealedOps : List SealOp :=
  [.make 0 (.shrink 16 64), .alloc 1, .lookup ⟨0, 8, 0x0F⟩, .make 2 (.restrict 0x02),
    .make 3 (.derive 0 8 0x08), .make 4 (.unsealAs 7), .release ⟨0, 0, 0⟩]

/-- A sealed page with all other permissions. -/
def sealedPage : Capability :=
  (Capability.create 4096 4096 1 0xFF).sealAs 7

theorem sealed_iff_page :
    (run step (start sealedPage (.initEntries 4)) sealedOps).held.length = 6 ∧
      ∀ cap ∈ (run step (start sealedPage (.initEntries 4)) sealedOps).held, cap.Refused := by
  have hseal : Guarded step NoUnseal (start sealedPage (.initEntries 4)) sealedOps := by
    refine ⟨fun _ _ => trivial, trivial, trivial, fun _ _ => trivial, fun _ _ => trivial,
      fun cap hcap => ?_, trivial, trivial⟩
    obtain rfl := Option.some.inj hcap
    change (Capability.unsealAs _ 7).isVoid = true
    decide
  refine ⟨by decide, ?_⟩
  refine (sealed_iff (by decide) (.initEntries 4) sealedOps hseal).2 ⟨fun _ _ => trivial, trivial,
    trivial, fun _ _ => trivial, fun cap hcap _ _ _ => ?_, fun _ _ => trivial, trivial, trivial⟩
  decide

/-- Deriving from the sealed page gives a capability through which it can be read. -/
theorem not_sealed_derive :
    ¬ ∀ cap ∈ (run step (start sealedPage (.initEntries 4))
      [.make 0 (.derive 0 4096 0x01)]).held, cap.Refused := by
  intro h
  have hread := (h (sealedPage.derive 0 4096 0x01) (by decide)).readU8 (fun _ => 0) 0
  exact absurd hread (by decide)

end SealState

end Seraph
