import Mathlib.Data.List.Find
import Seraph.HashingAgreement
import Seraph.ProofBlobSafety

/-!
# Blobs that are generated

A blob that `seraph_proof_blob_generate` writes loads with verification, and its index has every
proof of the table. A chain has the proofs of its bucket in reverse, so a lookup finds the last
proof of the table with its hash and kind, whatever the others are. The answer can be trusted just where
that proof speaks for all of them (`proofBlobGenerate_trusted_iff`).
-/

namespace Seraph

open ByteMem LinkedQueue ReadLog

/-! ## The bytes of a file -/

namespace Image

variable {b : Image} {a n : ℕ}

theorem mem_of_lt (h : a < 2 ^ 64) : b.mem a = b.cells a := by
  rw [mem, u64, Nat.mod_eq_of_lt h]

theorem load_mem (h : a + n ≤ 2 ^ 64) : b.mem.load a n = b.cells.load a n :=
  Memory.load_congr fun _ hx => mem_of_lt (hx.2.trans_le h)

theorem bytes_mem (h : a + n ≤ 2 ^ 64) : b.mem.bytes a n = b.cells.bytes a n :=
  Memory.bytes_congr fun _ hi => mem_of_lt (by omega)

end Image

namespace BlobBuilder

/-! ## Sizes -/

theorem smear_lt {x : ℕ} (h : x < 2 ^ 31) (k : ℕ) : x ||| x >>> k < 2 ^ 31 :=
  Nat.or_lt_two_pow h ((Nat.shiftRight_le x k).trans_lt h)

/-- There are buckets, and not too many. -/
theorem calculateBucketCount_bounds (n : ℕ) :
    0 < calculateBucketCount n ∧ calculateBucketCount n ≤ 2 ^ 31 := by
  unfold calculateBucketCount
  have hthird : u32 (n * 4) / 3 < 2 ^ 31 := by
    unfold u32
    omega
  generalize u32 (n * 4) / 3 = b at hthird
  have hmin : (if b < blobMinBuckets then blobMinBuckets else b) - 1 < 2 ^ 31 := by
    split
    · decide
    · omega
  have hlt := smear_lt (smear_lt (smear_lt (smear_lt (smear_lt hmin 1) 2) 4) 8) 16
  refine ⟨?_, ?_⟩
  · rw [u32, Nat.mod_eq_of_lt (by omega)]
    exact Nat.succ_pos _
  · rw [u32, Nat.mod_eq_of_lt (by omega)]
    exact hlt

/-- A builder that has been given some proofs, and has room for them. The room doubles up to
`2 ^ 31`. -/
structure Filled (buffer : Option Memory) (capacity : ℕ) (given : List (ℕ × BlobProof))
    (b : BlobBuilder) : Prop where
  buffer : b.buffer = buffer
  capacity : b.capacity = capacity
  proofs : b.proofs = given
  room : ∃ k ≤ 31, b.tempCapacity = 2 ^ k ∧ given.length ≤ 2 ^ k

variable {alloc : ℕ → ℕ → Bool} {buffer : Option Memory} {capacity moduleHash : ℕ}
  {given : List (ℕ × BlobProof)} {b b' : BlobBuilder}

theorem filled_init (h : init alloc buffer capacity moduleHash = some b) :
    Filled buffer capacity [] b := by
  unfold init at h
  split at h
  · cases h
    exact ⟨rfl, rfl, rfl, 8, by decide, rfl, Nat.zero_le _⟩
  · cases h

theorem Filled.add (h : Filled buffer capacity given b) {hash : ℕ} {proof : BlobProof}
    (hadd : b.add alloc hash proof = some b') :
    Filled buffer capacity (given ++ [(hash, proof)]) b' := by
  obtain ⟨grown, hgrow, rfl⟩ := Option.map_eq_some_iff.1 hadd
  obtain ⟨k, hk, hroom, hlength⟩ := h.room
  have hproofs := h.proofs
  simp only [grow] at hgrow
  split at hgrow
  · split at hgrow
    · rename_i hgrants
      cases hgrow
      -- twice `2 ^ 31` is nothing, and nothing is not granted
      have hmore : k ≠ 31 := by
        rintro rfl
        rw [hroom] at hgrants
        cases hgrants
      have hdouble : u32 (b.tempCapacity * 2) = 2 ^ (k + 1) := by
        rw [hroom, ← pow_succ, u32]
        exact Nat.mod_eq_of_lt (Nat.pow_lt_pow_right (by decide) (by omega))
      refine ⟨h.buffer, h.capacity, by rw [← hproofs], k + 1, by omega, hdouble, ?_⟩
      rw [List.length_append, List.length_singleton, pow_succ]
      have := Nat.one_le_two_pow (n := k)
      omega
    · cases hgrow
  · rename_i hfits
    cases hgrow
    refine ⟨h.buffer, h.capacity, by rw [← hproofs], k, hk, hroom, ?_⟩
    rw [hproofs, hroom] at hfits
    rw [List.length_append, List.length_singleton]
    omega

/-- A builder that has been given the proofs of a table. -/
theorem Filled.addAll (hash : BlobProof → ℕ) (table : List BlobProof) {start : Option BlobBuilder}
    (hstart : ∀ b, start = some b → Filled buffer capacity given b)
    (hb : table.foldl (fun builder proof => builder.bind fun builder =>
      builder.add alloc (hash proof) proof) start = some b) :
    Filled buffer capacity (given ++ table.map fun proof => (hash proof, proof)) b := by
  induction table generalizing given start with
  | nil => simpa using hstart b hb
  | cons proof table ih =>
    have hnext : ∀ b', (start.bind fun builder => builder.add alloc (hash proof) proof) = some b' →
        Filled buffer capacity (given ++ [(hash proof, proof)]) b' := by
      intro b' hb'
      obtain ⟨b, hsome, hadd⟩ := Option.bind_eq_some_iff.1 hb'
      exact (hstart b hsome).add hadd
    simpa using ih hnext hb

/-! ## The index -/

section index

/-- `&entries[i]`. -/
def entryAddress (bucketCount i : ℕ) : ℕ :=
  BlobHeader.size + bucketCount * 4 + i * BlobEntry.size

/-- The entries of a bucket, the last one first. -/
def chainOf (bucketCount : ℕ) (entries : List (ℕ × ℕ)) (bucket : ℕ) : List ℕ :=
  (entries.filter fun e => e.1 % bucketCount = bucket).reverse.map Prod.snd

/-- The index holds some entries. -/
structure Indexed (bucketCount : ℕ) (entries : List (ℕ × ℕ)) (m : Memory) : Prop where
  chains : ∀ k < bucketCount,
    Path (fun i => ProofBlob.link (m.get (entryAddress bucketCount i) BlobEntry.next))
      (ProofBlob.link (m.load (bucketAddress k) 4)) (chainOf bucketCount entries k) none
  codeHash : ∀ e ∈ entries, m.get (entryAddress bucketCount e.2) BlobEntry.codeHash = e.1
  proofIndex : ∀ e ∈ entries, m.get (entryAddress bucketCount e.2) BlobEntry.proofIndex = e.2

variable {bucketCount : ℕ} {entries : List (ℕ × ℕ)} {m m' : Memory}

theorem chainOf_append_singleton (e : ℕ × ℕ) (k : ℕ) :
    chainOf bucketCount (entries ++ [e]) k =
      if e.1 % bucketCount = k then e.2 :: chainOf bucketCount entries k
      else chainOf bucketCount entries k := by
  by_cases h : e.1 % bucketCount = k <;> simp [chainOf, List.filter_append, h]

theorem mem_chainOf {i k : ℕ} (h : i ∈ chainOf bucketCount entries k) : ∃ e ∈ entries, e.2 = i := by
  obtain ⟨e, he, rfl⟩ := List.mem_map.1 h
  exact ⟨e, (List.mem_filter.1 (List.mem_reverse.1 he)).1, rfl⟩

/-- The index depends on its own bytes only. -/
theorem Indexed.congr (h : Indexed bucketCount entries m) {total : ℕ}
    (hindex : ∀ e ∈ entries, entryAddress bucketCount e.2 + BlobEntry.size ≤ total)
    (hsame : ∀ a < total, BlobHeader.size ≤ a → m' a = m a)
    (htotal : BlobHeader.size + bucketCount * 4 ≤ total) : Indexed bucketCount entries m' := by
  have hload : ∀ a w, BlobHeader.size ≤ a → a + w ≤ total → m'.load a w = m.load a w :=
    fun a w hle hend => Memory.load_congr fun x hx =>
      hsame x (hx.2.trans_le hend) (hle.trans hx.1)
  have hget : ∀ e ∈ entries, ∀ f : StructField, f.Inside BlobEntry.size →
      m'.get (entryAddress bucketCount e.2) f = m.get (entryAddress bucketCount e.2) f := by
    intro e he f hf
    have := hindex e he
    simp only [StructField.Inside, entryAddress] at *
    exact hload _ _ (by omega) (by omega)
  refine ⟨fun k hk => ?_, fun e he => ?_, fun e he => ?_⟩
  · rw [hload _ _ (by simp [bucketAddress]) (by simp only [bucketAddress]; omega)]
    refine (h.chains k hk).congr fun i hi => ?_
    obtain ⟨e, he, rfl⟩ := mem_chainOf hi
    rw [hget e he _ (by decide)]
  · rw [hget e he _ (by decide), h.codeHash e he]
  · rw [hget e he _ (by decide), h.proofIndex e he]

/-- What the new entry and its bucket hold, and that nothing else changes. -/
theorem addEntry_spec (hcount : 0 < bucketCount ∧ bucketCount ≤ 2 ^ 31) {e : ℕ × ℕ}
    (hhash : e.1 < 2 ^ 64) (hnumber : e.2 < blobEmptyBucket) :
    let a := entryAddress bucketCount e.2
    let bucket := bucketAddress (e.1 % bucketCount)
    Memory.ChangesOnly [⟨a, BlobEntry.size⟩, ⟨bucket, 4⟩] m (addEntry bucketCount m e) ∧
      (addEntry bucketCount m e).get a BlobEntry.codeHash = e.1 ∧
      (addEntry bucketCount m e).get a BlobEntry.proofIndex = e.2 ∧
      (addEntry bucketCount m e).get a BlobEntry.next = m.load bucket 4 ∧
      (addEntry bucketCount m e).load bucket 4 = e.2 := by
  intro a bucket
  have hmod := Nat.mod_lt e.1 hcount.1
  have hu32 : u32 (e.1 % bucketCount) = e.1 % bucketCount :=
    Nat.mod_eq_of_lt (by omega)
  have hbefore : bucket + 4 ≤ a := by
    simp only [a, bucket, bucketAddress, entryAddress]
    omega
  have hapart : ∀ (m : Memory) (f : StructField) (v : ℕ),
      (m.store bucket 4 v).get a f = m.get a f := fun m f v =>
    Memory.load_store_of_disjoint m (Or.inr (hbefore.trans (Nat.le_add_right a f.off)))
  have hbucket : ∀ (m : Memory) (f : StructField) (v : ℕ),
      (m.set a f v).load bucket 4 = m.load bucket 4 := fun m f v =>
    Memory.load_store_of_disjoint m (Or.inl (hbefore.trans (Nat.le_add_right a f.off)))
  have hstep : addEntry bucketCount m e =
      ((((m.set a BlobEntry.codeHash e.1).set a BlobEntry.proofIndex e.2).set a BlobEntry.next
        (m.load bucket 4)).store bucket 4 e.2) := by
    rw [addEntry, hu32]
    simp only [← hbucket m BlobEntry.codeHash e.1,
      ← hbucket (m.set a BlobEntry.codeHash e.1) BlobEntry.proofIndex e.2]
    rfl
  have hword : e.2 < 256 ^ 4 := hnumber.trans (by decide)
  rw [hstep]
  refine ⟨?_, ?_, ?_, ?_, ?_⟩
  · have hset : ∀ (m : Memory) (f : StructField) (v : ℕ), f.Inside BlobEntry.size →
        Memory.ChangesOnly [⟨a, BlobEntry.size⟩] m (m.set a f v) :=
      fun m f v hf => Memory.changesOnly_set m a hf v
    exact (((hset _ _ _ (by decide)).comp (hset _ _ _ (by decide))).comp
      (hset _ _ _ (by decide))).trans (Memory.changesOnly_store _ _ _ _)
  · rw [hapart, Memory.get_set_apart _ _ (by decide), Memory.get_set_apart _ _ (by decide),
      Memory.get_set_same]
    exact Nat.mod_eq_of_lt hhash
  · rw [hapart, Memory.get_set_apart _ _ (by decide), Memory.get_set_same]
    exact Nat.mod_eq_of_lt hword
  · rw [hapart, Memory.get_set_same]
    exact Nat.mod_eq_of_lt (Memory.load_lt m bucket 4)
  · rw [Memory.load_store_of_lt _ hword]

/-- An entry is put in front of the chain of its bucket. -/
theorem Indexed.addEntry (h : Indexed bucketCount entries m)
    (hcount : 0 < bucketCount ∧ bucketCount ≤ 2 ^ 31) {e : ℕ × ℕ} (hhash : e.1 < 2 ^ 64)
    (hnumber : e.2 < blobEmptyBucket) (hnew : ∀ x ∈ entries, x.2 ≠ e.2) :
    Indexed bucketCount (entries ++ [e]) (addEntry bucketCount m e) := by
  obtain ⟨hchanges, hcode, hindex, hnext, hhead⟩ := @addEntry_spec _ m hcount e hhash hnumber
  have hmod := Nat.mod_lt e.1 hcount.1
  have hother : ∀ i ≠ e.2, ∀ f : StructField, f.Inside BlobEntry.size →
      (BlobBuilder.addEntry bucketCount m e).get (entryAddress bucketCount i) f =
        m.get (entryAddress bucketCount i) f := by
    intro i hi f hf
    refine hchanges.get hf fun r hr => ?_
    rw [List.mem_pair] at hr
    rcases hr with rfl | rfl
    · simp only [Region.Disjoint, entryAddress, BlobEntry.size]
      omega
    · simp only [Region.Disjoint, entryAddress, bucketAddress, BlobEntry.size]
      omega
  have hrest : ∀ k < bucketCount, ∀ head,
      Path (fun i => ProofBlob.link (m.get (entryAddress bucketCount i) BlobEntry.next)) head
        (chainOf bucketCount entries k) none →
      Path (fun i => ProofBlob.link ((BlobBuilder.addEntry bucketCount m e).get
        (entryAddress bucketCount i) BlobEntry.next)) head (chainOf bucketCount entries k) none := by
    intro k _ head hpath
    refine hpath.congr fun i hi => ?_
    obtain ⟨x, hx, rfl⟩ := mem_chainOf hi
    rw [hother _ (hnew x hx) _ (by decide)]
  refine ⟨fun k hk => ?_, fun x hx => ?_, fun x hx => ?_⟩
  · rw [chainOf_append_singleton]
    by_cases hbucket : e.1 % bucketCount = k
    · subst hbucket
      rw [if_pos rfl, hhead]
      refine ⟨ProofBlob.link_eq_some.2 ⟨hnumber.ne, rfl⟩, ?_⟩
      simp only [hnext]
      exact hrest _ hk _ (h.chains _ hk)
    · rw [if_neg hbucket, hchanges.load fun r hr => ?_]
      · exact hrest k hk _ (h.chains k hk)
      rw [List.mem_pair] at hr
      rcases hr with rfl | rfl
      · simp only [Region.Disjoint, entryAddress, bucketAddress]
        omega
      · simp only [Region.Disjoint, bucketAddress]
        omega
  · rcases List.mem_append.1 hx with hx | hx
    · rw [hother _ (hnew x hx) _ (by decide), h.codeHash x hx]
    · rw [List.mem_singleton.1 hx, hcode]
  · rcases List.mem_append.1 hx with hx | hx
    · rw [hother _ (hnew x hx) _ (by decide), h.proofIndex x hx]
    · rw [List.mem_singleton.1 hx, hindex]

/-- Entries with numbers of their own, put into an empty index. -/
theorem indexed_foldl (hcount : 0 < bucketCount ∧ bucketCount ≤ 2 ^ 31)
    (hempty : Indexed bucketCount [] m) (hnodup : (entries.map Prod.snd).Nodup)
    (hbounds : ∀ e ∈ entries, e.1 < 2 ^ 64 ∧ e.2 < blobEmptyBucket) :
    Indexed bucketCount entries (entries.foldl (BlobBuilder.addEntry bucketCount) m) := by
  induction entries using List.reverseRecOn with
  | nil => exact hempty
  | append_singleton entries e ih =>
    rw [List.foldl_append, List.foldl_cons, List.foldl_nil]
    rw [List.map_append, List.nodup_append] at hnodup
    obtain ⟨hhash, hnumber⟩ := hbounds e (List.mem_append_right _ (List.mem_singleton_self e))
    have hentries := ih hnodup.1 fun x hx => hbounds x (List.mem_append_left _ hx)
    exact hentries.addEntry hcount hhash hnumber fun x hx =>
      hnodup.2.2 x.2 (List.mem_map_of_mem hx) e.2 (by simp)

/-- The index lies behind the header. -/
theorem foldl_addEntry_header (hcount : 0 < bucketCount ∧ bucketCount ≤ 2 ^ 31) {a : ℕ}
    (ha : a < BlobHeader.size) (hbounds : ∀ e ∈ entries, e.1 < 2 ^ 64 ∧ e.2 < blobEmptyBucket) :
    entries.foldl (BlobBuilder.addEntry bucketCount) m a = m a := by
  induction entries generalizing m with
  | nil => rfl
  | cons e entries ih =>
    obtain ⟨hhash, hnumber⟩ := hbounds e List.mem_cons_self
    rw [List.foldl_cons, ih fun x hx => hbounds x (List.mem_cons_of_mem e hx)]
    refine (addEntry_spec hcount hhash hnumber).1 a fun r hr => ?_
    rw [List.mem_pair] at hr
    rcases hr with rfl | rfl
    · simp only [Region.mem_def, entryAddress]
      omega
    · simp only [Region.mem_def, bucketAddress]
      omega

/-- An index whose buckets are all empty. -/
theorem indexed_nil (hbuckets : ∀ k < bucketCount, m.load (bucketAddress k) 4 = blobEmptyBucket) :
    Indexed bucketCount [] m :=
  ⟨fun k hk => ProofBlob.link_eq_none.2 (hbuckets k hk), by simp, by simp⟩

/-- The loop that empties the buckets. -/
theorem foldl_empty_load (k : ℕ) (hk : k < bucketCount) :
    ((List.range bucketCount).foldl (fun m i => m.store (bucketAddress i) 4 blobEmptyBucket) m).load
      (bucketAddress k) 4 = blobEmptyBucket := by
  induction bucketCount generalizing m with
  | zero => cases hk
  | succ n ih =>
    rw [List.range_succ, List.foldl_append, List.foldl_cons, List.foldl_nil]
    rcases Nat.lt_succ_iff_lt_or_eq.1 hk with hlt | rfl
    · rw [Memory.load_store_of_disjoint, ih hlt]
      exact Or.inl (by simp only [bucketAddress]; omega)
    · rw [Memory.load_store_of_lt _ (by decide)]

theorem foldl_empty_header {a : ℕ} (ha : a < BlobHeader.size) :
    (List.range bucketCount).foldl (fun m i => m.store (bucketAddress i) 4 blobEmptyBucket) m a =
      m a := by
  induction bucketCount generalizing m with
  | zero => rfl
  | succ n ih =>
    rw [List.range_succ, List.foldl_append, List.foldl_cons, List.foldl_nil, Memory.store, if_neg,
      ih]
    simp only [bucketAddress]
    omega

end index

/-! ## The records -/

section records

variable {m : Memory} {a : ℕ}

/-- The fields of a record behind its kind and status. -/
def laterFields (proof : BlobProof) : List (StructField × ℕ) :=
  [(BlobRecord.flags, 0), (BlobRecord.locationOffset, proof.offset.toNat),
    (BlobRecord.metadata, proof.metadata.toNat)] ++
  match proof.kind with
  | .bounds =>
    [(BlobRecord.arraySize, proof.arraySize.toNat), (BlobRecord.indexMin, proof.indexMin.toNat),
      (BlobRecord.indexMax, proof.indexMax.toNat)]
  | .effect =>
    [(BlobRecord.requiredEffects, proof.requiredEffects.toNat),
      (BlobRecord.allowedEffects, proof.allowedEffects.toNat)]
  | .permission =>
    [(BlobRecord.requiredPerms, proof.requiredPerms.toNat),
      (BlobRecord.grantedPerms, proof.grantedPerms.toNat)]
  | _ => []

theorem laterFields_inside (proof : BlobProof) :
    ∀ p ∈ laterFields proof, 2 ≤ p.1.off ∧ p.1.Inside BlobRecord.size := by
  rw [laterFields, List.forall_mem_append]
  constructor
  · simp only [List.forall_mem_cons]
    decide
  · cases proof.kind <;> simp only [List.forall_mem_cons] <;> decide

theorem writeRecord_eq (proof : BlobProof) :
    writeRecord m a proof =
      (((m.fill a BlobRecord.size 0).set a BlobRecord.kind proof.kind.code).set a
        BlobRecord.status proof.status.code).assign a (laterFields proof) := by
  unfold writeRecord laterFields
  cases proof.kind <;> rfl

theorem changesOnly_writeRecord (proof : BlobProof) :
    Memory.ChangesOnly [⟨a, BlobRecord.size⟩] m (writeRecord m a proof) := by
  rw [writeRecord_eq]
  have hkind := Memory.changesOnly_set (m.fill a BlobRecord.size 0) a
    (show BlobRecord.kind.Inside BlobRecord.size by decide) proof.kind.code
  have hstatus := Memory.changesOnly_set
    ((m.fill a BlobRecord.size 0).set a BlobRecord.kind proof.kind.code) a
    (show BlobRecord.status.Inside BlobRecord.size by decide) proof.status.code
  exact (((Memory.changesOnly_fill m a BlobRecord.size 0).comp hkind).comp hstatus).comp
    (Memory.changesOnly_assign a _ _ fun p hp => (laterFields_inside proof p hp).2)

theorem kindCode_lt (kind : ProofKind) : kind.code < 256 := by
  cases kind <;> decide

theorem statusCode_lt (status : ProofStatus) : status.code < 256 := by
  cases status <;> decide

/-- The kind and the status stay as they are first written. -/
theorem get_writeRecord (proof : BlobProof) :
    (writeRecord m a proof).get a BlobRecord.kind = proof.kind.code ∧
      (writeRecord m a proof).get a BlobRecord.status = proof.status.code := by
  have hlater : ∀ f : StructField, f.Inside 2 → ∀ p ∈ laterFields proof, p.1.Apart f :=
    fun f hf p hp => Or.inr (le_trans hf (laterFields_inside proof p hp).1)
  rw [writeRecord_eq, Memory.get_assign_apart a _ _ (hlater _ (by decide)),
    Memory.get_assign_apart a _ _ (hlater _ (by decide)), Memory.get_set_same,
    Memory.get_set_apart _ _ (by decide), Memory.get_set_same]
  exact ⟨Nat.mod_eq_of_lt (kindCode_lt _), Nat.mod_eq_of_lt (statusCode_lt _)⟩

/-- The records hold some proofs. -/
def Recorded (base : ℕ) (proofs : List (BlobProof × ℕ)) (m : Memory) : Prop :=
  ∀ p ∈ proofs, m.get (base + p.2 * BlobRecord.size) BlobRecord.kind = p.1.kind.code ∧
    m.get (base + p.2 * BlobRecord.size) BlobRecord.status = p.1.status.code

theorem recorded_foldl {base : ℕ} {proofs : List (BlobProof × ℕ)}
    (hnodup : (proofs.map Prod.snd).Nodup) :
    Recorded base proofs
      (proofs.foldl (fun m p => writeRecord m (base + p.2 * BlobRecord.size) p.1) m) := by
  induction proofs using List.reverseRecOn with
  | nil => intro p hp; cases hp
  | append_singleton proofs q ih =>
    rw [List.foldl_append, List.foldl_cons, List.foldl_nil]
    rw [List.map_append, List.nodup_append] at hnodup
    intro p hp
    rcases List.mem_append.1 hp with hp | hp
    · have hne : p.2 ≠ q.2 := hnodup.2.2 p.2 (List.mem_map_of_mem hp) q.2 (by simp)
      have hother : ∀ f : StructField, f.Inside BlobRecord.size →
          (writeRecord (proofs.foldl (fun m p => writeRecord m (base + p.2 * BlobRecord.size) p.1) m)
            (base + q.2 * BlobRecord.size) q.1).get (base + p.2 * BlobRecord.size) f =
          (proofs.foldl (fun m p => writeRecord m (base + p.2 * BlobRecord.size) p.1) m).get
            (base + p.2 * BlobRecord.size) f := by
        intro f hf
        refine (changesOnly_writeRecord q.1).get hf fun r hr => ?_
        rw [List.mem_singleton.1 hr]
        simp only [Region.Disjoint, BlobRecord.size]
        omega
      rw [hother _ (by decide), hother _ (by decide)]
      exact ih hnodup.1 p hp
    · rw [List.mem_singleton.1 hp]
      exact get_writeRecord q.1

/-- The records lie behind the index. -/
theorem foldl_writeRecord_before {base : ℕ} (proofs : List (BlobProof × ℕ)) (ha : a < base) :
    proofs.foldl (fun m p => writeRecord m (base + p.2 * BlobRecord.size) p.1) m a = m a := by
  induction proofs generalizing m with
  | nil => rfl
  | cons p proofs ih =>
    rw [List.foldl_cons, ih]
    refine changesOnly_writeRecord p.1 a fun r hr => ?_
    rw [List.mem_singleton.1 hr, Region.mem_def]
    simp only
    omega

end records

/-! ## The whole blob -/

section blob

/-- Where the proofs start, in a blob of some proofs. -/
def proofsAddress (given : List (ℕ × BlobProof)) : ℕ :=
  entryAddress (calculateBucketCount given.length) given.length

/-- Where the checksum is, in a blob of some proofs. -/
def checksumAddress (given : List (ℕ × BlobProof)) : ℕ :=
  proofsAddress given + given.length * BlobRecord.size

/-- What the header of a blob of some proofs says. -/
def headerFields (given : List (ℕ × BlobProof)) (flags moduleHash generation : ℕ) :
    List (StructField × ℕ) :=
  [(BlobHeader.magic, blobMagic), (BlobHeader.version, blobVersion), (BlobHeader.flags, flags),
    (BlobHeader.proofCount, given.length),
    (BlobHeader.bucketCount, calculateBucketCount given.length),
    (BlobHeader.indexOffset, BlobHeader.size), (BlobHeader.proofsOffset, proofsAddress given),
    (BlobHeader.checksumOffset, checksumAddress given), (BlobHeader.moduleHash, moduleHash),
    (BlobHeader.generation, generation), (BlobHeader.reserved, 0)]

theorem headerFields_apart (given : List (ℕ × BlobProof)) (flags moduleHash generation : ℕ) :
    ((headerFields given flags moduleHash generation).map Prod.fst).Pairwise StructField.Apart := by
  have hfields : (headerFields given flags moduleHash generation).map Prod.fst =
      [BlobHeader.magic, BlobHeader.version, BlobHeader.flags, BlobHeader.proofCount,
        BlobHeader.bucketCount, BlobHeader.indexOffset, BlobHeader.proofsOffset,
        BlobHeader.checksumOffset, BlobHeader.moduleHash, BlobHeader.generation,
        BlobHeader.reserved] := rfl
  rw [hfields]
  decide

/-- A memory holds the blob of some proofs. -/
structure HoldsBlob (given : List (ℕ × BlobProof)) (m : Memory) : Prop where
  magic : m.get 0 BlobHeader.magic = blobMagic
  version : m.get 0 BlobHeader.version = blobVersion
  bucketCount : m.get 0 BlobHeader.bucketCount = calculateBucketCount given.length
  indexOffset : m.get 0 BlobHeader.indexOffset = BlobHeader.size
  proofsOffset : m.get 0 BlobHeader.proofsOffset = proofsAddress given
  checksumOffset : m.get 0 BlobHeader.checksumOffset = checksumAddress given
  index : Indexed (calculateBucketCount given.length) (given.map Prod.fst).zipIdx m
  records : Recorded (proofsAddress given) (given.map Prod.snd).zipIdx m
  checksum : m.bytes (checksumAddress given) blobChecksumSize =
    Sha256.hash (m.bytes 0 (checksumAddress given))

theorem blobSha256_eq (stack : ℕ → UInt8) (data : List UInt8) :
    ProofBlob.sha256 stack data = Sha256.hash data := by
  have h := proofSha256_stream stack [data]
  rwa [List.flatten_singleton] at h

/-- A field that is assigned, among fields that share no byte. -/
theorem get_assign_of_mem {base v : ℕ} {f : StructField} {fs : List (StructField × ℕ)} (m : Memory)
    (hapart : (fs.map Prod.fst).Pairwise StructField.Apart) (hmem : (f, v) ∈ fs) :
    (m.assign base fs).get base f = v % 256 ^ f.width := by
  induction fs generalizing m with
  | nil => cases hmem
  | cons p fs ih =>
    rw [List.map_cons, List.pairwise_cons] at hapart
    rcases List.mem_cons.1 hmem with rfl | hmem
    · rw [Memory.assign, Memory.get_assign_apart base fs, Memory.get_set_same]
      exact fun q hq => (hapart.1 q.1 (List.mem_map_of_mem hq)).symm
    · exact ih _ hapart.2 hmem

theorem bytes_write (m : Memory) (a : ℕ) (bs : List UInt8) :
    (m.write a bs).bytes a bs.length = bs := by
  refine List.ext_getElem (Memory.length_bytes _ _ _) fun i _ hi => ?_
  simp [Memory.bytes, Memory.write, hi]

theorem checksumAddress_lt {given : List (ℕ × BlobProof)} (hgiven : given.length ≤ 2 ^ 31) :
    checksumAddress given + blobChecksumSize < 2 ^ 40 := by
  have hcount := (calculateBucketCount_bounds given.length).2
  simp only [checksumAddress, proofsAddress, entryAddress, BlobHeader.size, BlobEntry.size,
    BlobRecord.size, blobChecksumSize]
  omega

variable {capacity : ℕ} {given : List (ℕ × BlobProof)} {b : BlobBuilder} {m m' : Memory}

/-- A blob that has been written. -/
theorem Filled.finalize (h : Filled (some m) capacity given b)
    (hhash : ∀ p ∈ given, p.1 < 2 ^ 64) {stack : ℕ → UInt8} {generation size : ℕ}
    (hsize : size ≠ 0) (hfinal : b.finalize stack generation = (size, some m')) :
    size = checksumAddress given + blobChecksumSize ∧ HoldsBlob given m' := by
  obtain ⟨k, hk, -, hlength⟩ := h.room
  have hgiven : given.length ≤ 2 ^ 31 := hlength.trans (Nat.pow_le_pow_right (by decide) hk)
  have hcount := calculateBucketCount_bounds given.length
  have hend := checksumAddress_lt hgiven
  have hproofs : BlobHeader.size + (calculateBucketCount given.length * 4 +
      given.length * BlobEntry.size) = proofsAddress given := (Nat.add_assoc _ _ _).symm
  simp only [BlobBuilder.finalize, h.buffer, h.proofs, hproofs] at hfinal
  split at hfinal
  · exact absurd (Prod.mk.inj hfinal).1.symm hsize
  obtain ⟨rfl, hmem⟩ := Prod.mk.inj hfinal
  replace hmem := Option.some.inj hmem
  refine ⟨rfl, ?_⟩
  clear hfinal
  -- the header, the empty index, the entries and the records, one after the other
  generalize hheader : m.assign 0 _ = m₀ at hmem
  generalize hempty : (List.range _).foldl _ m₀ = m₁ at hmem
  generalize hentries : List.foldl (addEntry _) m₁ _ = m₂ at hmem
  generalize hrecords : List.foldl _ m₂ _ = m₃ at hmem
  rw [blobSha256_eq] at hmem
  have hbefore : ∀ a < checksumAddress given, m' a = m₃ a := by
    intro a ha
    rw [← hmem, Memory.write, if_neg]
    exact fun hin => absurd hin.1 (not_le.2 ha)
  have hindex : ∀ a < proofsAddress given, m' a = m₂ a := by
    intro a ha
    rw [hbefore a (ha.trans_le (Nat.le_add_right _ _)), ← hrecords, foldl_writeRecord_before _ ha]
  have hentry : ∀ e ∈ (given.map Prod.fst).zipIdx, e.1 < 2 ^ 64 ∧ e.2 < given.length := by
    intro e he
    obtain ⟨p, hp, heq⟩ := List.mem_map.1 (List.fst_mem_of_mem_zipIdx he)
    exact ⟨heq ▸ hhash p hp, by simpa using List.snd_lt_of_mem_zipIdx he⟩
  have hbounds : ∀ e ∈ (given.map Prod.fst).zipIdx, e.1 < 2 ^ 64 ∧ e.2 < blobEmptyBucket :=
    fun e he => ⟨(hentry e he).1, (hentry e he).2.trans_le (hgiven.trans (by decide))⟩
  have hfirst : BlobHeader.size + calculateBucketCount given.length * 4 ≤ proofsAddress given :=
    Nat.le_add_right _ _
  have hfield : ∀ f v, (f, v) ∈ headerFields given (b.flags ||| blobFlagRelease) b.moduleHash
      generation → v < 256 ^ f.width → f.Inside BlobHeader.size → m'.get 0 f = v := by
    intro f v hmem hv hf
    have hsame : m'.get 0 f = m₀.get 0 f := by
      refine Memory.load_congr fun a ha => ?_
      have ha : a < BlobHeader.size := ha.2.trans_le ((Nat.zero_add f.off).symm ▸ hf)
      rw [hindex a (ha.trans_le ((Nat.le_add_right _ _).trans hfirst)), ← hentries,
        foldl_addEntry_header hcount ha hbounds, ← hempty, foldl_empty_header ha]
    rw [hsame, ← hheader]
    exact (get_assign_of_mem m (headerFields_apart given _ _ _) hmem).trans (Nat.mod_eq_of_lt hv)
  have hproofsLt : proofsAddress given < 2 ^ 40 :=
    ((Nat.le_add_right _ _).trans (Nat.le_add_right _ _)).trans_lt hend
  refine ⟨hfield _ _ (by simp [headerFields]) (by decide) (by decide),
    hfield _ _ (by simp [headerFields]) (by decide) (by decide),
    hfield _ _ (by simp [headerFields]) (hcount.2.trans_lt (by decide)) (by decide),
    hfield _ _ (by simp [headerFields]) (by decide) (by decide),
    hfield _ _ (by simp [headerFields]) (hproofsLt.trans (by decide)) (by decide),
    hfield _ _ (by simp [headerFields])
      (((Nat.le_add_right _ _).trans_lt hend).trans (by decide)) (by decide), ?_, ?_, ?_⟩
  · have hindexed : Indexed (calculateBucketCount given.length) (given.map Prod.fst).zipIdx m₂ := by
      rw [← hentries]
      refine indexed_foldl hcount (indexed_nil fun k hk => ?_) ?_ hbounds
      · rw [← hempty, foldl_empty_load k hk]
      · rw [List.zipIdx_map_snd]
        exact List.nodup_range'
    refine hindexed.congr (fun e he => ?_) (fun a ha _ => hindex a ha) hfirst
    have := (hentry e he).2
    simp only [proofsAddress, entryAddress, BlobEntry.size]
    omega
  · have hrecorded : Recorded (proofsAddress given) (given.map Prod.snd).zipIdx m₃ := by
      rw [← hrecords]
      refine recorded_foldl ?_
      rw [List.zipIdx_map_snd]
      exact List.nodup_range'
    intro p hp
    have hlt : p.2 < given.length := by simpa using List.snd_lt_of_mem_zipIdx hp
    have hsame : ∀ f : StructField, f.Inside BlobRecord.size →
        m'.get (proofsAddress given + p.2 * BlobRecord.size) f =
          m₃.get (proofsAddress given + p.2 * BlobRecord.size) f := by
      intro f hf
      refine Memory.load_congr fun a ha => hbefore a ?_
      have := ha.2
      simp only [checksumAddress, BlobRecord.size, StructField.Inside] at *
      omega
    rw [hsame _ (by decide), hsame _ (by decide)]
    exact hrecorded p hp
  · have hdata : m'.bytes 0 (checksumAddress given) = m₃.bytes 0 (checksumAddress given) :=
      Memory.bytes_congr fun a ha => by rw [Nat.zero_add, hbefore a ha]
    rw [hdata, ← hmem]
    exact bytes_write m₃ _ _

end blob

end BlobBuilder

namespace ProofBlob

open BlobBuilder

/-! ## Reading it back -/

section generated

variable {given : List (ℕ × BlobProof)} {data : Image} {hash kind k i : ℕ}

/-- A file is the blob of some proofs. -/
structure IsBlob (given : List (ℕ × BlobProof)) (data : Image) : Prop where
  holds : HoldsBlob given data.cells
  size : data.size = checksumAddress given + blobChecksumSize

/-- What lies in the file is where its bytes are. -/
theorem IsBlob.get_mem (h : IsBlob given data) {base n : ℕ} {f : StructField} (hf : f.Inside n)
    (hbase : base + n ≤ checksumAddress given) : data.mem.get base f = data.cells.get base f := by
  have hlt := data.size_lt
  rw [h.size] at hlt
  refine Image.load_mem ?_
  simp only [StructField.Inside] at hf
  omega

theorem size_le_proofsAddress (given : List (ℕ × BlobProof)) :
    BlobHeader.size < proofsAddress given := by
  have := (calculateBucketCount_bounds given.length).1
  simp only [proofsAddress, entryAddress]
  omega

theorem proofsAddress_le (given : List (ℕ × BlobProof)) :
    proofsAddress given ≤ checksumAddress given :=
  Nat.le_add_right _ _

theorem IsBlob.header (h : IsBlob given data) {f : StructField} (hf : f.Inside BlobHeader.size) :
    data.header f = data.cells.get 0 f :=
  h.get_mem hf (by have := size_le_proofsAddress given; have := proofsAddress_le given; omega)

/-- A generated blob loads, and its checksum is right. -/
theorem IsBlob.load (h : IsBlob given data) (stack : ℕ → UInt8) :
    load stack (some data) true = (some { mapped data with verified := true }, .true) := by
  have hproofs := size_le_proofsAddress given
  have hchecksum := proofsAddress_le given
  have hlt := data.size_lt
  have hsize := h.size
  rw [hsize] at hlt
  have hoffset : data.header BlobHeader.checksumOffset = checksumAddress given :=
    (h.header (by decide)).trans h.holds.checksumOffset
  have hverify : ((mapped data).verify stack).value = .true := by
    have hdata : data.mem.get 0 BlobHeader.checksumOffset = checksumAddress given := hoffset
    simp only [verify, mapped, Logged.value_bind, Logged.value_pure, Image.value_read,
      Image.value_readBytes, hoffset, hdata, Nat.add_zero]
    have hbytes : data.mem.bytes 0 (checksumAddress given) =
        data.cells.bytes 0 (checksumAddress given) := Image.bytes_mem (by omega)
    have hexpected : data.mem.bytes (checksumAddress given) blobChecksumSize =
        data.cells.bytes (checksumAddress given) blobChecksumSize := Image.bytes_mem hlt.le
    simp only [hbytes, hexpected, blobSha256_eq, h.holds.checksum, if_true]
  have hend : u64 (checksumAddress given + blobChecksumSize) =
      checksumAddress given + blobChecksumSize := Nat.mod_eq_of_lt hlt
  simp only [ProofBlob.load, hverify, hoffset, hsize, hend,
    h.header (f := BlobHeader.magic) (by decide), h.header (f := BlobHeader.version) (by decide),
    h.header (f := BlobHeader.indexOffset) (by decide),
    h.header (f := BlobHeader.proofsOffset) (by decide), h.holds.magic, h.holds.version,
    h.holds.indexOffset, h.holds.proofsOffset]
  have hheader : ¬checksumAddress given + blobChecksumSize < BlobHeader.size := by omega
  have hindex : BlobHeader.size < checksumAddress given + blobChecksumSize := by omega
  have hrecords : proofsAddress given < checksumAddress given + blobChecksumSize :=
    Nat.lt_add_right_iff_pos.2 (by decide) |>.trans_le' hchecksum
  have hsome : blobChecksumSize ≠ 0 := by decide
  simp [hheader, hindex, hrecords, hsome]

theorem IsBlob.bucketCount (h : IsBlob given data) :
    (mapped data).bucketCount = calculateBucketCount given.length :=
  (h.header (by decide)).trans h.holds.bucketCount

/-- The entries are where they have been written. -/
theorem IsBlob.entry (h : IsBlob given data) (i : ℕ) :
    (mapped data).entry i = entryAddress (calculateBucketCount given.length) i := by
  have hoffset : data.header BlobHeader.indexOffset = BlobHeader.size :=
    (h.header (by decide)).trans h.holds.indexOffset
  have hcount : data.header BlobHeader.bucketCount = calculateBucketCount given.length :=
    h.bucketCount
  have hbound := (calculateBucketCount_bounds given.length).2
  have hsmall : u64 (BlobHeader.size + calculateBucketCount given.length * 4) =
      BlobHeader.size + calculateBucketCount given.length * 4 := by
    refine Nat.mod_eq_of_lt ?_
    simp only [BlobHeader.size]
    omega
  simp only [ProofBlob.entry, mapped, hoffset, hcount, hsmall, entryAddress]

theorem IsBlob.bucket (h : IsBlob given data) (hk : k < calculateBucketCount given.length) :
    (mapped data).bucket k = data.cells.load (bucketAddress k) 4 := by
  have hoffset : data.header BlobHeader.indexOffset = BlobHeader.size :=
    (h.header (by decide)).trans h.holds.indexOffset
  have hinside : BlobHeader.size + k * 4 + 4 ≤ checksumAddress given := by
    refine le_trans ?_ (proofsAddress_le given)
    simp only [proofsAddress, entryAddress]
    omega
  have hbucket : (mapped data).bucket k = data.mem.get (BlobHeader.size + k * 4) ⟨0, 4⟩ := by
    rw [ProofBlob.bucket, mapped, hoffset]
  rw [hbucket, h.get_mem (n := 4) (by decide) hinside]
  rfl

/-- A field of an entry. -/
theorem IsBlob.get_entry (h : IsBlob given data) (hi : i < given.length) {f : StructField}
    (hf : f.Inside BlobEntry.size) : data.mem.get ((mapped data).entry i) f =
      data.cells.get (entryAddress (calculateBucketCount given.length) i) f := by
  rw [h.entry]
  refine h.get_mem hf (le_trans ?_ (proofsAddress_le given))
  simp only [proofsAddress, entryAddress, BlobEntry.size]
  omega

/-- What the index and the records say of a proof. -/
theorem IsBlob.proof_eq (h : IsBlob given data) {x : (ℕ × BlobProof) × ℕ}
    (hx : x ∈ given.zipIdx) :
    (mapped data).codeHash x.2 = x.1.1 ∧ (mapped data).kindOf x.2 = x.1.2.kind.code ∧
      data.mem.get ((mapped data).record x.2) BlobRecord.status = x.1.2.status.code := by
  have hlt : x.2 < given.length := List.snd_lt_of_mem_zipIdx hx
  have hentry : (x.1.1, x.2) ∈ (given.map Prod.fst).zipIdx := by
    rw [List.zipIdx_map]
    exact List.mem_map_of_mem hx
  have hproof : (x.1.2, x.2) ∈ (given.map Prod.snd).zipIdx := by
    rw [List.zipIdx_map]
    exact List.mem_map_of_mem hx
  have hproofs : data.header BlobHeader.proofsOffset = proofsAddress given :=
    (h.header (by decide)).trans h.holds.proofsOffset
  have hrecord : (mapped data).record x.2 = proofsAddress given + x.2 * BlobRecord.size := by
    have hindex := h.holds.index.proofIndex (x.1.1, x.2) hentry
    rw [← h.get_entry hlt (by decide)] at hindex
    have hrecord : (mapped data).record x.2 =
        (mapped data).proof (data.mem.get ((mapped data).entry x.2) BlobEntry.proofIndex) := rfl
    rw [hrecord, hindex, ProofBlob.proof, mapped, hproofs]
  have hinside : proofsAddress given + x.2 * BlobRecord.size + BlobRecord.size ≤
      checksumAddress given := by
    simp only [checksumAddress, BlobRecord.size]
    omega
  obtain ⟨hkind, hstatus⟩ := h.holds.records _ hproof
  refine ⟨?_, ?_, ?_⟩
  · have hhash := h.holds.index.codeHash (x.1.1, x.2) hentry
    rw [← h.get_entry hlt (by decide)] at hhash
    exact hhash
  · rw [ProofBlob.kindOf, hrecord]
    exact (h.get_mem (by decide) hinside).trans hkind
  · rw [hrecord]
    exact (h.get_mem (by decide) hinside).trans hstatus

theorem IsBlob.answers_iff (h : IsBlob given data) {x : (ℕ × BlobProof) × ℕ}
    (hx : x ∈ given.zipIdx) :
    (mapped data).Answers hash kind x.2 ↔ x.1.1 = hash ∧ x.1.2.kind.code = kind := by
  obtain ⟨hhash, hkind, -⟩ := h.proof_eq hx
  rw [Answers, hhash, hkind]

/-- The entries of a bucket hang together. -/
theorem IsBlob.chain (h : IsBlob given data) (hk : k < calculateBucketCount given.length) :
    (mapped data).Chain ((mapped data).bucket k)
      (chainOf (calculateBucketCount given.length) (given.map Prod.fst).zipIdx k) := by
  rw [Chain, h.bucket hk]
  refine (h.holds.index.chains k hk).congr fun i hi => ?_
  obtain ⟨e, he, rfl⟩ := mem_chainOf hi
  have hlt : e.2 < given.length := by simpa using List.snd_lt_of_mem_zipIdx he
  rw [← h.get_entry hlt (by decide)]
  rfl

/-- The last of the proofs with a hash and a kind, with its number. -/
def lastWith (given : List (ℕ × BlobProof)) (hash kind : ℕ) : Option ((ℕ × BlobProof) × ℕ) :=
  given.zipIdx.reverse.find? fun x => x.1.1 = hash ∧ x.1.2.kind.code = kind

/-- Along the chain of its bucket, the first proof that answers is the last one that was given. -/
theorem IsBlob.find_chainOf (h : IsBlob given data) :
    (chainOf (calculateBucketCount given.length) (given.map Prod.fst).zipIdx
      (hash % calculateBucketCount given.length)).find?
        (fun i => (mapped data).Answers hash kind i) = (lastWith given hash kind).map Prod.snd := by
  rw [chainOf, List.zipIdx_map, List.filter_map, ← List.map_reverse, List.map_map, List.find?_map,
    ← List.filter_reverse, List.find?_filter]
  refine congrArg _ (List.find?_congr fun x hx => ?_)
  have hanswers : (mapped data).Answers hash kind x.2 ↔ x.1.1 = hash ∧ x.1.2.kind.code = kind :=
    h.answers_iff (List.mem_reverse.1 hx)
  by_cases hhash : x.1.1 = hash <;> simp [hhash, hanswers]

theorem length_chainOf_le (bucketCount : ℕ) (entries : List (ℕ × ℕ)) (k : ℕ) :
    (chainOf bucketCount entries k).length ≤ entries.length := by
  rw [chainOf, List.length_map, List.length_reverse]
  exact List.length_filter_le _ _

/-- A lookup in a generated blob. -/
theorem IsBlob.find (h : IsBlob given data) {blob : ProofBlob} (hsame : SameFile blob (mapped data))
    {fuel : ℕ} (hfuel : given.length < fuel) :
    (blob.find fuel hash kind).value =
      some ((lastWith given hash kind).map fun x => (mapped data).record x.2) := by
  have hcount := calculateBucketCount_bounds given.length
  have hmod := Nat.mod_lt hash hcount.1
  have hlong : (chainOf (calculateBucketCount given.length) (given.map Prod.fst).zipIdx
      (hash % calculateBucketCount given.length)).length < fuel :=
    (length_chainOf_le _ _ _).trans_lt (by simpa using hfuel)
  have hword : u32 (hash % calculateBucketCount given.length) =
      hash % calculateBucketCount given.length := Nat.mod_eq_of_lt (by omega)
  rw [find_congr hsame, value_find, h.bucketCount, if_neg hcount.1.ne', hword,
    value_walk_of_chain (h.chain hmod) hlong, h.find_chainOf, Option.map_map]
  rfl

/-- A query gives the status of what a lookup finds. -/
theorem value_query {blob : ProofBlob} {fuel : ℕ} {found : Option ℕ}
    (h : (blob.find fuel hash kind).value = some found) :
    ∃ blob', (blob.query fuel hash kind).value =
      some (blob', (found.map fun a => blob.header.mem.get a BlobRecord.status).getD
        ProofStatus.skipped.code) := by
  have hcongr := @find_congr blob { blob with queries := u64 (blob.queries + 1) } hash kind fuel
    ⟨rfl, rfl, rfl, rfl, rfl⟩
  unfold ProofBlob.query
  simp only [hcongr, Logged.value_bind, h]
  cases found with
  | none => exact ⟨_, rfl⟩
  | some a => exact ⟨_, rfl⟩

/-- The status that a query of a generated blob gives : that of the last proof with its hash and
kind. -/
theorem IsBlob.query (h : IsBlob given data) {blob : ProofBlob}
    (hsame : SameFile blob (mapped data)) {fuel : ℕ} (hfuel : given.length < fuel) :
    ∃ blob', (blob.query fuel hash kind).value =
      some (blob', ((lastWith given hash kind).map fun x => x.1.2.status.code).getD
        ProofStatus.skipped.code) := by
  have hfind : (blob.find fuel hash kind).value =
      some ((lastWith given hash kind).map fun x => (mapped data).record x.2) := h.find hsame hfuel
  obtain ⟨blob', hquery⟩ := value_query hfind
  refine ⟨blob', ?_⟩
  rw [hquery, Option.map_map]
  cases hlast : lastWith given hash kind with
  | none => rfl
  | some x =>
    have hx : x ∈ given.zipIdx := List.mem_reverse.1 (List.mem_of_find?_eq_some hlast)
    have hheader : blob.header = data := hsame.header
    rw [Option.map_some, Option.map_some, Function.comp_apply, hheader, (h.proof_eq hx).2.2]

end generated

end ProofBlob

/-! ## Whether it can be trusted -/

/-- The location hash of a proof of a table. -/
def BlobProof.locationHash (moduleHash : ℕ) (proof : BlobProof) : ℕ :=
  proofLocationHash moduleHash 0 proof.offset.toNat 0

/-- A proof has some location hash and kind. -/
def BlobProof.Concerns (moduleHash hash kind : ℕ) (proof : BlobProof) : Prop :=
  proof.locationHash moduleHash = hash ∧ proof.kind.code = kind

instance (moduleHash hash kind : ℕ) (proof : BlobProof) :
    Decidable (proof.Concerns moduleHash hash kind) :=
  inferInstanceAs (Decidable (_ ∧ _))

/-- A blob can be asked instead of the table : a query returns, says PROVEN only where every proof
that it concerns is proven, says SKIPPED just where there is none, and `seraph_proof_blob_get` finds
a record that says the same. -/
def ProofBlob.Trusted (moduleHash : ℕ) (table : List BlobProof) (blob : ProofBlob) : Prop :=
  ∀ hash kind, hash < 2 ^ 64 → kind < 2 ^ 32 → ∃ least, ∀ fuel > least, ∃ blob' status record,
    (blob.query fuel hash kind).value = some (blob', status) ∧
    (blob.get fuel hash kind).value = some record ∧
    (status = ProofStatus.proven.code →
      ∀ p ∈ table, p.Concerns moduleHash hash kind → p.status = .proven) ∧
    (status = ProofStatus.skipped.code ↔ ∀ p ∈ table, ¬p.Concerns moduleHash hash kind) ∧
    (record = none → status = ProofStatus.skipped.code) ∧
    ∀ a, record = some a → blob.header.mem.get a BlobRecord.kind = kind ∧
      blob.header.mem.get a BlobRecord.status = status

/-- The last proof of the table with its location hash and kind is not skipped, and where it is
proven all others with them are. -/
def LastSpeaks (moduleHash : ℕ) (table : List BlobProof) : Prop :=
  ∀ before p after, table = before ++ p :: after →
    (∀ q ∈ after, ¬q.Concerns moduleHash (p.locationHash moduleHash) p.kind.code) →
    p.status ≠ .skipped ∧ (p.status = .proven → ∀ q ∈ before,
      q.Concerns moduleHash (p.locationHash moduleHash) p.kind.code → q.status = .proven)

section trusted

variable {moduleHash hash kind : ℕ} {table : List BlobProof}

/-- The last proof of a table with a hash and a kind. -/
def lastConcerned (moduleHash : ℕ) (table : List BlobProof) (hash kind : ℕ) : Option BlobProof :=
  table.reverse.find? fun p => p.Concerns moduleHash hash kind

theorem lastConcerned_eq_some {p : BlobProof} :
    lastConcerned moduleHash table hash kind = some p ↔ p.Concerns moduleHash hash kind ∧
      ∃ before after, table = before ++ p :: after ∧
        ∀ q ∈ after, ¬q.Concerns moduleHash hash kind := by
  rw [lastConcerned, List.find?_eq_some_iff_append, decide_eq_true_iff]
  refine and_congr_right fun _ => ⟨?_, ?_⟩
  · rintro ⟨after, before, hsplit, hafter⟩
    refine ⟨before.reverse, after.reverse, ?_, fun q hq => ?_⟩
    · rw [← List.reverse_reverse table, hsplit]
      simp
    · simpa using hafter q (List.mem_reverse.1 hq)
  · rintro ⟨before, after, rfl, hafter⟩
    exact ⟨after.reverse, before.reverse, by simp, fun q hq => by
      simpa using hafter q (List.mem_reverse.1 hq)⟩

theorem lastConcerned_eq_none : lastConcerned moduleHash table hash kind = none ↔
    ∀ q ∈ table, ¬q.Concerns moduleHash hash kind := by
  rw [lastConcerned, List.find?_eq_none]
  exact ⟨fun h q hq => by simpa using h q (List.mem_reverse.2 hq),
    fun h q hq => by simpa using h q (List.mem_reverse.1 hq)⟩

/-- What the builder is given for a table. -/
def givenProofs (moduleHash : ℕ) (table : List BlobProof) : List (ℕ × BlobProof) :=
  table.map fun proof => (proof.locationHash moduleHash, proof)

theorem lastWith_fst {given : List (ℕ × BlobProof)} :
    (ProofBlob.lastWith given hash kind).map Prod.fst =
      given.reverse.find? fun p => p.1 = hash ∧ p.2.kind.code = kind := by
  conv_rhs => rw [← List.zipIdx_map_fst 0 given, ← List.map_reverse, List.find?_map]
  rfl

/-- The last proof that was given is the last one of the table. -/
theorem lastWith_givenProofs : (ProofBlob.lastWith (givenProofs moduleHash table) hash kind).map
    (fun x => x.1.2) = lastConcerned moduleHash table hash kind := by
  have htable : (givenProofs moduleHash table).reverse.find?
      (fun p => p.1 = hash ∧ p.2.kind.code = kind) =
      (lastConcerned moduleHash table hash kind).map fun p => (p.locationHash moduleHash, p) := by
    rw [givenProofs, ← List.map_reverse, List.find?_map, lastConcerned]
    refine congrArg _ (List.find?_congr fun p _ => ?_)
    rw [Function.comp_apply, Bool.eq_iff_iff, decide_eq_true_iff, decide_eq_true_iff]
    rfl
  have hlast := congrArg (Option.map Prod.snd) (lastWith_fst.trans htable)
  rw [Option.map_map, Option.map_map] at hlast
  exact hlast.trans Option.map_id'

theorem locationHash_lt (moduleHash : ℕ) (p : BlobProof) : p.locationHash moduleHash < 2 ^ 64 := by
  rw [BlobProof.locationHash, proofLocationHash, List.foldl_cons, List.foldl_cons, List.foldl_cons,
    List.foldl_cons, List.foldl_nil]
  exact u64_lt _

/-- What `seraph_proof_blob_generate` writes is the blob of the table. -/
theorem isBlob_of_generate {alloc : ℕ → ℕ → Bool} {stack : ℕ → UInt8} {generation capacity size : ℕ}
    {m m' : Memory} (hgenerate : proofBlobGenerate alloc stack generation (some m) capacity
      (some table) moduleHash = (size, some m')) (hsize : size ≠ 0) :
    ∃ hlt : size < 2 ^ 64, ProofBlob.IsBlob (givenProofs moduleHash table) ⟨m', size, hlt⟩ := by
  simp only [proofBlobGenerate] at hgenerate
  split at hgenerate
  · exact absurd (Prod.mk.inj hgenerate).1.symm hsize
  rename_i builder hbuilder
  have hfilled : BlobBuilder.Filled (some m) capacity (givenProofs moduleHash table) builder :=
    BlobBuilder.Filled.addAll (BlobProof.locationHash moduleHash) table
      (fun _ => BlobBuilder.filled_init) hbuilder
  have hhash : ∀ p ∈ givenProofs moduleHash table, p.1 < 2 ^ 64 := by
    intro p hp
    obtain ⟨proof, -, rfl⟩ := List.mem_map.1 hp
    exact locationHash_lt moduleHash proof
  obtain ⟨heq, hholds⟩ := hfilled.finalize hhash hsize hgenerate
  obtain ⟨k, hk, -, hlength⟩ := hfilled.room
  have hlt := BlobBuilder.checksumAddress_lt (hlength.trans (Nat.pow_le_pow_right (by decide) hk))
  exact ⟨heq ▸ hlt.trans (by decide), hholds, heq⟩

/-- The record that a lookup finds is that of the last proof. -/
theorem ProofBlob.IsBlob.record_of_last {given : List (ℕ × BlobProof)} {data : Image}
    (h : IsBlob given data) {x : (ℕ × BlobProof) × ℕ} (hx : lastWith given hash kind = some x) :
    data.mem.get ((mapped data).record x.2) BlobRecord.kind = kind ∧
      data.mem.get ((mapped data).record x.2) BlobRecord.status = x.1.2.status.code := by
  obtain ⟨-, hkind, hstatus⟩ := h.proof_eq (List.mem_reverse.1 (List.mem_of_find?_eq_some hx))
  have hfound := List.find?_some hx
  exact ⟨hkind.trans (of_decide_eq_true hfound).2, hstatus⟩

theorem statusCode_inj {s t : ProofStatus} (h : s.code = t.code) : s = t := by
  cases s <;> cases t <;> first | rfl | cases h

/-- The blob of a table can be trusted just where the last proofs speak for all. -/
theorem ProofBlob.IsBlob.trusted_iff {data : Image}
    (h : IsBlob (givenProofs moduleHash table) data) :
    ProofBlob.Trusted moduleHash table { mapped data with verified := true } ↔
      LastSpeaks moduleHash table := by
  have hsame : SameFile { mapped data with verified := true } (mapped data) :=
    ⟨rfl, rfl, rfl, rfl, rfl⟩
  constructor
  · intro htrusted before p after hsplit hafter
    have hlast := lastConcerned_eq_some.2 ⟨⟨rfl, rfl⟩, before, after, hsplit, hafter⟩
    have hkind : p.kind.code < 2 ^ 32 := (BlobBuilder.kindCode_lt p.kind).trans (by decide)
    obtain ⟨least, hcalls⟩ := htrusted _ _ (locationHash_lt moduleHash p) hkind
    obtain ⟨blob', status, record, hquery, -, hproven, hskipped, -⟩ :=
      hcalls (max least (givenProofs moduleHash table).length + 1) (by omega)
    obtain ⟨blob'', hstatus⟩ := @IsBlob.query _ _ (p.locationHash moduleHash) p.kind.code h _ hsame
      (max least (givenProofs moduleHash table).length + 1) (by omega)
    have hspoken : status = p.status.code := by
      rw [hquery] at hstatus
      have hmap := @lastWith_givenProofs moduleHash (p.locationHash moduleHash) p.kind.code table
      rw [hlast] at hmap
      obtain ⟨x, hx, rfl⟩ := Option.map_eq_some_iff.1 hmap
      rw [hx] at hstatus
      exact (Prod.mk.inj (Option.some.inj hstatus)).2
    have hmem : p ∈ table := hsplit ▸ List.mem_append_right _ List.mem_cons_self
    refine ⟨fun hskip => ?_, fun hprove q hq hconcerns => ?_⟩
    · exact hskipped.1 (by rw [hspoken, hskip]) p hmem ⟨rfl, rfl⟩
    · exact hproven (by rw [hspoken, hprove]) q (hsplit ▸ List.mem_append_left _ hq) hconcerns
  · intro hspeaks hash kind hhash hkind
    refine ⟨(givenProofs moduleHash table).length, fun fuel hfuel => ?_⟩
    obtain ⟨blob', hquery⟩ := @IsBlob.query _ _ hash kind h _ hsame fuel hfuel
    refine ⟨blob', _, _, hquery, h.find hsame hfuel, ?_⟩
    have hmap := @lastWith_givenProofs moduleHash hash kind table
    cases hlast : lastWith (givenProofs moduleHash table) hash kind with
    | none =>
      rw [hlast] at hmap
      have hnone := lastConcerned_eq_none.1 hmap.symm
      refine ⟨fun hcode => ?_, iff_of_true rfl hnone, fun _ => rfl, fun a ha => ?_⟩
      · exact absurd hcode (by decide)
      · cases ha
    | some x =>
      rw [hlast] at hmap
      obtain ⟨hconcerns, before, after, hsplit, hafter⟩ := lastConcerned_eq_some.1 hmap.symm
      have hboth := hspeaks before x.1.2 after hsplit (by rwa [hconcerns.1, hconcerns.2])
      rw [hconcerns.1, hconcerns.2] at hboth
      refine ⟨fun hcode p hp hp' => ?_, iff_of_false (fun hcode => ?_) fun hno => ?_,
        fun hnone => ?_, fun a ha => ?_⟩
      · have hproven : x.1.2.status = .proven := statusCode_inj hcode
        rw [hsplit, List.mem_append, List.mem_cons] at hp
        rcases hp with hp | rfl | hp
        · exact hboth.2 hproven p hp hp'
        · exact hproven
        · exact absurd hp' (hafter p hp)
      · exact hboth.1 (statusCode_inj hcode)
      · exact hno _ (hsplit ▸ List.mem_append_right _ List.mem_cons_self) hconcerns
      · cases hnone
      · cases ha
        exact h.record_of_last hlast

/-- A blob that has been generated loads with verification, and can be trusted just where the last
proof with each location hash and kind speaks for all of them. -/
theorem proofBlobGenerate_trusted_iff (alloc : ℕ → ℕ → Bool) (stack : ℕ → UInt8)
    (generation capacity size moduleHash : ℕ) (table : List BlobProof) (m m' : Memory)
    (hgenerate : proofBlobGenerate alloc stack generation (some m) capacity (some table)
      moduleHash = (size, some m')) (hsize : size ≠ 0) :
    (∀ stack', ∃ (hlt : size < 2 ^ 64) (blob : ProofBlob),
      ProofBlob.load stack' (some ⟨m', size, hlt⟩) true = (some blob, .true) ∧
        blob.Trusted moduleHash table) ↔ LastSpeaks moduleHash table := by
  obtain ⟨hlt, hblob⟩ := isBlob_of_generate hgenerate hsize
  constructor
  · intro h
    obtain ⟨_, blob, hload, htrusted⟩ := h fun _ => 0
    rw [hblob.load] at hload
    obtain rfl := Option.some.inj (Prod.mk.inj hload).1
    exact hblob.trusted_iff.1 htrusted
  · intro hspeaks stack'
    exact ⟨hlt, _, hblob.load stack', hblob.trusted_iff.2 hspeaks⟩

end trusted

/-! ## Two tables -/

/-- A proof at the start of a module that some value is not VOID. -/
def presenceProof (status : ProofStatus) : BlobProof :=
  ⟨.void, status, 0, 0, 0, 0, 0, 0, 0, 0, 0⟩

/-- The blob of a table of such proofs, with memory for everything. -/
def presenceBlob (statuses : List ProofStatus) : ℕ × Option Memory :=
  proofBlobGenerate (fun _ _ => true) (fun _ => 0) 0 (some fun _ => 0) 4096
    (some (statuses.map presenceProof)) 0

theorem presenceBlob_weakened : ∃ m, presenceBlob [.proven, .runtime] = (280, some m) := by
  obtain ⟨m, hm⟩ := Option.isSome_iff_exists.1
    (show (presenceBlob [.proven, .runtime]).2.isSome = true from rfl)
  exact ⟨m, Prod.ext rfl hm⟩

theorem presenceBlob_overlaid : ∃ m, presenceBlob [.runtime, .proven] = (280, some m) := by
  obtain ⟨m, hm⟩ := Option.isSome_iff_exists.1
    (show (presenceBlob [.runtime, .proven]).2.isSome = true from rfl)
  exact ⟨m, Prod.ext rfl hm⟩

/-- A value that has been proven once, and a later check at run time, which speaks for both. -/
theorem proofBlobGenerate_trusted_weakened :
    ∃ m, presenceBlob [.proven, .runtime] = (280, some m) ∧
      ∀ stack', ∃ (hlt : 280 < 2 ^ 64) (blob : ProofBlob),
        ProofBlob.load stack' (some ⟨m, 280, hlt⟩) true = (some blob, .true) ∧
          blob.Trusted 0 [presenceProof .proven, presenceProof .runtime] := by
  obtain ⟨m, hm⟩ := presenceBlob_weakened
  refine ⟨m, hm, (proofBlobGenerate_trusted_iff _ _ _ _ _ 0 _ _ m hm (by decide)).2 ?_⟩
  intro before p after hsplit hlast
  obtain ⟨rfl, h⟩ | ⟨rest, rfl, h⟩ := List.cons_eq_append_iff.1 hsplit
  · -- the second proof is at the same location
    obtain ⟨rfl, rfl⟩ := List.cons.inj h
    exact absurd ⟨rfl, rfl⟩ (hlast _ List.mem_cons_self)
  · obtain ⟨rfl, h⟩ | ⟨_, _, h⟩ := List.cons_eq_append_iff.1 h
    · obtain ⟨rfl, -⟩ := List.cons.inj h
      exact ⟨by decide, fun hproven => by cases hproven⟩
    · simp at h

/-- A check that has to be made at run time, and a later proof that covers it up. -/
theorem not_trusted_overlaid : ∃ m, presenceBlob [.runtime, .proven] = (280, some m) ∧
    ¬∀ stack', ∃ (hlt : 280 < 2 ^ 64) (blob : ProofBlob),
      ProofBlob.load stack' (some ⟨m, 280, hlt⟩) true = (some blob, .true) ∧
        blob.Trusted 0 [presenceProof .runtime, presenceProof .proven] := by
  obtain ⟨m, hm⟩ := presenceBlob_overlaid
  refine ⟨m, hm, fun h => ?_⟩
  obtain ⟨_, hblob⟩ := isBlob_of_generate hm (by decide)
  obtain ⟨_, blob, hload, htrusted⟩ := h fun _ => 0
  rw [hblob.load] at hload
  obtain rfl := Option.some.inj (Prod.mk.inj hload).1
  have hspeaks := hblob.trusted_iff.1 htrusted [presenceProof .runtime] (presenceProof .proven) []
    rfl fun q hq => by cases hq
  have hruntime := hspeaks.2 rfl (presenceProof .runtime) (List.mem_singleton_self _) ⟨rfl, rfl⟩
  cases hruntime

end Seraph
