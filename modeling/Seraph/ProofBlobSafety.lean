import Seraph.LinkedQueue
import Seraph.ProofBlob

/-!
# Blobs that anybody may have written

`seraph_proof_blob_load` looks at the header alone, and at the checksum, which anybody can compute.
The number of buckets, the links of the chains and the numbers of the proofs are as the file has them.
Its calls return without a read outside of the buffer just where these are right
(`load_robust_iff`).
-/

namespace Seraph

open ByteMem ReadLog

namespace ProofBlob

/-! ## Reads -/

section reads

variable {α : Type} (blob : ProofBlob)

/-- A field of a struct at `base` lies in the buffer. -/
def InBuffer (base : ℕ) (f : StructField) : Prop :=
  blob.header.Holds (u64 (base + f.off)) f.width

instance (base : ℕ) (f : StructField) : Decidable (blob.InBuffer base f) :=
  inferInstanceAs (Decidable (_ ≤ _))

/-- All that is read lies in the buffer. -/
def ReadsInside (m : Logged α) : Prop :=
  m.All fun r => blob.header.Holds r.start r.len

/-- A call returns, and all that it reads lies in the buffer. -/
def Returns (call : ℕ → Logged (Option α)) : Prop :=
  ∃ fuel, (call fuel).value.isSome = true ∧ blob.ReadsInside (call fuel)

variable {blob}

@[simp] theorem readsInside_pure (a : α) : blob.ReadsInside (pure a) :=
  Logged.all_pure a

@[simp] theorem readsInside_bind {β : Type} {m : Logged α} {f : α → Logged β} :
    blob.ReadsInside (m >>= f) ↔ blob.ReadsInside m ∧ blob.ReadsInside (f m.value) :=
  Logged.all_bind

@[simp] theorem readsInside_read {base : ℕ} {f : StructField} :
    blob.ReadsInside (blob.header.read base f) ↔ blob.InBuffer base f :=
  List.forall_mem_singleton

@[simp] theorem readsInside_readBytes {base : ℕ} {f : StructField} :
    blob.ReadsInside (blob.header.readBytes base f) ↔ blob.InBuffer base f :=
  List.forall_mem_singleton

/-- A loop whose rounds read the same whatever came before them. -/
theorem readsInside_foldlM {β : Type} {f : β → α → Logged β} {Q : α → Prop}
    (hf : ∀ b a, blob.ReadsInside (f b a) ↔ Q a) (as : List α) (b : β) :
    blob.ReadsInside (as.foldlM f b) ↔ ∀ a ∈ as, Q a := by
  induction as generalizing b with
  | nil => simp
  | cons a as ih => rw [List.foldlM_cons, readsInside_bind, hf, ih, List.forall_mem_cons]

end reads

/-! ## Chains -/

section chains

variable (blob : ProofBlob)

/-- The link that a number of an entry is. -/
def link (i : ℕ) : Option ℕ :=
  if i = blobEmptyBucket then none else some i

/-- `header->bucket_count`. -/
def bucketCount : ℕ :=
  blob.header.header BlobHeader.bucketCount

/-- `buckets[k]`. -/
def bucket (k : ℕ) : ℕ :=
  blob.header.mem.get (blob.buckets + k * 4) ⟨0, 4⟩

/-- `entries[i].code_hash`. -/
def codeHash (i : ℕ) : ℕ :=
  blob.header.mem.get (blob.entry i) BlobEntry.codeHash

/-- `entries[i].next`. -/
def next (i : ℕ) : ℕ :=
  blob.header.mem.get (blob.entry i) BlobEntry.next

/-- The proof of an entry. -/
def record (i : ℕ) : ℕ :=
  blob.proof (blob.header.mem.get (blob.entry i) BlobEntry.proofIndex)

/-- The kind of the proof of an entry. -/
def kindOf (i : ℕ) : ℕ :=
  blob.header.mem.get (blob.record i) BlobRecord.kind

/-- The entry answers a lookup. -/
def Answers (hash kind i : ℕ) : Prop :=
  blob.codeHash i = hash ∧ blob.kindOf i = kind

instance (hash kind i : ℕ) : Decidable (blob.Answers hash kind i) :=
  inferInstanceAs (Decidable (_ ∧ _))

/-- From a number on, the links go through the entries of the list and end. -/
def Chain (i : ℕ) (l : List ℕ) : Prop :=
  LinkedQueue.Path (fun e => link (blob.next e)) (link i) l none

variable {blob} {hash kind fuel i : ℕ} {l : List ℕ}

theorem walk_end : blob.walk hash kind (fuel + 1) blobEmptyBucket = pure (some none) := by
  rw [walk, if_pos rfl]

/-- What a round of the walk comes to. -/
theorem value_walk (hi : i ≠ blobEmptyBucket) :
    (blob.walk hash kind (fuel + 1) i).value =
      if blob.Answers hash kind i then some (some (blob.record i))
      else (blob.walk hash kind fuel (blob.next i)).value := by
  rw [walk, if_neg hi]
  by_cases hhash : blob.codeHash i = hash
  · by_cases hkind : blob.kindOf i = kind
    · rw [if_pos ⟨hhash, hkind⟩]
      rw [codeHash] at hhash
      rw [kindOf, record] at hkind
      simp [hhash, hkind, record]
    · rw [if_neg fun h => hkind h.2]
      rw [codeHash] at hhash
      rw [kindOf, record] at hkind
      simp [hhash, hkind, next]
  · rw [if_neg fun h => hhash h.1]
    rw [codeHash] at hhash
    simp [hhash, next]

/-- What a round of the walk reads. -/
theorem readsInside_walk (hi : i ≠ blobEmptyBucket) :
    blob.ReadsInside (blob.walk hash kind (fuel + 1) i) ↔
      blob.InBuffer (blob.entry i) BlobEntry.codeHash ∧
      (blob.codeHash i = hash → blob.InBuffer (blob.entry i) BlobEntry.proofIndex ∧
        blob.InBuffer (blob.record i) BlobRecord.kind) ∧
      (¬blob.Answers hash kind i → blob.InBuffer (blob.entry i) BlobEntry.next ∧
        blob.ReadsInside (blob.walk hash kind fuel (blob.next i))) := by
  rw [walk, if_neg hi]
  by_cases hhash : blob.codeHash i = hash
  · by_cases hkind : blob.kindOf i = kind
    · simp only [Answers, hhash, hkind]
      rw [codeHash] at hhash
      rw [kindOf, record] at hkind
      simp [hhash, hkind, record]
    · simp only [Answers, hhash, hkind]
      rw [codeHash] at hhash
      rw [kindOf, record] at hkind
      simp [hhash, hkind, record, next, and_assoc]
  · simp only [Answers, hhash]
    rw [codeHash] at hhash
    simp [hhash, next]

theorem link_eq_none : link i = none ↔ i = blobEmptyBucket := by
  simp [link]

theorem link_eq_some {e : ℕ} : link i = some e ↔ i ≠ blobEmptyBucket ∧ i = e := by
  simp [link]

/-- The walk along a chain finds the first entry that answers. -/
theorem value_walk_of_chain (h : blob.Chain i l) (hfuel : l.length < fuel) :
    (blob.walk hash kind fuel i).value =
      some ((l.find? fun e => blob.Answers hash kind e).map blob.record) := by
  induction l generalizing i fuel with
  | nil =>
    obtain ⟨fuel, rfl⟩ := Nat.exists_eq_add_of_lt hfuel
    rw [link_eq_none.1 h, List.length_nil, Nat.zero_add, walk_end]
    rfl
  | cons e l ih =>
    obtain ⟨hlink, hrest⟩ := h
    obtain ⟨hi, rfl⟩ := link_eq_some.1 hlink
    obtain ⟨fuel, rfl⟩ := Nat.exists_eq_add_of_lt (Nat.zero_lt_of_lt hfuel)
    rw [Nat.zero_add, value_walk hi]
    by_cases hanswers : blob.Answers hash kind i
    · simp [hanswers]
    · rw [if_neg hanswers, ih hrest (by simpa using hfuel)]
      simp [hanswers]

/-- What the walk along a chain reads : up to the first entry that answers, the entries and, where
the hash is theirs, the kinds of their proofs. -/
theorem readsInside_walk_of_chain (h : blob.Chain i l) (hfuel : l.length < fuel) :
    blob.ReadsInside (blob.walk hash kind fuel i) ↔
      ∀ before e after, l = before ++ e :: after → (∀ x ∈ before, ¬blob.Answers hash kind x) →
        blob.InBuffer (blob.entry e) BlobEntry.codeHash ∧
        (blob.codeHash e = hash → blob.InBuffer (blob.entry e) BlobEntry.proofIndex ∧
          blob.InBuffer (blob.record e) BlobRecord.kind) ∧
        (¬blob.Answers hash kind e → blob.InBuffer (blob.entry e) BlobEntry.next) := by
  induction l generalizing i fuel with
  | nil =>
    obtain ⟨fuel, rfl⟩ := Nat.exists_eq_add_of_lt hfuel
    rw [link_eq_none.1 h, List.length_nil, Nat.zero_add, walk_end]
    simp
  | cons e l ih =>
    obtain ⟨hlink, hrest⟩ := h
    obtain ⟨hi, rfl⟩ := link_eq_some.1 hlink
    obtain ⟨fuel, rfl⟩ := Nat.exists_eq_add_of_lt (Nat.zero_lt_of_lt hfuel)
    rw [Nat.zero_add, readsInside_walk hi, ih hrest (by simpa using hfuel)]
    constructor
    · rintro ⟨hcode, hrecord, hnext⟩ before x after hsplit hnot
      cases before with
      | nil =>
        obtain ⟨rfl, -⟩ := List.cons.inj hsplit
        exact ⟨hcode, hrecord, fun hno => (hnext hno).1⟩
      | cons y before =>
        obtain ⟨rfl, htail⟩ := List.cons.inj hsplit
        exact (hnext (hnot i List.mem_cons_self)).2 before x after htail fun z hz =>
          hnot z (List.mem_cons_of_mem _ hz)
    · intro hall
      obtain ⟨hcode, hrecord, hnext⟩ := hall [] i l rfl (by simp)
      refine ⟨hcode, hrecord, fun hno => ⟨hnext hno, fun before x after hsplit hnot => ?_⟩⟩
      refine hall (i :: before) x after (by rw [hsplit]; rfl) ?_
      simpa [hno] using hnot

/-- A walk that nothing answers and that ends has gone along a chain. -/
theorem chain_of_walk (hno : ∀ e, ¬blob.Answers hash kind e)
    (h : (blob.walk hash kind fuel i).value.isSome = true) : ∃ l, blob.Chain i l := by
  induction fuel generalizing i with
  | zero => cases h
  | succ fuel ih =>
    by_cases hi : i = blobEmptyBucket
    · exact ⟨[], link_eq_none.2 hi⟩
    · rw [value_walk hi, if_neg (hno i)] at h
      obtain ⟨l, hl⟩ := ih h
      exact ⟨i :: l, link_eq_some.2 ⟨hi, rfl⟩, hl⟩

/-- A walk that has ended goes no further with more fuel. -/
theorem walk_mono {fuel' : ℕ} (h : (blob.walk hash kind fuel i).value.isSome = true)
    (hle : fuel ≤ fuel') :
    (blob.walk hash kind fuel' i).value = (blob.walk hash kind fuel i).value ∧
      (blob.ReadsInside (blob.walk hash kind fuel i) →
        blob.ReadsInside (blob.walk hash kind fuel' i)) := by
  induction fuel generalizing i fuel' with
  | zero => cases h
  | succ fuel ih =>
    obtain ⟨fuel', rfl⟩ := Nat.exists_eq_add_of_le' (Nat.le_of_add_left_le hle)
    by_cases hi : i = blobEmptyBucket
    · rw [hi, walk_end, walk_end]
      exact ⟨rfl, id⟩
    · rw [value_walk hi] at h
      rw [value_walk hi, value_walk hi, readsInside_walk hi, readsInside_walk hi]
      by_cases hanswers : blob.Answers hash kind i
      · simp [hanswers]
      · rw [if_neg hanswers] at h
        obtain ⟨hvalue, hreads⟩ := ih h (Nat.le_of_succ_le_succ hle)
        rw [if_neg hanswers, if_neg hanswers]
        exact ⟨hvalue, fun ⟨hcode, hrecord, hnext⟩ =>
          ⟨hcode, hrecord, fun hno => ⟨(hnext hno).1, hreads (hnext hno).2⟩⟩⟩

end chains

/-! ## Calls -/

section calls

variable {blob blob' : ProofBlob} {hash kind fuel i : ℕ}

/-- Two blobs that differ in their counters at most. -/
structure SameFile (blob' blob : ProofBlob) : Prop where
  header : blob'.header = blob.header
  buckets : blob'.buckets = blob.buckets
  entries : blob'.entries = blob.entries
  proofs : blob'.proofs = blob.proofs
  checksum : blob'.checksum = blob.checksum

theorem walk_congr (h : SameFile blob' blob) :
    blob'.walk hash kind fuel i = blob.walk hash kind fuel i := by
  induction fuel generalizing i with
  | zero => rfl
  | succ fuel ih => simp only [walk, entry, proof, h.header, h.entries, h.proofs, ih]

theorem find_congr (h : SameFile blob' blob) :
    blob'.find fuel hash kind = blob.find fuel hash kind := by
  simp only [find, h.header, h.buckets, walk_congr h]

theorem value_find :
    (blob.find fuel hash kind).value =
      if blob.bucketCount = 0 then none
      else (blob.walk hash kind fuel (blob.bucket (u32 (hash % blob.bucketCount)))).value := by
  unfold find
  by_cases hzero : blob.bucketCount = 0
  · rw [if_pos hzero]
    rw [bucketCount, Image.header] at hzero
    simp [hzero]
  · rw [if_neg hzero]
    rw [bucketCount, Image.header] at hzero
    simp [hzero, bucketCount, bucket, Image.header]

theorem readsInside_find (hsize : BlobHeader.size ≤ blob.header.size) :
    blob.ReadsInside (blob.find fuel hash kind) ↔ (blob.bucketCount ≠ 0 →
      blob.InBuffer (blob.buckets + u32 (hash % blob.bucketCount) * 4) ⟨0, 4⟩ ∧
      blob.ReadsInside
        (blob.walk hash kind fuel (blob.bucket (u32 (hash % blob.bucketCount))))) := by
  have hcount : blob.InBuffer 0 BlobHeader.bucketCount := le_trans (by decide) hsize
  unfold find
  by_cases hzero : blob.bucketCount = 0
  · simp only [hzero]
    rw [bucketCount, Image.header] at hzero
    simp [hzero, hcount]
  · simp only [ne_eq, hzero]
    rw [bucketCount, Image.header] at hzero
    simp [hzero, hcount, bucketCount, bucket, Image.header]

/-- A query reads what the lookup reads, and the status of the proof that it finds. -/
theorem readsInside_query :
    blob.ReadsInside (blob.query fuel hash kind) ↔ blob.ReadsInside (blob.find fuel hash kind) ∧
      ∀ a, (blob.find fuel hash kind).value = some (some a) →
        blob.InBuffer a BlobRecord.status := by
  have hcongr := @find_congr blob { blob with queries := u64 (blob.queries + 1) } hash kind fuel
    ⟨rfl, rfl, rfl, rfl, rfl⟩
  unfold query
  simp only [hcongr, readsInside_bind]
  refine and_congr_right fun _ => ?_
  rcases (blob.find fuel hash kind).value with _ | _ | a
  · simp
  · simp
  · simp

theorem value_query_isSome :
    (blob.query fuel hash kind).value.isSome = (blob.find fuel hash kind).value.isSome := by
  have hcongr := @find_congr blob { blob with queries := u64 (blob.queries + 1) } hash kind fuel
    ⟨rfl, rfl, rfl, rfl, rfl⟩
  unfold query
  simp only [hcongr, Logged.value_bind]
  rcases (blob.find fuel hash kind).value with _ | _ | a <;> rfl

theorem readsInside_stats (hsize : BlobHeader.size ≤ blob.header.size) :
    blob.ReadsInside blob.stats ↔ ∀ i < blob.header.header BlobHeader.proofCount,
      blob.InBuffer (blob.proof i) BlobRecord.status := by
  have hcount : blob.InBuffer 0 BlobHeader.proofCount := le_trans (by decide) hsize
  unfold stats
  rw [readsInside_bind, readsInside_read, readsInside_foldlM
    (Q := fun i => blob.InBuffer (blob.proof i) BlobRecord.status) (fun _ _ => by simp)]
  simp [hcount, Image.header]

theorem readsInside_verify (hsize : BlobHeader.size ≤ blob.header.size) (stack : ℕ → UInt8) :
    blob.ReadsInside (blob.verify stack) ↔
      blob.InBuffer 0 ⟨0, blob.header.header BlobHeader.checksumOffset⟩ ∧
        blob.InBuffer blob.checksum ⟨0, blobChecksumSize⟩ := by
  have hoffset : blob.InBuffer 0 BlobHeader.checksumOffset := le_trans (by decide) hsize
  unfold verify
  simp [hoffset, Image.header]

end calls

/-! ## Every later call -/

variable {blob : ProofBlob}

/-- Blobs that calls leave of a blob : a query counts itself. -/
inductive Later : ProofBlob → ProofBlob → Prop where
  | refl (blob : ProofBlob) : Later blob blob
  | query {blob blob' blob'' : ProofBlob} {fuel hash kind status : ℕ} (h : Later blob blob')
    (hquery : (blob'.query fuel hash kind).value = some (blob'', status)) : Later blob blob''

/-- Every call returns without a read outside of the buffer. -/
structure Robust (blob : ProofBlob) : Prop where
  verify : ∀ stack, blob.ReadsInside (blob.verify stack)
  query : ∀ hash kind, hash < 2 ^ 64 → kind < 2 ^ 32 →
    blob.Returns fun fuel => blob.query fuel hash kind
  get : ∀ hash kind, hash < 2 ^ 64 → kind < 2 ^ 32 →
    blob.Returns fun fuel => blob.get fuel hash kind
  stats : blob.ReadsInside blob.stats

/-- The checksum and the proofs that are counted lie in the buffer, there are buckets, and from each
a chain of entries in the buffer ends. The proof of an entry that a lookup in this bucket may ask for
lies in the buffer too : its kind, and its status unless an earlier entry answers in its place. -/
structure WellFormed (blob : ProofBlob) : Prop where
  checksum : blob.InBuffer blob.checksum ⟨0, blobChecksumSize⟩
  proofs : ∀ i < blob.header.header BlobHeader.proofCount,
    blob.InBuffer (blob.proof i) BlobRecord.status
  bucketCount : blob.bucketCount ≠ 0
  buckets : ∀ k < blob.bucketCount, blob.InBuffer (blob.buckets + k * 4) ⟨0, 4⟩
  chains : ∀ k < blob.bucketCount, ∃ l, blob.Chain (blob.bucket k) l ∧
    ∀ before e after, l = before ++ e :: after →
      blob.InBuffer (blob.entry e) BlobEntry.codeHash ∧
      blob.InBuffer (blob.entry e) BlobEntry.next ∧
      (blob.codeHash e % blob.bucketCount = k →
        blob.InBuffer (blob.entry e) BlobEntry.proofIndex ∧
        blob.InBuffer (blob.record e) BlobRecord.kind ∧
        ((∀ x ∈ before, ¬blob.Answers (blob.codeHash e) (blob.kindOf e) x) →
          blob.InBuffer (blob.record e) BlobRecord.status))

theorem bucketCount_lt : blob.bucketCount < 2 ^ 32 :=
  Image.header_lt _ _

theorem codeHash_lt (i : ℕ) : blob.codeHash i < 2 ^ 64 :=
  Memory.get_lt _ _ _

theorem kindOf_lt (i : ℕ) : blob.kindOf i < 256 :=
  Memory.get_lt _ _ _

theorem u32_bucket (hcount : blob.bucketCount ≠ 0) (hash : ℕ) :
    u32 (hash % blob.bucketCount) = hash % blob.bucketCount :=
  Nat.mod_eq_of_lt ((Nat.mod_lt _ (Nat.pos_of_ne_zero hcount)).trans bucketCount_lt)

/-- What a query tells that returns from a bucket with buckets at all. -/
theorem Robust.walks (h : blob.Robust) (hsize : BlobHeader.size ≤ blob.header.size)
    (hcount : blob.bucketCount ≠ 0) {hash kind : ℕ} (hhash : hash < 2 ^ 64)
    (hkind : kind < 2 ^ 32) :
    ∃ fuel, (blob.walk hash kind fuel (blob.bucket (hash % blob.bucketCount))).value.isSome = true ∧
      blob.InBuffer (blob.buckets + hash % blob.bucketCount * 4) ⟨0, 4⟩ ∧
      blob.ReadsInside (blob.walk hash kind fuel (blob.bucket (hash % blob.bucketCount))) ∧
      ∀ a, (blob.walk hash kind fuel (blob.bucket (hash % blob.bucketCount))).value =
        some (some a) → blob.InBuffer a BlobRecord.status := by
  obtain ⟨fuel, hsome, hreads⟩ := h.query hash kind hhash hkind
  obtain ⟨hfind, hstatus⟩ := readsInside_query.1 hreads
  have hwalk := (readsInside_find hsize).1 hfind hcount
  rw [value_query_isSome, value_find, if_neg hcount] at hsome
  simp only [value_find, if_neg hcount] at hstatus
  rw [u32_bucket hcount] at hsome hwalk hstatus
  exact ⟨fuel, hsome, hwalk.1, hwalk.2, hstatus⟩

theorem Robust.bucketCount_ne_zero (h : blob.Robust) : blob.bucketCount ≠ 0 := by
  intro hzero
  obtain ⟨fuel, hsome, -⟩ := h.query 0 0 (by decide) (by decide)
  rw [value_query_isSome, value_find, if_pos hzero] at hsome
  cases hsome

theorem Robust.wellFormed (h : blob.Robust) (hsize : BlobHeader.size ≤ blob.header.size) :
    blob.WellFormed := by
  have hcount := h.bucketCount_ne_zero
  have hmod : ∀ k < blob.bucketCount, k % blob.bucketCount = k := fun k hk => Nat.mod_eq_of_lt hk
  have hlt : ∀ k < blob.bucketCount, k < 2 ^ 64 := fun k hk =>
    hk.trans (bucketCount_lt.trans (by decide))
  have h256 : 256 < 2 ^ 32 := by decide
  refine ⟨((readsInside_verify hsize fun _ => 0).1 (h.verify _)).2,
    (readsInside_stats hsize).1 h.stats, hcount, fun k hk => ?_, fun k hk => ?_⟩
  · obtain ⟨_, -, hbucket, -, -⟩ := h.walks hsize hcount (hlt k hk) h256
    rwa [hmod k hk] at hbucket
  -- a kind that no proof has : the walk goes to the end of the chain
  have hno : ∀ hash e, ¬blob.Answers hash 256 e := fun hash e he =>
    absurd he.2 (Nat.ne_of_lt (kindOf_lt e))
  obtain ⟨fuel, hsome, -, -, -⟩ := h.walks hsize hcount (hlt k hk) h256
  rw [hmod k hk] at hsome
  obtain ⟨l, hl⟩ := chain_of_walk (hno k) hsome
  have hreads : ∀ hash kind, hash < 2 ^ 64 → kind < 2 ^ 32 → hash % blob.bucketCount = k →
      (∀ before e after, l = before ++ e :: after → (∀ x ∈ before, ¬blob.Answers hash kind x) →
        blob.InBuffer (blob.entry e) BlobEntry.codeHash ∧
        (blob.codeHash e = hash → blob.InBuffer (blob.entry e) BlobEntry.proofIndex ∧
          blob.InBuffer (blob.record e) BlobRecord.kind) ∧
        (¬blob.Answers hash kind e → blob.InBuffer (blob.entry e) BlobEntry.next)) ∧
      ∀ a, (l.find? fun e => blob.Answers hash kind e).map blob.record = some a →
        blob.InBuffer a BlobRecord.status := by
    intro hash kind hhash hkind hmod
    obtain ⟨fuel, hsome, -, hinside, hstatus⟩ := h.walks hsize hcount hhash hkind
    rw [hmod] at hsome hinside hstatus
    have hlong : l.length < max fuel (l.length + 1) := Nat.le_max_right _ _
    obtain ⟨hvalue, hmore⟩ := walk_mono hsome (Nat.le_max_left fuel (l.length + 1))
    refine ⟨(readsInside_walk_of_chain hl hlong).1 (hmore hinside), fun a ha => hstatus a ?_⟩
    rw [← hvalue, value_walk_of_chain hl hlong, ha]
  refine ⟨l, hl, fun before e after hsplit => ?_⟩
  obtain ⟨hcode, -, hnext⟩ := (hreads k 256 (hlt k hk) (by decide) (hmod k hk)).1 before e after
    hsplit fun x _ => hno k x
  refine ⟨hcode, hnext (hno k e), fun hbucket => ?_⟩
  obtain ⟨-, hrecord, -⟩ := (hreads _ 256 (codeHash_lt e) (by decide) hbucket).1 before e after
    hsplit fun x _ => hno _ x
  refine ⟨(hrecord rfl).1, (hrecord rfl).2, fun hfirst => ?_⟩
  have hkind : blob.kindOf e < 2 ^ 32 := (kindOf_lt e).trans (by decide)
  refine (hreads _ _ (codeHash_lt e) hkind hbucket).2 _ ?_
  have hfind : (l.find? fun x => blob.Answers (blob.codeHash e) (blob.kindOf e) x) = some e :=
    List.find?_eq_some_iff_append.2 ⟨decide_eq_true ⟨rfl, rfl⟩, before, after, hsplit,
      fun x hx => by simpa using hfirst x hx⟩
  rw [hfind]
  rfl

theorem WellFormed.robust (h : blob.WellFormed) (hsize : BlobHeader.size ≤ blob.header.size)
    (hverify : blob.InBuffer 0 ⟨0, blob.header.header BlobHeader.checksumOffset⟩) :
    blob.Robust := by
  have hpos := Nat.pos_of_ne_zero h.bucketCount
  have hcall : ∀ hash kind, ∃ fuel, (blob.query fuel hash kind).value.isSome = true ∧
      blob.ReadsInside (blob.query fuel hash kind) := by
    intro hash kind
    obtain ⟨l, hl, hentries⟩ := h.chains _ (Nat.mod_lt hash hpos)
    have hvalue := @value_walk_of_chain blob hash kind _ _ _ hl (Nat.lt_succ_self _)
    have hfound : (blob.find (l.length + 1) hash kind).value =
        some ((l.find? fun e => blob.Answers hash kind e).map blob.record) := by
      rw [value_find, if_neg h.bucketCount, u32_bucket h.bucketCount, hvalue]
    refine ⟨l.length + 1, by rw [value_query_isSome, hfound]; rfl, readsInside_query.2 ⟨?_, ?_⟩⟩
    · refine (readsInside_find hsize).2 fun _ => ?_
      rw [u32_bucket h.bucketCount]
      refine ⟨h.buckets _ (Nat.mod_lt hash hpos), ?_⟩
      refine (readsInside_walk_of_chain hl (Nat.lt_succ_self _)).2
        fun before e after hsplit _ => ?_
      obtain ⟨hcode, hnext, hrecord⟩ := hentries before e after hsplit
      refine ⟨hcode, fun hhash => ?_, fun _ => hnext⟩
      obtain ⟨hindex, hkind, -⟩ := hrecord (by rw [hhash])
      exact ⟨hindex, hkind⟩
    · intro a ha
      rw [hfound] at ha
      obtain ⟨e, he, rfl⟩ := Option.map_eq_some_iff.1 (Option.some.inj ha)
      obtain ⟨hanswers, before, after, hsplit, hbefore⟩ := List.find?_eq_some_iff_append.1 he
      obtain ⟨-, -, hrecord⟩ := hentries before e after hsplit
      obtain ⟨hhash, hkind⟩ := of_decide_eq_true hanswers
      refine (hrecord (by rw [hhash])).2.2 fun x hx => ?_
      rw [hhash, hkind]
      simpa using hbefore x hx
  refine ⟨fun stack => (readsInside_verify hsize stack).2 ⟨hverify, h.checksum⟩,
    fun hash kind _ _ => hcall hash kind, fun hash kind _ _ => ?_,
    (readsInside_stats hsize).2 h.proofs⟩
  obtain ⟨fuel, hsome, hreads⟩ := hcall hash kind
  rw [value_query_isSome] at hsome
  exact ⟨fuel, hsome, (readsInside_query.1 hreads).1⟩

theorem SameFile.symm {blob' : ProofBlob} (h : SameFile blob' blob) : SameFile blob blob' :=
  ⟨h.header.symm, h.buckets.symm, h.entries.symm, h.proofs.symm, h.checksum.symm⟩

theorem SameFile.trans {blob' blob'' : ProofBlob} (h : SameFile blob'' blob')
    (h' : SameFile blob' blob) : SameFile blob'' blob :=
  ⟨h.header.trans h'.header, h.buckets.trans h'.buckets, h.entries.trans h'.entries,
    h.proofs.trans h'.proofs, h.checksum.trans h'.checksum⟩

theorem sameFile_query {blob' : ProofBlob} {fuel hash kind status : ℕ}
    (h : (blob.query fuel hash kind).value = some (blob', status)) : SameFile blob' blob := by
  unfold query at h
  simp only [Logged.value_bind] at h
  split at h
  · cases h
  · obtain ⟨rfl, -⟩ := Prod.mk.inj (Option.some.inj h)
    exact ⟨rfl, rfl, rfl, rfl, rfl⟩
  · obtain ⟨rfl, -⟩ := Prod.mk.inj (Option.some.inj h)
    exact ⟨rfl, rfl, rfl, rfl, rfl⟩

theorem Later.sameFile {blob' : ProofBlob} (h : Later blob blob') : SameFile blob' blob := by
  induction h with
  | refl => exact ⟨rfl, rfl, rfl, rfl, rfl⟩
  | query _ hquery ih => exact (sameFile_query hquery).trans ih

theorem WellFormed.congr {blob' : ProofBlob} (h : blob.WellFormed) (hsame : SameFile blob' blob) :
    blob'.WellFormed := by
  obtain ⟨header, buckets, entries, proofs, checksum, _, _, _, _⟩ := blob
  obtain ⟨header', buckets', entries', proofs', checksum', _, _, _, _⟩ := blob'
  obtain ⟨rfl, rfl, rfl, rfl, rfl⟩ := hsame
  exact ⟨h.checksum, h.proofs, h.bucketCount, h.buckets, h.chains⟩

/-- What a load has looked at. -/
theorem load_cases {stack : ℕ → UInt8} {data : Image} {verified : Bool}
    (h : load stack (some data) verified = (some blob, .true)) :
    BlobHeader.size ≤ data.size ∧ data.header BlobHeader.checksumOffset < data.size ∧
      SameFile blob (mapped data) := by
  simp only [load] at h
  split at h
  · cases h
  rename_i hsize
  split at h
  · cases h
  split at h
  · cases h
  split at h
  · cases h
  rename_i hoffsets
  have hchecksum : data.header BlobHeader.checksumOffset < data.size :=
    not_le.1 fun hle => hoffsets (Or.inr (Or.inr hle))
  refine ⟨not_lt.1 hsize, hchecksum, ?_⟩
  split at h
  · cases h
  split at h
  · split at h
    · cases h
    · cases h
      exact ⟨rfl, rfl, rfl, rfl, rfl⟩
  · cases h
    exact ⟨rfl, rfl, rfl, rfl, rfl⟩

/-- The calls of a blob that is loaded return without a read outside of the buffer just where the
blob is well formed. -/
theorem load_robust_iff (stack : ℕ → UInt8) (data : Image) (verified : Bool) (blob : ProofBlob)
    (hload : load stack (some data) verified = (some blob, .true)) :
    (∀ blob', Later blob blob' → blob'.Robust) ↔ (mapped data).WellFormed := by
  obtain ⟨hsize, hchecksum, hmapped⟩ := load_cases hload
  constructor
  · intro h
    have hrobust := h blob (.refl blob)
    exact (hrobust.wellFormed (hmapped.header ▸ hsize)).congr hmapped.symm
  · intro h blob' hlater
    have hsame := hlater.sameFile.trans hmapped
    have hheader : blob'.header = data := hsame.header
    refine (h.congr hsame).robust (hheader ▸ hsize) ?_
    rw [InBuffer, hheader, Image.Holds]
    have hzero : u64 (0 + 0) = 0 := rfl
    simpa [hzero] using hchecksum.le

/-- A blob of two proofs, both reached from the one bucket. -/
def paired : Image where
  cells := Memory.assign (fun _ => 0xFF) 0
    [(BlobHeader.magic, blobMagic), (BlobHeader.version, blobVersion), (BlobHeader.proofCount, 2),
      (BlobHeader.bucketCount, 1), (BlobHeader.indexOffset, 72), (BlobHeader.proofsOffset, 108),
      (BlobHeader.checksumOffset, 188), (⟨72, 4⟩, 0), (⟨84, 4⟩, 0), (⟨88, 4⟩, 1), (⟨100, 4⟩, 1)]
  size := 220
  size_lt := by decide

theorem wellFormed_paired : (mapped paired).WellFormed := by
  refine ⟨by decide, fun i hi => ?_, by decide, fun k hk => ?_, fun k hk => ⟨[0, 1], ?_, ?_⟩⟩
  · have hcount : (mapped paired).header.header BlobHeader.proofCount = 2 := by decide
    rw [hcount] at hi
    obtain rfl | rfl : i = 0 ∨ i = 1 := by omega
    · decide
    · decide
  · obtain rfl : k = 0 := Nat.lt_one_iff.1 hk
    decide
  · obtain rfl : k = 0 := Nat.lt_one_iff.1 hk
    exact ⟨by decide, by decide, link_eq_none.2 (by decide)⟩
  · intro before e after hsplit
    have hmem : e ∈ [0, 1] := hsplit ▸ List.mem_append_right _ List.mem_cons_self
    obtain rfl | rfl : e = 0 ∨ e = 1 := by simpa using hmem
    · exact ⟨by decide, by decide, fun _ => ⟨by decide, by decide, fun _ => by decide⟩⟩
    · exact ⟨by decide, by decide, fun _ => ⟨by decide, by decide, fun _ => by decide⟩⟩

/-- A chain of two entries that ends. -/
theorem load_robust_paired :
    load (fun _ => 0) (some paired) false = (some (mapped paired), .true) ∧
      ∀ blob', Later (mapped paired) blob' → blob'.Robust :=
  ⟨rfl, (load_robust_iff (fun _ => 0) paired false _ rfl).2 wellFormed_paired⟩

/-- A blob without proofs, all of whose buckets are empty. -/
def bare (bucketCount : ℕ) : Image where
  cells := Memory.assign (fun _ => 0xFF) 0
    [(BlobHeader.magic, blobMagic), (BlobHeader.version, blobVersion), (BlobHeader.proofCount, 0),
      (BlobHeader.bucketCount, bucketCount), (BlobHeader.indexOffset, 72),
      (BlobHeader.proofsOffset, 76), (BlobHeader.checksumOffset, 76)]
  size := 108
  size_lt := by decide

/-- Without a bucket every lookup divides by zero. -/
theorem not_robust_bare : load (fun _ => 0) (some (bare 0)) false = (some (mapped (bare 0)), .true) ∧
    ¬(mapped (bare 0)).Robust :=
  ⟨rfl, fun h => h.bucketCount_ne_zero (by decide)⟩

end ProofBlob

end Seraph
