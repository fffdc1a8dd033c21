import Seraph.Hashing

/-!
# The hash functions agree

The three contexts hold the state and the rest of what they have seen (`Seen`), whatever the pieces
were, and the two ways to pad, in a buffer of two blocks and in the buffer of the context, both end
in the blocks of `Sha256.pad` (`sha256Final_eq`, `finalInBuffer_eq`).
-/

namespace Seraph

open BlockStream
open Sha256 (Words bytesAt compress initial lengthByte pad padZeros reads_compress schedule
  roundConstants smallSigma0 smallSigma1 word)

/-! ## One block -/

/-- The words of the array that are there after `n` rounds. -/
theorem messageSchedule_rounds (block : ℕ → UInt8) (n : ℕ) :
    let w := (List.range' 16 n).foldl
      (fun w i => w ++ [smallSigma1 (w.getD (i - 2) 0) + w.getD (i - 7) 0 +
        smallSigma0 (w.getD (i - 15) 0) + w.getD (i - 16) 0])
      ((List.range 16).map fun i => word block (i * 4))
    w.length = 16 + n ∧ ∀ t < 16 + n, w.getD t 0 = schedule block t := by
  induction n with
  | zero =>
    refine ⟨rfl, fun t ht => ?_⟩
    rw [Sha256.schedule_lt block ht]
    simp [List.getD_eq_getElem?_getD, List.getElem?_range ht]
  | succ n ih =>
    obtain ⟨hlen, hget⟩ := ih
    rw [List.range'_1_concat, List.foldl_append]
    generalize (List.range' 16 n).foldl _ _ = w at hlen hget
    refine ⟨by simp [hlen, Nat.add_assoc], fun t ht => ?_⟩
    rcases (by omega : t < 16 + n ∨ t = 16 + n) with hlt | rfl
    · have happ : (w ++ [smallSigma1 (w.getD (16 + n - 2) 0) + w.getD (16 + n - 7) 0 +
          smallSigma0 (w.getD (16 + n - 15) 0) + w.getD (16 + n - 16) 0]).getD t 0 = w.getD t 0 :=
        List.getD_append _ _ _ _ (by omega)
      exact happ.trans (hget t hlt)
    · have happ : ∀ x, (w ++ [x]).getD (16 + n) 0 = x := fun x => by
        rw [List.getD_append_right _ _ _ _ (by omega), hlen, Nat.sub_self]
        rfl
      refine (happ _).trans ?_
      rw [Sha256.schedule_ge block (by omega), hget _ (by omega), hget _ (by omega),
        hget _ (by omega), hget _ (by omega)]

theorem sha256Transform_eq : sha256Transform = compress := by
  funext s block
  have hword : ∀ t ∈ List.range 64, (messageSchedule block).getD t 0 = schedule block t :=
    fun t ht => (messageSchedule_rounds block 48).2 t (List.mem_range.1 ht)
  unfold sha256Transform compress
  generalize List.range 64 = rounds at hword
  exact congrArg s.add (List.foldl_ext _ _ _ fun v t ht => by rw [hword t ht])

/-! ## Lengths -/

/-- What the counter of bits says of the place in the buffer. -/
theorem count_fill (n : ℕ) : u64 (n * 8) / 8 % 64 = n % 64 := by
  unfold u64
  omega

theorem count_add (n m : ℕ) : u64 (u64 (n * 8) + u64 (m * 8)) = u64 ((n + m) * 8) := by
  unfold u64
  omega

/-- The bytes of a length are those of the counter. -/
theorem lengthByte_u64 (n i : ℕ) : lengthByte (u64 n) i = lengthByte n i := by
  obtain ⟨k, hk⟩ : ∃ k, 64 - (56 - 8 * i) = 8 + k := ⟨8 * min i 7, by omega⟩
  have hpow : (2 : ℕ) ^ 64 = 2 ^ (56 - 8 * i) * 2 ^ (64 - (56 - 8 * i)) := by
    rw [← pow_add]
    congr 1
    omega
  have hdvd : 2 ^ 8 ∣ 2 ^ (64 - (56 - 8 * i)) := by
    rw [hk, pow_add]
    exact Nat.dvd_mul_right _ _
  have hbits : u64 n >>> (56 - 8 * i) % 2 ^ 8 = n >>> (56 - 8 * i) % 2 ^ 8 := by
    rw [Nat.shiftRight_eq_div_pow, Nat.shiftRight_eq_div_pow, u64, hpow,
      Nat.mod_mul_right_div_self, Nat.mod_mod_of_dvd _ hdvd]
  rw [lengthByte, lengthByte, ← UInt8.toNat_inj, UInt8.toNat_ofNat', UInt8.toNat_ofNat', hbits]

/-! ## Contexts -/

/-- The context has seen this message. -/
def Seen (m : List UInt8) (ctx : HashContext) : Prop :=
  Holds compress 64 initial (bytesAt m) m.length ctx.state ctx.buffer

theorem bytesAt_append_left {m d : List UInt8} {i : ℕ} (h : i < m.length) :
    bytesAt m i = bytesAt (m ++ d) i :=
  (List.getD_append _ _ _ _ h).symm

theorem bytesAt_append_right (m d : List UInt8) (j : ℕ) :
    bytesAt d j = bytesAt (m ++ d) (m.length + j) := by
  rw [bytesAt, bytesAt, List.getD_append_right _ _ _ _ (by omega), Nat.add_sub_cancel_left]

theorem bytesAt_drop (m : List UInt8) (k : ℕ) :
    bytesAt (m.drop k) = fun j => bytesAt m (k + j) := by
  funext j
  simp only [bytesAt, List.getD_eq_getElem?_getD, List.getElem?_drop]

theorem seen_nil (s : Words) (hs : s = initial) (count : ℕ) (buffer : ℕ → UInt8) :
    Seen [] ⟨s, count, buffer⟩ :=
  hs ▸ Holds.empty compress 64 initial (bytesAt []) buffer

/-- A piece that follows the message. -/
theorem Seen.append {m : List UInt8} {ctx : HashContext} (h : Seen m ctx) (d : List UInt8) :
    Holds compress 64 initial (bytesAt (m ++ d)) m.length ctx.state ctx.buffer :=
  Holds.congr reads_compress h fun _ hi => bytesAt_append_left hi

/-- The loop over whole blocks. -/
theorem sha256Round_loop (fuel : ℕ) (s : Words) (input : List UInt8) (h : input.length < fuel) :
    Loops.loop sha256Round fuel (s, input) =
      (absorb compress 64 s (bytesAt input) (input.length / 64),
        input.drop (input.length / 64 * 64)) := by
  induction fuel generalizing s input with
  | zero => omega
  | succ fuel ih =>
    by_cases hlen : input.length ≥ 64
    · have hround : sha256Round (s, input) =
          some (compress s (bytesAt input), input.drop 64) := by
        rw [sha256Round, if_pos hlen, sha256Transform_eq]
      have hrest : (input.drop 64).length = input.length - 64 := List.length_drop
      have hdiv : input.length / 64 = (input.length - 64) / 64 + 1 := by omega
      rw [Loops.loop_of_some hround, ih _ _ (by omega), hrest, bytesAt_drop, List.drop_drop, hdiv,
        absorb_succ', Nat.succ_mul, Nat.add_comm 64]
    · have hround : sha256Round (s, input) = none := if_neg hlen
      have hdiv : input.length / 64 = 0 := Nat.div_eq_of_lt (by omega)
      rw [Loops.loop_of_none hround, hdiv, Nat.zero_mul, List.drop_zero]
      rfl

/-- `Holds` where the message ends with the input. -/
theorem sha256Blocks_holds (ctx : HashContext) (input : List UInt8) {msg : ℕ → UInt8} {len : ℕ}
    (h : Holds compress 64 initial msg len ctx.state ctx.buffer) (hmod : len % 64 = 0)
    (hin : ∀ j < input.length, bytesAt input j = msg (len + j)) :
    Holds compress 64 initial msg (len + input.length) (sha256Blocks ctx input).state
      (sha256Blocks ctx input).buffer := by
  have hinput := h.input reads_compress hin hmod (by omega)
  have hlen : (input.drop (input.length / 64 * 64)).length = input.length % 64 := by
    rw [List.length_drop]
    omega
  rw [sha256Blocks, sha256Round_loop _ _ _ (Nat.lt_succ_self _)]
  simp only [hlen, bytesAt_drop]
  by_cases hrest : input.length % 64 > 0
  · rwa [if_pos hrest]
  · have hzero : input.length % 64 = 0 := by omega
    rw [if_neg hrest]
    rwa [hzero, put_zero] at hinput

/-- `sha256_update`. -/
theorem sha256Update_seen {m d : List UInt8} {ctx : HashContext} (h : Seen m ctx)
    (hcount : ctx.count = u64 (m.length * 8)) :
    Seen (m ++ d) (sha256Update ctx d) ∧
      (sha256Update ctx d).count = u64 ((m ++ d).length * 8) := by
  have hmsg : ∀ j < d.length, bytesAt d j = bytesAt (m ++ d) (m.length + j) :=
    fun j _ => bytesAt_append_right m d j
  have happ := h.append d
  have hlen : u64 (ctx.count + u64 (d.length * 8)) = u64 ((m ++ d).length * 8) := by
    rw [hcount, count_add, List.length_append]
  have hfill : ctx.count / 8 % 64 = m.length % 64 := by rw [hcount, count_fill]
  unfold sha256Update Seen
  rw [List.length_append] at hlen ⊢
  dsimp only
  rw [hfill, hlen]
  by_cases hd : d.length = 0
  · rw [if_pos hd, hd]
    exact ⟨happ, hcount⟩
  rw [if_neg hd]
  by_cases hpart : m.length % 64 > 0
  · rw [if_pos hpart]
    by_cases hneed : d.length ≥ 64 - m.length % 64
    · rw [if_pos hneed]
      obtain ⟨c, hc⟩ : ∃ c, c = 64 - m.length % 64 := ⟨_, rfl⟩
      have hfull := happ.complete reads_compress (c := c) (fun j hj => hmsg j (by omega))
        (by omega) (by omega) (put ctx.buffer (m.length % 64) (bytesAt d) c)
      have hdrop : (d.drop c).length = d.length - c := List.length_drop
      have hblocks := sha256Blocks_holds ⟨_, u64 ((m.length + d.length) * 8), _⟩ (d.drop c) hfull
        (by omega) fun j hj => by
          rw [bytesAt_drop]
          exact (hmsg (c + j) (by omega)).trans (by rw [Nat.add_assoc])
      have hsum : m.length + c + (d.drop c).length = m.length + d.length := by omega
      rw [hsum] at hblocks
      rw [sha256Transform_eq, ← hc]
      exact ⟨hblocks, rfl⟩
    · rw [if_neg hneed]
      exact ⟨happ.copy hmsg (by omega), rfl⟩
  · rw [if_neg hpart]
    exact ⟨sha256Blocks_holds { ctx with count := _ } d happ (by omega) hmsg, rfl⟩

/-- What the loop of `aether_sha256_update` has taken from its input. -/
structure Filled (msg : ℕ → UInt8) (len : ℕ) (d : List UInt8) (s : AetherFill) : Prop where
  le : s.bytes.length ≤ d.length
  bytes : s.bytes = d.drop (d.length - s.bytes.length)
  bufIdx : s.bufIdx = (len + (d.length - s.bytes.length)) % 64
  holds : Holds compress 64 initial msg (len + (d.length - s.bytes.length)) s.state s.buffer

theorem Filled.round {msg : ℕ → UInt8} {len : ℕ} {d : List UInt8} {s t : AetherFill}
    (h : Filled msg len d s) (hmsg : ∀ j < d.length, bytesAt d j = msg (len + j))
    (hround : aetherFillRound s = some t) :
    Filled msg len d t ∧ t.bytes.length < s.bytes.length := by
  obtain ⟨hle, hbytes, hidx, hholds⟩ := h
  unfold aetherFillRound at hround
  split at hround
  · next hpos =>
    obtain ⟨c, hc⟩ : ∃ c, c =
      if 64 - s.bufIdx > s.bytes.length then s.bytes.length else 64 - s.bufIdx := ⟨_, rfl⟩
    dsimp only at hround
    rw [← hc, sha256Transform_eq] at hround
    have hlt : s.bufIdx < 64 := hidx ▸ Nat.mod_lt _ (by omega)
    have hcle : c ≤ s.bytes.length ∧ c ≤ 64 - s.bufIdx ∧ 0 < c := by
      rw [hc]
      split <;> omega
    obtain ⟨k, hk⟩ : ∃ k, k = d.length - s.bytes.length := ⟨_, rfl⟩
    rw [← hk] at hbytes hidx hholds
    have hsrc : ∀ j < c, bytesAt s.bytes j = msg (len + k + j) := fun j hj => by
      rw [hbytes, bytesAt_drop]
      exact (hmsg (k + j) (by omega)).trans (by rw [Nat.add_assoc])
    have hlength : (s.bytes.drop c).length = s.bytes.length - c := List.length_drop
    have hseen : d.length - (s.bytes.drop c).length = k + c := by omega
    have hrest : s.bytes.drop c = d.drop (d.length - (s.bytes.drop c).length) := by
      rw [hseen, ← List.drop_drop, ← hbytes]
    split at hround
    · next hfull =>
      cases hround
      refine ⟨⟨?_, hrest, ?_, ?_⟩, ?_⟩
      · exact hlength ▸ by omega
      · rw [hseen]
        dsimp only
        omega
      · rw [hseen, ← Nat.add_assoc, hidx]
        exact hholds.complete reads_compress hsrc (by omega) (by omega) _
      · exact hlength ▸ by omega
    · next hfull =>
      cases hround
      refine ⟨⟨?_, hrest, ?_, ?_⟩, ?_⟩
      · exact hlength ▸ by omega
      · rw [hseen]
        dsimp only
        omega
      · rw [hseen, ← Nat.add_assoc, hidx]
        exact hholds.copy hsrc (by omega)
      · exact hlength ▸ by omega
  · cases hround

/-- `aether_sha256_update`. -/
theorem aetherSha256Update_seen {m d : List UInt8} {ctx : HashContext} (h : Seen m ctx)
    (hcount : ctx.count = u64 (m.length * 8)) :
    Seen (m ++ d) (aetherSha256Update ctx d) ∧
      (aetherSha256Update ctx d).count = u64 ((m ++ d).length * 8) := by
  have hmsg : ∀ j < d.length, bytesAt d j = bytesAt (m ++ d) (m.length + j) :=
    fun j _ => bytesAt_append_right m d j
  have happ := h.append d
  unfold aetherSha256Update Seen
  rw [List.length_append]
  by_cases hd : d.length = 0
  · rw [if_pos hd, hd]
    exact ⟨happ, hcount⟩
  rw [if_neg hd]
  have hstart : Filled (bytesAt (m ++ d)) m.length d
      ⟨ctx.state, ctx.buffer, ctx.count / 8 % 64, d⟩ := by
    refine ⟨le_refl _, ?_, ?_, ?_⟩
    · rw [Nat.sub_self, List.drop_zero]
    · rw [Nat.sub_self, Nat.add_zero, hcount, count_fill]
    · rw [Nat.sub_self, Nat.add_zero]
      exact happ
  obtain ⟨hfilled, -, hdone⟩ := Loops.loop_spec (f := fun s : AetherFill => s.bytes.length)
    (fun s t hs hround => hs.round hmsg hround) hstart (Nat.lt_succ_self _)
  generalize Loops.loop aetherFillRound (d.length + 1) _ = s at hfilled hdone
  have hnil : s.bytes.length = 0 := by
    by_contra hne
    have hpos : s.bytes.length > 0 := Nat.pos_of_ne_zero hne
    simp only [aetherFillRound] at hdone
    split_ifs at hdone
  have hholds := hfilled.holds
  rw [hnil, Nat.sub_zero] at hholds
  exact ⟨hholds, by rw [hcount, count_add]⟩

/-- The loop over whole blocks of `proof_blob.c`. -/
theorem proofSha256Round_loop (data : List UInt8) (fuel : ℕ) (s : Words) (i : ℕ)
    (hi : i ≤ data.length) (h : data.length - i < fuel) :
    Loops.loop (proofSha256Round data) fuel (s, i) =
      (absorb compress 64 s (fun j => bytesAt data (i + j)) ((data.length - i) / 64),
        i + (data.length - i) / 64 * 64) := by
  induction fuel generalizing s i with
  | zero => omega
  | succ fuel ih =>
    by_cases hlen : i + 64 ≤ data.length
    · have hround : proofSha256Round data (s, i) =
          some (compress s fun j => bytesAt data (i + j), i + 64) := by
        rw [proofSha256Round, if_pos hlen, sha256Transform_eq]
      have hdiv : (data.length - i) / 64 = (data.length - (i + 64)) / 64 + 1 := by omega
      rw [Loops.loop_of_some hround, ih _ _ hlen (by omega), hdiv, absorb_succ', Nat.succ_mul]
      simp only [Nat.add_assoc, Nat.add_comm 64]
    · have hround : proofSha256Round data (s, i) = none := if_neg hlen
      have hdiv : (data.length - i) / 64 = 0 := Nat.div_eq_of_lt (by omega)
      rw [Loops.loop_of_none hround, hdiv, Nat.zero_mul, Nat.add_zero]
      rfl

theorem proofSha256Blocks_holds (ctx : HashContext) (data : List UInt8) {msg : ℕ → UInt8}
    {len i : ℕ} (h : Holds compress 64 initial msg len ctx.state ctx.buffer) (hmod : len % 64 = 0)
    (hi : i ≤ data.length)
    (hin : ∀ j < data.length - i, bytesAt data (i + j) = msg (len + j)) :
    Holds compress 64 initial msg (len + (data.length - i)) (proofSha256Blocks ctx data i).state
      (proofSha256Blocks ctx data i).buffer := by
  have hinput := h.input reads_compress (d := fun j => bytesAt data (i + j)) hin hmod (by omega)
  have hrest : data.length - (i + (data.length - i) / 64 * 64) = (data.length - i) % 64 := by
    omega
  rw [proofSha256Blocks, proofSha256Round_loop _ _ _ _ hi (by omega)]
  simp only [hrest, Nat.add_assoc]
  by_cases hpos : i + (data.length - i) / 64 * 64 < data.length
  · rwa [if_pos hpos]
  · have hzero : (data.length - i) % 64 = 0 := by omega
    rw [if_neg hpos]
    rwa [hzero, put_zero] at hinput

/-- `sha256_update` of `proof_blob.c`. -/
theorem proofSha256Update_seen {m d : List UInt8} {ctx : HashContext} (h : Seen m ctx)
    (hcount : ctx.count = u64 m.length) :
    Seen (m ++ d) (proofSha256Update ctx d) ∧
      (proofSha256Update ctx d).count = u64 (m ++ d).length := by
  have hmsg : ∀ j < d.length, bytesAt d j = bytesAt (m ++ d) (m.length + j) :=
    fun j _ => bytesAt_append_right m d j
  have happ := h.append d
  have hlen : u64 (ctx.count + d.length) = u64 (m.length + d.length) := by
    rw [hcount, u64, u64, u64, Nat.mod_add_mod]
  have hidx : ctx.count &&& 0x3F = m.length % 64 := by
    rw [hcount, show (0x3F : ℕ) = 2 ^ 6 - 1 from rfl, Nat.and_two_pow_sub_one_eq_mod]
    unfold u64
    omega
  unfold proofSha256Update Seen
  rw [List.length_append]
  dsimp only
  rw [hidx, hlen]
  by_cases hpart : m.length % 64 ≠ 0
  · rw [if_pos hpart]
    by_cases hleft : d.length < 64 - m.length % 64
    · rw [if_pos hleft]
      exact ⟨happ.copy hmsg (by omega), rfl⟩
    · rw [if_neg hleft]
      obtain ⟨c, hc⟩ : ∃ c, c = 64 - m.length % 64 := ⟨_, rfl⟩
      have hfull := happ.complete reads_compress (c := c) (fun j hj => hmsg j (by omega))
        (by omega) (by omega) (put ctx.buffer (m.length % 64) (bytesAt d) c)
      have hblocks := proofSha256Blocks_holds ⟨_, u64 (m.length + d.length), _⟩ d (i := c) hfull
        (by omega) (by omega) fun j hj => (hmsg (c + j) (by omega)).trans (by rw [Nat.add_assoc])
      have hsum : m.length + c + (d.length - c) = m.length + d.length := by omega
      rw [hsum] at hblocks
      rw [sha256Transform_eq, ← hc]
      exact ⟨hblocks, rfl⟩
  · rw [if_neg hpart]
    exact ⟨proofSha256Blocks_holds { ctx with count := _ } d happ (by omega) (Nat.zero_le _)
      fun j hj => (congrArg _ (Nat.zero_add j)).trans (hmsg j hj), rfl⟩

/-! ## Padding -/

/-- The bytes of a padded message. -/
theorem bytesAt_pad (m : List UInt8) (i : ℕ) :
    bytesAt (pad m) i =
      if i < m.length then bytesAt m i
      else if i = m.length then 0x80
      else if i < m.length + 1 + padZeros m.length then 0
      else if i < m.length + 1 + padZeros m.length + 8 then
        lengthByte (8 * m.length) (i - (m.length + 1 + padZeros m.length))
      else 0 := by
  have hcons : ∀ k (b : UInt8) (l : List UInt8), (b :: l).getD (k + 1) 0 = l.getD k 0 :=
    fun _ _ _ => rfl
  rw [bytesAt, bytesAt, pad]
  split
  · next h => exact List.getD_append _ _ _ _ h
  · next h =>
    rw [List.getD_append_right _ _ _ _ (by omega)]
    split
    · next heq =>
      rw [heq, Nat.sub_self]
      rfl
    · next hne =>
      obtain ⟨k, hk⟩ : ∃ k, i = m.length + 1 + k := ⟨i - (m.length + 1), by omega⟩
      have hsub : i - m.length = k + 1 := by omega
      rw [hsub, hcons]
      have hzeros : (List.replicate (padZeros m.length) (0 : UInt8)).length =
        padZeros m.length := List.length_replicate
      split
      · next hlt =>
        rw [List.getD_append _ _ _ _ (by omega), List.getD_eq_getElem?_getD,
          List.getElem?_replicate]
        split <;> rfl
      · next hge =>
        rw [List.getD_append_right _ _ _ _ (by omega), hzeros, List.getD_eq_getElem?_getD,
          List.getElem?_map]
        have hplace : k - padZeros m.length = i - (m.length + 1 + padZeros m.length) := by omega
        rw [hplace]
        split
        · next hlt =>
          rw [List.getElem?_range (by omega)]
          rfl
        · next hout =>
          rw [List.getElem?_eq_none (by rw [List.length_range]; omega)]
          rfl

theorem length_pad (m : List UInt8) : (pad m).length = m.length + 1 + padZeros m.length + 8 := by
  simp [pad]
  omega

/-- One or two blocks follow the whole blocks of the message. -/
theorem padZeros_eq (n : ℕ) :
    (n % 64 + 1 ≤ 56 ∧ n + 1 + padZeros n + 8 = n / 64 * 64 + 64) ∨
      (56 < n % 64 + 1 ∧ n + 1 + padZeros n + 8 = n / 64 * 64 + 128) := by
  unfold padZeros
  omega

/-- The hash of a message of which the whole blocks have been taken, from the blocks that follow. -/
theorem hash_of_state {m : List UInt8} {s : Words}
    (hs : s = absorb compress 64 initial (bytesAt m) (m.length / 64)) :
    Sha256.hash m =
      if m.length % 64 + 1 > 56 then
        (compress (compress s (block 64 (bytesAt (pad m)) (m.length / 64)))
          (block 64 (bytesAt (pad m)) (m.length / 64 + 1))).bytes
      else (compress s (block 64 (bytesAt (pad m)) (m.length / 64))).bytes := by
  have hstate : s = absorb compress 64 initial (bytesAt (pad m)) (m.length / 64) := by
    rw [hs]
    refine absorb_congr reads_compress fun i hi => ?_
    have hlt : i < m.length := by omega
    rw [bytesAt_pad, if_pos hlt]
  rw [Sha256.hash, length_pad, hstate]
  rcases padZeros_eq m.length with ⟨hle, hlen⟩ | ⟨hgt, hlen⟩
  · have hblocks : (m.length / 64 * 64 + 64) / 64 = m.length / 64 + 1 := by omega
    rw [if_neg (by omega), hlen, hblocks, absorb_succ]
  · have hblocks : (m.length / 64 * 64 + 128) / 64 = m.length / 64 + 2 := by omega
    rw [if_pos hgt, hlen, hblocks, absorb_succ, absorb_succ]

/-- The padding of the buffer of a context. -/
theorem finalInBuffer_eq {m : List UInt8} {ctx : HashContext} (h : Seen m ctx) {bits : ℕ}
    (hbits : ∀ i, lengthByte bits i = lengthByte (8 * m.length) i) :
    finalInBuffer ctx.state ctx.buffer (m.length % 64) bits = Sha256.hash m := by
  obtain ⟨hstate, hbuffer⟩ := h
  have hsum := Nat.div_add_mod' m.length 64
  rw [hash_of_state hstate, finalInBuffer, sha256Transform_eq]
  rcases padZeros_eq m.length with ⟨hle, hlen⟩ | ⟨hgt, hlen⟩
  · rw [if_neg (by omega), if_neg (by omega)]
    refine congrArg Words.bytes (reads_compress _ _ _ fun j hj => ?_)
    simp only [put, block, bytesAt_pad, hbits]
    split_ifs <;> first | rfl | omega | exact congrArg _ (by omega) |
      exact (hbuffer j (by omega)).trans (congrArg _ (by omega))
  · rw [if_pos hgt, if_pos hgt]
    have hfirst : compress ctx.state
        (put (put ctx.buffer (m.length % 64) (fun _ => 0x80) 1) (m.length % 64 + 1) (fun _ => 0)
          (64 - (m.length % 64 + 1))) =
        compress ctx.state (block 64 (bytesAt (pad m)) (m.length / 64)) := by
      refine reads_compress _ _ _ fun j hj => ?_
      simp only [put, block, bytesAt_pad]
      split_ifs <;> first | rfl | omega |
        exact (hbuffer j (by omega)).trans (congrArg _ (by omega))
    dsimp only
    rw [hfirst]
    refine congrArg Words.bytes (reads_compress _ _ _ fun j hj => ?_)
    simp only [put, block, bytesAt_pad, hbits]
    split_ifs <;> first | rfl | omega | exact congrArg _ (by omega)

/-- The padding of `sha256_final`. -/
theorem sha256Final_eq {m : List UInt8} {ctx : HashContext} (h : Seen m ctx)
    (hcount : ctx.count = u64 (m.length * 8)) (stack : ℕ → UInt8) :
    sha256Final stack ctx = Sha256.hash m := by
  obtain ⟨hstate, hbuffer⟩ := h
  have hsum := Nat.div_add_mod' m.length 64
  have hbits : ∀ i, lengthByte (u64 (m.length * 8)) i = lengthByte (8 * m.length) i := fun i => by
    rw [lengthByte_u64, Nat.mul_comm]
  rw [hash_of_state hstate, sha256Final, sha256Transform_eq, hcount, count_fill]
  rcases padZeros_eq m.length with ⟨hle, hlen⟩ | ⟨hgt, hlen⟩
  · rw [if_neg (by omega), if_neg (by omega), if_neg (by omega)]
    refine congrArg Words.bytes (reads_compress _ _ _ fun j hj => ?_)
    simp only [put, block, bytesAt_pad, hbits]
    split_ifs <;> first | rfl | omega | exact congrArg _ (by omega) |
      exact (hbuffer _ (by omega)).trans (congrArg _ (by omega))
  · rw [if_pos hgt, if_pos hgt, if_pos hgt]
    have hfirst : ∀ j < 64,
        put (put (put (put stack 0 ctx.buffer (m.length % 64)) (m.length % 64) (fun _ => 0x80) 1)
            (m.length % 64 + 1) (fun _ => 0) (128 - (m.length % 64 + 1) - 8))
          (m.length % 64 + 1 + (128 - (m.length % 64 + 1)) - 8)
          (lengthByte (u64 (m.length * 8))) 8 j =
        block 64 (bytesAt (pad m)) (m.length / 64) j := by
      intro j hj
      simp only [put, block, bytesAt_pad]
      split_ifs <;> first | rfl | omega |
        exact (hbuffer _ (by omega)).trans (congrArg _ (by omega))
    rw [reads_compress _ _ _ hfirst]
    refine congrArg Words.bytes (reads_compress _ _ _ fun j hj => ?_)
    simp only [put, block, bytesAt_pad, hbits]
    split_ifs <;> first | rfl | omega | exact congrArg _ (by omega)

/-! ## Streaming and one call -/

/-- What an update keeps, a list of updates keeps. -/
theorem foldl_seen (count : ℕ → ℕ) {update : HashContext → List UInt8 → HashContext}
    (hupdate : ∀ {m d : List UInt8} {ctx : HashContext}, Seen m ctx →
      ctx.count = count m.length →
      Seen (m ++ d) (update ctx d) ∧ (update ctx d).count = count (m ++ d).length)
    {m : List UInt8} {ctx : HashContext} (h : Seen m ctx) (hcount : ctx.count = count m.length)
    (pieces : List (List UInt8)) :
    Seen (m ++ pieces.flatten) (pieces.foldl update ctx) ∧
      (pieces.foldl update ctx).count = count (m ++ pieces.flatten).length := by
  induction pieces generalizing m ctx with
  | nil =>
    rw [List.flatten_nil, List.append_nil]
    exact ⟨h, hcount⟩
  | cons d pieces ih =>
    obtain ⟨hseen, hlen⟩ := hupdate (d := d) h hcount
    rw [List.flatten_cons, ← List.append_assoc]
    exact ih hseen hlen

theorem sha256_stream (stack : ℕ → UInt8) (pieces : List (List UInt8)) :
    sha256Final stack (pieces.foldl sha256Update sha256Init) = Sha256.hash pieces.flatten := by
  obtain ⟨hseen, hcount⟩ := foldl_seen (fun n => u64 (n * 8)) sha256Update_seen
    (seen_nil initial rfl 0 _) rfl pieces
  exact sha256Final_eq hseen hcount stack

theorem sha256_eq (stack : ℕ → UInt8) (m : List UInt8) : sha256 stack m = Sha256.hash m := by
  have h := sha256_stream stack [m]
  rwa [List.flatten_singleton] at h

/-- The end of `aetherSha256Final`, for a message that has been seen. -/
theorem aetherSha256Final_eq {m : List UInt8} {ctx : HashContext} (h : Seen m ctx)
    (hcount : ctx.count = u64 (m.length * 8)) : aetherSha256Final ctx = Sha256.hash m := by
  rw [aetherSha256Final, hcount, count_fill]
  exact finalInBuffer_eq h fun i => by rw [lengthByte_u64, Nat.mul_comm]

theorem aetherSha256_stream (pieces : List (List UInt8)) :
    aetherSha256Final (pieces.foldl aetherSha256Update aetherSha256Init) =
      Sha256.hash pieces.flatten := by
  obtain ⟨hseen, hcount⟩ := foldl_seen (fun n => u64 (n * 8)) aetherSha256Update_seen
    (seen_nil initial rfl 0 _) rfl pieces
  exact aetherSha256Final_eq hseen hcount

theorem aetherSha256_eq (m : List UInt8) : aetherSha256 m = Sha256.hash m := by
  have h := aetherSha256_stream [m]
  rwa [List.flatten_singleton] at h

theorem proofSha256Final_eq {m : List UInt8} {ctx : HashContext} (h : Seen m ctx)
    (hcount : ctx.count = u64 m.length) : proofSha256Final ctx = Sha256.hash m := by
  have hidx : u64 m.length &&& 0x3F = m.length % 64 := by
    rw [show (0x3F : ℕ) = 2 ^ 6 - 1 from rfl, Nat.and_two_pow_sub_one_eq_mod]
    unfold u64
    omega
  have hbits : u64 (u64 m.length * 8) = u64 (8 * m.length) := by
    unfold u64
    omega
  rw [proofSha256Final, hcount, hidx, hbits]
  exact finalInBuffer_eq h fun i => lengthByte_u64 _ i

theorem proofSha256_stream (stack : ℕ → UInt8) (pieces : List (List UInt8)) :
    proofSha256Final (pieces.foldl proofSha256Update (proofSha256Init stack)) =
      Sha256.hash pieces.flatten := by
  obtain ⟨hseen, hcount⟩ := foldl_seen u64 proofSha256Update_seen
    (seen_nil initial rfl 0 stack) rfl pieces
  exact proofSha256Final_eq hseen hcount

/-! ## Keys -/

/-- A key that is xored into a block of copies of `c`. -/
theorem map_put_key {k : List UInt8} (hk : k.length ≤ 64) (c : UInt8) :
    (List.range 64).map (put (fun _ => c) 0 (fun i => c ^^^ bytesAt k i) k.length) =
      (k ++ List.replicate (64 - k.length) 0).map (c ^^^ ·) := by
  refine List.ext_getElem (by simp [hk]) fun i hi hi' => ?_
  rw [List.length_map, List.length_range] at hi
  rw [List.getElem_map, List.getElem_range, List.getElem_map, put]
  by_cases hlt : i < k.length
  · rw [if_pos (by omega), List.getElem_append_left hlt, Nat.sub_zero, bytesAt,
      List.getD_eq_getElem _ _ hlt]
  · rw [if_neg (by omega), List.getElem_append_right (by omega), List.getElem_replicate,
      UInt8.xor_zero]

/-- A key on a block of zeros that is xored with `c`. -/
theorem map_put_key_xor {k : List UInt8} (hk : k.length ≤ 64) (c : UInt8) :
    ((List.range 64).map fun i => put (fun _ => 0) 0 (bytesAt k) k.length i ^^^ c) =
      (k ++ List.replicate (64 - k.length) 0).map (c ^^^ ·) := by
  rw [← map_put_key hk]
  refine List.map_congr_left fun i _ => ?_
  rw [put, put]
  split
  · rw [Nat.sub_zero, UInt8.xor_comm]
  · rw [UInt8.zero_xor]

theorem length_hash (m : List UInt8) : (Sha256.hash m).length = 32 :=
  rfl

/-- A long key is hashed. -/
theorem length_shortKey (key : List UInt8) :
    (if key.length > 64 then Sha256.hash key else key).length ≤ 64 := by
  split
  · rw [length_hash]
    omega
  · omega

theorem hmacSha256_eq (stack : ℕ → UInt8) (key m : List UInt8) :
    hmacSha256 stack key m = Sha256.hmac key m := by
  have hstream : ∀ k d : List UInt8,
      sha256Final stack (sha256Update (sha256Update sha256Init k) d) = Sha256.hash (k ++ d) := by
    intro k d
    have h := sha256_stream stack [k, d]
    rwa [List.flatten_cons, List.flatten_singleton] at h
  have hshort := length_shortKey key
  unfold hmacSha256
  rw [sha256_eq]
  dsimp only
  rw [hstream, hstream, map_put_key hshort, map_put_key hshort]
  rfl

theorem aetherHmacSha256_stream (key : List UInt8) (pieces : List (List UInt8)) :
    aetherHmacSha256Final (pieces.foldl aetherHmacSha256Update (aetherHmacSha256Init key)) =
      Sha256.hmac key pieces.flatten := by
  have hfold : ∀ ctx : AetherHmacContext, pieces.foldl aetherHmacSha256Update ctx =
      { ctx with shaCtx := pieces.foldl aetherSha256Update ctx.shaCtx } := by
    induction pieces with
    | nil => exact fun _ => rfl
    | cons d pieces ih => exact fun ctx => ih _
  have hstream : ∀ k d : List UInt8,
      aetherSha256Final (aetherSha256Update (aetherSha256Update aetherSha256Init k) d) =
        Sha256.hash (k ++ d) := by
    intro k d
    have h := aetherSha256_stream [k, d]
    rwa [List.flatten_cons, List.flatten_singleton] at h
  have hinner : ∀ k : List UInt8,
      aetherSha256Final (pieces.foldl aetherSha256Update (aetherSha256Update aetherSha256Init k)) =
        Sha256.hash (k ++ pieces.flatten) := fun k => aetherSha256_stream (k :: pieces)
  have hshort := length_shortKey key
  rw [hfold]
  unfold aetherHmacSha256Final aetherHmacSha256Init
  rw [aetherSha256_eq]
  dsimp only
  rw [hinner, hstream, map_put_key_xor hshort, map_put_key_xor hshort]
  rfl

theorem aetherHmacSha256_eq (key m : List UInt8) :
    aetherHmacSha256 key m = Sha256.hmac key m := by
  have h := aetherHmacSha256_stream key [m]
  rwa [List.flatten_singleton] at h

/-- Streaming and in one call, the three files compute one hash, and the two with keys one code. -/
theorem implementations_agree (stack : ℕ → UInt8) (key : List UInt8)
    (pieces : List (List UInt8)) :
    sha256Final stack (pieces.foldl sha256Update sha256Init) = Sha256.hash pieces.flatten ∧
      sha256 stack pieces.flatten = Sha256.hash pieces.flatten ∧
      aetherSha256Final (pieces.foldl aetherSha256Update aetherSha256Init) =
        Sha256.hash pieces.flatten ∧
      aetherSha256 pieces.flatten = Sha256.hash pieces.flatten ∧
      proofSha256Final (pieces.foldl proofSha256Update (proofSha256Init stack)) =
        Sha256.hash pieces.flatten ∧
      hmacSha256 stack key pieces.flatten = Sha256.hmac key pieces.flatten ∧
      aetherHmacSha256Final (pieces.foldl aetherHmacSha256Update (aetherHmacSha256Init key)) =
        Sha256.hmac key pieces.flatten ∧
      aetherHmacSha256 key pieces.flatten = Sha256.hmac key pieces.flatten :=
  ⟨sha256_stream stack pieces, sha256_eq stack _, aetherSha256_stream pieces,
    aetherSha256_eq _, proofSha256_stream stack pieces, hmacSha256_eq stack key _,
    aetherHmacSha256_stream key pieces, aetherHmacSha256_eq key _⟩

end Seraph
