import Seraph.Arena

/-!
# The safety of arenas

Whatever is asked for, the blocks since the last reset lie one behind the other below the pointer of
the arena (`ArenaInv`), because the aligned address is either a rounding up or past the end of the
memory (`alloc_cases`). The generations of an arena repeat every 4294967294 resets, and a capability
of an earlier generation is good again then (`checkCapability_iff`).
-/

namespace Seraph

open ByteMem Runs

/-- The memory of the arena is an object in memory, and the pointer is inside. -/
structure Arena.WellFormed (arena : Arena) : Prop where
  memory_pos : 0 < arena.memory
  capacity_pos : 0 < arena.capacity
  ends : arena.memory + arena.capacity < 2 ^ 64
  used_le : arena.used ≤ arena.capacity
  alignment_lt : arena.alignment < 2 ^ 64
  generation : 1 ≤ arena.generation ∧ arena.generation ≤ arenaMaxGeneration

/-- The blocks lie in the memory up to the pointer, apart from one another and aligned. -/
structure BlocksSafe (arena : Arena) (blocks : List ArenaBlock) : Prop where
  apart : blocks.Pairwise fun b c => b.region.Disjoint c.region
  inside : ∀ b ∈ blocks, b.region.Within ⟨arena.memory, arena.used⟩
  aligned : ∀ b ∈ blocks, b.align ∣ b.region.start
  used_le : arena.used ≤ arena.capacity

/-! ## Words -/

theorem sub64_of_le {a b : ℕ} (hle : b ≤ a) (ha : a < 2 ^ 64) : sub64 a b = a - b := by
  have hsum : a + 2 ^ 64 - b = a - b + 2 ^ 64 := by omega
  rw [sub64, u64, hsum, Nat.add_mod_right, Nat.mod_eq_of_lt (by omega)]

/-- The test for powers of two lets 0 pass, too. -/
theorem eq_zero_or_two_pow {n : ℕ} (hlt : n < 2 ^ 64) (h : n &&& sub64 n 1 = 0) :
    n = 0 ∨ ∃ k < 64, n = 2 ^ k := by
  rcases Nat.eq_zero_or_pos n with hzero | hpos
  · exact .inl hzero
  · rw [sub64_of_le hpos hlt] at h
    obtain ⟨k, rfl⟩ := (Nat.and_sub_one_eq_zero_iff_isPowerOfTwo hpos.ne').1 h
    exact .inr ⟨k, (Nat.pow_lt_pow_iff_right (by omega)).1 hlt, rfl⟩

/-- Rounding up gives 0 if there is no multiple above. -/
theorem aligned_cases {cur align : ℕ} (hcur : cur < 2 ^ 64) (hpos : 0 < cur)
    (halign : align < 2 ^ 64) (hpow : align &&& sub64 align 1 = 0) :
    let aligned := sub64 (u64 (cur + align)) 1 &&& (2 ^ 64 - 1 - sub64 align 1)
    aligned = 0 ∨ cur ≤ aligned ∧ aligned < 2 ^ 64 ∧ align ∣ aligned := by
  intro aligned
  rcases eq_zero_or_two_pow halign hpow with rfl | ⟨k, hk, rfl⟩
  · have hmask : 2 ^ 64 - 1 - sub64 0 1 = 0 := by decide
    unfold aligned
    rw [hmask, Nat.and_zero]
    exact .inl rfl
  have hone := Nat.one_le_two_pow (n := k)
  have hround : aligned = sub64 (u64 (cur + 2 ^ k)) 1 / 2 ^ k * 2 ^ k := by
    unfold aligned
    rw [sub64_of_le hone halign]
    exact and_clear_low (u64_lt _) hk.le
  have hsum : sub64 (u64 (cur + 2 ^ k)) 1 = (cur + 2 ^ k - 1) % 2 ^ 64 := by
    unfold sub64 u64
    omega
  rw [hround, hsum]
  rcases Nat.lt_or_ge (cur + 2 ^ k - 1) (2 ^ 64) with hfits | hwraps
  · right
    rw [Nat.mod_eq_of_lt hfits]
    have hdiv := Nat.div_add_mod (cur + 2 ^ k - 1) (2 ^ k)
    have hmod := Nat.mod_lt (cur + 2 ^ k - 1) hone
    rw [Nat.mul_comm] at hdiv
    exact ⟨by omega, by omega, Nat.dvd_mul_left _ _⟩
  · left
    have hrest : (cur + 2 ^ k - 1) % 2 ^ 64 < 2 ^ k := by omega
    rw [Nat.div_eq_of_lt hrest, Nat.zero_mul]

/-- The offset of an aligned address, which is past the memory where the address is 0. -/
theorem offset_cases {memory used aligned : ℕ} (hmemory : 0 < memory)
    (hcur : memory + used < 2 ^ 64)
    (h : aligned = 0 ∨ memory + used ≤ aligned ∧ aligned < 2 ^ 64) :
    u64 (used + sub64 aligned (memory + used)) = 2 ^ 64 - memory ∨
      memory + used ≤ aligned ∧
        u64 (used + sub64 aligned (memory + used)) = aligned - memory := by
  unfold sub64 u64
  omega

namespace Arena

variable {arena : Arena}

theorem WellFormed.isValid (h : arena.WellFormed) : arena.isValid = true := by
  have h1 := h.memory_pos
  have h2 := h.capacity_pos
  simp only [Arena.isValid, Bool.and_eq_true, decide_eq_true_eq]
  omega

/-- What `alloc` returns where it does not refuse. -/
def Placed (arena : Arena) (size align : ℕ) (r : Arena × ℕ) : Prop :=
  ∃ offset allocCount bytes, 0 < size ∧ arena.used ≤ offset ∧ offset + size ≤ arena.capacity ∧
    (if align = 0 then arena.alignment else align) ∣ arena.memory + offset ∧
    r = ({ arena with used := offset + size, allocCount, bytes }, arena.memory + offset)

/-- A block is placed at the pointer or above, or nothing changes. -/
theorem alloc_cases (h : arena.WellFormed) {size align : ℕ} (hsize : size < 2 ^ 64)
    (halign : align < 2 ^ 64) :
    arena.alloc size align = (arena, voidU64) ∨
      arena.Placed size align (arena.alloc size align) := by
  obtain ⟨hmemory, hcapacity, hends, hused, hdefault, -⟩ := id h
  unfold Placed alloc
  rw [h.isValid]
  simp only [Bool.not_true, Bool.false_eq_true, if_false]
  by_cases hzero : size = 0
  · exact .inl (if_pos hzero)
  rw [if_neg hzero]
  have heff : (if align = 0 then arena.alignment else align) < 2 ^ 64 := by
    split
    · exact hdefault
    · exact halign
  generalize (if align = 0 then arena.alignment else align) = eff at heff
  by_cases hpow : eff &&& sub64 eff 1 ≠ 0
  · exact .inl (if_pos hpow)
  rw [if_neg hpow]
  have hcur : u64 (arena.memory + arena.used) = arena.memory + arena.used := u64_of_lt (by omega)
  rw [hcur]
  have hlast : arena.memory + arena.used < 2 ^ 64 := by omega
  have haligned := aligned_cases hlast (by omega) heff (not_not.1 hpow)
  dsimp only at haligned ⊢
  generalize sub64 (u64 (arena.memory + arena.used + eff)) 1 &&& (2 ^ 64 - 1 - sub64 eff 1) =
    aligned at haligned ⊢
  have hoffset := offset_cases hmemory hlast (haligned.imp_right fun h => ⟨h.1, h.2.1⟩)
  generalize u64 (arena.used + sub64 aligned (arena.memory + arena.used)) = offset at hoffset ⊢
  by_cases hback : offset < arena.used
  · exact .inl (if_pos hback)
  rw [if_neg hback]
  by_cases hfull : u64 (offset + size) > arena.capacity ∨ u64 (offset + size) < offset
  · exact .inl (if_pos hfull)
  rw [if_neg hfull]
  have hfits : offset = aligned - arena.memory ∧ arena.memory + arena.used ≤ aligned ∧
      offset + size ≤ arena.capacity ∧ u64 (offset + size) = offset + size := by
    unfold u64 at hfull ⊢
    omega
  obtain ⟨rfl, hle, hbound, hnew⟩ := hfits
  have hptr : arena.memory + (aligned - arena.memory) = aligned := by omega
  have hlt : aligned < 2 ^ 64 := by omega
  rw [hnew, hptr, u64_of_lt hlt]
  refine .inr ⟨aligned - arena.memory, _, _, by omega, by omega, hbound, ?_, by rw [hptr]⟩
  rw [hptr]
  rcases haligned with hzero | ⟨-, -, hdvd⟩
  · omega
  · exact hdvd

theorem Placed.ne_void {size align : ℕ} {r : Arena × ℕ} (hr : arena.Placed size align r)
    (h : arena.WellFormed) : r.2 ≠ voidU64 := by
  obtain ⟨offset, allocCount, bytes, hpos, -, hle, -, rfl⟩ := hr
  have hends := h.ends
  simp only [voidU64]
  omega

theorem Placed.wellFormed {size align : ℕ} {r : Arena × ℕ} (hr : arena.Placed size align r)
    (h : arena.WellFormed) : r.1.WellFormed := by
  obtain ⟨offset, allocCount, bytes, -, -, hle, -, rfl⟩ := hr
  exact ⟨h.memory_pos, h.capacity_pos, h.ends, hle, h.alignment_lt, h.generation⟩

/-- The product is right where it is accepted. -/
theorem allocArray_cases (h : arena.WellFormed) (elemSize count : ℕ) {align : ℕ}
    (halign : align < 2 ^ 64) :
    arena.allocArray elemSize count align = (arena, voidU64) ∨
      arena.Placed (elemSize * count) align (arena.allocArray elemSize count align) := by
  unfold allocArray
  split
  · exact .inl rfl
  · dsimp only
    split
    · exact .inl rfl
    · next hexact =>
      have hlt := u64_lt (elemSize * count)
      have htotal : u64 (elemSize * count) = elemSize * count := by
        have hback := Nat.div_mul_le_self (u64 (elemSize * count)) elemSize
        rw [not_not.1 hexact, Nat.mul_comm] at hback
        exact Nat.le_antisymm (Nat.mod_le _ _) hback
      rw [htotal] at hlt ⊢
      exact alloc_cases h hlt halign

theorem calloc_cases (h : arena.WellFormed) {size align : ℕ} (hsize : size < 2 ^ 64)
    (halign : align < 2 ^ 64) :
    arena.calloc size align = (arena, voidU64) ∨
      arena.Placed size align (arena.calloc size align) := by
  unfold calloc
  dsimp only
  rcases alloc_cases h hsize halign with heq | hplaced
  · rw [heq]
    exact .inl (if_neg (not_not.2 rfl))
  · rw [if_pos (hplaced.ne_void h)]
    obtain ⟨offset, allocCount, bytes, hpos, hle, hfits, hdvd, heq⟩ := hplaced
    rw [heq]
    exact .inr ⟨offset, allocCount, _, hpos, hle, hfits, hdvd, rfl⟩

/-- A reset empties the arena and brings the next generation. -/
theorem reset_eq (h : arena.WellFormed) : ∃ bytes, arena.reset.1 =
    { arena with
      used := 0
      allocCount := 0
      generation := 1 + arena.generation % arenaMaxGeneration
      bytes } := by
  obtain ⟨hpos, hmax⟩ := h.generation
  have hnext : (if arena.generation ≥ arenaMaxGeneration then 1 else u32 (arena.generation + 1)) =
      1 + arena.generation % arenaMaxGeneration := by
    unfold arenaMaxGeneration voidU32 at *
    split
    · have hlast : arena.generation = 2 ^ 32 - 1 - 1 := by omega
      rw [hlast]
      rfl
    · rw [u32_of_lt (by omega), Nat.mod_eq_of_lt (by omega), Nat.add_comm]
  unfold reset
  rw [h.isValid]
  simp only [Bool.not_true, Bool.false_eq_true, if_false, hnext]
  exact ⟨_, rfl⟩

end Arena

/-! ## Runs -/

section

variable {arena : Arena} {ops : List ArenaOp}

open Arena

/-- A call that asks for a block. -/
theorem ArenaOp.step_request (h : arena.WellFormed) {op : ArenaOp} {size align : ℕ}
    (hop : op.request = some (size, align)) :
    op.step arena = (arena, voidU64) ∨ arena.Placed size align (op.step arena) := by
  cases op with
  | alloc size' align' =>
    cases hop
    exact alloc_cases h size'.toNat_lt align'.toNat_lt
  | allocArray elemSize count align' =>
    cases hop
    exact allocArray_cases h elemSize.toNat count.toNat align'.toNat_lt
  | calloc size' align' =>
    cases hop
    exact calloc_cases h size'.toNat_lt align'.toNat_lt
  | reset => cases hop

/-- A call that returns no block changes nothing. -/
theorem ArenaOp.step_void (h : arena.WellFormed) {op : ArenaOp} (hop : op ≠ .reset)
    (hvoid : (op.step arena).2 = voidU64) : (op.step arena).1 = arena := by
  obtain ⟨⟨size, align⟩, hreq⟩ : ∃ r, op.request = some r := by
    cases op with
    | reset => exact absurd rfl hop
    | _ => exact ⟨_, rfl⟩
  rcases step_request h hreq with heq | hplaced
  · rw [heq]
  · exact absurd hvoid (hplaced.ne_void h)

/-- What a run keeps of the arena that it starts with. -/
structure ArenaInv (arena₀ arena : Arena) (ops : List ArenaOp) : Prop where
  wellFormed : arena.WellFormed
  memory : arena.memory = arena₀.memory
  capacity : arena.capacity = arena₀.capacity
  generation : arena.generation =
    1 + (arena₀.generation - 1 + resets ops) % arenaMaxGeneration
  safe : BlocksSafe arena (blocksSinceReset arena₀ ops)

theorem blocksSinceReset_concat (op : ArenaOp) :
    blocksSinceReset arena (ops ++ [op]) = noteBlock (blocksSinceReset arena ops)
      ⟨run ArenaOp.step arena ops, op, (op.step (run ArenaOp.step arena ops)).2⟩ := by
  rw [blocksSinceReset, calls_concat, List.foldl_append]
  rfl

theorem resets_concat (op : ArenaOp) :
    resets (ops ++ [op]) = resets ops + if op = .reset then 1 else 0 := by
  rw [resets, List.count_append, List.count_singleton]
  simp [resets]

theorem BlocksSafe.place {blocks : List ArenaBlock} (h : BlocksSafe arena blocks)
    {size align : ℕ} {r : Arena × ℕ} (hr : arena.Placed size align r) :
    BlocksSafe r.1 (⟨⟨r.2, size⟩, if align = 0 then arena.alignment else align⟩ :: blocks) := by
  obtain ⟨offset, allocCount, bytes, -, hle, hfits, hdvd, rfl⟩ := hr
  refine ⟨List.pairwise_cons.2 ⟨fun b hb => ?_, h.apart⟩,
    List.forall_mem_cons.2 ⟨?_, fun b hb => ?_⟩,
    List.forall_mem_cons.2 ⟨hdvd, h.aligned⟩, hfits⟩
  · obtain ⟨-, hend⟩ := h.inside b hb
    dsimp only at hend
    exact .inr (by dsimp only; omega)
  · exact ⟨by dsimp only; omega, by dsimp only; omega⟩
  · obtain ⟨hstart, hend⟩ := h.inside b hb
    dsimp only at hstart hend
    exact ⟨hstart, by dsimp only; omega⟩

theorem ArenaInv.step {arena₀ : Arena} (h : ArenaInv arena₀ (run ArenaOp.step arena₀ ops) ops)
    (op : ArenaOp) :
    ArenaInv arena₀ (run ArenaOp.step arena₀ (ops ++ [op])) (ops ++ [op]) := by
  obtain ⟨hwell, hmemory, hcapacity, hgeneration, hsafe⟩ := h
  have hresets : resets (ops ++ [op]) = _ := resets_concat op
  have hblocks : blocksSinceReset arena₀ (ops ++ [op]) = _ := blocksSinceReset_concat op
  rw [run_concat]
  generalize run ArenaOp.step arena₀ ops = s at *
  cases hreq : op.request with
  | none =>
    obtain rfl : op = .reset := by
      cases op with
      | reset => rfl
      | _ => cases hreq
    obtain ⟨bytes, hreset⟩ := reset_eq hwell
    have hstep : (ArenaOp.reset.step s).1 = s.reset.1 := rfl
    rw [hstep, hreset]
    rw [if_pos rfl] at hresets
    have hmod : 1 + s.generation % arenaMaxGeneration =
        1 + (arena₀.generation - 1 + resets (ops ++ [.reset])) % arenaMaxGeneration := by
      have hsum : 1 + (arena₀.generation - 1 + resets ops) =
          arena₀.generation - 1 + (resets ops + 1) := by omega
      rw [hresets, hgeneration, Nat.add_mod_mod, hsum]
    have hlt := Nat.mod_lt s.generation (y := arenaMaxGeneration) (by decide)
    refine ⟨⟨hwell.memory_pos, hwell.capacity_pos, hwell.ends, Nat.zero_le _, hwell.alignment_lt,
      Nat.le_add_right _ _, by dsimp only; omega⟩, hmemory, hcapacity, hmod, ?_⟩
    rw [hblocks]
    exact ⟨List.Pairwise.nil, fun b hb => (by cases hb), fun b hb => (by cases hb), Nat.zero_le _⟩
  | some r =>
    obtain ⟨size, align⟩ := r
    have hne : op ≠ .reset := fun heq => by
      rw [heq] at hreq
      cases hreq
    rw [if_neg hne, Nat.add_zero] at hresets
    have hnote : noteBlock (blocksSinceReset arena₀ ops) ⟨s, op, (op.step s).2⟩ =
        if (op.step s).2 = voidU64 then blocksSinceReset arena₀ ops
        else ⟨⟨(op.step s).2, size⟩, if align = 0 then s.alignment else align⟩ ::
          blocksSinceReset arena₀ ops := by
      simp only [noteBlock, hreq]
    rw [hnote] at hblocks
    rcases ArenaOp.step_request hwell hreq with heq | hplaced
    · rw [heq, if_pos rfl] at hblocks
      rw [heq]
      refine ⟨hwell, hmemory, hcapacity, ?_, ?_⟩
      · rw [hresets]
        exact hgeneration
      · rw [hblocks]
        exact hsafe
    · rw [if_neg (hplaced.ne_void hwell)] at hblocks
      have hsafe' := hsafe.place hplaced
      have hwell' := hplaced.wellFormed hwell
      obtain ⟨offset, allocCount, bytes, -, -, -, -, hstep⟩ := hplaced
      rw [← hblocks] at hsafe'
      have hgen : (op.step s).1.generation = s.generation := by rw [hstep]
      refine ⟨hwell', ?_, ?_, ?_, hsafe'⟩
      · rw [hstep]
        exact hmemory
      · rw [hstep]
        exact hcapacity
      · rw [hgen, hresets]
        exact hgeneration

theorem arenaInv_run {arena₀ : Arena} (h : arena₀.WellFormed) (ops : List ArenaOp) :
    ArenaInv arena₀ (run ArenaOp.step arena₀ ops) ops := by
  induction ops using List.reverseRecOn with
  | nil =>
    obtain ⟨hpos, hmax⟩ := h.generation
    refine ⟨h, rfl, rfl, ?_, List.Pairwise.nil, fun b hb => (by cases hb),
      fun b hb => (by cases hb), h.used_le⟩
    have hlt : arena₀.generation - 1 < arenaMaxGeneration := by omega
    rw [resets, List.count_nil, Nat.add_zero, Nat.mod_eq_of_lt hlt, run_nil]
    omega
  | append_singleton ops op ih => exact ih.step op

theorem wellFormed_create {memory : ℕ} {bytes : Memory} {capacity alignment flags : ℕ}
    (hends : memory + capacity < 2 ^ 64)
    (h : create memory bytes capacity alignment flags = some arena) :
    arena.WellFormed ∧ arena.generation = 1 := by
  unfold create at h
  dsimp only at h
  generalize (if alignment = 0 then arenaDefaultAlignment else alignment) = eff at h
  generalize (if flags &&& arenaFlagZeroOnAlloc ≠ 0 then bytes.fill memory capacity 0 else bytes) =
    cleared at h
  split_ifs at h with h1 h2 h3
  cases h
  refine ⟨⟨by dsimp only; omega, by dsimp only; omega, hends, Nat.zero_le _, ?_,
    Nat.le_refl 1, (by decide : 1 ≤ arenaMaxGeneration)⟩, rfl⟩
  exact (Nat.mod_lt _ (by decide)).trans (by decide)

/-! ## Capabilities -/

/-- A capability that is made is the one asked for, and ends below the pointer of the arena. -/
theorem getCapability_cases (h : arena.WellFormed) (ptr size perms : ℕ) :
    (arena.getCapability ptr size perms).isVoid = true ∨
      (arena.getCapability ptr size perms).isVoid = false ∧
        arena.getCapability ptr size perms = ⟨ptr, size, arena.generation, perms, 0, 0⟩ ∧
        arena.memory ≤ ptr ∧ ptr ≤ u64 (ptr + size) ∧
        u64 (ptr + size) ≤ arena.memory + arena.used := by
  have hends := h.ends
  have hused := h.used_le
  unfold getCapability
  dsimp only
  rw [h.isValid, u64_of_lt (n := arena.memory + arena.used) (by omega)]
  split_ifs with h1 h2 h3 h4
  · exact .inl rfl
  · exact .inl rfl
  · exact .inl rfl
  · exact .inl rfl
  · cases hvoid : (Capability.create ptr size arena.generation perms).isVoid with
    | true => exact .inl rfl
    | false =>
      have hnot := mt (Capability.isVoid_create ptr size arena.generation perms).2
        (by rw [hvoid]; exact Bool.false_ne_true)
      refine .inr ⟨rfl, ?_, by omega, by omega, by omega⟩
      rw [Capability.create, if_neg hnot]

/-- A capability is good again after a whole number of rounds of the generations. -/
theorem checkCapability_iff (h : arena.WellFormed) (ptr size perms : ℕ) (ops : List ArenaOp) :
    (run ArenaOp.step arena ops).checkCapability (arena.getCapability ptr size perms) = .true ↔
      (arena.getCapability ptr size perms).isVoid = false ∧
        resets ops % arenaMaxGeneration = 0 := by
  obtain ⟨hwell, hmemory, hcapacity, hgeneration, -⟩ := arenaInv_run h ops
  generalize run ArenaOp.step arena ops = s at *
  have hround : arena.generation = s.generation ↔ resets ops % arenaMaxGeneration = 0 := by
    obtain ⟨hpos, hmax⟩ := h.generation
    rw [hgeneration]
    unfold arenaMaxGeneration voidU32 at *
    omega
  unfold checkCapability
  rw [hwell.isValid, hmemory, hcapacity]
  simp only [Bool.not_true, Bool.false_eq_true, if_false]
  rcases getCapability_cases h ptr size perms with hvoid | ⟨hvoid, hcap, hstart, hback, hend⟩
  · rw [hvoid]
    simp
  · have hends := h.ends
    have hused := h.used_le
    rw [hvoid, hcap]
    dsimp only
    rw [u64_of_lt hends, if_neg Bool.false_ne_true, ← hround]
    by_cases hgen : arena.generation = s.generation
    · rw [if_neg (not_not.2 hgen), if_neg (by omega)]
      exact iff_of_true rfl ⟨rfl, hgen⟩
    · rw [if_pos hgen]
      exact iff_of_false (fun heq => by cases heq) fun hall => hgen hall.2

/-- The arena is safe after every run, a call that returns no block changes nothing, and a
capability is good after the calls behind it if and only if their resets are a multiple of
4294967294. -/
theorem arena_safe {memory : ℕ} {bytes : Memory} {capacity alignment flags : ℕ}
    (hends : memory + capacity < 2 ^ 64)
    (hcreate : create memory bytes capacity alignment flags = some arena) (ops : List ArenaOp) :
    BlocksSafe (run ArenaOp.step arena ops) (blocksSinceReset arena ops) ∧
      (∀ op, op ≠ .reset → (ArenaOp.step (run ArenaOp.step arena ops) op).2 = voidU64 →
        (ArenaOp.step (run ArenaOp.step arena ops) op).1 = run ArenaOp.step arena ops) ∧
      ∀ ptr size perms later,
        let cap := (run ArenaOp.step arena ops).getCapability ptr size perms
        (run ArenaOp.step arena (ops ++ later)).checkCapability cap = .true ↔
          cap.isVoid = false ∧ resets later % arenaMaxGeneration = 0 := by
  obtain ⟨hwell, -⟩ := wellFormed_create hends hcreate
  have hinv := arenaInv_run hwell ops
  refine ⟨hinv.safe, fun op hop hvoid => ArenaOp.step_void hinv.wellFormed hop hvoid,
    fun ptr size perms later => ?_⟩
  rw [run_append]
  exact checkCapability_iff hinv.wellFormed ptr size perms later

end

/-- An arena of one page. -/
def onePageArena : Arena :=
  ⟨0x1000, 4096, 0, 1, 64, 0, 0, fun _ => 0⟩

theorem create_onePage : Arena.create 0x1000 (fun _ => 0) 4096 64 0 = some onePageArena :=
  rfl

/-- A block, an array that is too large, and a cleared block. -/
def onePageCalls : List ArenaOp :=
  [.alloc 8 8, .allocArray 100 100 16, .calloc 100 0]

theorem arena_safe_onePage :
    BlocksSafe (run ArenaOp.step onePageArena onePageCalls)
        (blocksSinceReset onePageArena onePageCalls) ∧
      (∀ op, op ≠ .reset →
        (ArenaOp.step (run ArenaOp.step onePageArena onePageCalls) op).2 = voidU64 →
        (ArenaOp.step (run ArenaOp.step onePageArena onePageCalls) op).1 =
          run ArenaOp.step onePageArena onePageCalls) ∧
      ∀ ptr size perms later,
        let cap := (run ArenaOp.step onePageArena onePageCalls).getCapability ptr size perms
        (run ArenaOp.step onePageArena (onePageCalls ++ later)).checkCapability cap = .true ↔
          cap.isVoid = false ∧ resets later % arenaMaxGeneration = 0 :=
  arena_safe (by decide) create_onePage onePageCalls

/-- A capability is good after 4294967294 resets. -/
theorem checkCapability_after_resets :
    ArenaOp.reset ∈ List.replicate arenaMaxGeneration ArenaOp.reset ∧
      (run ArenaOp.step onePageArena
          (onePageCalls ++ List.replicate arenaMaxGeneration ArenaOp.reset)).checkCapability
        ((run ArenaOp.step onePageArena onePageCalls).getCapability 0x1000 8 permRead) = .true := by
  obtain ⟨hwell, -⟩ := wellFormed_create (by decide) create_onePage
  refine ⟨List.mem_replicate.2 ⟨by decide, rfl⟩, ?_⟩
  rw [run_append, checkCapability_iff (arenaInv_run hwell onePageCalls).wellFormed]
  refine ⟨rfl, ?_⟩
  rw [resets, List.count_replicate_self, Nat.mod_self]

end Seraph
