import Seraph.SoaArrayLayout

/-!
# Runs of arrays by fields

Until the first reset of the arena the cells of an array hold the elements as they were last pushed
or set (`SoAState.Alive`), and afterwards its generation is over, so that `push`, `get`, `set` and
`getPrism` are refused (`SoAState.Inv.refused`).

`seraph_soa_array_create` does not look at the product of a field size and the capacity, and a prism
is never compared with the generation of the arena (`SoAState.not_roundTrip`).
-/

namespace Seraph

open ByteMem Memory Runs

/-! ## States -/

namespace SoAState

/-- The array is laid out in the arena, of this generation, and its cells hold the elements. -/
structure Alive (s : SoAState) : Prop where
  wellFormed : s.arena.WellFormed
  laid : s.array.Laid s.arena
  generation : s.array.generation = s.arena.generation
  count : s.array.count = s.elements.length
  count_le : s.array.count ≤ s.array.capacity
  capacity_lt : s.array.capacity < 2 ^ 64
  cells : ∀ i x, s.elements[i]? = some x → ∀ f ∈ s.array.schema.fields.zipIdx, ∀ j < f.1.size,
    s.arena.bytes ((s.array.cell s.arena.bytes i f).start + j) = x (f.1.offset + j)

variable {s : SoAState} {i index : ℕ} {e x : Memory}

namespace Alive

/-- What `get` returns. -/
theorem get (h : s.Alive) (hx : s.elements[i]? = some x) (out : Memory) :
    s.array.get s.arena i out = (filled s.array.schema.fields x out, .true) := by
  obtain ⟨hi, -⟩ := List.getElem?_eq_some_iff.1 hx
  have hcount := h.count
  have hle := h.count_le
  rw [SoAArray.get, if_neg (by omega), if_neg (not_not.2 h.generation),
    h.laid.gather_eq h.wellFormed (by omega) out (h.cells i x hx)]

/-- The cells after an element has been scattered. -/
theorem cells_scatter (h : s.Alive) (hindex : index < s.array.capacity) {es : List Memory}
    (hle : es.length ≤ s.array.capacity) (hat : ∀ x, es[index]? = some x → x = e)
    (hothers : ∀ i x, i ≠ index → es[i]? = some x → s.elements[i]? = some x) :
    ∀ i x, es[i]? = some x → ∀ f ∈ s.array.schema.fields.zipIdx, ∀ j < f.1.size,
      s.array.scatter s.arena.bytes index e
        ((s.array.cell (s.array.scatter s.arena.bytes index e) i f).start + j) =
          x (f.1.offset + j) := by
  intro i x hx f hf j hj
  obtain ⟨hi, -⟩ := List.getElem?_eq_some_iff.1 hx
  rw [h.laid.cell_scatter h.wellFormed hf hindex]
  by_cases heq : i = index
  · subst heq
    rw [hat x hx]
    exact h.laid.scatter_same h.wellFormed hf hindex hj
  · rw [h.laid.scatter_other h.wellFormed hf hindex (hi.trans_le hle) (Ne.symm heq)
      ⟨Nat.le_add_right _ _, Nat.add_lt_add_left hj _⟩]
    exact h.cells i x (hothers i x heq hx) f hf j hj

/-- The layout after an element has been scattered. -/
theorem laid_scatter (h : s.Alive) (hindex : index < s.array.capacity) :
    s.array.Laid { s.arena with bytes := s.array.scatter s.arena.bytes index e } :=
  h.laid.congr h.wellFormed rfl le_rfl (h.laid.scatter_table h.wellFormed hindex)

/-- What `push` does to an array with room. -/
theorem push_eq (h : s.Alive) (hroom : s.array.count < s.array.capacity) (e : Memory) :
    s.array.push s.arena e =
      (({ s.arena with bytes := s.array.scatter s.arena.bytes s.elements.length e },
        { s.array with count := s.elements.length + 1 }), s.elements.length) := by
  have hlt := h.capacity_lt
  rw [SoAArray.push, if_neg (by omega), if_neg (not_not.2 h.generation), h.count,
    u64_of_lt (by have := h.count; omega)]

theorem push (h : s.Alive) (e : Memory) : (s.step (.push e)).1.Alive := by
  by_cases hroom : s.array.count < s.array.capacity
  · have hcount := h.count
    have hlt := h.capacity_lt
    have hvoid : s.elements.length ≠ voidU64 := by
      have hmax : voidU64 = 2 ^ 64 - 1 := rfl
      omega
    simp only [step, h.push_eq hroom e, if_neg hvoid]
    have hindex : s.elements.length < s.array.capacity := by omega
    exact {
      wellFormed := h.wellFormed.withBytes _
      laid := h.laid_scatter hindex
      generation := h.generation
      count := by rw [List.length_append, List.length_singleton]
      count_le := hindex
      capacity_lt := h.capacity_lt
      cells := h.cells_scatter hindex
        (by rw [List.length_append, List.length_singleton]; exact hindex)
        (fun x hx => by
          rw [List.getElem?_append_right le_rfl, Nat.sub_self] at hx
          exact (Option.some.inj hx).symm)
        (fun i x hne hx => by
          obtain ⟨hi, -⟩ := List.getElem?_eq_some_iff.1 hx
          rw [List.length_append, List.length_singleton] at hi
          rwa [List.getElem?_append_left (by omega)] at hx) }
  · have hfull : s.array.push s.arena e = ((s.arena, s.array), voidU64) := if_pos (by omega)
    simp only [step, hfull, if_pos]
    exact h

/-- What `set` does to an element of the array. -/
theorem set_eq (h : s.Alive) (hi : i < s.elements.length) (e : Memory) :
    s.array.set s.arena i e =
      ({ s.arena with bytes := s.array.scatter s.arena.bytes i e }, .true) := by
  have hcount := h.count
  rw [SoAArray.set, if_neg (by omega), if_neg (not_not.2 h.generation)]

theorem set (h : s.Alive) (index : ℕ) (e : Memory) : (s.step (.set index e)).1.Alive := by
  have hcount := h.count
  have hle := h.count_le
  by_cases hi : index < s.elements.length
  · simp only [step, h.set_eq hi e, if_pos]
    have hindex : index < s.array.capacity := by omega
    exact {
      wellFormed := h.wellFormed.withBytes _
      laid := h.laid_scatter hindex
      generation := h.generation
      count := by rw [List.length_set]; exact hcount
      count_le := hle
      capacity_lt := h.capacity_lt
      cells := h.cells_scatter hindex (by rw [List.length_set]; omega)
        (fun x hx => by
          rw [List.getElem?_set_self hi] at hx
          exact (Option.some.inj hx).symm)
        (fun i x hne hx => by rwa [List.getElem?_set_ne hne.symm] at hx) }
  · have hout : s.array.set s.arena index e = (s.arena, .false) := if_pos (by omega)
    simp only [step, hout]
    exact h

/-- Every operation does what it should. -/
theorem serves (h : s.Alive) : s.RoundTrip := by
  have hcount := h.count
  have hle := h.count_le
  refine ⟨fun i hi out => h.get (List.getElem?_eq_getElem hi) out,
    fun i out hi => if_pos (by omega), fun e hroom => ⟨?_, ?_, ?_⟩, fun e hfull => if_pos hfull,
    fun i hi e => ⟨?_, ?_, ?_⟩⟩
  · rw [h.push_eq hroom e]
  · intro i hi hne out
    have hlt : i < s.elements.length := by omega
    have hnext := h.push e
    have hvoid : (s.array.push s.arena e).2 ≠ voidU64 := by
      have hlt := h.capacity_lt
      have hmax : voidU64 = 2 ^ 64 - 1 := rfl
      rw [h.push_eq hroom e]
      dsimp only
      omega
    have hsame : (s.step (.push e)).1.elements[i]? = some s.elements[i] := by
      simp only [step, if_neg hvoid]
      rw [List.getElem?_append_left hlt, List.getElem?_eq_getElem hlt]
    rw [h.get (List.getElem?_eq_getElem hlt) out]
    have hget := hnext.get hsame out
    simp only [step, h.push_eq hroom e] at hget ⊢
    exact hget
  · rw [h.push_eq hroom e]
    exact h.laid.changesOnly_scatter h.wellFormed (by omega)
  · rw [h.set_eq hi e]
  · intro j hj hne out
    have hlt : j < s.elements.length := by omega
    have hnext := h.set i e
    have hsame : (s.step (.set i e)).1.elements[j]? = some s.elements[j] := by
      simp only [step, h.set_eq hi e, if_pos]
      rw [List.getElem?_set_ne hne.symm, List.getElem?_eq_getElem hlt]
    rw [h.get (List.getElem?_eq_getElem hlt) out]
    exact hnext.get hsame out
  · rw [h.set_eq hi e]
    exact h.laid.changesOnly_scatter h.wellFormed (by omega)

end Alive

/-- Calls of other users leave the array as it is. -/
theorem Alive.grows (h : s.Alive) {arena' : Arena} (hg : s.arena.Grows arena') :
    Alive { s with arena := arena' } where
  wellFormed := hg.wellFormed
  laid := h.laid.grows h.wellFormed hg
  generation := h.generation.trans hg.generation.symm
  count := h.count
  count_le := h.count_le
  capacity_lt := h.capacity_lt
  cells := fun i x hx f hf j hj => by
    have hi : i < s.elements.length := (List.getElem?_eq_some_iff.1 hx).1
    have hcount := h.count
    have hle := h.count_le
    have hends := h.wellFormed.ends
    have hused := h.wellFormed.used_le
    obtain ⟨-, htable⟩ := h.laid.table_within
    obtain ⟨-, hend, -⟩ := h.laid.field_within hf
    have hcell : (s.array.cell s.arena.bytes i f).Within
        ⟨fieldArray s.arena.bytes s.array.fieldArrays f.2, f.1.size * s.array.capacity⟩ :=
      SoAArray.cell_within (by omega)
    have hptr : s.array.cell arena'.bytes i f = s.array.cell s.arena.bytes i f := by
      unfold SoAArray.cell
      rw [fieldArray_congr (h.laid.index f hf) (by omega) fun y hy => hg.bytes y (by
        rw [Region.mem_def] at hy
        dsimp only at hy
        omega)]
    have hlt : (s.array.cell s.arena.bytes i f).start + j < s.arena.memory + s.arena.used := by
      have hcell' := hcell.2
      unfold SoAArray.cell at hcell' ⊢
      dsimp only at hcell' ⊢
      omega
    dsimp only
    rw [hptr, hg.bytes _ hlt]
    exact h.cells i x hx f hf j hj

/-- A new array has no elements. -/
theorem alive_create {arena : Arena} {schema : SoASchema} {capacity : UInt64}
    (hwell : arena.WellFormed)
    (hproducts : ∀ f ∈ schema.fields, f.size * capacity.toNat < 2 ^ 64)
    (hcreate : create arena schema capacity = some s) :
    s.Alive ∧ s.resets = 0 ∧ s.prisms = [] := by
  have hcount : schema.fields.length * 8 < 2 ^ 64 := by
    have hlt := schema.count_lt
    omega
  unfold create at hcreate
  split at hcreate
  · next arena' array heq =>
    cases hcreate
    unfold arrayCreate at heq
    rw [u64_of_lt hcount] at heq
    dsimp only at heq
    split at heq
    · cases heq
    · split at heq
      · cases heq
      · split at heq
        · cases heq
        · split at heq
          · cases heq
          · next hvoid =>
            split at heq
            · next hok =>
              cases heq
              have hplaced := (Arena.alloc_cases hwell hcount
                (show 8 < 2 ^ 64 by norm_num)).resolve_left fun heq => hvoid (by rw [heq])
              have hgrows := hplaced.grows hwell (arena.alloc_bytes _ _)
              have htable : FieldsLaidOut _ _ schema.fields.length capacity.toNat [] :=
                hplaced.layout hwell
              obtain ⟨hlaid, hwell', -⟩ := allocFields_layout
                (fun f hf => hproducts f.1 (List.fst_mem_of_mem_zipIdx hf)) htable
                hgrows.wellFormed
                (fun f hf => List.snd_lt_of_mem_zipIdx hf) (zipIdx_index_nodup schema.fields) hok
              exact ⟨⟨hwell', hlaid, rfl, rfl, Nat.zero_le _, capacity.toNat_lt,
                fun i x hx => by simp at hx⟩, rfl, rfl⟩
            · cases heq
  · cases hcreate

/-! ## Runs -/

/-- Before the first reset the array is alive, and afterwards its generation is over. -/
structure Inv (s : SoAState) : Prop where
  wellFormed : s.arena.WellFormed
  bounds : 1 ≤ s.array.generation ∧ s.array.generation ≤ arenaMaxGeneration
  generation : s.arena.generation = 1 + (s.array.generation - 1 + s.resets) % arenaMaxGeneration
  few : s.resets < arenaMaxGeneration
  alive : s.resets = 0 → s.Alive
  stale : s.resets ≠ 0 → ∀ p ∈ s.prisms, ∀ i, p.inBounds i = false

theorem Alive.inv (h : s.Alive) (hresets : s.resets = 0) : s.Inv := by
  have hbounds := h.wellFormed.generation
  rw [← h.generation] at hbounds
  refine ⟨h.wellFormed, hbounds, ?_, by rw [hresets]; decide, fun _ => h,
    fun hne => absurd hresets hne⟩
  rw [hresets, ← h.generation, Nat.add_zero, Nat.mod_eq_of_lt (by omega)]
  omega

namespace Inv

theorem generation_ne (h : s.Inv) (hresets : s.resets ≠ 0) :
    s.array.generation ≠ s.arena.generation := by
  obtain ⟨hlow, hhigh⟩ := h.bounds
  have hfew := h.few
  have hmax : arenaMaxGeneration = 4294967294 := rfl
  rw [h.generation]
  rw [hmax] at hhigh hfew ⊢
  omega

/-- After a reset nothing is left to do. -/
theorem refused (h : s.Inv) (hresets : s.resets ≠ 0) : s.Refused := by
  have hne := h.generation_ne hresets
  refine ⟨fun e => ?_, fun i out => ?_, fun i e => ?_, fun fieldIndex => ?_, h.stale hresets⟩
  · rw [SoAArray.push, if_pos hne, ite_self]
  · rw [SoAArray.get, if_pos hne]
    split
    · exact ⟨rfl, nofun⟩
    · exact ⟨rfl, nofun⟩
  · rw [SoAArray.set, if_pos hne]
    split
    · exact ⟨rfl, nofun⟩
    · exact ⟨rfl, nofun⟩
  · unfold SoAArray.getPrism
    split
    · rfl
    · exact if_pos hne

/-- A reset ends the generation of the array. -/
theorem reset (h : s.Inv) (hprisms : s.resets = 0 → ∀ p ∈ s.prisms, p.count = 0)
    (hfew : s.resets + 1 < arenaMaxGeneration) : (s.step (.arena .reset)).1.Inv := by
  obtain ⟨bytes, hreset⟩ := Arena.reset_eq h.wellFormed
  have hstep : (ArenaOp.reset.step s.arena).1 = s.arena.reset.1 := rfl
  have hwell := h.wellFormed
  have hlt := Nat.mod_lt s.arena.generation (y := arenaMaxGeneration) (by decide)
  simp only [step, hstep, if_pos]
  rw [hreset]
  refine ⟨⟨hwell.memory_pos, hwell.capacity_pos, hwell.ends, Nat.zero_le _, hwell.alignment_lt,
    Nat.le_add_right _ _, by dsimp only; omega⟩, h.bounds, ?_, hfew,
    fun hzero => absurd hzero (Nat.succ_ne_zero _), fun _ p hp i => ?_⟩
  · have hsum : 1 + (s.array.generation - 1 + s.resets) =
        s.array.generation - 1 + (s.resets + 1) := by omega
    dsimp only
    rw [h.generation, Nat.add_mod_mod, hsum]
  · by_cases hresets : s.resets = 0
    · rw [Prism.inBounds, hprisms hresets p hp, decide_eq_false (Nat.not_lt_zero i), Bool.and_false]
    · exact h.stale hresets p hp i

/-- One step of a run. -/
theorem step (h : s.Inv) {op : SoAOp} (hkeeps : s.Keeps op) : (s.step op).1.Inv := by
  by_cases hresets : s.resets = 0
  · have halive := h.alive hresets
    cases op with
    | push e => exact (halive.push e).inv hresets
    | set index e => exact (halive.set index e).inv hresets
    | getPrism fieldIndex =>
      exact Alive.inv ⟨halive.wellFormed, halive.laid, halive.generation, halive.count,
        halive.count_le, halive.capacity_lt, halive.cells⟩ hresets
    | arena op =>
      by_cases hop : op = .reset
      · subst hop
        exact h.reset hkeeps.1 hkeeps.2
      · have hgrows := ArenaOp.step_grows halive.wellFormed hop
        simp only [SoAState.step, if_neg hop]
        exact (halive.grows hgrows).inv hresets
  · have hrefused := h.refused hresets
    cases op with
    | push e =>
      simp only [SoAState.step, hrefused.push e, if_pos]
      exact h
    | set index e =>
      obtain ⟨hsame, hne⟩ := hrefused.set index e
      simp only [SoAState.step, hsame, if_neg hne]
      exact h
    | getPrism fieldIndex =>
      simp only [SoAState.step, hrefused.getPrism fieldIndex]
      exact ⟨h.wellFormed, h.bounds, h.generation, h.few, fun hzero => absurd hzero hresets,
        fun _ => List.forall_mem_cons.2 ⟨fun _ => rfl, h.stale hresets⟩⟩
    | arena op =>
      by_cases hop : op = .reset
      · subst hop
        exact h.reset hkeeps.1 hkeeps.2
      · have hgrows := ArenaOp.step_grows h.wellFormed hop
        simp only [SoAState.step, if_neg hop]
        exact ⟨hgrows.wellFormed, h.bounds, hgrows.generation.trans h.generation, h.few,
          fun hzero => absurd hzero hresets, h.stale⟩

end Inv

/-- In a run that starts with a new array no product of which wraps around, every index holds what
was last pushed or set there, until a reset, from when on nothing is read or written. -/
theorem roundTrip {memory : ℕ} {bytes : Memory} {size alignment flags : ℕ} {arena : Arena}
    (hends : memory + size < 2 ^ 64)
    (harena : Arena.create memory bytes size alignment flags = some arena) (before : List ArenaOp)
    {schema : SoASchema} {capacity : UInt64}
    (hcreate : create (run ArenaOp.step arena before) schema capacity = some s)
    (hproducts : ∀ f ∈ schema.fields, f.size * capacity.toNat < 2 ^ 64) (ops : List SoAOp)
    (h : Guarded step Keeps s ops) :
    ((run step s ops).resets = 0 → (run step s ops).RoundTrip) ∧
      ((run step s ops).resets ≠ 0 → (run step s ops).Refused) := by
  have hwell := (arenaInv_run (wellFormed_create hends harena).1 before).wellFormed
  obtain ⟨halive, hresets, -⟩ := alive_create hwell hproducts hcreate
  have hinv := guarded_invariant (fun s op hs hok => hs.step hok) (halive.inv hresets) h
  exact ⟨fun hzero => (hinv.alive hzero).serves, hinv.refused⟩

/-- An arena of one page. -/
def pageArena : Arena :=
  ⟨4096, 4096, 0, 1, 64, 0, 0, fun _ => 0⟩

/-- Two fields of eight bytes. -/
def pairSchema : SoASchema :=
  ⟨[⟨0, 8, 8, by decide⟩, ⟨8, 8, 8, by decide⟩], 16, 8, by decide⟩

theorem roundTrip_pair : ∃ s, create pageArena pairSchema 4 = some s ∧
    (run step s [.push fun _ => 1, .set 0 fun _ => 2]).RoundTrip := by
  obtain ⟨s, hs⟩ := Option.isSome_iff_exists.1
    (show (create pageArena pairSchema 4).isSome = true by decide)
  have hpage : Arena.create 4096 (fun _ => 0) 4096 64 0 = some pageArena := rfl
  have hresets : s.resets = 0 :=
    (alive_create (wellFormed_create (by decide) hpage).1 (by decide) hs).2.1
  exact ⟨s, hs, (roundTrip (by decide) hpage [] hs (by decide) [.push fun _ => 1, .set 0 fun _ => 2]
    ⟨trivial, trivial, trivial⟩).1 hresets⟩

/-- With `2 ^ 61 + 1` elements of eight bytes the product is 8, and the second element is written
over the first. A prism of an element is good after a reset. -/
theorem not_roundTrip :
    ¬ (run step ((create pageArena pairSchema 2305843009213693953).get (by decide))
        [.push fun _ => 1, .push fun _ => 2]).RoundTrip ∧
      ¬ (run step ((create pageArena pairSchema 4).get (by decide))
        [.push fun _ => 1, .getPrism 0, .arena .reset]).Refused := by
  constructor
  · intro h
    have hget := congrArg (fun r => r.1 8) (h.get 0 (by decide) fun _ => 0)
    exact absurd hget (by decide)
  · intro h
    have hprism := h.prisms _ List.mem_cons_self 0
    exact absurd hprism (by decide)

end SoAState

end Seraph
