import Mathlib.Algebra.Order.Ring.Nat
import Mathlib.Data.List.Range

/-!
# Physical region pages

How an NVMe controller reads the data pointer of a command, with pages of `page` bytes. The first
entry may be anywhere in a page, the other ones are at the beginning of one (`Reads`, `Denotes`).
The bytes of a range are described by the pages it goes through (`bytes_entriesOf`). An array of
entries that stays in its page is read as it is (`reads_of_array`), a longer one is not
(`Reads.chained`).
-/

namespace Prp

/-- The words at the addresses of a memory. -/
abbrev Words := ℕ → ℕ

/-- The list at `p` describes `len` bytes with some entries. The last word of a page is the address
of the next part of the list, if more than a page of data is left. -/
inductive Reads (page : ℕ) (mem : Words) : ℕ → ℕ → List ℕ → Prop where
  | done (p : ℕ) : Reads page mem p 0 []
  | entry {p len : ℕ} {es : List ℕ} (hlen : 0 < len)
    (hdata : ¬(p % page = page - 8 ∧ page < len)) (halign : page ∣ mem p)
    (hrest : Reads page mem (p + 8) (len - page) es) : Reads page mem p len (mem p :: es)
  | chain {p len : ℕ} {es : List ℕ} (hlast : p % page = page - 8) (hmore : page < len)
    (halign : page ∣ mem p) (hrest : Reads page mem (mem p) len es) : Reads page mem p len es

/-- The bytes from an address to the end of its page. -/
def toEnd (page address : ℕ) : ℕ :=
  page - address % page

/-- The two data pointers of a command describe `len` bytes with some entries. The second is an
entry if it has to describe no more than a page, and the address of a list otherwise. The rule that
the offset in the first page is a multiple of four is left out. -/
def Denotes (page : ℕ) (mem : Words) (prp1 prp2 len : ℕ) (entries : List ℕ) : Prop :=
  if len = 0 then entries = []
  else if len ≤ toEnd page prp1 then entries = [prp1]
  else if len - toEnd page prp1 ≤ page then page ∣ prp2 ∧ entries = [prp1, prp2]
  else 8 ∣ prp2 ∧ ∃ es, Reads page mem prp2 (len - toEnd page prp1) es ∧ entries = prp1 :: es

/-- The addresses of the bytes that entries describe, in order. -/
def bytes (page : ℕ) : List ℕ → ℕ → List ℕ
  | [], _ => []
  | e :: es, len => List.range' e (min len (toEnd page e)) ++ bytes page es (len - toEnd page e)

/-- `n` pages from an address on. -/
def cover (page : ℕ) : ℕ → ℕ → List ℕ
  | 0, _ => []
  | n + 1, start => start :: cover page n (start + page)

/-- The number of pages that `len` bytes take. -/
def pages (page len : ℕ) : ℕ :=
  (len + page - 1) / page

/-- The entries that describe `len` bytes from an address on. -/
def entriesOf (page address len : ℕ) : List ℕ :=
  if len = 0 then []
  else address :: cover page (pages page (len - toEnd page address)) (address + toEnd page address)

/-! ## Pages -/

theorem toEnd_of_dvd {page address : ℕ} (h : page ∣ address) : toEnd page address = page := by
  rw [toEnd, Nat.mod_eq_zero_of_dvd h, Nat.sub_zero]

section

variable {page : ℕ} (hpage : 0 < page)

include hpage

theorem toEnd_pos (address : ℕ) : 0 < toEnd page address := by
  have h := Nat.mod_lt address hpage
  unfold toEnd
  omega

theorem dvd_add_toEnd (address : ℕ) : page ∣ address + toEnd page address := by
  have h := Nat.mod_lt address hpage
  have hsplit := Nat.div_add_mod address page
  refine ⟨address / page + 1, ?_⟩
  rw [Nat.mul_succ]
  unfold toEnd
  omega

theorem pages_zero : pages page 0 = 0 := by
  rw [pages, Nat.zero_add]
  exact Nat.div_eq_of_lt (by omega)

/-- The first page of some bytes, and the other ones. -/
theorem pages_succ {len : ℕ} (hlen : 0 < len) : pages page len = pages page (len - page) + 1 := by
  unfold pages
  rcases Nat.lt_or_ge len page with hlt | hge
  · rw [show len - page = 0 by omega, Nat.zero_add, Nat.div_eq_of_lt (by omega : page - 1 < page),
      show len + page - 1 = len - 1 + page by omega, Nat.add_div_right _ hpage,
      Nat.div_eq_of_lt (by omega)]
  · rw [show len + page - 1 = len - page + page - 1 + page by omega, Nat.add_div_right _ hpage]

theorem le_pages_mul (len : ℕ) : len ≤ pages page len * page := by
  have h := @Nat.lt_div_mul_add (len + page - 1) _ hpage
  unfold pages
  omega

end

theorem length_cover (page n start : ℕ) : (cover page n start).length = n := by
  induction n generalizing start with
  | zero => rfl
  | succ n ih => rw [cover, List.length_cons, ih]

/-! ## Bytes -/

section

variable {page : ℕ}

theorem bytes_cover {start len n : ℕ} (hstart : page ∣ start) (hlen : len ≤ n * page) :
    bytes page (cover page n start) len = List.range' start len := by
  induction n generalizing start len with
  | zero =>
    rw [Nat.zero_mul, Nat.le_zero] at hlen
    rw [hlen]
    rfl
  | succ n ih =>
    rw [Nat.succ_mul] at hlen
    rw [cover, bytes, toEnd_of_dvd hstart, ih (Nat.dvd_add hstart (Nat.dvd_refl page)) (by omega)]
    rcases Nat.le_total len page with hle | hge
    · rw [Nat.min_eq_left hle, Nat.sub_eq_zero_of_le hle, List.range'_zero, List.append_nil]
    · rw [Nat.min_eq_right hge, List.range'_append_1, Nat.add_sub_cancel' hge]

theorem bytes_entriesOf (hpage : 0 < page) (address len : ℕ) :
    bytes page (entriesOf page address len) len = List.range' address len := by
  unfold entriesOf
  split_ifs with hzero
  · rw [hzero]
    rfl
  · rw [bytes, bytes_cover (dvd_add_toEnd hpage address) (le_pages_mul hpage _)]
    rcases Nat.le_total len (toEnd page address) with hle | hge
    · rw [Nat.min_eq_left hle, Nat.sub_eq_zero_of_le hle, List.range'_zero, List.append_nil]
    · rw [Nat.min_eq_right hge, List.range'_append_1, Nat.add_sub_cancel' hge]

/-- Entries below a limit that is the end of a page describe bytes below it. -/
theorem bytes_lt (hpage : 0 < page) {limit : ℕ} (hlimit : page ∣ limit) {entries : List ℕ}
    (h : ∀ e ∈ entries, e < limit) {len b : ℕ} (hb : b ∈ bytes page entries len) : b < limit := by
  induction entries generalizing len with
  | nil => exact absurd hb List.not_mem_nil
  | cons e es ih =>
    rw [bytes, List.mem_append] at hb
    rcases hb with hb | hb
    · obtain ⟨k, rfl⟩ := hlimit
      obtain ⟨j, hj⟩ := dvd_add_toEnd hpage e
      have hpos := toEnd_pos hpage e
      have hlt := h e (List.mem_cons_self ..)
      have hend : toEnd page e ≤ page := Nat.sub_le ..
      have hjk : j ≤ k := Nat.le_of_lt_succ (@Nat.lt_of_mul_lt_mul_left page _ _
        (by rw [← hj, Nat.mul_succ]; omega))
      have hmul := Nat.mul_le_mul_left page hjk
      rw [List.mem_range'_1] at hb
      omega
    · exact ih (fun e he => h e (List.mem_cons_of_mem _ he)) hb

end

/-! ## Lists -/

section

variable {page : ℕ} {mem : Words} {p len : ℕ} {es : List ℕ}

/-- What a list describes is a data entry, or the address of the next part, and what follows. -/
theorem Reads.inv (h : Reads page mem p len es) (hlen : 0 < len) : page ∣ mem p ∧
    ((¬(p % page = page - 8 ∧ page < len) ∧ ∃ es', Reads page mem (p + 8) (len - page) es') ∨
      ((p % page = page - 8 ∧ page < len) ∧ Reads page mem (mem p) len es)) := by
  cases h with
  | done => exact absurd hlen (Nat.lt_irrefl 0)
  | entry hlen hdata halign hrest => exact ⟨halign, Or.inl ⟨hdata, _, hrest⟩⟩
  | chain hlast hmore halign hrest => exact ⟨halign, Or.inr ⟨⟨hlast, hmore⟩, hrest⟩⟩

/-- An address some words further in the same page. -/
theorem add_mod {k : ℕ} (h : p % page + 8 * k < page) : (p + 8 * k) % page = p % page + 8 * k := by
  have hk : 8 * k % page = 8 * k := Nat.mod_eq_of_lt (by omega)
  rw [Nat.add_mod, hk, Nat.mod_eq_of_lt h]

/-- The last word of a page is the address of the next part, where the list goes on. -/
theorem Reads.chained {k : ℕ} (hpage : 8 ≤ page) (h : Reads page mem p len es)
    (hk : p % page + 8 * k = page - 8) (hlen : (k + 1) * page < len) :
    page ∣ mem (mem (p + 8 * k)) := by
  induction k generalizing p len es with
  | zero =>
    rw [Nat.zero_add, Nat.one_mul] at hlen
    obtain ⟨-, ⟨hdata, -⟩ | ⟨-, hrest⟩⟩ := h.inv (by omega)
    · exact absurd ⟨by omega, hlen⟩ hdata
    · exact (hrest.inv (by omega)).1
  | succ k ih =>
    rw [Nat.succ_mul] at hlen
    obtain ⟨-, ⟨-, es', hrest⟩ | ⟨⟨hlast, -⟩, -⟩⟩ := h.inv (by omega)
    · have hmod : (p + 8) % page = p % page + 8 := @add_mod page p 1 (by omega)
      have hnext := ih hrest (by omega) (by omega)
      rwa [show p + 8 + 8 * k = p + 8 * (k + 1) by omega] at hnext
    · omega

/-- An array of entries that stays in its page is read as it is. -/
theorem reads_of_array {start : ℕ} (hpage : 8 < page) (hstart : page ∣ start)
    (hroom : p % page + 8 * pages page len ≤ page)
    (hmem : ∀ i < pages page len, mem (p + 8 * i) = start + i * page) :
    Reads page mem p len (cover page (pages page len) start) := by
  generalize hn : pages page len = n at hroom hmem
  induction n generalizing p len start with
  | zero =>
    have hle := le_pages_mul (by omega : 0 < page) len
    rw [hn, Nat.zero_mul, Nat.le_zero] at hle
    rw [hle]
    exact Reads.done p
  | succ n ih =>
    have hpos : 0 < len := by
      by_contra hzero
      rw [Nat.eq_zero_of_not_pos hzero, pages_zero (by omega)] at hn
      exact absurd hn (by omega)
    have hrest : pages page (len - page) = n := by
      rw [pages_succ (by omega) hpos] at hn
      omega
    have hfirst := hmem 0 (Nat.succ_pos n)
    rw [Nat.mul_zero, Nat.add_zero, Nat.zero_mul, Nat.add_zero] at hfirst
    rw [cover, ← hfirst]
    refine Reads.entry hpos ?_ (hfirst ▸ hstart) ?_
    · rintro ⟨hlast, hmore⟩
      have hn0 : n = 0 := by omega
      have hle := le_pages_mul (by omega : 0 < page) (len - page)
      rw [hrest, hn0, Nat.zero_mul] at hle
      omega
    · rw [hfirst]
      refine ih (Nat.dvd_add hstart (Nat.dvd_refl page)) hrest ?_ ?_
      · rcases Nat.eq_zero_or_pos n with rfl | hn0
        · rw [Nat.mul_zero, Nat.add_zero]
          exact (Nat.mod_lt _ (by omega : 0 < page)).le
        · have hmod : (p + 8) % page = p % page + 8 := @add_mod page p 1 (by omega)
          omega
      · intro i hi
        have hnext := hmem (i + 1) (by omega)
        rw [Nat.succ_mul i page] at hnext
        rw [show p + 8 + 8 * i = p + 8 * (i + 1) by omega, hnext]
        omega

/-- Entries of a list that are read from a memory of words below a limit are below it. -/
theorem Reads.lt {limit : ℕ} (hmem : ∀ p, mem p < limit) (h : Reads page mem p len es) :
    ∀ e ∈ es, e < limit := by
  induction h with
  | done => exact fun e he => absurd he List.not_mem_nil
  | entry _ _ _ _ ih => exact List.forall_mem_cons.mpr ⟨hmem _, ih⟩
  | chain _ _ _ _ ih => exact ih

theorem Denotes.lt {limit prp1 prp2 : ℕ} (h : Denotes page mem prp1 prp2 len es)
    (hprp1 : prp1 < limit) (hprp2 : prp2 < limit) (hmem : ∀ p, mem p < limit) :
    ∀ e ∈ es, e < limit := by
  unfold Denotes at h
  split_ifs at h
  · rw [h]
    exact fun e he => absurd he List.not_mem_nil
  · rw [h, List.forall_mem_singleton]
    exact hprp1
  · rw [h.2, List.forall_mem_cons, List.forall_mem_singleton]
    exact ⟨hprp1, hprp2⟩
  · obtain ⟨-, es', hread, rfl⟩ := h
    exact List.forall_mem_cons.mpr ⟨hprp1, hread.lt hmem⟩

end

end Prp
