import Seraph.DecimalText
import Seraph.Q128

/-!
# The text of Q64.64 numbers

`seraph_q128_to_string` from `q128.c`. What is written is the sign, the whole part and the fraction,
cut at the end of the buffer (`toString_eq`), if the whole part fits. Otherwise the position is the
one that the whole part would have needed, behind the buffer, and the final NUL is written there.
`prints_iff` says when the text is the one that is asked for. The least whole part is negated in two's
complement, though C leaves that overflow undefined.
-/

namespace Seraph

open DecimalText

namespace Q128

/-! ## Definitions -/

/-- `buf` and `pos`. -/
structure TextCursor where
  pos : ℕ
  buf : Chars

/-- `buf[pos++] = c`. -/
def TextCursor.put (s : TextCursor) (c : UInt8) : TextCursor :=
  ⟨s.pos + 1, Function.update s.buf s.pos c⟩

/-- `pos += snprintf(buf + pos, buf_size - pos, ...)`. -/
def TextCursor.print (s : TextCursor) (buf_size : ℕ) (text : List UInt8) : TextCursor :=
  ⟨s.pos + text.length, snprintf s.buf s.pos (buf_size - s.pos) text⟩

/-- `'-'`. -/
def minusChar : UInt8 := 45

/-- `'.'`. -/
def pointChar : UInt8 := 46

/-- `"VOID"`. -/
def voidText : List UInt8 := [86, 79, 73, 68]

/-- What `%lld` prints. -/
def lldText (v : ℤ) : List UInt8 :=
  if v < 0 then minusChar :: decimal v.natAbs else decimal v.natAbs

/-- The loop over the decimals, with `n` of them left. -/
def fracText (buf_size : ℕ) : ℕ → BitVec 64 → TextCursor → TextCursor
  | 0, _, s => s
  | n + 1, frac, s =>
    if s.pos < buf_size - 1 then
      let wide := u64MulWide frac 10
      fracText buf_size n wide.lo (s.put (digitChar wide.hi.toNat))
    else s

/-- The number whose digits are printed. -/
def unsigned (x : Q128) : Q128 :=
  if isNeg x.hi then neg x else x

/-- `seraph_q128_to_string` of a number, before the last NUL. -/
def textCursor (x : Q128) (buf : Chars) (buf_size : ℕ) (decimals : ℤ) : TextCursor :=
  let s : TextCursor := ⟨0, buf⟩
  let s := if isNeg x.hi ∧ s.pos < buf_size - 1 then s.put minusChar else s
  let s := s.print buf_size (lldText (unsigned x).hi.toInt)
  if 0 < decimals ∧ s.pos < buf_size - 1 then
    fracText buf_size decimals.toNat (unsigned x).lo (s.put pointChar)
  else s

/-- `seraph_q128_to_string` : what it returns, and the memory from `buf` on. -/
def toString (x : Q128) (buf : Option Chars) (buf_size decimals : ℤ) : ℤ × Option Chars :=
  match buf with
  | none => (0, none)
  | some buf =>
    if buf_size < 2 then (0, some buf)
    else
      let size := buf_size.toNat
      if x.isVoid then
        (4, some (Function.update (strncpy buf voidText (size - 1)) (size - 1) 0))
      else
        let s := textCursor x buf size decimals
        (s.pos, some (Function.update s.buf s.pos 0))

/-! ## What is asked for -/

/-- The sign and the whole part of a number in decimal. -/
def wholeText (x : Q128) : List UInt8 :=
  (if x.value < 0 then [minusChar] else []) ++ decimal (x.value.natAbs / 2 ^ 64)

/-- The fraction of a number in decimal, cut off after some digits. -/
def fractionText (x : Q128) (decimals : ℤ) : List UInt8 :=
  if 0 < decimals then
    pointChar :: (padded 10 decimals.toNat
      (x.value.natAbs % 2 ^ 64 * 10 ^ decimals.toNat / 2 ^ 64)).map digitChar
  else []

/-- What is asked for : whatever is in the buffer, a text and its NUL are written to it and nothing
behind it, the length of the text is returned, and if there is room for it the text is the number
in decimal. -/
def Prints (x : Q128) (buf_size decimals : ℤ) : Prop :=
  ∀ buf, ∃ (after : Chars) (text : List UInt8),
    toString x (some buf) buf_size decimals = ((text.length : ℤ), some after) ∧
      (text.length : ℤ) < buf_size ∧ 0 ∉ text ∧ Written buf_size.toNat buf after (text ++ [0]) ∧
      (x ≠ void → ((wholeText x ++ fractionText x decimals).length : ℤ) < buf_size →
        text = wholeText x ++ fractionText x decimals)

/-! ## What is written -/

/-- The cursor is behind a text in the buffer. -/
structure TextCursor.At (size : ℕ) (buf : Chars) (text : List UInt8) (s : TextCursor) : Prop where
  pos : s.pos = text.length
  written : Written size buf s.buf text

section

variable {size : ℕ} {buf : Chars} {text : List UInt8} {s : TextCursor}

theorem TextCursor.At.put (h : s.At size buf text) (hfit : text.length < size) (c : UInt8) :
    (s.put c).At size buf (text ++ [c]) := by
  refine ⟨?_, ?_⟩
  · rw [TextCursor.put, h.pos, List.length_append, List.length_singleton]
  · rw [TextCursor.put, h.pos]
    exact h.written.put hfit c

theorem TextCursor.At.print (h : s.At size buf text) {more : List UInt8}
    (hfit : text.length + more.length < size) : (s.print size more).At size buf (text ++ more) := by
  refine ⟨?_, ?_⟩
  · rw [TextCursor.print, h.pos, List.length_append]
  · rw [TextCursor.print, h.pos]
    exact h.written.snprintf hfit

theorem toNat_u64MulWide_ten (frac : BitVec 64) :
    (u64MulWide frac 10).hi.toNat = frac.toNat * 10 / 2 ^ 64 ∧
      (u64MulWide frac 10).lo.toNat = frac.toNat * 10 % 2 ^ 64 := by
  have hwide := u64MulWide_eq frac 10
  have hlo := (u64MulWide frac 10).lo.isLt
  rw [show (10 : BitVec 64).toNat = 10 from rfl] at hwide
  omega

/-- The characters of the first digits of a fraction. -/
def digitText (n : ℕ) (frac : BitVec 64) : List UInt8 :=
  (expand 10 (2 ^ 64) n frac.toNat).map digitChar

/-- The loop writes digits up to the end of the buffer. -/
theorem TextCursor.At.fracText (n : ℕ) (frac : BitVec 64) (h : s.At size buf text)
    (hfit : text.length < size) : (fracText size n frac s).At size buf
      (text ++ (digitText n frac).take (size - 1 - text.length)) := by
  induction n generalizing frac text s with
  | zero => rwa [digitText, expand, List.map_nil, List.take_nil, List.append_nil]
  | succ n ih =>
    obtain ⟨hhi, hlo⟩ := toNat_u64MulWide_ten frac
    rw [Q128.fracText, h.pos]
    split_ifs with hroom
    · have hput := h.put hfit (digitChar (u64MulWide frac 10).hi.toNat)
      have hnext := ih (u64MulWide frac 10).lo hput
        (by rw [List.length_append, List.length_singleton]; omega)
      obtain ⟨k, hk⟩ : ∃ k, size - 1 - text.length = k + 1 := ⟨size - 2 - text.length, by omega⟩
      rw [List.append_assoc, List.singleton_append, List.length_append, List.length_singleton,
        show size - 1 - (text.length + 1) = k by omega] at hnext
      rwa [hk, digitText, expand, List.map_cons, List.take_succ_cons, ← hhi, ← hlo]
    · rwa [show size - 1 - text.length = 0 by omega, List.take_zero, List.append_nil]

end

/-- The characters of the sign and the whole part, as they are printed. -/
def headText (x : Q128) : List UInt8 :=
  (if isNeg x.hi then [minusChar] else []) ++ lldText (unsigned x).hi.toInt

/-- The characters of the fraction, as they are printed. -/
def tailText (x : Q128) (decimals : ℤ) : List UInt8 :=
  if 0 < decimals then pointChar :: digitText decimals.toNat (unsigned x).lo else []

section

variable {x : Q128} {buf : Chars} {size : ℕ} {decimals : ℤ}

/-- The cursor behind the whole part. -/
def headCursor (x : Q128) (buf : Chars) (size : ℕ) : TextCursor :=
  (if isNeg x.hi ∧ (⟨0, buf⟩ : TextCursor).pos < size - 1 then
    (⟨0, buf⟩ : TextCursor).put minusChar else ⟨0, buf⟩).print size (lldText (unsigned x).hi.toInt)

theorem signCursor_at (hsize : 2 ≤ size) :
    (if isNeg x.hi ∧ (⟨0, buf⟩ : TextCursor).pos < size - 1 then
      (⟨0, buf⟩ : TextCursor).put minusChar else ⟨0, buf⟩).At size buf
        (if isNeg x.hi then [minusChar] else []) := by
  have hstart : (⟨0, buf⟩ : TextCursor).At size buf [] := ⟨rfl, Written.nil⟩
  by_cases hneg : isNeg x.hi = true
  · rw [if_pos hneg, if_pos ⟨hneg, show 0 < size - 1 by omega⟩]
    exact hstart.put (show 0 < size by omega) minusChar
  · rwa [if_neg hneg, if_neg fun h => hneg h.1]

theorem headCursor_pos (hsize : 2 ≤ size) :
    (headCursor x buf size).pos = (headText x).length := by
  have hsign := (@signCursor_at x buf size hsize).pos
  rw [headCursor, TextCursor.print, hsign, headText, List.length_append]

theorem headCursor_at (hsize : 2 ≤ size) (hfit : (headText x).length < size) :
    (headCursor x buf size).At size buf (headText x) := by
  rw [headText, List.length_append] at hfit
  exact (signCursor_at hsize).print hfit

theorem textCursor_eq : textCursor x buf size decimals =
    if 0 < decimals ∧ (headCursor x buf size).pos < size - 1 then
      fracText size decimals.toNat (unsigned x).lo ((headCursor x buf size).put pointChar)
    else headCursor x buf size :=
  rfl

/-- Where the whole part fits, the text is cut at the end of the buffer. -/
theorem textCursor_at (hsize : 2 ≤ size) (hfit : (headText x).length < size) :
    (textCursor x buf size decimals).At size buf
      ((headText x ++ tailText x decimals).take (size - 1)) := by
  have hhead := @headCursor_at x buf size hsize hfit
  rw [textCursor_eq, hhead.pos, List.take_append, List.take_of_length_le (by omega), tailText]
  by_cases hdec : 0 < decimals
  · rw [if_pos hdec]
    by_cases hroom : (headText x).length < size - 1
    · have hfrac := (hhead.put hfit pointChar).fracText decimals.toNat (unsigned x).lo
        (by rw [List.length_append, List.length_singleton]; omega)
      obtain ⟨k, hk⟩ : ∃ k, size - 1 - (headText x).length = k + 1 :=
        ⟨size - 2 - (headText x).length, by omega⟩
      rw [List.length_append, List.length_singleton, List.append_assoc, List.singleton_append,
        show size - 1 - ((headText x).length + 1) = k by omega] at hfrac
      rwa [if_pos ⟨hdec, hroom⟩, hk, List.take_succ_cons]
    · rwa [if_neg fun h => hroom h.2, show size - 1 - (headText x).length = 0 by omega,
        List.take_zero, List.append_nil]
  · rwa [if_neg hdec, if_neg fun h => hdec h.1, List.take_nil, List.append_nil]

/-- Where the whole part does not fit, the position is behind the buffer. -/
theorem le_textCursor_pos (hsize : 2 ≤ size) (hlong : size ≤ (headText x).length) :
    size ≤ (textCursor x buf size decimals).pos := by
  have hpos := @headCursor_pos x buf size hsize
  rw [textCursor_eq, if_neg fun h => absurd h.2 (by omega)]
  omega

end

/-! ## The number and its digits -/

section

variable {x : Q128} {decimals : ℤ}

/-- The least number, whose negation is itself. -/
def least : Q128 :=
  ⟨0x8000000000000000, 0⟩

theorem eq_least (h : x.value = -2 ^ 127) : x = least := by
  have hlt := x.bits_lt
  have hval := value_eq x
  refine bits_injective ?_
  rw [show least.bits = 2 ^ 127 from rfl]
  split at hval <;> omega

theorem unsigned_eq_abs (hx : x.isVoid = false) : unsigned x = abs x := by
  have habs : abs x = select void (select (neg x) x (maskOf (isNeg x.hi))) (voidMask x) := rfl
  rw [habs, voidMask_eq, hx, select_mask, select_mask]
  rfl

/-- The two words of the number without its sign. -/
theorem toNat_unsigned (hx : x.isVoid = false) :
    (unsigned x).hi.toNat = x.value.natAbs / 2 ^ 64 ∧
      (unsigned x).lo.toNat = x.value.natAbs % 2 ^ 64 := by
  have hbits := bits_abs hx
  have hlo := (unsigned x).lo.isLt
  rw [← unsigned_eq_abs hx] at hbits
  unfold bits at hbits
  omega

theorem tailText_eq (hx : x.isVoid = false) : tailText x decimals = fractionText x decimals := by
  unfold tailText fractionText digitText
  rw [expand_eq (by decide) (by decide), (toNat_unsigned hx).2]

/-- But for the least number, the sign and the whole part are printed as asked for. -/
theorem headText_eq (hx : x.isVoid = false) (hleast : x ≠ least) : headText x = wholeText x := by
  have hval := value_eq x
  have hlt := x.bits_lt
  have hne : x.value ≠ -2 ^ 127 := fun h => hleast (eq_least h)
  have hhi := (toNat_unsigned hx).1
  have hint : (unsigned x).hi.toInt = (x.value.natAbs / 2 ^ 64 : ℕ) := by
    rw [BitVec.toInt_eq_toNat_of_lt, hhi]
    split at hval <;> omega
  have hpos : ¬((x.value.natAbs / 2 ^ 64 : ℕ) : ℤ) < 0 := by omega
  rw [headText, wholeText, hint, lldText, if_neg hpos, Int.natAbs_natCast]
  by_cases hneg : x.value < 0
  · rw [if_pos hneg, if_pos (isNeg_iff_value.mpr hneg)]
  · rw [if_neg hneg, if_neg fun h => hneg (isNeg_iff_value.mp h)]

theorem zero_notMem_headText : 0 ∉ headText x := by
  unfold headText lldText
  have hdec := zero_notMem_decimal (unsigned x).hi.toInt.natAbs
  have hminus : (0 : UInt8) ≠ minusChar := by decide
  split_ifs <;> simp [hdec, hminus]

theorem zero_notMem_tailText : 0 ∉ tailText x decimals := by
  unfold tailText digitText
  split_ifs
  · have hlt := @multiple_lt 10 (2 ^ 64) (by decide) _ (unsigned x).lo.isLt decimals.toNat
    rw [List.mem_cons, not_or, expand_eq (by decide) (by decide)]
    exact ⟨by decide, zero_notMem_padded hlt⟩
  · exact List.not_mem_nil

end

/-! ## The text that is asked for -/

section

variable {x : Q128} {buf_size decimals : ℤ}

/-- A buffer of less than two characters is not written. -/
theorem not_prints_of_small (h : buf_size < 2) : ¬Prints x buf_size decimals := by
  intro hprints
  obtain ⟨after, text, heq, hlen, -, hwritten, -⟩ := hprints fun _ => 1
  rw [toString, if_pos h, Prod.mk.injEq, Option.some.injEq] at heq
  have hzero := hwritten.holds text.length
    (by rw [List.length_append, List.length_singleton]; omega)
  rw [← heq.2, List.getElem_concat_length rfl] at hzero
  exact absurd (show (1 : UInt8) = 0 from hzero) (by decide)

/-- VOID is printed as it is where there is room for it. -/
theorem prints_void_iff (h : 2 ≤ buf_size) : Prints void buf_size decimals ↔ 5 ≤ buf_size := by
  have hstring : ∀ buf, toString void (some buf) buf_size decimals = (4, some (Function.update
      (strncpy buf voidText (buf_size.toNat - 1)) (buf_size.toNat - 1) 0)) := by
    intro buf
    rw [toString, if_neg (by omega)]
    rfl
  constructor
  · intro hprints
    obtain ⟨after, text, heq, hlen, -⟩ := hprints fun _ => 0
    rw [hstring, Prod.mk.injEq] at heq
    omega
  · intro hroom buf
    refine ⟨_, voidText, hstring buf, hroom, by decide, ?_, fun hx => absurd rfl hx⟩
    have hlen : (voidText.take (buf_size.toNat - 1) ++
        List.replicate (buf_size.toNat - 1 - voidText.length) 0).length = buf_size.toNat - 1 := by
      rw [List.length_append, List.length_take, List.length_replicate,
        show voidText.length = 4 from rfl]
      omega
    have hcopied := (@Written.nil buf_size.toNat buf).append
      (show 0 + _ ≤ buf_size.toNat by rw [hlen]; omega)
    have hended := hcopied.put (by rw [List.nil_append, hlen]; omega) 0
    rw [List.nil_append, hlen, List.take_of_length_le (show 4 ≤ _ by omega), List.append_assoc,
      ← List.replicate_succ', List.replicate_succ, ← List.singleton_append, ← List.append_assoc]
      at hended
    rw [strncpy, List.take_of_length_le (show 4 ≤ _ by omega)]
    exact hended.left

theorem toString_number (hx : x.isVoid = false) (h : 2 ≤ buf_size) (buf : Chars) :
    toString x (some buf) buf_size decimals =
      (((textCursor x buf buf_size.toNat decimals).pos : ℤ),
        some (Function.update (textCursor x buf buf_size.toNat decimals).buf
          (textCursor x buf buf_size.toNat decimals).pos 0)) := by
  rw [toString, if_neg (by omega), hx, if_neg (by decide)]

/-- A number whose whole part does not fit has its NUL behind the buffer. -/
theorem not_prints_of_long (hx : x.isVoid = false) (h : 2 ≤ buf_size)
    (hlong : buf_size.toNat ≤ (headText x).length) : ¬Prints x buf_size decimals := by
  intro hprints
  obtain ⟨after, text, heq, -, -, hwritten, -⟩ := hprints fun _ => 1
  rw [toString_number hx h, Prod.mk.injEq, Option.some.injEq] at heq
  have hpos := @le_textCursor_pos x (fun _ => 1) _ decimals (by omega) hlong
  have hframe := hwritten.frame _ hpos
  rw [← heq.2, Function.update_self] at hframe
  exact absurd (show (0 : UInt8) = 1 from hframe) (by decide)

/-- The text that is written. -/
def cutText (x : Q128) (size : ℕ) (decimals : ℤ) : List UInt8 :=
  (headText x ++ fractionText x decimals).take (size - 1)

/-- A number whose whole part fits has its text cut at the end of the buffer. -/
theorem toString_eq (hx : x.isVoid = false) (h : 2 ≤ buf_size)
    (hfit : (headText x).length < buf_size.toNat) (buf : Chars) : ∃ after,
      toString x (some buf) buf_size decimals =
        (((cutText x buf_size.toNat decimals).length : ℤ), some after) ∧
      0 ∉ cutText x buf_size.toNat decimals ∧
      Written buf_size.toNat buf after (cutText x buf_size.toNat decimals ++ [0]) := by
  have hat := @textCursor_at x buf _ decimals (by omega) hfit
  rw [tailText_eq hx] at hat
  have hlen : (cutText x buf_size.toNat decimals).length < buf_size.toNat := by
    rw [cutText, List.length_take]
    omega
  refine ⟨_, ?_, fun hzero => ?_, hat.written.put hlen 0⟩
  · rw [toString_number hx h, hat.pos]
    rfl
  · have hmem := List.mem_of_mem_take hzero
    rw [← tailText_eq hx, List.mem_append] at hmem
    exact hmem.elim zero_notMem_headText zero_notMem_tailText

theorem length_fractionText :
    (fractionText x decimals).length = if 0 < decimals then decimals.toNat + 1 else 0 := by
  unfold fractionText
  split_ifs
  · rw [List.length_cons, List.length_map, length_padded]
  · rfl

/-- The text of the least number has two signs. -/
theorem prints_least_iff (h : 2 ≤ buf_size) :
    Prints least buf_size decimals ↔ 22 ≤ buf_size ∧ buf_size ≤ 21 + decimals := by
  have hx : least.isVoid = false := by decide
  have hhead : (headText least).length = 21 := by decide
  have hwhole : (wholeText least).length = 20 := by decide
  have hfrac := @length_fractionText least decimals
  constructor
  · intro hprints
    have hroom : 22 ≤ buf_size := by
      by_contra hlong
      exact not_prints_of_long hx h (by rw [hhead]; omega) hprints
    refine ⟨hroom, ?_⟩
    by_contra hlong
    obtain ⟨after, text, heq, -, -, hwritten, htext⟩ := hprints fun _ => 0
    obtain ⟨after', heq', -, hwritten'⟩ :=
      @toString_eq least _ decimals hx h (by rw [hhead]; omega) fun _ => 0
    rw [heq, Prod.mk.injEq, Option.some.injEq, Nat.cast_inj] at heq'
    obtain ⟨hlen, rfl⟩ := heq'
    have hcut := List.append_cancel_right (hwritten.unique hwritten' (by
      rw [List.length_append, List.length_append, hlen]))
    rw [htext (by decide) (by rw [List.length_append, hwhole]; split_ifs at hfrac <;> omega),
      cutText] at hcut
    have hsecond := congrArg (fun text => text[1]?) hcut
    simp only [List.getElem?_take_of_lt (show 1 < buf_size.toNat - 1 by omega),
      List.getElem?_append_left (show 1 < (wholeText least).length by decide),
      List.getElem?_append_left (show 1 < (headText least).length by decide)] at hsecond
    exact absurd hsecond (by decide)
  · rintro ⟨hroom, hcut⟩ buf
    obtain ⟨after, heq, hzero, hwritten⟩ :=
      @toString_eq least _ decimals hx h (by rw [hhead]; omega) buf
    have hlen := hwritten.fits
    rw [List.length_append, List.length_singleton] at hlen
    refine ⟨after, _, heq, by omega, hzero, hwritten, fun _ hfit => ?_⟩
    rw [List.length_append, hwhole, hfrac] at hfit
    split_ifs at hfit <;> omega

/-- The text is what is asked for exactly if there is room for the whole part and its NUL, which
VOID is printed as as well, and the number is not the least one, unless there is no room for its
fraction. -/
theorem prints_iff : Prints x buf_size decimals ↔ 2 ≤ buf_size ∧ (x = void → 5 ≤ buf_size) ∧
    (x ≠ void → (wholeText x).length < buf_size) ∧
    (x = least → 22 ≤ buf_size ∧ buf_size ≤ 21 + decimals) := by
  by_cases h : buf_size < 2
  · exact iff_of_false (not_prints_of_small h) fun hcond => absurd hcond.1 (by omega)
  rw [Int.not_lt] at h
  by_cases hvoid : x = void
  · subst hvoid
    rw [prints_void_iff h]
    exact ⟨fun h5 => ⟨h, fun _ => h5, fun hne => absurd rfl hne, fun heq => absurd heq (by decide)⟩,
      fun hcond => hcond.2.1 rfl⟩
  by_cases hleast : x = least
  · subst hleast
    rw [prints_least_iff h]
    refine ⟨fun hroom => ⟨h, fun heq => absurd heq hvoid, fun _ => ?_, fun _ => hroom⟩,
      fun hcond => hcond.2.2.2 rfl⟩
    rw [show (wholeText least).length = 20 by decide]
    omega
  have hx : x.isVoid = false := by
    rw [← Bool.not_eq_true, isVoid_eq_true]
    exact hvoid
  have hhead := headText_eq hx hleast
  refine Iff.trans ?_ ⟨fun hfit => ⟨h, fun heq => absurd heq hvoid, fun _ => hfit,
    fun heq => absurd heq hleast⟩, fun hcond => hcond.2.2.1 hvoid⟩
  constructor
  · intro hprints
    by_contra hlong
    exact not_prints_of_long hx h (by rw [hhead]; omega) hprints
  · intro hfit buf
    obtain ⟨after, heq, hzero, hwritten⟩ :=
      @toString_eq x _ decimals hx h (by rw [hhead]; omega) buf
    have hlen := hwritten.fits
    rw [List.length_append, List.length_singleton] at hlen
    refine ⟨after, _, heq, by omega, hzero, hwritten, fun _ hroom => ?_⟩
    rw [cutText, hhead, List.take_of_length_le (by omega)]

end

/-- The largest whole number has 19 digits. In a buffer of 8 characters its NUL is written at 19. -/
theorem not_prints_largest : ¬Prints ⟨0x7FFFFFFFFFFFFFFF, 0⟩ 8 2 :=
  not_prints_of_long (by decide) (by decide) (by decide)

end Q128

end Seraph
