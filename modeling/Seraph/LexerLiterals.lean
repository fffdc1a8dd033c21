import Mathlib.Data.List.Induction
import Mathlib.Data.List.TakeWhile
import Mathlib.Data.Nat.Digits.Defs
import Seraph.LexerTokens

/-!
# The value of integer literals

`scan_number` passes over digits and underscores alike, and hands the text to `strtoull`, which
stops at the first underscore. So the value of a token is that of the digits before
the first underscore, and no literal is ever reported as too large (`nextToken_literal`). That is
the value of the literal where the literal has no underscore or is zero, as long as it is below
`2 ^ 64` (`reads_iff`).
-/

namespace Seraph

/-- The number that digits denote, the first the most significant. -/
def digitsValue (base : ℕ) (digits : List UInt8) : ℕ :=
  Nat.ofDigits base (digits.map digitValue).reverse

/-- The bytes before the digits of a literal, and the base that they stand for. -/
def literalMarks : List (ℕ × List UInt8) := [
  (10, []), (16, asciiBytes "0x"), (16, asciiBytes "0X"), (2, asciiBytes "0b"),
  (2, asciiBytes "0B"), (8, asciiBytes "0o"), (8, asciiBytes "0O")]

/-- The suffixes that leave a literal an integer. -/
def intSuffixes : List (List UInt8 × NumSuffix) := [
  ([], .none), (asciiBytes "u", .u), (asciiBytes "i", .i), (asciiBytes "u8", .u8),
  (asciiBytes "u16", .u16), (asciiBytes "u32", .u32), (asciiBytes "u64", .u64),
  (asciiBytes "i8", .i8), (asciiBytes "i16", .i16), (asciiBytes "i32", .i32),
  (asciiBytes "i64", .i64)]

/-- A well-formed integer literal : underscores stand between digits only. -/
structure IntLiteral where
  base : ℕ
  mark : List UInt8
  body : List UInt8
  suffix : List UInt8
  kind : NumSuffix
  marked : (base, mark) ∈ literalMarks
  digits : ∀ c ∈ body, digitValue c < base ∨ c = '_'.toUInt8
  first : ∃ c rest, body = c :: rest ∧ c ≠ '_'.toUInt8
  last : body.getLast? ≠ some '_'.toUInt8
  suffixed : (suffix, kind) ∈ intSuffixes

namespace IntLiteral

/-- The bytes of a literal. -/
def text (lit : IntLiteral) : List UInt8 :=
  lit.mark ++ (lit.body ++ lit.suffix)

/-- The value of the digits with the underscores removed. -/
def value (lit : IntLiteral) : ℕ :=
  digitsValue lit.base (lit.body.filter (· ≠ '_'.toUInt8))

/-- The literal is next in the source. What follows does not go on with the literal : no letter or
digit, and no decimal point of a decimal literal without a suffix. -/
structure Stands (lit : IntLiteral) (l : Lexer) (tail : List UInt8) : Prop where
  rest : l.rest = lit.text ++ tail
  ends : isIdentCont (tail.getD 0 0) = false
  point : lit.base = 10 → lit.suffix = [] → tail.getD 0 0 = '.'.toUInt8 →
    isDigit (tail.getD 1 0) = false

end IntLiteral

/-- An error is reported on the way from one state of the lexer to another. -/
def Lexer.Reports (l l' : Lexer) : Prop :=
  l.errorCount < l'.errorCount ∨ l.hasError = false ∧ l'.hasError = true

/-- What the lexer must make of a literal. -/
structure IntLiteral.Reads (lit : IntLiteral) (env : LexEnv) (l : Lexer) : Prop where
  type : (l.nextToken env).1.type = .intLiteral
  value : lit.value < 2 ^ 64 → (l.nextToken env).1.value = .int (UInt64.ofNat lit.value)
  tooLarge : 2 ^ 64 ≤ lit.value → l.Reports (l.nextToken env).2

/-! ## Digits -/

/-- A fact about every byte. -/
theorem forall_byte {P : UInt8 → Prop} (h : ∀ a < 16, ∀ b < 16, P (UInt8.ofNat (a * 16 + b)))
    (c : UInt8) : P c := by
  have hlt := c.toNat_lt
  have hc := h (c.toNat / 16) (by omega) (c.toNat % 16) (Nat.mod_lt _ (by decide))
  rwa [Nat.div_add_mod', UInt8.ofNat_toNat] at hc

theorem digitsValue_append (base : ℕ) (xs ys : List UInt8) :
    digitsValue base (xs ++ ys) =
      digitsValue base xs * base ^ ys.length + digitsValue base ys := by
  rw [digitsValue, List.map_append, List.reverse_append, Nat.ofDigits_append, List.length_reverse,
    List.length_map, Nat.mul_comm, Nat.add_comm]
  rfl

/-- The loop of `strtoull` computes the value of the digits. -/
theorem foldl_digits (base : ℕ) (digits : List UInt8) :
    digits.foldl (fun n c => n * base + digitValue c) 0 = digitsValue base digits := by
  induction digits using List.reverseRecOn with
  | nil => rfl
  | append_singleton digits c ih =>
    rw [List.foldl_append, ih, digitsValue_append, List.length_singleton, pow_one]
    simp [digitsValue]

/-- The bytes that `scan_number` passes over are the digits of the base, and the underscore. -/
theorem isNumberByte_iff {base : ℕ} {mark : List UInt8} (hmark : (base, mark) ∈ literalMarks)
    (c : UInt8) : Lexer.isNumberByte base c = true ↔ digitValue c < base ∨ c = '_'.toUInt8 := by
  have hbase : base = 10 ∨ base = 16 ∨ base = 2 ∨ base = 8 := by
    have hall : ∀ entry ∈ literalMarks,
        entry.1 = 10 ∨ entry.1 = 16 ∨ entry.1 = 2 ∨ entry.1 = 8 := by decide
    exact hall _ hmark
  rcases hbase with rfl | rfl | rfl | rfl
  all_goals
    revert c
    exact forall_byte (by decide)

namespace Lexer

variable {l l' : Lexer} {xs ys tail : List UInt8}

/-! ## The text of a literal -/

theorem byteAt_rest (l : Lexer) (i : ℕ) : byteAt l.source (l.pos + i) = l.rest.getD i 0 := by
  simp [byteAt, rest]

/-- The two flags of an error are as they were. -/
def Quiet (l l' : Lexer) : Prop :=
  l'.errorCount = l.errorCount ∧ l'.hasError = l.hasError

theorem Quiet.trans {l'' : Lexer} (h : l.Quiet l') (h' : l'.Quiet l'') : l.Quiet l'' :=
  ⟨h'.1.trans h.1, h'.2.trans h.2⟩

theorem Quiet.not_reports (h : l.Quiet l') : ¬l.Reports l' := by
  rintro (hcount | ⟨hfalse, htrue⟩)
  · rw [h.1] at hcount
    exact lt_irrefl _ hcount
  · rw [h.2, hfalse] at htrue
    cases htrue

theorem quiet_advance (l : Lexer) (n : ℕ) : l.Quiet (l.advance n) := by
  induction n generalizing l with
  | zero => exact ⟨rfl, rfl⟩
  | succ n ih =>
    have hbyte : l.Quiet l.advanceByte := by
      unfold advanceByte
      split <;> exact ⟨rfl, rfl⟩
    rw [advance]
    split
    · exact hbyte.trans (ih _)
    · exact ⟨rfl, rfl⟩

theorem quiet_advanceWhile (l : Lexer) (test : UInt8 → Bool) : l.Quiet (l.advanceWhile test) := by
  refine Loops.loop_invariant (I := fun t => l.Quiet t) (fun t u ht hround => ?_) _ ⟨rfl, rfl⟩
  unfold whileRound at hround
  split at hround
  · cases hround
    exact ht.trans (quiet_advance t 1)
  · cases hround

theorem rest_advance {n : ℕ} (h : l.pos + n ≤ l.source.length) :
    (l.advance n).rest = l.rest.drop n := by
  rw [rest, rest, (moves_advance l n).source, advance_pos h, List.drop_drop]

/-- The loop over a run of bytes stops behind it. -/
theorem rest_advanceWhile {test : UInt8 → Bool} (hin : l.pos ≤ l.source.length)
    (hrest : l.rest = xs ++ ys) (hxs : ∀ c ∈ xs, test c = true)
    (hys : test (ys.getD 0 0) = false) :
    (l.advanceWhile test).pos = l.pos + xs.length ∧ (l.advanceWhile test).rest = ys := by
  obtain ⟨hmoves, hpassed, hstop⟩ := advanceWhile_spec l test hin
  have hlength : l.pos + (xs.length + ys.length) = l.source.length := by
    have h := congrArg List.length hrest
    rw [rest, List.length_drop, List.length_append] at h
    omega
  have hbyte : ∀ i, byteAt l.source (l.pos + i) = (xs ++ ys).getD i 0 := fun i => by
    rw [byteAt_rest, hrest]
  have hpos : (l.advanceWhile test).pos = l.pos + xs.length := by
    have hforward := hmoves.forward
    refine le_antisymm (not_lt.1 fun hlt => ?_) (not_lt.1 fun hlt => ?_)
    · have htest := hpassed (l.pos + xs.length) (Nat.le_add_right _ _) hlt
      rw [hbyte, List.getD_append_right _ _ _ _ le_rfl, Nat.sub_self, hys] at htest
      cases htest
    · obtain ⟨i, hi⟩ := Nat.exists_eq_add_of_le hforward
      have htest := hstop.resolve_left (by omega)
      have hmem : xs.getD i 0 ∈ xs := by
        rw [List.getD_eq_getElem _ _ (show i < xs.length by omega)]
        exact List.getElem_mem _
      rw [hi, hbyte, List.getD_append _ _ _ _ (by omega), hxs _ hmem] at htest
      cases htest
  refine ⟨hpos, ?_⟩
  rw [rest, hmoves.source, hpos, ← List.drop_drop, show l.source.drop l.pos = _ from hrest]
  exact List.drop_left

theorem peekAt_eq (l : Lexer) (i : ℕ) : l.peekAt i = l.rest.getD i 0 :=
  byteAt_rest l i

theorem current_eq (l : Lexer) : l.current = l.rest.getD 0 0 :=
  byteAt_rest l 0

/-- What `parse_num_suffix` makes of the next three bytes. -/
def suffixOf (c c2 c3 : UInt8) : NumSuffix :=
  if (c = 'u'.toUInt8 ∨ c = 'i'.toUInt8) ∧ c2 = '8'.toUInt8 then
    if c = 'u'.toUInt8 then .u8 else .i8
  else if (c = 'u'.toUInt8 ∨ c = 'i'.toUInt8) ∧ c2 = '1'.toUInt8 ∧ c3 = '6'.toUInt8 then
    if c = 'u'.toUInt8 then .u16 else .i16
  else if (c = 'u'.toUInt8 ∨ c = 'i'.toUInt8) ∧ c2 = '3'.toUInt8 ∧ c3 = '2'.toUInt8 then
    if c = 'u'.toUInt8 then .u32 else .i32
  else if (c = 'u'.toUInt8 ∨ c = 'i'.toUInt8) ∧ c2 = '6'.toUInt8 ∧ c3 = '4'.toUInt8 then
    if c = 'u'.toUInt8 then .u64 else .i64
  else if (c = 'u'.toUInt8 ∨ c = 'i'.toUInt8) ∧ !isIdentCont c2 then
    if c = 'u'.toUInt8 then .u else .i
  else if c = 's'.toUInt8 ∧ !isIdentCont c2 then .s
  else if c = 'd'.toUInt8 ∧ !isIdentCont c2 then .d
  else if c = 'g'.toUInt8 ∧ !isIdentCont c2 then .g
  else .none

theorem parseNumSuffix_fst (l : Lexer) :
    l.parseNumSuffix.1 = suffixOf l.current (l.peekAt 1) (l.peekAt 2) := by
  unfold parseNumSuffix suffixOf
  simp only [apply_ite Prod.fst]

theorem quiet_parseNumSuffix (l : Lexer) : l.Quiet l.parseNumSuffix.2 := by
  unfold parseNumSuffix
  simp only [apply_ite Prod.snd]
  split_ifs
  all_goals first | exact quiet_advance _ _ | exact ⟨rfl, rfl⟩

/-- What follows an integer suffix does not change it. -/
theorem suffixOf_eq {suffix : List UInt8} {kind : NumSuffix}
    (hsuffix : (suffix, kind) ∈ intSuffixes) (hends : isIdentCont (tail.getD 0 0) = false) :
    suffixOf ((suffix ++ tail).getD 0 0) ((suffix ++ tail).getD 1 0)
      ((suffix ++ tail).getD 2 0) = kind := by
  have hletters : ∀ c ∈ asciiBytes "uisdg8136", tail.getD 0 0 ≠ c := by
    intro c hc heq
    have hall : (asciiBytes "uisdg8136").all isIdentCont = true := by decide
    rw [heq, List.all_eq_true.1 hall c hc] at hends
    cases hends
  have hu := hletters 'u'.toUInt8 (by decide)
  have hi := hletters 'i'.toUInt8 (by decide)
  have hs := hletters 's'.toUInt8 (by decide)
  have hd := hletters 'd'.toUInt8 (by decide)
  have hg := hletters 'g'.toUInt8 (by decide)
  have h8 := hletters '8'.toUInt8 (by decide)
  have h1 := hletters '1'.toUInt8 (by decide)
  have h3 := hletters '3'.toUInt8 (by decide)
  have h6 := hletters '6'.toUInt8 (by decide)
  simp only [intSuffixes, List.mem_cons, Prod.mk.injEq, List.not_mem_nil, or_false] at hsuffix
  rcases hsuffix with ⟨rfl, rfl⟩ | ⟨rfl, rfl⟩ | ⟨rfl, rfl⟩ | hsuffix
  · -- no suffix
    rw [List.nil_append, suffixOf]
    simp only [hu, hi, hs, hd, hg, or_self, false_and, if_false]
  · have hnext : (asciiBytes "u" ++ tail).getD 1 0 = tail.getD 0 0 := rfl
    have hfirst : (asciiBytes "u" ++ tail).getD 0 0 = 'u'.toUInt8 := rfl
    rw [hfirst, hnext, suffixOf]
    simp only [h8, h1, h3, h6, and_false, false_and, if_false, hends, Bool.not_false, and_true,
      true_or, if_true]
  · have hnext : (asciiBytes "i" ++ tail).getD 1 0 = tail.getD 0 0 := rfl
    have hfirst : (asciiBytes "i" ++ tail).getD 0 0 = 'i'.toUInt8 := rfl
    have hne : ¬('i'.toUInt8 = 'u'.toUInt8) := by decide
    rw [hfirst, hnext, suffixOf]
    simp only [h8, h1, h3, h6, and_false, false_and, if_false, hends, Bool.not_false, and_true,
      or_true, if_true, hne]
  · rcases hsuffix with ⟨rfl, rfl⟩ | ⟨rfl, rfl⟩ | ⟨rfl, rfl⟩ | ⟨rfl, rfl⟩ | ⟨rfl, rfl⟩ |
      ⟨rfl, rfl⟩ | ⟨rfl, rfl⟩ | ⟨rfl, rfl⟩ <;> rfl

variable {lit : IntLiteral}

/-- What stands behind the digits of a literal. -/
theorem after_cases (lit : IntLiteral) (tail : List UInt8) :
    (lit.suffix = [] ∧ (lit.suffix ++ tail).getD 0 0 = tail.getD 0 0) ∨
      (lit.suffix ++ tail).getD 0 0 = 'u'.toUInt8 ∨
      (lit.suffix ++ tail).getD 0 0 = 'i'.toUInt8 := by
  have hall : ∀ entry ∈ intSuffixes, entry.1 = [] ∨ entry.1.head? = some 'u'.toUInt8 ∨
      entry.1.head? = some 'i'.toUInt8 := by decide
  have hhead : ∀ {c : UInt8}, lit.suffix.head? = some c → (lit.suffix ++ tail).getD 0 0 = c := by
    intro c hc
    obtain ⟨rest, heq⟩ := List.head?_eq_some_iff.1 hc
    rw [heq]
    rfl
  rcases hall _ lit.suffixed with hnil | hu | hi
  · have hnil : lit.suffix = [] := hnil
    exact .inl ⟨hnil, by rw [hnil, List.nil_append]⟩
  · exact .inr (.inl (hhead hu))
  · exact .inr (.inr (hhead hi))

/-- It is no digit of the base, no underscore and no letter of an exponent. -/
theorem after_spec (h : lit.Stands l tail) :
    ¬digitValue ((lit.suffix ++ tail).getD 0 0) < 16 ∧
      (lit.suffix ++ tail).getD 0 0 ≠ '_'.toUInt8 := by
  have hident : ∀ c : UInt8, isIdentCont c = false → ¬digitValue c < 16 ∧ c ≠ '_'.toUInt8 :=
    forall_byte (by decide)
  rcases after_cases lit tail with ⟨-, htail⟩ | hu | hi
  · rw [htail]
    exact hident _ h.ends
  · rw [hu]
    decide
  · rw [hi]
    decide

theorem base_le (lit : IntLiteral) : 2 ≤ lit.base ∧ lit.base ≤ 16 := by
  have hall : ∀ entry ∈ literalMarks, 2 ≤ entry.1 ∧ entry.1 ≤ 16 := by decide
  exact hall _ lit.marked

/-- The first digit of a literal. -/
theorem first_spec (lit : IntLiteral) :
    ∃ c rest, lit.body = c :: rest ∧ digitValue c < lit.base ∧ c ≠ '_'.toUInt8 := by
  obtain ⟨c, rest, hbody, hc⟩ := lit.first
  have hdigit := lit.digits c (by rw [hbody]; exact List.mem_cons_self)
  exact ⟨c, rest, hbody, hdigit.resolve_right hc, hc⟩

/-- The text of a literal decides the base. -/
theorem numberBase_literal (h : lit.Stands l tail) :
    l.numberBase = lit.base ∧ l.rest.drop (if lit.base = 10 then 0 else 2) =
      lit.body ++ (lit.suffix ++ tail) := by
  have hrest : l.rest = lit.mark ++ (lit.body ++ (lit.suffix ++ tail)) := by
    rw [h.rest, IntLiteral.text, List.append_assoc, List.append_assoc]
  have hmark := lit.marked
  have h0 := current_eq l
  have h1 := peekAt_eq l 1
  rw [hrest] at h0 h1
  simp only [literalMarks, List.mem_cons, Prod.mk.injEq, List.not_mem_nil, or_false] at hmark
  rcases hmark with ⟨hbase, hmark⟩ | hmark
  · -- a decimal literal : a zero at its head is not followed by the letter of a prefix
    rw [hmark, List.nil_append] at h0 h1 hrest
    obtain ⟨c, rest, hbody, -, -⟩ := first_spec lit
    have hnext : digitValue (l.peekAt 1) < 10 ∨ l.peekAt 1 = '_'.toUInt8 ∨
        l.peekAt 1 = 'u'.toUInt8 ∨ l.peekAt 1 = 'i'.toUInt8 ∨
          isIdentCont (l.peekAt 1) = false := by
      rw [hbody] at h1
      cases rest with
      | nil =>
        rw [show l.peekAt 1 = (lit.suffix ++ tail).getD 0 0 from h1]
        rcases after_cases lit tail with ⟨-, htail⟩ | hu | hi
        · rw [htail]
          exact .inr (.inr (.inr (.inr h.ends)))
        · exact .inr (.inr (.inl hu))
        · exact .inr (.inr (.inr (.inl hi)))
      | cons d rest =>
        rw [show l.peekAt 1 = d from h1]
        have hdigit := lit.digits d (by rw [hbody]; simp)
        rw [hbase] at hdigit
        rcases hdigit with hdigit | hdigit
        · exact .inl hdigit
        · exact .inr (.inl hdigit)
    have hletters : ∀ d ∈ ['x', 'X', 'b', 'B', 'o', 'O'],
        ¬(digitValue d.toUInt8 < 10 ∨ d.toUInt8 = '_'.toUInt8 ∨ d.toUInt8 = 'u'.toUInt8 ∨
          d.toUInt8 = 'i'.toUInt8 ∨ isIdentCont d.toUInt8 = false) := by
      simp only [List.forall_mem_cons, List.not_mem_nil, false_implies, implies_true, and_true]
      decide
    have hother : ∀ {c d : Char}, c ∈ ['x', 'X', 'b', 'B', 'o', 'O'] →
        d ∈ ['x', 'X', 'b', 'B', 'o', 'O'] →
        ¬(l.peekAt 1 = c.toUInt8 ∨ l.peekAt 1 = d.toUInt8) := by
      rintro c d hc hd (heq | heq)
      · exact hletters c hc (heq ▸ hnext)
      · exact hletters d hd (heq ▸ hnext)
    have hx := hother (c := 'x') (d := 'X') (by decide) (by decide)
    have hb := hother (c := 'b') (d := 'B') (by decide) (by decide)
    have ho := hother (c := 'o') (d := 'O') (by decide) (by decide)
    rw [numberBase, if_neg hx, if_neg hb, if_neg ho, ite_self, hbase, if_pos rfl, List.drop_zero]
    exact ⟨rfl, hrest⟩
  · rcases hmark with ⟨hbase, hmark⟩ | ⟨hbase, hmark⟩ | ⟨hbase, hmark⟩ | ⟨hbase, hmark⟩ |
      ⟨hbase, hmark⟩ | ⟨hbase, hmark⟩
    all_goals
      rw [hmark] at h0 h1 hrest
      have hzero : l.current = '0'.toUInt8 := h0
      rw [numberBase, if_pos hzero, hbase, hrest, h1]
      exact ⟨rfl, rfl⟩

/-- The integer part is passed over. -/
theorem integerPart_literal (h : lit.Stands l tail) (hin : l.pos ≤ l.source.length) :
    l.integerPart.rest = lit.suffix ++ tail := by
  obtain ⟨hbase, hdrop⟩ := numberBase_literal h
  obtain ⟨hdigit, hunderscore⟩ := after_spec h
  have htest : ∀ c ∈ lit.body, isNumberByte lit.base c = true := fun c hc =>
    (isNumberByte_iff lit.marked c).2 (lit.digits c hc)
  have hstop : isNumberByte lit.base ((lit.suffix ++ tail).getD 0 0) = false := by
    rw [Bool.eq_false_iff, ne_eq, isNumberByte_iff lit.marked]
    rintro (hlt | heq)
    · exact hdigit (hlt.trans_le (base_le lit).2)
    · exact hunderscore heq
  rw [integerPart, hbase]
  by_cases hten : lit.base = 10
  · rw [if_pos hten, List.drop_zero] at hdrop
    rw [if_pos hten]
    exact (rest_advanceWhile hin hdrop htest hstop).2
  · rw [if_neg hten] at hdrop
    have hlength := congrArg List.length hdrop
    obtain ⟨c, more, hbody, -, -⟩ := first_spec lit
    rw [rest, hbody, List.length_drop, List.length_drop, List.length_append,
      List.length_cons] at hlength
    have hbound : l.pos + 2 ≤ l.source.length := by omega
    rw [if_neg hten]
    refine (rest_advanceWhile ?_ ((rest_advance hbound).trans hdrop) htest hstop).2
    rw [(moves_advance l 2).source]
    exact (moves_advance l 2).inside hin

/-- A literal has no fraction and no exponent. -/
theorem numberText_literal (env : LexEnv) (h : lit.Stands l tail)
    (hin : l.pos ≤ l.source.length) : l.numberText env = (false, l.integerPart) := by
  have hbase := (numberBase_literal h).1
  have hrest := integerPart_literal h hin
  have hcurrent := current_eq l.integerPart
  have hpeek := peekAt_eq l.integerPart 1
  rw [hrest] at hcurrent hpeek
  have hfraction : l.integerPart.fractionPart l.numberBase = (false, l.integerPart) := by
    rw [fractionPart, hbase]
    refine if_neg ?_
    rintro ⟨hten, hpoint, hdigit⟩
    rw [hcurrent] at hpoint
    rcases after_cases lit tail with ⟨hnil, htail⟩ | hu | hi
    · rw [htail] at hpoint
      rw [hpeek, hnil, List.nil_append, h.point hten hnil hpoint] at hdigit
      cases hdigit
    · rw [hu] at hpoint
      exact absurd hpoint (by decide)
    · rw [hi] at hpoint
      exact absurd hpoint (by decide)
  have hexponent : l.integerPart.exponentPart env l.currentLoc l.numberBase =
      (false, l.integerPart) := by
    have hletter : ∀ c : UInt8, ¬digitValue c < 16 → ¬(c = 'e'.toUInt8 ∨ c = 'E'.toUInt8) :=
      forall_byte (by decide)
    rw [exponentPart, hcurrent]
    exact if_neg fun hcond => hletter _ (after_spec h).1 hcond.2
  rw [numberText, hfraction]
  dsimp only
  rw [hexponent]
  rfl

theorem numberIsFloat_literal (env : LexEnv) (h : lit.Stands l tail)
    (hin : l.pos ≤ l.source.length) : l.numberIsFloat env = false := by
  have hkind : l.integerPart.parseNumSuffix.1 = lit.kind := by
    rw [parseNumSuffix_fst, current_eq, peekAt_eq, peekAt_eq, integerPart_literal h hin]
    exact suffixOf_eq lit.suffixed h.ends
  have hall : ∀ entry ∈ intSuffixes, entry.2 ≠ .s ∧ entry.2 ≠ .d ∧ entry.2 ≠ .g := by decide
  obtain ⟨hs, hd, hg⟩ := hall _ lit.suffixed
  rw [numberIsFloat, numberText_literal env h hin]
  simp [hkind, hs, hd, hg]

/-! ## The conversion -/

/-- The digits before the first underscore. -/
def leading (lit : IntLiteral) : List UInt8 :=
  lit.body.takeWhile (· ≠ '_'.toUInt8)

/-- Where the digits of a run end, or an underscore comes. -/
theorem takeWhile_digits {base : ℕ} (hbase : base ≤ 16)
    (hdigits : ∀ c ∈ xs, digitValue c < base ∨ c = '_'.toUInt8)
    (hstop : ¬digitValue (ys.getD 0 0) < 16) :
    (xs ++ ys).takeWhile (fun c => digitValue c < base) =
      xs.takeWhile (· ≠ '_'.toUInt8) := by
  induction xs with
  | nil =>
    cases ys with
    | nil => rfl
    | cons y ys =>
      have hy : ¬digitValue y < base := fun hlt => hstop (hlt.trans_le hbase)
      rw [List.nil_append, List.takeWhile_cons_of_neg (by simpa using hy), List.takeWhile_nil]
  | cons x xs ih =>
    have ih := ih fun c hc => hdigits c (List.mem_cons_of_mem _ hc)
    rw [List.cons_append]
    by_cases hx : x = '_'.toUInt8
    · have hvalue : ¬digitValue x < base := by
        rw [hx, show digitValue '_'.toUInt8 = 36 from rfl]
        omega
      rw [List.takeWhile_cons_of_neg (by simpa using hvalue),
        List.takeWhile_cons_of_neg (by simpa using hx)]
    · have hvalue := (hdigits x List.mem_cons_self).resolve_right hx
      rw [List.takeWhile_cons_of_pos (by simpa using hvalue),
        List.takeWhile_cons_of_pos (by simpa using hx), ih]

/-- What `strtoull` returns for the digits it reads. -/
def converted (magnitude : ℕ) : UInt64 :=
  if 2 ^ 64 ≤ magnitude then UInt64.ofNat (2 ^ 64 - 1) else UInt64.ofNat magnitude

/-- `strtoull` on a text that begins with a digit. -/
theorem strtoull_fst {c : UInt8} {text : List UInt8} {base : ℕ} (hletter : digitValue c < 36) :
    (strtoull (c :: text) base).1 =
      converted (digitsValue base
        ((List.drop (if base = 16 ∧ hasHexPrefix (c :: text) then 2 else 0)
          (c :: text)).takeWhile fun c => digitValue c < base)) := by
  have hplain : ∀ c : UInt8, digitValue c < 36 →
      isSpace c = false ∧ c ≠ '+'.toUInt8 ∧ c ≠ '-'.toUInt8 :=
    forall_byte (by decide)
  obtain ⟨hspace, hplus, hminus⟩ := hplain c hletter
  have hblanks : ((c :: text).takeWhile isSpace).length = 0 := by
    rw [List.takeWhile_cons_of_neg (by rw [hspace]; exact Bool.false_ne_true), List.length_nil]
  have hsign : signLen (c :: text) = 0 := by
    rw [signLen]
    refine if_neg ?_
    rintro (h | h)
    · exact hplus (Option.some.inj h)
    · exact hminus (Option.some.inj h)
  have hneg : ¬(c :: text)[0]? = some '-'.toUInt8 := fun h => hminus (Option.some.inj h)
  rw [strtoull, hblanks]
  dsimp only
  rw [List.drop_zero, hsign, Nat.add_zero, List.drop_zero, foldl_digits, if_neg hneg]
  rfl

/-- `strtoull` reads the digits before the first underscore. -/
theorem strtoull_literal (h : lit.Stands l tail) :
    (strtoull (l.source.drop l.numstart) l.numberBase).1 =
      converted (digitsValue lit.base (leading lit)) := by
  obtain ⟨hbase, hdrop⟩ := numberBase_literal h
  obtain ⟨c, more, hbody, hvalue, -⟩ := first_spec lit
  have hwhile := takeWhile_digits (base_le lit).2 lit.digits (after_spec h).1
  have hletter : digitValue c < 36 := hvalue.trans_le ((base_le lit).2.trans (by norm_num))
  rw [hbase]
  by_cases hhex : lit.base = 16
  · -- the prefix is passed over by `strtoull`
    have hmark : ∃ d, lit.mark = ['0'.toUInt8, d] ∧
        (d = 'x'.toUInt8 ∨ d = 'X'.toUInt8) := by
      have hall : ∀ entry ∈ literalMarks, entry.1 = 16 →
          entry.2 = ['0'.toUInt8, 'x'.toUInt8] ∨ entry.2 = ['0'.toUInt8, 'X'.toUInt8] := by decide
      rcases hall _ lit.marked hhex with hmark | hmark
      · exact ⟨_, hmark, .inl rfl⟩
      · exact ⟨_, hmark, .inr rfl⟩
    obtain ⟨d, hmark, hd⟩ := hmark
    have hstart : l.source.drop l.numstart =
        '0'.toUInt8 :: d :: (lit.body ++ (lit.suffix ++ tail)) := by
      have hrest := h.rest
      rw [IntLiteral.text, hmark, List.append_assoc, List.append_assoc] at hrest
      rw [numstart, hbase, hhex, if_neg (by decide)]
      exact hrest
    have hprefix : hasHexPrefix ('0'.toUInt8 :: d :: (lit.body ++ (lit.suffix ++ tail))) = true := by
      rcases hd with rfl | rfl <;> rfl
    rw [hstart, strtoull_fst (by decide), if_pos ⟨hhex, hprefix⟩]
    rw [leading, ← hwhile]
    rfl
  · have hstart : l.source.drop l.numstart = c :: (more ++ (lit.suffix ++ tail)) := by
      rw [hbody] at hdrop
      rw [numstart, hbase]
      by_cases hten : lit.base = 10
      · rw [if_pos hten, List.drop_zero] at hdrop
        rw [hten, if_neg (by decide)]
        exact hdrop
      · have hall : ∀ entry ∈ literalMarks, entry.1 ≠ 16 → entry.1 ≠ 10 →
            entry.1 = 2 ∨ entry.1 = 8 := by decide
        rw [if_neg hten, rest, List.drop_drop] at hdrop
        rw [if_pos (hall _ lit.marked hhex hten)]
        exact hdrop
    rw [hstart, strtoull_fst hletter, if_neg fun hcond => hhex hcond.1, List.drop_zero,
      ← List.cons_append, ← hbody, hwhile, leading]

/-- A literal begins with a decimal digit. -/
theorem isDigit_literal (h : lit.Stands l tail) : isDigit l.current = true := by
  have hrest := h.rest
  rw [IntLiteral.text] at hrest
  have hall : ∀ entry ∈ literalMarks, entry.1 = 10 ∧ entry.2 = [] ∨
      entry.2.head? = some '0'.toUInt8 := by decide
  rw [current_eq, hrest]
  rcases hall _ lit.marked with ⟨hten, hmark⟩ | hmark
  · obtain ⟨c, more, hbody, hvalue, -⟩ := first_spec lit
    have hdigit : ∀ c : UInt8, digitValue c < 10 → isDigit c = true :=
      forall_byte (by decide)
    have hmark : lit.mark = [] := hmark
    have hten : lit.base = 10 := hten
    rw [hten] at hvalue
    rw [hmark, hbody]
    exact hdigit c hvalue
  · obtain ⟨more, hmark⟩ := List.head?_eq_some_iff.1 hmark
    have hmark : lit.mark = '0'.toUInt8 :: more := hmark
    rw [hmark]
    exact (by decide : isDigit '0'.toUInt8 = true)

/-- Nothing is skipped before a digit. -/
theorem nextToken_digit (env : LexEnv) (hdigit : isDigit l.current = true)
    (hlt : l.pos < l.source.length) : l.nextToken env = l.scanNumber env := by
  have hplain : ∀ c : UInt8, isDigit c = true → isWhitespace c = false ∧ c ≠ '/'.toUInt8 ∧
      isIdentStart c = false := forall_byte (by decide)
  obtain ⟨hspace, hslash, hident⟩ := hplain _ hdigit
  have hround : l.skipRound env = none := by
    rw [skipRound, if_pos hlt, hspace, if_neg Bool.false_ne_true, if_neg fun h => hslash h.1,
      if_neg fun h => hslash h.1]
  rw [nextToken, skipWhitespaceAndComments, Loops.loop_of_none hround, if_neg (not_le.2 hlt),
    scanToken, hident, if_neg Bool.false_ne_true, if_pos hdigit]

/-- A number that is no float. -/
theorem scanNumber_int (env : LexEnv) (hfloat : l.numberIsFloat env = false) :
    (l.scanNumber env).1.type = .intLiteral ∧
      (l.scanNumber env).1.value =
        .int (strtoull (l.source.drop l.numstart) l.numberBase).1 := by
  unfold scanNumber
  simp only [hfloat, Bool.false_eq_true, if_false, and_self]

theorem quiet_scanNumber (env : LexEnv) (hquiet : l.Quiet (l.numberText env).2) :
    l.Quiet (l.scanNumber env).2 := by
  have h := hquiet.trans (quiet_parseNumSuffix (l.numberText env).2)
  unfold scanNumber
  exact ⟨h.1, h.2⟩

/-- The token of a literal, and no error. -/
theorem nextToken_literal (env : LexEnv) (h : lit.Stands l tail) :
    (l.nextToken env).1.type = .intLiteral ∧
      (l.nextToken env).1.value = .int (converted (digitsValue lit.base (leading lit))) ∧
      l.Quiet (l.nextToken env).2 := by
  have hdigit := isDigit_literal h
  have hlt : l.pos < l.source.length := by
    refine lt_length_of_byteAt (c := l.current) rfl fun hzero => ?_
    rw [hzero] at hdigit
    exact absurd hdigit (by decide)
  have hfloat := numberIsFloat_literal env h hlt.le
  have hquiet : l.Quiet l.integerPart := by
    unfold integerPart
    split
    · exact quiet_advanceWhile _ _
    · exact (quiet_advance l 2).trans (quiet_advanceWhile _ _)
  obtain ⟨htype, hvalue⟩ := scanNumber_int env hfloat
  rw [nextToken_digit env hdigit hlt, htype, hvalue, strtoull_literal h]
  refine ⟨rfl, rfl, quiet_scanNumber env ?_⟩
  rwa [numberText_literal env h hlt.le]

end Lexer

namespace IntLiteral

variable {lit : IntLiteral} {l : Lexer} {tail : List UInt8}

theorem leading_eq (lit : IntLiteral) (hnot : '_'.toUInt8 ∉ lit.body) :
    digitsValue lit.base (Lexer.leading lit) = lit.value := by
  have hall : ∀ c ∈ lit.body, decide (c ≠ '_'.toUInt8) = true := fun c hc =>
    decide_eq_true fun heq => hnot (heq ▸ hc)
  rw [Lexer.leading, value, List.takeWhile_eq_self_iff.2 hall, List.filter_eq_self.2 hall]

/-- The digits behind the first underscore. -/
def behind (lit : IntLiteral) : List UInt8 :=
  (lit.body.dropWhile (· ≠ '_'.toUInt8)).filter (· ≠ '_'.toUInt8)

/-- The digits behind an underscore move those before it to the left. -/
theorem value_eq (lit : IntLiteral) : lit.value =
    digitsValue lit.base (Lexer.leading lit) * lit.base ^ lit.behind.length +
      digitsValue lit.base lit.behind := by
  have hleading : ∀ c ∈ lit.body.takeWhile (· ≠ '_'.toUInt8), decide (c ≠ '_'.toUInt8) = true :=
    fun c hc => List.mem_takeWhile_imp (p := fun c => decide (c ≠ '_'.toUInt8)) hc
  rw [value, ← digitsValue_append]
  conv_lhs => rw [← List.takeWhile_append_dropWhile (p := fun c => decide (c ≠ '_'.toUInt8))
    (l := lit.body), List.filter_append, List.filter_eq_self.2 hleading]
  rfl

/-- The last byte of a literal is a digit, behind any underscore. -/
theorem behind_pos (lit : IntLiteral) (hmem : '_'.toUInt8 ∈ lit.body) :
    0 < lit.behind.length := by
  have hne : lit.body ≠ [] := List.ne_nil_of_mem hmem
  have hlast : lit.body.getLast hne ≠ '_'.toUInt8 := by
    intro heq
    exact lit.last (by rw [List.getLast?_eq_some_getLast hne, heq])
  have hrest : lit.body.dropWhile (· ≠ '_'.toUInt8) ≠ [] := by
    intro hnil
    exact absurd rfl (of_decide_eq_true (p := ¬ '_'.toUInt8 = '_'.toUInt8)
      (List.dropWhile_eq_nil_iff.1 hnil _ hmem))
  refine List.length_pos_of_mem (a := lit.body.getLast hne)
    (List.mem_filter.2 ⟨?_, decide_eq_true hlast⟩)
  rw [← (List.dropWhile_suffix _).getLast hrest]
  exact List.getLast_mem hrest

/-- A literal is read as it must be exactly where it is below `2 ^ 64` and has no underscore or is
zero. -/
theorem reads_iff (env : LexEnv) (h : lit.Stands l tail) :
    lit.Reads env l ↔ lit.value < 2 ^ 64 ∧ ('_'.toUInt8 ∉ lit.body ∨ lit.value = 0) := by
  obtain ⟨htype, hvalue, hquiet⟩ := Lexer.nextToken_literal env h
  have hconverted : ∀ {n : ℕ}, n < 2 ^ 64 → Lexer.converted n = UInt64.ofNat n := fun hn =>
    if_neg (not_le.2 hn)
  constructor
  · intro hreads
    have hlt : lit.value < 2 ^ 64 := not_le.1 fun hle => hquiet.not_reports (hreads.tooLarge hle)
    refine ⟨hlt, ?_⟩
    by_cases hmem : '_'.toUInt8 ∈ lit.body
    · have heq := value_eq lit
      have hbase := (Lexer.base_le lit).1
      have hpow : 2 ≤ lit.base ^ lit.behind.length :=
        hbase.trans (Nat.le_self_pow (behind_pos lit hmem).ne' _)
      have hmul := Nat.mul_le_mul_left (digitsValue lit.base (Lexer.leading lit)) hpow
      have hsame := LexValue.int.inj (hvalue.symm.trans (hreads.value hlt))
      rw [hconverted (by omega)] at hsame
      have hnat := congrArg UInt64.toNat hsame
      have hsize : UInt64.size = 2 ^ 64 := rfl
      rw [UInt64.toNat_ofNat_of_lt' (by omega), UInt64.toNat_ofNat_of_lt' (by omega)] at hnat
      exact .inr (by omega)
    · exact .inl hmem
  · rintro ⟨hlt, hplain⟩
    refine ⟨htype, fun _ => ?_, fun hle => absurd hle (not_le.2 hlt)⟩
    have hsame : digitsValue lit.base (Lexer.leading lit) = lit.value := by
      by_cases hmem : '_'.toUInt8 ∈ lit.body
      · have heq := value_eq lit
        have hzero := hplain.resolve_left fun hnot => hnot hmem
        rw [hzero] at heq
        have hbase : 0 < lit.base := Nat.zero_lt_two.trans_le (Lexer.base_le lit).1
        have hpow := Nat.pow_pos (n := lit.behind.length) hbase
        have hprod :
            digitsValue lit.base (Lexer.leading lit) * lit.base ^ lit.behind.length = 0 := by
          omega
        rw [hzero]
        exact (Nat.mul_eq_zero.1 hprod).resolve_right hpow.ne'
      · exact leading_eq lit hmem
    rw [hvalue, hsame, hconverted hlt]

/-- An arena with room, and a `strtod` that is not asked. -/
def roomy : LexEnv :=
  ⟨fun _ => 0, fun _ => true⟩

/-- A lexer at the start of a source. -/
def lexerAt (source : List UInt8) : Lexer :=
  ⟨source, 0, 1, 1, [], 256, [], 0, false, 0, 0⟩

theorem digits_of_all {base : ℕ} {body : List UInt8}
    (h : body.all (fun c => decide (digitValue c < base ∨ c = '_'.toUInt8)) = true) :
    ∀ c ∈ body, digitValue c < base ∨ c = '_'.toUInt8 :=
  fun c hc => of_decide_eq_true (List.all_eq_true.1 h c hc)

/-- `0xfFu8`. -/
def hexByte : IntLiteral :=
  ⟨16, asciiBytes "0x", asciiBytes "fF", asciiBytes "u8", .u8, by decide,
    digits_of_all (by decide), ⟨_, _, rfl, by decide⟩, by decide, by decide⟩

/-- `1_000`. -/
def thousand : IntLiteral :=
  ⟨10, [], asciiBytes "1_000", [], .none, by decide, digits_of_all (by decide),
    ⟨_, _, rfl, by decide⟩, by decide, by decide⟩

/-- `18446744073709551616`, which is `2 ^ 64`. -/
def twoPow64 : IntLiteral :=
  ⟨10, [], asciiBytes "18446744073709551616", [], .none, by decide, digits_of_all (by decide),
    ⟨_, _, rfl, by decide⟩, by decide, by decide⟩

theorem reads_iff_hexByte : hexByte.Reads roomy (lexerAt (asciiBytes "0xfFu8;")) := by
  have hstands : hexByte.Stands (lexerAt (asciiBytes "0xfFu8;")) (asciiBytes ";") :=
    ⟨by decide, by decide, fun h => absurd h (by decide)⟩
  exact (reads_iff _ hstands).2 ⟨by decide, .inl (by decide)⟩

/-- `1_000` is read as 1, and `2 ^ 64` is not reported. -/
theorem not_reads_separated :
    thousand.Stands (lexerAt (asciiBytes "1_000;")) (asciiBytes ";") ∧
    ¬thousand.Reads roomy (lexerAt (asciiBytes "1_000;")) ∧
    twoPow64.Stands (lexerAt (asciiBytes "18446744073709551616;")) (asciiBytes ";") ∧
    ¬twoPow64.Reads roomy (lexerAt (asciiBytes "18446744073709551616;")) := by
  have hone : thousand.Stands (lexerAt (asciiBytes "1_000;")) (asciiBytes ";") :=
    ⟨by decide, by decide, fun _ _ h => absurd h (by decide)⟩
  have hlarge : twoPow64.Stands (lexerAt (asciiBytes "18446744073709551616;")) (asciiBytes ";") :=
    ⟨by decide, by decide, fun _ _ h => absurd h (by decide)⟩
  refine ⟨hone, fun h => ?_, hlarge, fun h => ?_⟩
  · have hvalue := (Lexer.nextToken_literal roomy hone).2.1
    have hread := h.value (by decide)
    exact absurd (LexValue.int.inj (hvalue.symm.trans hread)) (by decide)
  · exact (Lexer.nextToken_literal roomy hlarge).2.2.not_reports (h.tooLarge (by decide))

end IntLiteral

end Seraph
