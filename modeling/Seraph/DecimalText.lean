import Mathlib.Data.Nat.Digits.Defs
import Mathlib.Logic.Function.Basic

/-!
# Decimal text in a buffer

Characters are written one after the other to a buffer of a given size (`Written`). What is written
with `snprintf` is cut at the end of the buffer (`Written.snprintf`). The digits of a fraction that
repeated multiplication yields are those of its multiple by a power of the base (`expand_eq`).
-/

namespace DecimalText

/-! ## Buffers -/

/-- A memory of characters, from a buffer on. -/
abbrev Chars := ℕ → UInt8

/-- A memory with some characters at a place. -/
def write (m : Chars) (pos : ℕ) (cs : List UInt8) : Chars :=
  fun i => if i < pos then m i else cs[i - pos]?.getD (m i)

/-- `snprintf` of a text to `n` characters from `pos` on. -/
def snprintf (m : Chars) (pos n : ℕ) (text : List UInt8) : Chars :=
  if n = 0 then m else write m pos (text.take (n - 1) ++ [0])

/-- `strncpy` of a string to a buffer. -/
def strncpy (m : Chars) (text : List UInt8) (n : ℕ) : Chars :=
  write m 0 (text.take n ++ List.replicate (n - text.length) 0)

/-- The buffer of `size` characters begins with a text, and what is behind it is as it was. -/
structure Written (size : ℕ) (before after : Chars) (text : List UInt8) : Prop where
  fits : text.length ≤ size
  holds : ∀ i (h : i < text.length), after i = text[i]
  frame : ∀ i, size ≤ i → after i = before i

namespace Written

variable {size : ℕ} {before after : Chars} {text more : List UInt8}

theorem nil : Written size before before [] :=
  ⟨Nat.zero_le _, fun _ h => absurd h (Nat.not_lt_zero _), fun _ _ => rfl⟩

theorem append (h : Written size before after text) (hfit : text.length + more.length ≤ size) :
    Written size before (write after text.length more) (text ++ more) := by
  refine ⟨by rwa [List.length_append], fun i hi => ?_, fun i hi => ?_⟩
  · rw [write]
    split_ifs with hlt
    · rw [List.getElem_append_left hlt, h.holds i hlt]
    · rw [List.getElem_append_right (Nat.le_of_not_lt hlt), List.getElem?_eq_getElem,
        Option.getD_some]
  · rw [write, if_neg (by omega), List.getElem?_eq_none (by omega), Option.getD_none]
    exact h.frame i hi

theorem left (h : Written size before after (text ++ more)) : Written size before after text := by
  have hlen := h.fits
  rw [List.length_append] at hlen
  refine ⟨by omega, fun i hi => ?_, h.frame⟩
  rw [h.holds i (by rw [List.length_append]; omega), List.getElem_append_left hi]

theorem put (h : Written size before after text) (hfit : text.length < size) (c : UInt8) :
    Written size before (Function.update after text.length c) (text ++ [c]) := by
  refine ⟨by rwa [List.length_append, List.length_singleton], fun i hi => ?_, fun i hi => ?_⟩
  · rw [List.length_append, List.length_singleton] at hi
    rcases Nat.lt_succ_iff_lt_or_eq.mp hi with hlt | rfl
    · rw [Function.update_of_ne hlt.ne, List.getElem_append_left hlt, h.holds i hlt]
    · rw [Function.update_self, List.getElem_concat_length rfl]
  · rw [Function.update_of_ne (by omega), h.frame i hi]

/-- A text that fits is written. -/
theorem snprintf (h : Written size before after text) (hfit : text.length + more.length < size) :
    Written size before (snprintf after text.length (size - text.length) more) (text ++ more) := by
  rw [DecimalText.snprintf, if_neg (by omega), List.take_of_length_le (by omega)]
  refine @left _ _ _ _ [0] ?_
  rw [List.append_assoc]
  exact h.append (by rw [List.length_append, List.length_singleton]; omega)

theorem unique {text' : List UInt8} (h : Written size before after text)
    (h' : Written size before after text') (hlen : text.length = text'.length) : text = text' :=
  List.ext_getElem hlen fun i hi hi' => (h.holds i hi).symm.trans (h'.holds i hi')

end Written

/-! ## Digits -/

/-- The character of a digit. -/
def digitChar (d : ℕ) : UInt8 :=
  UInt8.ofNat (48 + d)

/-- A number in decimal. -/
def decimal (n : ℕ) : List UInt8 :=
  if n = 0 then [digitChar 0] else (Nat.digits 10 n).reverse.map digitChar

/-- The first digits of the fraction `r / m`, by multiplication. -/
def expand (b m : ℕ) : ℕ → ℕ → List ℕ
  | 0, _ => []
  | n + 1, r => r * b / m :: expand b m n (r * b % m)

/-- A number of `n` digits, with its leading zeros. -/
def padded (b : ℕ) : ℕ → ℕ → List ℕ
  | 0, _ => []
  | n + 1, x => x / b ^ n :: padded b n (x % b ^ n)

theorem length_padded (b n x : ℕ) : (padded b n x).length = n := by
  induction n generalizing x with
  | zero => rfl
  | succ n ih => rw [padded, List.length_cons, ih]

section

variable {b m : ℕ}

/-- The multiple of a fraction behind one digit, and the multiple of what the digit leaves. -/
theorem multiple_succ (hm : 0 < m) (n r : ℕ) :
    r * b ^ (n + 1) / m = r * b / m * b ^ n + r * b % m * b ^ n / m := by
  have hsplit : r * b ^ (n + 1) = m * (r * b / m * b ^ n) + r * b % m * b ^ n := by
    conv_lhs => rw [Nat.pow_succ', ← Nat.mul_assoc, ← Nat.div_add_mod (r * b) m, Nat.add_mul,
      Nat.mul_assoc]
  rw [hsplit, Nat.mul_add_div hm]

/-- The multiple of a proper fraction is below the power of the base. -/
theorem multiple_lt (hb : 0 < b) {r : ℕ} (hr : r < m) (n : ℕ) : r * b ^ n / m < b ^ n :=
  Nat.div_lt_of_lt_mul (Nat.mul_lt_mul_of_pos_right hr (Nat.pow_pos hb))

/-- Multiplication yields the digits of the multiple by a power of the base. -/
theorem expand_eq (hb : 0 < b) (hm : 0 < m) (n r : ℕ) :
    expand b m n r = padded b n (r * b ^ n / m) := by
  induction n generalizing r with
  | zero => rfl
  | succ n ih =>
    have hlt := multiple_lt hb (Nat.mod_lt (r * b) hm) n
    rw [expand, padded, ih, multiple_succ hm, Nat.mul_add_mod_of_lt hlt, Nat.add_comm,
      Nat.add_mul_div_right _ _ (Nat.pow_pos hb), Nat.div_eq_of_lt hlt, Nat.zero_add]

end

/-! ## Characters of digits -/

theorem digitChar_ne_zero : ∀ d < 10, digitChar d ≠ 0 := by
  decide

theorem lt_of_mem_padded {n x : ℕ} (hx : x < 10 ^ n) {d : ℕ} (hd : d ∈ padded 10 n x) : d < 10 := by
  induction n generalizing x with
  | zero => exact absurd hd List.not_mem_nil
  | succ n ih =>
    rw [padded, List.mem_cons] at hd
    rcases hd with rfl | hd
    · exact Nat.div_lt_of_lt_mul (Nat.pow_succ 10 n ▸ hx)
    · exact ih (Nat.mod_lt _ (Nat.pow_pos (by decide))) hd

theorem zero_notMem_decimal (n : ℕ) : 0 ∉ decimal n := by
  unfold decimal
  split_ifs with h
  · decide
  · rw [List.mem_map]
    rintro ⟨d, hd, hzero⟩
    exact digitChar_ne_zero d (Nat.digits_lt_base (by decide) (List.mem_reverse.mp hd)) hzero

theorem zero_notMem_padded {n x : ℕ} (hx : x < 10 ^ n) : 0 ∉ (padded 10 n x).map digitChar := by
  rw [List.mem_map]
  rintro ⟨d, hd, hzero⟩
  exact digitChar_ne_zero d (lt_of_mem_padded hx hd) hzero

end DecimalText
