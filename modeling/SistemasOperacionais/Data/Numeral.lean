/-
**Numerals in a text.**

Numbers as the C library reads them: blanks are skipped, a sign is taken, and then the longest run of
digits. What is written with `Nat.toDigits` is read back.

* `skip`, `sign` — what comes before the digits.
* `numeral`, `after` — the longest run of digits of a base, and the text behind it.
* `value` — the number a run of digits denotes.
* `numeral_toDigits`, `after_toDigits`, `value_toDigits` — **a number that is written and followed by
  something else than a digit is read back**, and nothing more of the text is taken.
-/

import Mathlib.Data.List.DropRight
import Mathlib.Data.Nat.Digits.Defs

namespace Numeral

/-! ### Before the digits -/

/-- `isspace` -/
def space (c : Char) : Bool := c = ' ' || ('\t' ≤ c && c ≤ '\r')

/-- The text from its first character that is not blank. -/
def skip (text : List Char) : List Char := text.dropWhile space

theorem skip_skip (text : List Char) : skip (skip text) = skip text :=
  List.dropWhile_idempotent space text

theorem skip_append {blanks : List Char} (blank : ∀ c ∈ blanks, space c = true)
    (text : List Char) : skip (blanks ++ text) = skip text :=
  List.dropWhile_append_of_pos blank

theorem skip_cons {c : Char} (solid : space c = false) (text : List Char) :
    skip (c :: text) = c :: text :=
  List.dropWhile_cons_of_neg (by rw [solid]; exact Bool.false_ne_true)

/-- Whether there is a minus sign, and the text behind the sign. -/
def sign : List Char → Bool × List Char
  | [] => (false, [])
  | c :: text =>
    if c = '-' then (true, text) else if c = '+' then (false, text) else (false, c :: text)

/-- `number` with its sign. -/
def signed (minus : Bool) (number : ℕ) : ℤ := if minus then -number else number

/-! ### Digits -/

/-- The value of a digit; at least `16` if the character is none. -/
def digit (c : Char) : ℕ :=
  if c.isDigit then c.toNat - '0'.toNat
  else if c.isAlpha then c.toLower.toNat - 'a'.toNat + 10
  else 36

/-- The longest run of digits. -/
def numeral (base : ℕ) (text : List Char) : List Char := text.takeWhile (digit · < base)

/-- The text behind it. -/
def after (base : ℕ) (text : List Char) : List Char := text.dropWhile (digit · < base)

/-- The number a run of digits denotes. -/
def value (base : ℕ) (digits : List Char) : ℕ :=
  digits.foldl (fun sum c => base * sum + digit c) 0

theorem digit_of_isDigit {c : Char} (is : c.isDigit = true) : digit c = c.toNat - '0'.toNat :=
  if_pos is

theorem isDigit_iff {c : Char} : c.isDigit = true ↔ 48 ≤ c.toNat ∧ c.toNat ≤ 57 := by
  simp only [Char.isDigit, Bool.and_eq_true, decide_eq_true_eq, UInt32.le_iff_toNat_le]
  rfl

theorem space_of_isDigit {c : Char} (is : c.isDigit = true) : space c = false := by
  have range := isDigit_iff.mp is
  have blank : c ≠ ' ' := by
    rintro rfl
    cases is
  have control : ¬ c ≤ '\r' := by
    show ¬ c.toNat ≤ 13
    omega
  simp only [space, blank, control, decide_false, Bool.and_false, Bool.or_false]

/-- A digit is neither blank nor a sign. -/
theorem skip_of_isDigit {c : Char} (is : c.isDigit = true) (text : List Char) :
    skip (c :: text) = c :: text :=
  skip_cons (space_of_isDigit is) text

theorem sign_of_isDigit {c : Char} (is : c.isDigit = true) (text : List Char) :
    sign (c :: text) = (false, c :: text) := by
  have minus : c ≠ '-' := by
    rintro rfl
    cases is
  have plus : c ≠ '+' := by
    rintro rfl
    cases is
  rw [sign, if_neg minus, if_neg plus]

theorem digit_lt_ten {c : Char} : digit c < 10 ↔ c.isDigit = true := by
  unfold digit
  split
  · rename_i is
    have := isDigit_iff.mp is
    simp only [is, iff_true]
    show c.toNat - 48 < 10
    omega
  · rename_i other
    refine iff_of_false ?_ other
    split
    · exact Nat.not_lt.mpr (Nat.le_add_left 10 _)
    · decide

theorem numeral_append {base : ℕ} {digits text : List Char} (all : ∀ c ∈ digits, digit c < base)
    (stop : ∀ c ∈ text.head?, base ≤ digit c) : numeral base (digits ++ text) = digits := by
  unfold numeral
  rw [List.takeWhile_append_of_pos fun c mem => decide_eq_true (all c mem)]
  cases text with
  | nil => exact List.append_nil digits
  | cons c text =>
    have ends := Nat.not_lt.mpr (stop c rfl)
    rw [List.takeWhile_cons_of_neg (by simpa using ends), List.append_nil]

theorem after_append {base : ℕ} {digits text : List Char} (all : ∀ c ∈ digits, digit c < base)
    (stop : ∀ c ∈ text.head?, base ≤ digit c) : after base (digits ++ text) = text := by
  unfold after
  rw [List.dropWhile_append_of_pos fun c mem => decide_eq_true (all c mem)]
  cases text with
  | nil => rfl
  | cons c text =>
    have ends := Nat.not_lt.mpr (stop c rfl)
    exact List.dropWhile_cons_of_neg (by simpa using ends)

/-! ### Writing and reading back -/

theorem digit_toDigits {n : ℕ} {c : Char} (mem : c ∈ Nat.toDigits 10 n) : digit c < 10 :=
  digit_lt_ten.mpr (Nat.isDigit_of_mem_toDigits (by omega) (by omega) mem)

theorem numeral_toDigits (n : ℕ) {text : List Char} (stop : ∀ c ∈ text.head?, 10 ≤ digit c) :
    numeral 10 (Nat.toDigits 10 n ++ text) = Nat.toDigits 10 n :=
  numeral_append (fun _ mem => digit_toDigits mem) stop

theorem after_toDigits (n : ℕ) {text : List Char} (stop : ∀ c ∈ text.head?, 10 ≤ digit c) :
    after 10 (Nat.toDigits 10 n ++ text) = text :=
  after_append (fun _ mem => digit_toDigits mem) stop

/-- The first digit of a number written. -/
theorem toDigits_cons (n : ℕ) : ∃ c cs, Nat.toDigits 10 n = c :: cs ∧ c.isDigit = true := by
  obtain ⟨c, cs, written⟩ := List.exists_cons_of_ne_nil (Nat.toDigits_ne_nil (n := n) (b := 10))
  refine ⟨c, cs, written, ?_⟩
  exact Nat.isDigit_of_mem_toDigits (by omega) (by omega) (written ▸ List.mem_cons_self)

theorem skip_toDigits (n : ℕ) (text : List Char) :
    skip (Nat.toDigits 10 n ++ text) = Nat.toDigits 10 n ++ text := by
  obtain ⟨c, cs, written, is⟩ := toDigits_cons n
  rw [written, List.cons_append, skip_of_isDigit is]

theorem sign_toDigits (n : ℕ) (text : List Char) :
    sign (Nat.toDigits 10 n ++ text) = (false, Nat.toDigits 10 n ++ text) := by
  obtain ⟨c, cs, written, is⟩ := toDigits_cons n
  rw [written, List.cons_append, sign_of_isDigit is]

/-- On decimal digits this is the library's own reading. -/
theorem value_eq_ofDigitChars {digits : List Char} (all : ∀ c ∈ digits, digit c < 10) :
    value 10 digits = Nat.ofDigitChars 10 digits 0 := by
  rw [Nat.ofDigitChars_eq_foldl]
  refine List.foldl_ext _ _ _ fun sum c mem => ?_
  rw [digit_of_isDigit (digit_lt_ten.mp (all c mem))]

theorem value_toDigits (n : ℕ) : value 10 (Nat.toDigits 10 n) = n := by
  rw [value_eq_ofDigitChars fun _ mem => digit_toDigits mem]
  exact Nat.ofDigitChars_ten_toDigits

/-- One digit more. -/
theorem value_append {d : ℕ} (small : d < 10) (digits : List Char) :
    value 10 (digits ++ Nat.toDigits 10 d) = 10 * value 10 digits + d := by
  have same : ∀ d < 10, digit d.digitChar = d := by decide
  rw [Nat.toDigits_of_lt_base small, value, List.foldl_concat, same d small]
  rfl

/-- The digits of a positive number do not start with a zero. -/
theorem head_toDigits {n : ℕ} (positive : 0 < n) : (Nat.toDigits 10 n).head? ≠ some '0' := by
  have nonzero : ∀ d < 10, 0 < d → d.digitChar ≠ '0' := by decide
  induction n using Nat.strong_induction_on with
  | _ n ih =>
    by_cases small : n < 10
    · rw [Nat.toDigits_of_lt_base small]
      exact fun same => nonzero n small positive (Option.some.inj same)
    · rw [Nat.toDigits_of_base_le (by omega) (by omega),
        List.head?_append_of_ne_nil _ Nat.toDigits_ne_nil]
      exact ih (n / 10) (by omega) (by omega)

end Numeral
