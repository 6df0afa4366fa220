import RunManifest.Text.Digits
import Mathlib

/-!
Contract: decimal digits stand for the number they were written for.

Owns:
- the laws of `Text.decimal` and `Text.padded`: only digits, no superfluous zero, and the value
  they are read as;
- `StopsDigits`, what may follow a run of digits without prolonging it, and the run that is then
  taken from a text.
-/

set_option autoImplicit false

namespace RunManifest.Text

/-! ## Values of digits -/

private theorem decimalValue_eq_ofDigitChars (digits : List Char) :
    decimalValue digits = Nat.ofDigitChars 10 digits 0 := by
  simp only [decimalValue, Nat.ofDigitChars, digitValue, Nat.mul_comm 10]

theorem foldl_decimalValue (digits : List Char) (start : Nat) :
    digits.foldl (fun value c => value * 10 + digitValue c) start =
      start * 10 ^ digits.length + decimalValue digits := by
  induction digits generalizing start with
  | nil => simp [decimalValue]
  | cons c rest inductionHypothesis =>
      simp only [decimalValue, List.foldl_cons, List.length_cons]
      rw [inductionHypothesis, inductionHypothesis (0 * 10 + digitValue c)]
      ring

theorem decimalValue_append (left right : List Char) :
    decimalValue (left ++ right) =
      decimalValue left * 10 ^ right.length + decimalValue right := by
  rw [decimalValue, List.foldl_append, foldl_decimalValue]
  rfl

theorem decimalValue_zeros (count : Nat) : decimalValue (List.replicate count '0') = 0 := by
  induction count with
  | zero => rfl
  | succ count inductionHypothesis =>
      rw [List.replicate_succ', decimalValue_append, inductionHypothesis]
      rfl

theorem digitValue_lt {c : Char} (isDigit : c.isDigit) : digitValue c < 10 := by
  simp only [Char.isDigit, Bool.and_eq_true, decide_eq_true_eq, ge_iff_le, UInt32.le_iff_toNat_le]
    at isDigit
  have atMost : c.toNat ≤ 57 := isDigit.2
  rw [digitValue, show '0'.toNat = 48 from rfl]
  omega

/-- A run of digits stands for less than the power of ten with as many zeros. -/
theorem decimalValue_lt {digits : List Char} (areDigits : ∀ c ∈ digits, c.isDigit) :
    decimalValue digits < 10 ^ digits.length := by
  induction digits with
  | nil => simp [decimalValue]
  | cons c rest inductionHypothesis =>
      obtain ⟨first, later⟩ := List.forall_mem_cons.mp areDigits
      have below := digitValue_lt first
      have lower := inductionHypothesis later
      have single : decimalValue [c] = digitValue c := by simp [decimalValue]
      rw [← List.singleton_append, decimalValue_append, single, List.length_append,
        List.length_singleton, Nat.add_comm 1, Nat.pow_succ]
      calc digitValue c * 10 ^ rest.length + decimalValue rest
          < digitValue c * 10 ^ rest.length + 10 ^ rest.length := by omega
        _ = (digitValue c + 1) * 10 ^ rest.length := by ring
        _ ≤ 10 * 10 ^ rest.length := Nat.mul_le_mul_right _ below
        _ = 10 ^ rest.length * 10 := Nat.mul_comm _ _

/-! ## Decimal forms -/

theorem isDigit_of_mem_decimal {n : Nat} {c : Char} (member : c ∈ decimal n) : c.isDigit :=
  Nat.isDigit_of_mem_toDigits (by decide) (by decide) member

theorem decimal_ne_nil (n : Nat) : decimal n ≠ [] :=
  Nat.toDigits_ne_nil

@[simp] theorem decimalValue_decimal (n : Nat) : decimalValue (decimal n) = n := by
  rw [decimalValue_eq_ofDigitChars, decimal, Nat.ofDigitChars_ten_toDigits]

/-- Only zero is written with a zero in front. -/
theorem head?_decimal_ne_zero (n : Nat) (positive : 0 < n) : (decimal n).head? ≠ some '0' := by
  induction n using Nat.strongRecOn with
  | ind n inductionHypothesis =>
      rw [decimal, Nat.toDigits_eq_if (by decide)]
      split
      · rename_i small
        interval_cases n <;> decide
      · have smaller := inductionHypothesis (n / 10) (by omega) (by omega)
        rwa [List.head?_append_of_ne_nil _ Nat.toDigits_ne_nil]

theorem length_decimal_le {n width : Nat} (positive : 0 < width) (small : n < 10 ^ width) :
    (decimal n).length ≤ width :=
  (Nat.length_toDigits_le_iff (by decide) positive).mpr small

/-! ## Padded forms -/

theorem isDigit_of_mem_padded {width n : Nat} {c : Char} (member : c ∈ padded width n) :
    c.isDigit := by
  rw [padded, List.mem_append] at member
  rcases member with filling | digit
  · rw [List.eq_of_mem_replicate filling]
    rfl
  · exact isDigit_of_mem_decimal digit

@[simp] theorem decimalValue_padded (width n : Nat) : decimalValue (padded width n) = n := by
  rw [padded, decimalValue_append, decimalValue_zeros, decimalValue_decimal]
  omega

theorem length_padded {width n : Nat} (positive : 0 < width) (small : n < 10 ^ width) :
    (padded width n).length = width := by
  have fits := length_decimal_le positive small
  rw [padded, List.length_append, List.length_replicate]
  omega

theorem padded_ne_nil (width n : Nat) : padded width n ≠ [] := by
  rw [padded]
  exact List.append_ne_nil_of_right_ne_nil _ (decimal_ne_nil n)

/-! ## Runs of digits at the front of a text -/

/-- A text that does not begin with a digit. -/
def StopsDigits (text : List Char) : Prop :=
  ∀ c, text.head? = some c → c.isDigit = false

@[simp] theorem stopsDigits_nil : StopsDigits [] := by
  intro c same
  cases same

@[simp] theorem stopsDigits_cons (c : Char) (rest : List Char) :
    StopsDigits (c :: rest) ↔ c.isDigit = false := by
  simp [StopsDigits]

theorem takeWhile_isDigit_append
    {digits rest : List Char}
    (areDigits : ∀ c ∈ digits, c.isDigit)
    (stops : StopsDigits rest) :
    (digits ++ rest).takeWhile Char.isDigit = digits := by
  rw [List.takeWhile_append_of_pos areDigits]
  cases rest with
  | nil => simp
  | cons c rest => simp [(stopsDigits_cons c rest).mp stops]

theorem dropWhile_isDigit_append
    {digits rest : List Char}
    (areDigits : ∀ c ∈ digits, c.isDigit)
    (stops : StopsDigits rest) :
    (digits ++ rest).dropWhile Char.isDigit = rest := by
  rw [List.dropWhile_append_of_pos areDigits]
  cases rest with
  | nil => rfl
  | cons c rest => simp [(stopsDigits_cons c rest).mp stops]

end RunManifest.Text
