import RunManifest.Label
import RunManifest.Proofs.Text.Decimal

/-!
Contract: label values and the integers they stand for.

Owns:
- `Text.decimal_decimalValue`, digits without a superfluous zero are the decimal form of their value;
- `Label.Denotes`, the label values that stand for a number, and `Label.Refused`, why the others do
  not, both said through the expansion to the base ten;
- `Label.retrieve_eq_ok` and `Label.retrieve_eq_error`, retrieving accepts and refuses accordingly;
- `Label.denotes_format`, what is written for an integer of 64 bits stands for it, or for 0 when it
  is negative, and `Label.format_of_denotes`, which label values are written for what they stand for.
-/

set_option autoImplicit false

namespace RunManifest

/-! ## Digits and their values -/

namespace Text

private theorem decimalValue_singleton (c : Char) : decimalValue [c] = digitValue c := by
  simp [decimalValue]

/-- The value of digits is their expansion to the base ten. -/
theorem decimalValue_eq_ofDigits (digits : List Char) :
    decimalValue digits = Nat.ofDigits 10 (digits.reverse.map digitValue) := by
  induction digits using List.reverseRecOn with
  | nil => rfl
  | append_singleton digits c inductionHypothesis =>
      rw [decimalValue_append, inductionHypothesis, decimalValue_singleton, List.reverse_append,
        List.reverse_singleton, List.singleton_append, List.map_cons, Nat.ofDigits_cons,
        List.length_singleton]
      ring

private theorem digitChar_digitValue {c : Char} (isDigit : c.isDigit) :
    (digitValue c).digitChar = c := by
  simp only [Char.isDigit, Bool.and_eq_true, decide_eq_true_eq, ge_iff_le, UInt32.le_iff_toNat_le]
    at isDigit
  have least : 48 ≤ c.toNat := isDigit.1
  have greatest : c.toNat ≤ 57 := isDigit.2
  rw [digitValue, show '0'.toNat = 48 from rfl]
  have same : c = Char.ofNat c.toNat := (Char.ofNat_toNat c).symm
  generalize c.toNat = code at least greatest same
  subst same
  interval_cases code <;> rfl

/-- Digits that do not begin with a zero have a value. -/
theorem decimalValue_pos
    {c : Char}
    {rest : List Char}
    (isDigit : c.isDigit)
    (nonzero : c ≠ '0') :
    0 < decimalValue (c :: rest) := by
  have positive : 0 < digitValue c := by
    refine Nat.pos_of_ne_zero fun zero => nonzero ?_
    rw [← digitChar_digitValue isDigit, zero]
    rfl
  rw [← List.singleton_append, decimalValue_append, decimalValue_singleton]
  positivity

/-- Digits without a superfluous zero are the decimal form of their value. -/
theorem decimal_decimalValue
    {digits : List Char}
    (nonempty : digits ≠ [])
    (areDigits : ∀ c ∈ digits, c.isDigit)
    (noZero : digits = ['0'] ∨ digits.head? ≠ some '0') :
    decimal (decimalValue digits) = digits := by
  rcases noZero with rfl | noZero
  · rfl
  -- The last digit is the remainder by ten, and the digits before it begin with the same digit.
  induction digits using List.reverseRecOn with
  | nil => exact absurd rfl nonempty
  | append_singleton front c inductionHypothesis =>
      have isDigit := areDigits c (by simp)
      have small := digitValue_lt isDigit
      have value : decimalValue (front ++ [c]) = decimalValue front * 10 + digitValue c := by
        rw [decimalValue_append, decimalValue_singleton, List.length_singleton, pow_one]
      rw [value, decimal, Nat.toDigits_eq_if (by decide)]
      cases front with
      | nil =>
          have nothing : decimalValue [] = 0 := rfl
          rw [nothing, if_pos (by omega), Nat.zero_mul, Nat.zero_add, digitChar_digitValue isDigit]
          rfl
      | cons first rest =>
          have sameHead : first ≠ '0' := by simpa using noZero
          have positive : 0 < decimalValue (first :: rest) :=
            decimalValue_pos (areDigits first (by simp)) sameHead
          have before := inductionHypothesis (by simp)
            (fun d isMember => areDigits d (List.mem_append_left _ isMember)) (by simpa using sameHead)
          have quotient : (decimalValue (first :: rest) * 10 + digitValue c) / 10 =
              decimalValue (first :: rest) := by omega
          have remainder : (decimalValue (first :: rest) * 10 + digitValue c) % 10 =
              digitValue c := by omega
          rw [if_neg (by omega), quotient, remainder, digitChar_digitValue isDigit]
          exact congrArg (· ++ [c]) before

end Text

namespace Label

open Text

/-! ## Retrieving -/

/-- The expansion to the base ten of the digits of a label value. -/
def baseTen (text : String) : Nat :=
  Nat.ofDigits 10 (text.toList.reverse.map digitValue)

/-- A label value stands for a number. Any number of zeros may stand in front. -/
structure Denotes (text : String) (value : Int) : Prop where
  nonempty : text ≠ ""
  digits : ∀ c ∈ text.toList, c.isDigit
  fits : baseTen text ≤ 2 ^ 63 - 1
  value : value = baseTen text

/-- The first condition that a label value fails. -/
inductive Refused : String → Reason → Prop where
  | empty : Refused "" .empty
  | notDigits
      {text : String}
      (nonempty : text ≠ "")
      {c : Char}
      (occurs : c ∈ text.toList)
      (noDigit : c.isDigit = false) :
      Refused text .notDigits
  | tooLarge
      {text : String}
      (nonempty : text ≠ "")
      (digits : ∀ c ∈ text.toList, c.isDigit)
      (large : 2 ^ 63 - 1 < baseTen text) :
      Refused text .tooLarge

/-- A label value stands for a number or is refused. -/
theorem retrieve_cases (text : String) :
    (retrieve text = .ok (baseTen text) ∧ Denotes text (baseTen text)) ∨
      ∃ reason, retrieve text = .error ⟨text, reason⟩ ∧ Refused text reason := by
  have isValue : decimalValue text.toList = baseTen text := decimalValue_eq_ofDigits _
  have bound : Word64.signedBound = 2 ^ 63 := by decide
  rw [retrieve]
  split_ifs with isEmpty digits large
  · obtain rfl : text = "" := by simpa using isEmpty
    exact .inr ⟨_, rfl, .empty⟩
  · exact .inr ⟨_, rfl, .tooLarge (by simpa using isEmpty) (by simpa using digits) (by omega)⟩
  · rw [isValue]
    exact .inl ⟨rfl, by simpa using isEmpty, by simpa using digits, by omega, rfl⟩
  · obtain ⟨c, occurs, noDigit⟩ : ∃ c ∈ text.toList, c.isDigit = false := by
      simpa using digits
    exact .inr ⟨_, rfl, .notDigits (by simpa using isEmpty) occurs noDigit⟩

/-- A refused label value stands for no number. -/
theorem Refused.not_denotes
    {text : String}
    {reason : Reason}
    (refused : Refused text reason)
    {value : Int} :
    ¬ Denotes text value := by
  rintro ⟨nonempty, digits, fits, -⟩
  cases refused with
  | empty => exact nonempty rfl
  | notDigits _ occurs noDigit =>
      rw [digits _ occurs] at noDigit
      cases noDigit
  | tooLarge _ _ large => omega

/-- What is retrieved is the number that a label value stands for. -/
theorem retrieve_eq_ok {text : String} {value : Int} :
    retrieve text = .ok value ↔ Denotes text value := by
  rcases retrieve_cases text with ⟨retrieved, denotes⟩ | ⟨reason, refusal, refused⟩
  · rw [retrieved, Except.ok.injEq]
    exact ⟨fun same => same ▸ denotes, fun other => other.value.symm⟩
  · rw [refusal]
    exact ⟨nofun, fun denotes => absurd denotes refused.not_denotes⟩

private theorem Refused.reason_unique
    {text : String}
    {left right : Reason}
    (first : Refused text left)
    (second : Refused text right) :
    left = right := by
  cases first <;> cases second <;> first | rfl | simp_all

/-- A refusal keeps the label value and tells the first condition that it fails. -/
theorem retrieve_eq_error {text : String} {error : RetrieveError} :
    retrieve text = .error error ↔ error.value = text ∧ Refused text error.reason := by
  rcases retrieve_cases text with ⟨retrieved, denotes⟩ | ⟨reason, refusal, refused⟩
  · rw [retrieved]
    exact ⟨nofun, fun other => absurd denotes other.2.not_denotes⟩
  · rw [refusal, Except.error.injEq]
    constructor
    · rintro rfl
      exact ⟨rfl, refused⟩
    · rintro ⟨sameValue, other⟩
      rw [refused.reason_unique other, ← sameValue]

/-! ## Writing -/

theorem result_format (value : Int) :
    (format value).result = String.ofList (decimal value.toNat) := by
  rw [format]
  split
  · rename_i negative
    rw [Int.toNat_of_nonpos negative.le]
    rfl
  · rfl

/-- What is written for an integer of 64 bits is short and stands for it, or for 0 when the integer is
negative. -/
theorem denotes_format (value : Int64) :
    Denotes (format value.toInt).result (max value.toInt 0) ∧
      (format value.toInt).result.length ≤ 19 := by
  have below := value.toInt_lt
  have small : value.toInt.toNat < 10 ^ 19 := by omega
  have isValue : baseTen (format value.toInt).result = value.toInt.toNat := by
    rw [baseTen, ← decimalValue_eq_ofDigits, result_format, String.toList_ofList,
      decimalValue_decimal]
  refine ⟨⟨?_, ?_, ?_, ?_⟩, ?_⟩
  · rw [result_format]
    simpa using decimal_ne_nil value.toInt.toNat
  · rw [result_format, String.toList_ofList]
    exact fun c => isDigit_of_mem_decimal
  · omega
  · rw [isValue]
    omega
  · rw [result_format, String.length_ofList]
    exact length_decimal_le (by decide) small

/-- No superfluous zero is written. -/
theorem noZero_format (value : Int) :
    (format value).result = "0" ∨ (format value).result.toList.head? ≠ some '0' := by
  rw [result_format, String.toList_ofList]
  rcases Nat.eq_zero_or_pos value.toNat with zero | positive
  · rw [zero]
    exact .inl rfl
  · exact .inr (head?_decimal_ne_zero _ positive)

/-- A label value is written for what it stands for just when it has no superfluous zero. -/
theorem format_of_denotes {text : String} {value : Int} (denotes : Denotes text value) :
    (format value).result = text ↔ text = "0" ∨ text.toList.head? ≠ some '0' := by
  refine ⟨fun same => same ▸ noZero_format value, fun noZero => ?_⟩
  have isValue : value.toNat = decimalValue text.toList := by
    rw [denotes.value, decimalValue_eq_ofDigits]
    rfl
  rw [result_format, isValue, decimal_decimalValue, String.ofList_toList]
  · simpa using denotes.nonempty
  · exact denotes.digits
  · rcases noZero with rfl | noZero
    · exact .inl rfl
    · exact .inr noZero

end Label

end RunManifest
