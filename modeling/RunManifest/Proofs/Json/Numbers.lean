import RunManifest.Json.Reader
import RunManifest.Proofs.Json.Scaling
import RunManifest.Proofs.Text.Decimal

/-!
Contract: the numbers of JSON texts are read digit for digit as they were written.

Owns:
- `NumberText.chars`, the spelling of the parts of a number, and `NumberText.WellFormed`, the parts
  that make one; scanning the spelling gives the parts back, whatever follows that ends a number;
- `Number.reading`, what the written form of a number is read as;
- `NumberText.worth`, the exact value of the parts, which for the text of a number of double
  precision is at most half a unit above it;
- `Number.InRange`, the numbers that reading gives: its integers are read as themselves.

That a number of double precision is read as itself is an assumption where it is needed,
`Binary64.Recovered`.
-/

set_option autoImplicit false

namespace RunManifest.Json

open Text

/-! ## Spelling the parts of a number -/

/-- The spelling of an optional fraction. -/
def fractionChars : Option (List Char) → List Char
  | none => []
  | some digits => '.' :: digits

/-- The spelling of an optional exponent. -/
def exponentChars : Option (Bool × List Char) → List Char
  | none => []
  | some (negative, digits) => 'e' :: (if negative then '-' else '+') :: digits

/-- The spelling of a number. -/
def NumberText.chars (number : NumberText) : List Char :=
  (if number.negative then ['-'] else []) ++ number.whole ++ fractionChars number.fraction
    ++ exponentChars number.exponent

/-- One digit or more. -/
def AreDigits (digits : List Char) : Prop :=
  digits ≠ [] ∧ ∀ c ∈ digits, c.isDigit

theorem AreDigits.append_ne_cons
    {digits : List Char}
    (areDigits : AreDigits digits)
    {c : Char}
    (noDigit : c.isDigit = false)
    (rest others : List Char) :
    digits ++ rest ≠ c :: others := by
  obtain ⟨first, later, rfl⟩ := List.exists_cons_of_ne_nil areDigits.1
  have isDigit : first.isDigit = true := areDigits.2 first (by simp)
  intro same
  rw [(List.cons.inj same).1, noDigit] at isDigit
  cases isDigit

/-- The parts make a number: digits everywhere, and no superfluous zero in front. -/
structure NumberText.WellFormed (number : NumberText) : Prop where
  whole : AreDigits number.whole
  noLeadingZero : number.whole.head? = some '0' → number.whole.length = 1
  fraction : ∀ digits, number.fraction = some digits → AreDigits digits
  exponent : ∀ part, number.exponent = some part → AreDigits part.2

/-- A text that does not prolong a number. -/
def EndsNumber (text : List Char) : Prop :=
  ∀ c, text.head? = some c → c.isDigit = false ∧ c ≠ '.' ∧ c ≠ 'e' ∧ c ≠ 'E'

theorem endsNumber_nil : EndsNumber [] := by
  intro c same
  cases same

@[simp] theorem endsNumber_cons (c : Char) (rest : List Char) :
    EndsNumber (c :: rest) ↔ c.isDigit = false ∧ c ≠ '.' ∧ c ≠ 'e' ∧ c ≠ 'E' := by
  simp [EndsNumber]

theorem EndsNumber.stopsDigits {text : List Char} (ends : EndsNumber text) : StopsDigits text :=
  fun c same => (ends c same).1

/-! ## Scanning the parts -/

theorem someDigits_append
    {digits rest : List Char}
    (areDigits : AreDigits digits)
    (stops : StopsDigits rest) :
    someDigits (digits ++ rest) = .ok (digits, rest) := by
  rw [someDigits]
  simp [takeWhile_isDigit_append areDigits.2 stops, dropWhile_isDigit_append areDigits.2 stops,
    areDigits.1]

private theorem stopsDigits_exponentChars
    (exponent : Option (Bool × List Char))
    {rest : List Char}
    (ends : EndsNumber rest) :
    StopsDigits (exponentChars exponent ++ rest) := by
  cases exponent with
  | none => exact ends.stopsDigits
  | some part => simp [exponentChars]

private theorem stopsDigits_fractionChars
    (fraction : Option (List Char))
    {rest : List Char}
    (stops : StopsDigits rest) :
    StopsDigits (fractionChars fraction ++ rest) := by
  cases fraction with
  | none => exact stops
  | some digits => simp [fractionChars]

theorem scanExponent_append
    (exponent : Option (Bool × List Char))
    (areDigits : ∀ part, exponent = some part → AreDigits part.2)
    {rest : List Char}
    (ends : EndsNumber rest) :
    scanExponent (exponentChars exponent ++ rest) = .ok (exponent, rest) := by
  rcases exponent with _ | ⟨negative, digits⟩
  · cases rest with
    | nil => rfl
    | cons c others =>
        obtain ⟨-, -, notLower, notUpper⟩ := (endsNumber_cons c others).mp ends
        simp [exponentChars, scanExponent, notLower, notUpper]
  · have scanned := someDigits_append (areDigits _ rfl) ends.stopsDigits
    cases negative <;> simp [exponentChars, scanExponent, scanned, Except.map]

private theorem scanFraction_append
    (fraction : Option (List Char))
    (areDigits : ∀ digits, fraction = some digits → AreDigits digits)
    {rest : List Char}
    (stops : StopsDigits rest)
    (noPoint : rest.head? ≠ some '.') :
    scanFraction (fractionChars fraction ++ rest) = .ok (fraction, rest) := by
  cases fraction with
  | none =>
      rw [fractionChars, List.nil_append, scanFraction.eq_def]
      split
      · simp at noPoint
      · rfl
  | some digits =>
      simp [fractionChars, scanFraction, someDigits_append (areDigits _ rfl) stops, Except.map]

/-- The parts of a number are scanned one after the other, however its exponent is spelled. -/
theorem scanNumber_of_parts
    {number : NumberText}
    (wellFormed : number.WellFormed)
    {exponentText rest : List Char}
    (stops : StopsDigits (exponentText ++ rest))
    (noPoint : (exponentText ++ rest).head? ≠ some '.')
    (scansExponent : scanExponent (exponentText ++ rest) = .ok (number.exponent, rest)) :
    scanNumber ((if number.negative then ['-'] else []) ++ (number.whole ++
      (fractionChars number.fraction ++ (exponentText ++ rest)))) = .ok (number, rest) := by
  obtain ⟨negative, whole, fraction, exponent⟩ := number
  obtain ⟨wholeDigits, noLeadingZero, fractionDigits, -⟩ := wellFormed
  dsimp only at wholeDigits noLeadingZero fractionDigits scansExponent ⊢
  have scansWhole := someDigits_append wholeDigits (stopsDigits_fractionChars fraction stops)
  have scansFraction := scanFraction_append fraction fractionDigits stops noPoint
  have noSuperfluousZero : ¬ (whole.head? = some '0' ∧ whole.length ≠ 1) := fun zero =>
    zero.2 (noLeadingZero zero.1)
  cases negative with
  | true =>
      rw [if_pos rfl, List.singleton_append, scanNumber]
      simp [scansWhole, noSuperfluousZero, scansFraction, scansExponent, bind, Except.bind]
  | false =>
      rw [if_neg Bool.false_ne_true, List.nil_append, scanNumber]
      · simp [scansWhole, noSuperfluousZero, scansFraction, scansExponent, bind, Except.bind]
      · exact fun others => wholeDigits.append_ne_cons (by decide) _ others

/-- A number is read as the parts it was written from, and what follows it is left. -/
theorem scanNumber_chars
    {number : NumberText}
    (wellFormed : number.WellFormed)
    {rest : List Char}
    (ends : EndsNumber rest) :
    scanNumber (number.chars ++ rest) = .ok (number, rest) := by
  have noPoint : (exponentChars number.exponent ++ rest).head? ≠ some '.' := by
    cases number.exponent with
    | none => exact fun same => (ends '.' same).2.1 rfl
    | some part => simp [exponentChars]
  simp only [NumberText.chars, List.append_assoc]
  exact scanNumber_of_parts wellFormed (stopsDigits_exponentChars number.exponent ends) noPoint
    (scanExponent_append number.exponent wellFormed.exponent ends)

end RunManifest.Json

/-! ## Shortest decimals have no zero in front -/

namespace RunManifest.Binary64

/-- Zero does not round to a number that is not zero. -/
theorem coefficient_pos_of_reads
    {x : Binary64}
    (nonzero : x.significand ≠ 0)
    {power : Int}
    {coefficient : Nat}
    (rounds : reads x power coefficient = true) :
    0 < coefficient := by
  have unitPositive : 0 < (commonUnits x power).1 :=
    Nat.mul_pos (powerOfTwo_pos _).1 (Nat.pow_pos (by decide))
  have lowPositive : 0 < (roundingInterval x).1 := by
    simp only [roundingInterval]
    split <;> omega
  have lowEnd := Nat.mul_pos lowPositive unitPositive
  rcases Nat.eq_zero_or_pos coefficient with zero | positive
  · subst zero
    simp only [reads, Nat.zero_mul] at rounds
    split at rounds
    · simp only [Bool.and_eq_true, decide_eq_true_eq] at rounds
      omega
    · simp at rounds
  · exact positive

private theorem coefficient_pos_of_onGrid?
    {x : Binary64}
    (nonzero : x.significand ≠ 0)
    {power : Int}
    {decimal : Decimal}
    (found : onGrid? x power = some decimal) :
    0 < decimal.coefficient := by
  simp only [onGrid?] at found
  split at found
  · rename_i lower upper
    have := coefficient_pos_of_reads nonzero lower
    cases found
    dsimp only
    split <;> omega
  · rename_i lower upper
    cases found
    exact coefficient_pos_of_reads nonzero lower
  · cases found
    exact Nat.succ_pos _
  · cases found

private theorem coefficient_pos_of_searchGrids
    {x : Binary64}
    (nonzero : x.significand ≠ 0)
    (count : Nat)
    (power : Int)
    {decimal : Decimal}
    (found : searchGrids x count power = some decimal) :
    0 < decimal.coefficient := by
  induction count generalizing power with
  | zero => simp [searchGrids] at found
  | succ count inductionHypothesis =>
      rw [searchGrids] at found
      split at found
      · rename_i here
        cases found
        exact coefficient_pos_of_onGrid? nonzero here
      · exact inductionHypothesis _ found

/-- A decimal that shows a zero only for zero itself. -/
def ZeroOnlyIfZero (decimal : Decimal) : Prop :=
  decimal.coefficient = 0 → decimal.exponent = 0

private theorem zeroOnlyIfZero_stripZeros
    (count : Nat)
    {decimal : Decimal}
    (shows : ZeroOnlyIfZero decimal) :
    ZeroOnlyIfZero (stripZeros count decimal) := by
  induction count generalizing decimal with
  | zero => exact shows
  | succ count inductionHypothesis =>
      rw [stripZeros]
      split
      · apply inductionHypothesis
        intro zero
        dsimp only at zero
        omega
      · exact shows

private theorem zeroOnlyIfZero_shortest (x : Binary64) : ZeroOnlyIfZero x.shortest := by
  rw [shortest]
  split
  · exact fun _ => rfl
  · rename_i notZero
    have nonzero : x.significand ≠ 0 := by simpa [isZero] using notZero
    apply zeroOnlyIfZero_stripZeros
    cases found : searchGrids x 20 (startingPower x) with
    | none => exact fun _ => rfl
    | some decimal =>
        have positive := coefficient_pos_of_searchGrids nonzero _ _ found
        intro zero
        simp only [Option.getD_some] at zero
        omega

end RunManifest.Binary64

/-! ## Written forms -/

namespace RunManifest.Json

open Text

theorem decimalInt_of_nonneg {value : Int} (nonneg : 0 ≤ value) :
    decimalInt value = decimal value.natAbs := by
  cases value with
  | ofNat n => rfl
  | negSucc n => exact absurd nonneg (by simp)

theorem decimalInt_of_neg {value : Int} (negative : value < 0) :
    decimalInt value = '-' :: decimal value.natAbs := by
  cases value with
  | ofNat n => exact absurd negative (by simp)
  | negSucc n => rfl

theorem areDigits_decimal (n : Nat) : AreDigits (decimal n) :=
  ⟨decimal_ne_nil n, fun _ member => isDigit_of_mem_decimal member⟩

private theorem areDigits_zeros_append
    (count : Nat)
    {digits : List Char}
    (areDigits : AreDigits digits) :
    AreDigits (List.replicate count '0' ++ digits) := by
  refine ⟨List.append_ne_nil_of_right_ne_nil _ areDigits.1, fun c member => ?_⟩
  rcases List.mem_append.mp member with filling | digit
  · rw [List.eq_of_mem_replicate filling]
    rfl
  · exact areDigits.2 c digit

private theorem areDigits_append_zeros
    (count : Nat)
    {digits : List Char}
    (areDigits : AreDigits digits) :
    AreDigits (digits ++ List.replicate count '0') := by
  refine ⟨List.append_ne_nil_of_left_ne_nil areDigits.1 _, fun c member => ?_⟩
  rcases List.mem_append.mp member with digit | filling
  · exact areDigits.2 c digit
  · rw [List.eq_of_mem_replicate filling]
    rfl

private theorem areDigits_of_subset
    {digits part : List Char}
    (areDigits : AreDigits digits)
    (nonempty : part ≠ [])
    (subset : part ⊆ digits) :
    AreDigits part :=
  ⟨nonempty, fun c member => areDigits.2 c (subset member)⟩

/-- The exponent of a number in scientific form, with a sign in either case. -/
theorem exponentChars_decimalInt (exponent : Int) :
    exponentChars (some (decide (exponent < 0), decimal exponent.natAbs)) =
      ['e'] ++ ((if Number.jsonStyle.plusSign ∧ 0 ≤ exponent then ['+'] else [])
        ++ decimalInt exponent) := by
  by_cases negative : exponent < 0
  · rw [decimalInt_of_neg negative, if_neg (by omega)]
    simp [exponentChars, negative]
  · rw [decimalInt_of_nonneg (by omega), if_pos ⟨rfl, by omega⟩]
    simp [exponentChars, negative]

/-- One digit before the decimal point, and the others behind it if there are any. -/
theorem wellFormed_scientific
    {digits : List Char}
    (areDigits : AreDigits digits)
    (exponent : Bool × List Char)
    (isExponent : AreDigits exponent.2) :
    NumberText.WellFormed ⟨false, digits.take 1,
      if (digits.drop 1).isEmpty then none else some (digits.drop 1), some exponent⟩ := by
  refine ⟨?_, ?_, ?_, ?_⟩
  · refine areDigits_of_subset areDigits ?_ (List.take_subset _ _)
    simp [areDigits.1]
  · intro _
    have length := List.length_pos_of_ne_nil areDigits.1
    simp only [List.length_take]
    omega
  · intro part isPart
    dsimp only at isPart
    split at isPart
    · cases isPart
    · rename_i nonempty
      cases isPart
      refine areDigits_of_subset areDigits ?_ (List.drop_subset _ _)
      simpa using nonempty
  · rintro _ ⟨⟩
    exact isExponent

/-- The number that digits stand for before it is rounded, without its sign. -/
def NumberText.worth (number : NumberText) : ℚ :=
  decimalValue (number.whole ++ number.fraction.getD []) *
    10 ^ (exponentValue number.exponent - (number.fraction.getD []).length)

private theorem exponentValue_decimal (exponent : Int) :
    exponentValue (some (decide (exponent < 0), decimal exponent.natAbs)) = exponent := by
  rw [exponentValue, decimalValue_decimal]
  split <;> rename_i negative <;> simp only [decide_eq_true_eq] at negative <;> omega

/-- A text is the spelling of a number without a sign, with few digits in front of the point. The
number is worth what digits show when the point stands after `point` of them. -/
structure LaysOut (number : NumberText) (digits : List Char) (point : Int) (text : List Char) :
    Prop where
  unsigned : number.negative = false
  wellFormed : number.WellFormed
  chars : number.chars = text
  short : number.whole.length ≤ 16
  worth : number.worth = decimalValue digits * 10 ^ (point - digits.length)

section LayOut

variable {digits : List Char} {point : Int}

/-- Digits behind the point, after zeros. -/
theorem laysOut_below (areDigits : AreDigits digits) (below : point ≤ 0) :
    LaysOut ⟨false, ['0'], some (List.replicate (-point).toNat '0' ++ digits), none⟩ digits point
      (['0', '.'] ++ List.replicate (-point).toNat '0' ++ digits) where
  unsigned := rfl
  wellFormed := by
    refine ⟨by simp [AreDigits], by simp, ?_, by simp⟩
    rintro _ ⟨⟩
    exact areDigits_zeros_append _ areDigits
  chars := by simp [NumberText.chars, fractionChars, exponentChars]
  short := by simp
  worth := by
    have places : exponentValue none - (List.replicate (-point).toNat '0' ++ digits).length =
        point - digits.length := by
      simp only [exponentValue, List.length_append, List.length_replicate]
      omega
    rw [NumberText.worth, Option.getD_some, places, decimalValue_append, decimalValue_append,
      decimalValue_zeros]
    simp [decimalValue, digitValue]

/-- Digits in front of the point, before zeros. -/
theorem laysOut_above
    (areDigits : AreDigits digits)
    (zero : digits.head? = some '0' → digits.length = 1 ∧ point = 1)
    (few : point ≤ 16)
    (above : digits.length ≤ point.toNat) :
    LaysOut ⟨false, digits ++ List.replicate (point.toNat - digits.length) '0', some ['0'], none⟩
      digits point (digits ++ List.replicate (point.toNat - digits.length) '0' ++ ['.', '0']) where
  unsigned := rfl
  wellFormed := by
    refine ⟨areDigits_append_zeros _ areDigits, ?_, ?_, by simp⟩
    · intro startsWithZero
      dsimp only at startsWithZero ⊢
      rw [List.head?_append_of_ne_nil _ areDigits.1] at startsWithZero
      obtain ⟨single, atOne⟩ := zero startsWithZero
      simp [single, atOne]
    · rintro _ ⟨⟩
      simp [AreDigits]
  chars := by simp [NumberText.chars, fractionChars, exponentChars]
  short := by
    simp only [List.length_append, List.length_replicate]
    omega
  worth := by
    have nonempty := List.length_pos_of_ne_nil areDigits.1
    have places : (point - digits.length : Int) =
        (point.toNat - digits.length : Nat) + 1 + -1 := by
      omega
    rw [NumberText.worth, Option.getD_some, decimalValue_append, decimalValue_append,
      decimalValue_zeros, places, zpow_add₀ (by norm_num), zpow_add₀ (by norm_num), zpow_natCast]
    simp [exponentValue, decimalValue, digitValue]

/-- Digits on both sides of the point. -/
theorem laysOut_around
    (areDigits : AreDigits digits)
    (zero : digits.head? = some '0' → digits.length = 1 ∧ point = 1)
    (positive : 0 < point)
    (few : point ≤ 16)
    (among : point.toNat < digits.length) :
    LaysOut ⟨false, digits.take point.toNat, some (digits.drop point.toNat), none⟩ digits point
      (digits.take point.toNat ++ ['.'] ++ digits.drop point.toNat) where
  unsigned := rfl
  wellFormed := by
    refine ⟨areDigits_of_subset areDigits ?_ (List.take_subset _ _), ?_, ?_, by simp⟩
    · simp only [ne_eq, List.take_eq_nil_iff, not_or]
      exact ⟨by omega, areDigits.1⟩
    · intro startsWithZero
      dsimp only at startsWithZero ⊢
      rw [List.head?_take, if_neg (by omega)] at startsWithZero
      obtain ⟨single, atOne⟩ := zero startsWithZero
      simp [single, atOne]
    · rintro _ ⟨⟩
      refine areDigits_of_subset areDigits ?_ (List.drop_subset _ _)
      rw [ne_eq, List.drop_eq_nil_iff]
      omega
  chars := by simp [NumberText.chars, fractionChars, exponentChars]
  short := by
    simp only [List.length_take]
    omega
  worth := by
    have places : exponentValue none - (digits.drop point.toNat).length =
        point - digits.length := by
      simp only [exponentValue, List.length_drop]
      omega
    rw [NumberText.worth, Option.getD_some, List.take_append_drop, places]

/-- One digit in front of the point, and an exponent. -/
theorem laysOut_scientific (areDigits : AreDigits digits) :
    LaysOut ⟨false, digits.take 1, if (digits.drop 1).isEmpty then none else some (digits.drop 1),
        some (decide (point - 1 < 0), decimal (point - 1).natAbs)⟩ digits point
      (digits.take 1 ++ (if (digits.drop 1).isEmpty then [] else '.' :: digits.drop 1) ++ ['e'] ++
        (if Number.jsonStyle.plusSign ∧ 0 ≤ point - 1 then ['+'] else []) ++
        decimalInt (point - 1)) where
  unsigned := rfl
  wellFormed := wellFormed_scientific areDigits _ (areDigits_decimal _)
  chars := by
    have fractionSpelling :
        fractionChars (if (digits.drop 1).isEmpty then none else some (digits.drop 1)) =
          if (digits.drop 1).isEmpty then [] else '.' :: digits.drop 1 := by
      split <;> rfl
    rw [NumberText.chars]
    dsimp only
    rw [fractionSpelling, exponentChars_decimalInt]
    simp only [Bool.false_eq_true, if_false, List.nil_append, List.append_assoc]
  short := by
    simp only [List.length_take]
    omega
  worth := by
    have nonempty := List.length_pos_of_ne_nil areDigits.1
    have isFraction :
        (if (digits.drop 1).isEmpty then none else some (digits.drop 1)).getD [] =
          digits.drop 1 := by
      split <;> simp_all
    have places : point - 1 - (digits.drop 1).length = point - digits.length := by
      rw [List.length_drop]
      omega
    rw [NumberText.worth, isFraction, List.take_append_drop, exponentValue_decimal, places]

/-- Digits laid out around a decimal point are the spelling of a number. -/
theorem exists_laysOut_layOut
    (areDigits : AreDigits digits)
    (zero : digits.head? = some '0' → digits.length = 1 ∧ point = 1) :
    ∃ number, LaysOut number digits point (Binary64.layOut Number.jsonStyle digits point) := by
  rw [Binary64.layOut]
  split
  · split
    · rename_i below
      exact ⟨_, laysOut_below areDigits below⟩
    · split
      · rename_i positional positive above
        exact ⟨_, laysOut_above areDigits zero (by omega) above⟩
      · rename_i positional positive among
        exact ⟨_, laysOut_around areDigits zero (by omega) (by omega) (Nat.not_le.mp among)⟩
  · exact ⟨_, laysOut_scientific areDigits⟩

end LayOut

/-- The text of a number of double precision is the spelling of a number, which is worth no more than
half a unit above it. -/
theorem exists_chars_eq_text (x : Binary64) :
    ∃ number : NumberText, number.WellFormed ∧ number.chars = x.text Number.jsonStyle ∧
      number.whole.length ≤ 16 ∧ number.worth ≤ (x.significand + 1 / 2) * 2 ^ x.exponent := by
  have magnitude : ∃ number : NumberText, number.negative = false ∧ number.WellFormed ∧
      number.chars = x.magnitudeText Number.jsonStyle ∧ number.whole.length ≤ 16 ∧
      number.worth ≤ (x.significand + 1 / 2) * 2 ^ x.exponent := by
    rw [Binary64.magnitudeText]
    split
    · refine ⟨⟨false, ['0'], some ['0'], none⟩, rfl,
        ⟨by simp [AreDigits], by simp, by rintro _ ⟨⟩; simp [AreDigits], by simp⟩, rfl, by simp, ?_⟩
      have nothing : NumberText.worth ⟨false, ['0'], some ['0'], none⟩ = 0 := by
        simp [NumberText.worth, decimalValue, digitValue]
      rw [nothing]
      positivity
    · have atZero : (decimal x.shortest.coefficient).head? = some '0' →
          (decimal x.shortest.coefficient).length = 1 ∧
            x.shortest.exponent + (decimal x.shortest.coefficient).length = 1 := by
        intro startsWithZero
        have zero : x.shortest.coefficient = 0 := by
          rcases Nat.eq_zero_or_pos x.shortest.coefficient with zero | positive
          · exact zero
          · exact absurd startsWithZero (head?_decimal_ne_zero _ positive)
        rw [zero, Binary64.zeroOnlyIfZero_shortest x zero]
        exact ⟨rfl, rfl⟩
      obtain ⟨number, laysOut⟩ := exists_laysOut_layOut (areDigits_decimal _) atZero
      refine ⟨number, laysOut.unsigned, laysOut.wellFormed, laysOut.chars, laysOut.short, ?_⟩
      rw [laysOut.worth, decimalValue_decimal, add_sub_cancel_right]
      exact x.value_shortest_le
  obtain ⟨number, unsigned, wellFormed, spelling, short, worth⟩ := magnitude
  refine ⟨{ number with negative := x.negative },
    ⟨wellFormed.whole, wellFormed.noLeadingZero, wellFormed.fraction, wellFormed.exponent⟩, ?_,
    short, worth⟩
  rw [Binary64.text, ← spelling]
  simp [NumberText.chars, unsigned]

/-- The parts of an integer. -/
def integerText (value : Int) : NumberText :=
  ⟨decide (value < 0), decimal value.natAbs, none, none⟩

private theorem integerText_wellFormed (value : Int) : (integerText value).WellFormed := by
  refine ⟨areDigits_decimal _, fun startsWithZero => ?_, by simp [integerText],
    by simp [integerText]⟩
  have zero : value.natAbs = 0 := by
    rcases Nat.eq_zero_or_pos value.natAbs with zero | positive
    · exact zero
    · exact absurd startsWithZero (head?_decimal_ne_zero _ positive)
  simp only [integerText, zero]
  rfl

private theorem integerText_chars (value : Int) : (integerText value).chars = decimalInt value := by
  by_cases negative : value < 0
  · simp [NumberText.chars, integerText, negative, fractionChars, exponentChars,
      decimalInt_of_neg negative]
  · simp [NumberText.chars, integerText, negative, fractionChars, exponentChars,
      decimalInt_of_nonneg (Int.not_lt.mp negative)]

/-- The text of a number is the spelling of a number. -/
theorem exists_chars_eq_jsonText (value : Number) :
    ∃ number : NumberText, number.WellFormed ∧ number.chars = value.jsonText := by
  cases value with
  | integer value => exact ⟨integerText value, integerText_wellFormed value, integerText_chars value⟩
  | float value =>
      obtain ⟨number, wellFormed, spelling, -⟩ := exists_chars_eq_text value
      exact ⟨number, wellFormed, spelling⟩

end RunManifest.Json

/-! ## Reading written numbers -/

namespace RunManifest.Number

/-- What the written form of a number is read as; none when it is too large. -/
def reading (value : Number) : Option Number :=
  match Json.scanNumber value.jsonText with
  | .ok (digits, _) => digits.toNumber?
  | .error _ => none

/-- The numbers that reading gives: integers that fit 64 bits with or without a sign, and bounded
numbers of double precision. -/
def InRange : Number → Prop
  | .integer value => -(Word64.signedBound : Int) ≤ value ∧ value < Word64.unsignedBound
  | .float x => x.Bounded

end RunManifest.Number

namespace RunManifest.Binary64

/-- The number is read from its written form as itself. -/
def Recovered (x : Binary64) : Prop :=
  Json.decode Json.Node.value (String.ofList (x.text Number.jsonStyle)) = .ok (.number (.float x))

instance (x : Binary64) : Decidable x.Recovered :=
  inferInstanceAs (Decidable (_ = _))

end RunManifest.Binary64

namespace RunManifest.Json

open Text

/-- A written number is read to its end. -/
theorem readNumber_jsonText
    (value : Number)
    {rest : List Char}
    (ends : EndsNumber rest) :
    readNumber (value.jsonText ++ rest) = (.number value.reading, some rest) := by
  obtain ⟨number, wellFormed, spelling⟩ := exists_chars_eq_jsonText value
  have alone := scanNumber_chars wellFormed endsNumber_nil
  rw [List.append_nil, spelling] at alone
  have followed := scanNumber_chars wellFormed ends
  rw [spelling] at followed
  rw [readNumber, followed, Number.reading, alone]

/-- A written number begins with a sign or a digit. -/
theorem jsonText_eq_cons (value : Number) :
    ∃ c rest, value.jsonText = c :: rest ∧ (c = '-' ∨ c.isDigit) := by
  obtain ⟨⟨negative, whole, fraction, exponent⟩, wellFormed, spelling⟩ :=
    exists_chars_eq_jsonText value
  obtain ⟨first, others, isWhole⟩ := List.exists_cons_of_ne_nil wellFormed.whole.1
  dsimp only at isWhole
  rw [← spelling]
  cases negative with
  | true => exact ⟨'-', _, rfl, Or.inl rfl⟩
  | false =>
      refine ⟨first, _, by simp [NumberText.chars, isWhole]; rfl, Or.inr ?_⟩
      exact wellFormed.whole.2 first (by simp [isWhole])

/-- The characters of numbers that are no digits. -/
def numberMarks : List Char := ['-', '+', '.', 'e']

/-- A written number has digits and a few marks. -/
theorem mem_jsonText
    {value : Number}
    {c : Char}
    (member : c ∈ value.jsonText) :
    c.isDigit ∨ c ∈ numberMarks := by
  obtain ⟨⟨negative, whole, fraction, exponent⟩, wellFormed, spelling⟩ :=
    exists_chars_eq_jsonText value
  rw [← spelling] at member
  simp only [NumberText.chars, List.mem_append] at member
  rcases member with ((sign | inWhole) | inFraction) | inExponent
  · split at sign
    · exact .inr (List.mem_singleton.mp sign ▸ by decide)
    · cases sign
  · exact .inl (wellFormed.whole.2 c inWhole)
  · cases fraction with
    | none => cases inFraction
    | some digits =>
        rcases List.mem_cons.mp inFraction with rfl | digit
        · exact .inr (by decide)
        · exact .inl ((wellFormed.fraction digits rfl).2 c digit)
  · cases exponent with
    | none => cases inExponent
    | some part =>
        obtain ⟨negative, digits⟩ := part
        rcases List.mem_cons.mp inExponent with rfl | later
        · exact .inr (by decide)
        · rcases List.mem_cons.mp later with rfl | digit
          · exact .inr (by cases negative <;> decide)
          · exact .inl ((wellFormed.exponent _ rfl).2 c digit)

/-! ## Integers stay integers -/

/-- Digits whose value fits are gathered completely. -/
theorem gatherWhole_of_lt
    (digits : List Char)
    (start : Nat)
    (fits : start * 10 ^ digits.length + decimalValue digits < Word64.unsignedBound) :
    gatherWhole start digits = (start * 10 ^ digits.length + decimalValue digits, 0) := by
  induction digits generalizing start with
  | nil => simp [gatherWhole, decimalValue]
  | cons c rest inductionHypothesis =>
      have shifted : start * 10 ^ (c :: rest).length + decimalValue (c :: rest) =
          (start * 10 + digitValue c) * 10 ^ rest.length + decimalValue rest := by
        rw [← foldl_decimalValue, ← foldl_decimalValue]
        rfl
      rw [shifted] at fits ⊢
      have small : start * 10 + digitValue c < Word64.unsignedBound := by
        have := Nat.le_mul_of_pos_right (start * 10 + digitValue c)
          (Nat.pow_pos (n := rest.length) (by decide : 0 < 10))
        omega
      rw [gatherWhole, if_pos small, inductionHypothesis _ fits]

private theorem gatherWhole_decimal (n : Nat) (fits : n < Word64.unsignedBound) :
    gatherWhole 0 (decimal n) = (n, 0) := by
  have gathered := gatherWhole_of_lt (decimal n) 0 (by simpa using fits)
  simpa using gathered

/-- What was gathered fits. -/
theorem gatherWhole_lt
    (digits : List Char)
    (start : Nat)
    (fits : start < Word64.unsignedBound) :
    (gatherWhole start digits).1 < Word64.unsignedBound := by
  induction digits generalizing start with
  | nil => exact fits
  | cons c rest inductionHypothesis =>
      simp only [gatherWhole]
      split
      · rename_i small
        exact inductionHypothesis _ small
      · exact fits

end RunManifest.Json

namespace RunManifest.Number

open Text

/-- An integer that fits is read as itself. -/
theorem reading_integer
    {value : Int}
    (inRange : InRange (.integer value)) :
    reading (.integer value) = some (.integer value) := by
  obtain ⟨above, below⟩ := inRange
  have scanned := Json.scanNumber_chars (Json.integerText_wellFormed value) Json.endsNumber_nil
  rw [List.append_nil, Json.integerText_chars] at scanned
  have gathered := Json.gatherWhole_decimal value.natAbs (by
    simp only [Word64.signedBound, Word64.unsignedBound] at *
    omega)
  rw [reading, jsonText, scanned]
  simp only [Json.NumberText.toNumber?, Json.integerText, gathered]
  by_cases negative : value < 0
  · have fits : ¬ (value.natAbs = 0 ∨ Word64.signedBound < value.natAbs) := by omega
    have magnitude : -(value.natAbs : Int) = value := by omega
    simp only [negative, decide_true, ne_eq, not_true_eq_false, if_false, if_neg fits, magnitude]
  · simp [negative]
    omega

private theorem not_floatOfParts_integer
    {negative : Bool}
    {significand : Nat}
    {exponent value : Int} :
    Json.floatOfParts negative significand exponent ≠ some (.integer value) := by
  simp [Json.floatOfParts, Option.bind_eq_some_iff]

private theorem bounded_of_toNumber?
    {digits : Json.NumberText}
    {x : Binary64}
    (read : digits.toNumber? = some (.float x)) :
    x.Bounded := by
  simp only [Json.NumberText.toNumber?] at read
  split at read
  · split at read
    · exact Json.bounded_of_floatOfParts read
    · split at read
      · cases read
      · split at read
        · exact Json.bounded_of_floatOfParts read
        · cases read
  · exact Json.bounded_of_floatOfParts read

/-- Reading gives no numbers but those in range. -/
theorem inRange_of_toNumber?
    {digits : Json.NumberText}
    {value : Number}
    (read : digits.toNumber? = some value) :
    value.InRange := by
  cases value with
  | float value => exact bounded_of_toNumber? read
  | integer value =>
      have fits := Json.gatherWhole_lt digits.whole 0 (by decide)
      simp only [Json.NumberText.toNumber?] at read
      split at read
      · split at read
        · exact absurd read not_floatOfParts_integer
        · split at read
          · cases read
            constructor
            · omega
            · exact_mod_cast fits
          · split at read
            · exact absurd read not_floatOfParts_integer
            · cases read
              constructor <;> omega
      · exact absurd read not_floatOfParts_integer

end RunManifest.Number
