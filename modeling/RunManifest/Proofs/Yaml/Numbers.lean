import RunManifest.Proofs.Json.Numbers
import RunManifest.Proofs.Yaml.Plain

/-!
Contract: written numbers are plain scalars that mean the numbers they were written for.

Owns:
- `IsNumeral`, the shape of written numbers, and `IsNumeral.plainStart`, which makes them plain
  scalars;
- `meaning_decimalInt`, the meaning of integers;
- `meaning_text`, the meaning of other numbers, which have a point or an exponent.
-/

set_option autoImplicit false

namespace RunManifest.Yaml

open Text

/-! ## Characters of numbers -/

/-- The characters of numbers. -/
def numeralChars : List Char := ['0', '1', '2', '3', '4', '5', '6', '7', '8', '9', '-', '.', 'e']

private theorem mem_numeralChars_of_isDigit {c : Char} (isDigit : c.isDigit = true) :
    c ∈ numeralChars := by
  have table : ∀ code < 58, 48 ≤ code → Char.ofNat code ∈ numeralChars := by decide
  simp only [Char.isDigit, Bool.and_eq_true, decide_eq_true_eq] at isDigit
  have low : 48 ≤ c.toNat := UInt32.le_iff_toNat_le.mp isDigit.1
  have high : c.toNat ≤ 57 := UInt32.le_iff_toNat_le.mp isDigit.2
  rw [← Char.ofNat_toNat c]
  exact table c.toNat (by omega) low

/-- The shape of written numbers: a digit, after a sign or none, and other characters of numbers. -/
def IsNumeral (chars : List Char) : Prop :=
  ∃ (negative : Bool) (first : Char) (rest : List Char),
    chars = (if negative then ['-'] else []) ++ first :: rest ∧ first.isDigit = true ∧
      ∀ c ∈ rest, c ∈ numeralChars

/-- What the characters of numbers are not. -/
structure IsHarmless (c : Char) : Prop where
  noSpacing : isSpacing c = false
  printed : isPrintable c = true
  noReserved : reservedStarts.contains c = false
  notColon : c ≠ ':'
  notHash : c ≠ '#'

theorem isHarmless_of_numeral {c : Char} (isNumeral : c ∈ numeralChars) : IsHarmless c := by
  have table : numeralChars.all (fun c => !isSpacing c && isPrintable c &&
      !reservedStarts.contains c && c != ':' && c != '#') = true := by
    decide
  have row := List.all_eq_true.mp table c isNumeral
  simp only [Bool.and_eq_true, Bool.not_eq_true', bne_iff_ne] at row
  obtain ⟨⟨⟨⟨noSpacing, printed⟩, noReserved⟩, notColon⟩, notHash⟩ := row
  exact ⟨noSpacing, printed, noReserved, notColon, notHash⟩

private theorem plainRest_of_numerals
    {chars : List Char}
    (numerals : ∀ c ∈ chars, c ∈ numeralChars)
    (previous : Char) :
    PlainRest previous chars := by
  have noMark : hasInnerMark previous chars = false := by
    induction chars generalizing previous with
    | nil => rfl
    | cons c chars inductionHypothesis =>
        have harmless := isHarmless_of_numeral (numerals c (by simp))
        have later := inductionHypothesis (fun d isChar => numerals d (by simp [isChar])) c
        simp [hasInnerMark, harmless.notColon, harmless.notHash, later]
  refine ⟨noMark, fun c isChar => ?_, fun c isChar => ?_, ?_⟩
  · exact (Bool.or_eq_false_iff.mp (isHarmless_of_numeral (numerals c isChar)).noSpacing).2
  · exact (isHarmless_of_numeral (numerals c isChar)).printed
  · cases isLast : chars.getLast? with
    | none => rfl
    | some c =>
        have noSpacing := (isHarmless_of_numeral (numerals c (List.mem_of_getLast? isLast))).noSpacing
        rw [Option.any_some, Bool.eq_false_iff]
        intro space
        rw [beq_iff_eq.mp space] at noSpacing
        cases noSpacing

/-- A number can be written plain. -/
theorem IsNumeral.plainStart {chars : List Char} (numeral : IsNumeral chars) :
    ∃ c rest, chars = c :: rest ∧ PlainStart c rest := by
  obtain ⟨negative, first, rest, rfl, isDigit, numerals⟩ := numeral
  have isNumeral := mem_numeralChars_of_isDigit isDigit
  have notHyphen : first ≠ '-' := by
    rintro rfl
    cases isDigit
  have notDot : first ≠ '.' := by
    rintro rfl
    cases isDigit
  obtain ⟨noSpacing, printed, noReserved, notColon, -⟩ := isHarmless_of_numeral isNumeral
  cases negative with
  | false =>
      refine ⟨first, rest, rfl, noSpacing, printed, noReserved, ?_, ?_,
        plainRest_of_numerals numerals _⟩
      · intro isLoose
        simp [looseStarts, notHyphen, notColon] at isLoose
        subst isLoose
        cases isDigit
      · simp [hasDocumentMark, List.isPrefixOf, notHyphen.symm, notDot.symm]
  | true =>
      refine ⟨'-', first :: rest, rfl, by decide, by decide, by decide, fun _ => noSpacing, ?_,
        plainRest_of_numerals (List.forall_mem_cons.mpr ⟨isNumeral, numerals⟩) _⟩
      simp [hasDocumentMark, List.isPrefixOf, notHyphen.symm]

/-! ## Shapes -/

/-- An integer is written with its digits after its sign. -/
theorem exists_decimalInt_eq (value : Int) :
    ∃ first rest, decimal value.natAbs = first :: rest ∧ (∀ c ∈ first :: rest, c.isDigit = true) ∧
      decimalInt value = (if decide (value < 0) then ['-'] else []) ++ first :: rest := by
  have digits := Json.areDigits_decimal value.natAbs
  obtain ⟨first, rest, isDecimal⟩ := List.exists_cons_of_ne_nil digits.1
  refine ⟨first, rest, isDecimal, isDecimal ▸ digits.2, ?_⟩
  by_cases negative : value < 0
  · simp [negative, Json.decimalInt_of_neg negative, isDecimal]
  · simp [negative, Json.decimalInt_of_nonneg (Int.not_lt.mp negative), isDecimal]

private theorem isNumeral_decimalInt (value : Int) : IsNumeral (decimalInt value) := by
  obtain ⟨first, rest, -, areDigits, form⟩ := exists_decimalInt_eq value
  refine ⟨decide (value < 0), first, rest, form, areDigits first (by simp), fun c isChar => ?_⟩
  exact mem_numeralChars_of_isDigit (areDigits c (by simp [isChar]))

theorem IsNumeral.mem {chars : List Char} (numeral : IsNumeral chars) :
    ∀ c ∈ chars, c ∈ numeralChars := by
  obtain ⟨negative, first, rest, rfl, isDigit, numerals⟩ := numeral
  intro c isChar
  rcases List.mem_append.mp isChar with isSign | isRest
  · cases negative with
    | false => cases isSign
    | true =>
        rw [List.mem_singleton.mp isSign]
        decide
  · rcases List.mem_cons.mp isRest with rfl | isLater
    · exact mem_numeralChars_of_isDigit isDigit
    · exact numerals c isLater

/-- Digits with a point or an exponent. -/
structure IsFraction (chars : List Char) : Prop where
  first : ∃ c rest, chars = c :: rest ∧ c.isDigit = true
  numerals : ∀ c ∈ chars, c ∈ numeralChars
  notInteger : ∃ c ∈ chars, c.isDigit = false

/-- Digits laid out around a decimal point have a point or an exponent. -/
theorem isFraction_layOut {digits : List Char} (areDigits : Json.AreDigits digits) (point : Int) :
    IsFraction (Binary64.layOut numberStyle digits point) := by
  have numerals : ∀ c ∈ digits, c ∈ numeralChars :=
    fun c isChar => mem_numeralChars_of_isDigit (areDigits.2 c isChar)
  have zeros : ∀ count, ∀ c ∈ List.replicate count '0', c ∈ numeralChars := by
    intro count c isChar
    rw [List.eq_of_mem_replicate isChar]
    decide
  have dot : '.' ∈ numeralChars := by decide
  have zero : '0' ∈ numeralChars := by decide
  have mark : 'e' ∈ numeralChars := by decide
  obtain ⟨d, ds, rfl⟩ := List.exists_cons_of_ne_nil areDigits.1
  have isDigit := areDigits.2 d (by simp)
  unfold Binary64.layOut
  dsimp only
  split
  · split
    · refine ⟨⟨'0', _, rfl, rfl⟩, ?_, ⟨'.', by simp, rfl⟩⟩
      simp only [List.forall_mem_append, List.forall_mem_cons]
      exact ⟨⟨⟨zero, dot, by simp⟩, zeros _⟩, List.forall_mem_cons.mp numerals⟩
    · split
      · refine ⟨⟨d, _, rfl, isDigit⟩, ?_, ⟨'.', by simp, rfl⟩⟩
        simp only [List.forall_mem_append]
        exact ⟨⟨numerals, zeros _⟩, by simp [dot, zero]⟩
      · rename_i notBefore _
        obtain ⟨count, isCount⟩ : ∃ count, point.toNat = count + 1 := ⟨point.toNat - 1, by omega⟩
        rw [isCount]
        refine ⟨⟨d, _, rfl, isDigit⟩, ?_, ⟨'.', by simp, rfl⟩⟩
        simp only [List.forall_mem_append]
        exact ⟨⟨fun c isChar => numerals c (List.mem_of_mem_take isChar), by simp [dot]⟩,
          fun c isChar => numerals c (List.mem_of_mem_drop isChar)⟩
  · refine ⟨⟨d, _, rfl, isDigit⟩, ?_, ⟨'e', by simp, rfl⟩⟩
    have noPlus : ¬ (numberStyle.plusSign = true ∧ 0 ≤ point - 1) := by simp [numberStyle]
    rw [if_neg noPlus]
    simp only [List.forall_mem_append]
    refine ⟨⟨⟨⟨?_, ?_⟩, by simp [mark]⟩, by simp⟩, (isNumeral_decimalInt _).mem⟩
    · exact fun c isChar => numerals c (List.mem_of_mem_take isChar)
    · split
      · simp
      · exact List.forall_mem_cons.mpr
          ⟨dot, fun c isChar => numerals c (List.mem_of_mem_drop isChar)⟩

private theorem isFraction_magnitudeText (x : Binary64) :
    IsFraction (x.magnitudeText numberStyle) := by
  unfold Binary64.magnitudeText
  split
  · exact ⟨⟨'0', _, rfl, rfl⟩, by simp [numeralChars], ⟨'.', by simp, rfl⟩⟩
  · exact isFraction_layOut (Json.areDigits_decimal _) _

/-- Written numbers have the shape of numbers. -/
theorem isNumeral_numberForm (value : Number) : IsNumeral (numberForm value) := by
  cases value with
  | integer value => exact isNumeral_decimalInt value
  | float value =>
      have fraction := isFraction_magnitudeText value
      obtain ⟨first, rest, isText, isDigit⟩ := fraction.first
      refine ⟨value.negative, first, rest, ?_, isDigit, fun c isChar => ?_⟩
      · show value.text numberStyle = _
        rw [Binary64.text, isText]
      · exact fraction.numerals c (by simp [isText, isChar])

/-! ## Words -/

/-- A number is none of the words that mean something else. -/
theorem not_mem_words
    {text : String}
    (numerals : ∀ c ∈ text.toList, c ∈ numeralChars)
    {words : List String}
    (table : words.all (fun word => word.toList.any fun c => !numeralChars.contains c) = true) :
    words.contains text = false := by
  rw [Bool.eq_false_iff]
  intro isWord
  have row := List.all_eq_true.mp table text (List.contains_iff_mem.mp isWord)
  obtain ⟨c, isChar, notNumeral⟩ := List.any_eq_true.mp row
  rw [List.contains_iff_mem.mpr (numerals c isChar)] at notNumeral
  cases notNumeral

/-- What a number means, if it is no integer. -/
theorem meaning_of_numerals
    {text : String}
    (nonempty : text.toList ≠ [])
    (numerals : ∀ c ∈ text.toList, c ∈ numeralChars) :
    meaning text =
      match integer? text.toList with
      | some value => .integer value
      | none =>
          if hasLeadingZero text.toList then .text
          else
            match number? text.toList with
            | some value => .number value
            | none => .text := by
  have noNull : isNullWord text = false := not_mem_words numerals (by decide)
  have noTrue : ["true", "True", "TRUE"].contains text = false :=
    not_mem_words numerals (by decide)
  have noFalse : ["false", "False", "FALSE"].contains text = false :=
    not_mem_words numerals (by decide)
  have finite : nonFiniteWords.contains text = false := not_mem_words numerals (by decide)
  have noFlag : flag? text = none := by
    unfold flag?
    rw [noTrue, noFalse]
    rfl
  have notEmpty : text.toList.isEmpty = false := List.isEmpty_eq_false_iff.mpr nonempty
  unfold meaning
  simp only [notEmpty, noNull, noFlag, finite, Bool.or_false, Bool.false_eq_true, if_false]
  cases integer? text.toList with
  | some value => rfl
  | none => rfl

/-! ## Integers -/

private theorem digitValue?_ten {c : Char} (isDigit : c.isDigit = true) :
    digitValue? 10 c = some (digitValue c) := by
  have isNumeral := mem_numeralChars_of_isDigit isDigit
  have table : numeralChars.all (fun c => !c.isDigit || digitValue? 10 c == some (digitValue c)) =
      true := by
    decide
  have row := List.all_eq_true.mp table c isNumeral
  simpa [isDigit] using row

/-- Digits stand for their value. -/
theorem digitsValue?_ten {digits : List Char} (areDigits : Json.AreDigits digits) :
    digitsValue? 10 digits = some (decimalValue digits) := by
  have folded : ∀ (digits : List Char) (start : Nat), (∀ c ∈ digits, c.isDigit = true) →
      digits.foldlM (fun value c => (digitValue? 10 c).map (value * 10 + ·)) start =
        some (digits.foldl (fun value c => value * 10 + digitValue c) start) := by
    intro digits
    induction digits with
    | nil => exact fun start _ => rfl
    | cons c digits inductionHypothesis =>
        intro start all
        rw [List.foldlM_cons, digitValue?_ten (all c (by simp)), List.foldl_cons]
        exact inductionHypothesis _ fun d isChar => all d (by simp [isChar])
  have notEmpty : digits.isEmpty = false := List.isEmpty_eq_false_iff.mpr areDigits.1
  rw [digitsValue?, notEmpty, if_neg (by decide), folded digits 0 areDigits.2]
  rfl

/-- No zero stands in front of other characters. -/
theorem decimal_eq_zero_cons {n : Nat} {rest : List Char} (isDecimal : decimal n = '0' :: rest) :
    rest = [] := by
  rcases Nat.eq_zero_or_pos n with rfl | positive
  · cases isDecimal
    rfl
  · exact absurd (by rw [isDecimal]; rfl) (head?_decimal_ne_zero n positive)

private theorem unsignedValue?_decimal (n : Nat) : unsignedValue? (decimal n) = some n := by
  have noBase : basedValue? (decimal n) = none := by
    unfold basedValue?
    split
    · rename_i isDecimal
      cases decimal_eq_zero_cons isDecimal
    · rename_i isDecimal
      cases decimal_eq_zero_cons isDecimal
    · rename_i isDecimal
      cases decimal_eq_zero_cons isDecimal
    · rfl
  rw [unsignedValue?, noBase, digitsValue?_ten (Json.areDigits_decimal n), decimalValue_decimal]
  rfl

private theorem isSign_of_isDigit {c : Char} (isDigit : c.isDigit = true) : isSign c = false := by
  rw [Bool.eq_false_iff]
  intro sign
  simp only [isSign, Bool.or_eq_true, beq_iff_eq] at sign
  rcases sign with rfl | rfl <;> cases isDigit

/-- Without its sign a number starts with a digit. -/
theorem withoutSign_signed {c : Char} (isDigit : c.isDigit = true) (negative : Bool)
    (rest : List Char) :
    withoutSign ((if negative then ['-'] else []) ++ c :: rest) = c :: rest := by
  cases negative with
  | true => rfl
  | false =>
      show (if isSign c then rest else c :: rest) = _
      rw [isSign_of_isDigit isDigit]
      rfl

/-- The integer that a number spells is the one that is spelt without its sign, with the sign. -/
theorem anyInteger?_signed
    {c : Char}
    {rest : List Char}
    (isDigit : c.isDigit = true)
    (negative : Bool)
    (noZero : hasLeadingZero ((if negative then ['-'] else []) ++ c :: rest) = false) :
    anyInteger? ((if negative then ['-'] else []) ++ c :: rest) =
      (unsignedValue? (c :: rest)).map fun value : Nat =>
        if negative then -(value : Int) else (value : Int) := by
  unfold anyInteger?
  rw [noZero, if_neg (by decide)]
  cases negative with
  | true =>
      simp only [if_true, List.singleton_append]
      cases unsignedValue? (c :: rest) <;> rfl
  | false =>
      simp only [Bool.false_eq_true, if_false, List.nil_append]
      split
      · rename_i same
        cases same
        cases isDigit
      · rename_i same
        cases same
        cases isDigit
      · rfl

private theorem anyInteger?_decimalInt (value : Int) :
    anyInteger? (decimalInt value) = some value := by
  obtain ⟨first, rest, isDecimal, areDigits, form⟩ := exists_decimalInt_eq value
  have isDigit := areDigits first (by simp)
  have noZero : hasLeadingZero (decimalInt value) = false := by
    unfold hasLeadingZero
    rw [form, withoutSign_signed isDigit, ← isDecimal]
    split
    · rename_i isZero
      cases decimal_eq_zero_cons isZero
    · rfl
  rw [form] at noZero ⊢
  rw [anyInteger?_signed isDigit _ noZero, ← isDecimal, unsignedValue?_decimal, Option.map_some]
  congr 1
  split <;> rename_i sign <;> simp at sign <;> omega

/-- An integer of 64 bits means itself. -/
theorem meaning_decimalInt
    {value : Int}
    (low : -(Word64.signedBound : Int) ≤ value)
    (high : value < (Word64.unsignedBound : Int)) :
    meaning (String.ofList (decimalInt value)) = .integer value := by
  have numeral := isNumeral_decimalInt value
  have recognized : isRecognized value = true := by
    rw [isRecognized, Bool.and_eq_true, decide_eq_true_eq, decide_eq_true_eq]
    simp only [Word64.wideSignedBound, Word64.wideUnsignedBound, Word64.signedBound,
      Word64.unsignedBound] at low high ⊢
    omega
  have integer : integer? (decimalInt value) = some value := by
    rw [integer?, anyInteger?_decimalInt]
    simp [recognized]
  have nonempty : decimalInt value ≠ [] := by
    obtain ⟨_, _, _, isForm, -⟩ := numeral
    simp [isForm]
  rw [meaning_of_numerals (by rwa [String.toList_ofList])
    (by rw [String.toList_ofList]; exact numeral.mem), String.toList_ofList, integer]

/-! ## Fractions -/

theorem digitValue?_eq_none
    {c : Char}
    (isNumeral : c ∈ numeralChars)
    (notDigit : c.isDigit = false) :
    digitValue? 10 c = none := by
  have table : numeralChars.all (fun c => c.isDigit || digitValue? 10 c == none) = true := by decide
  have row := List.all_eq_true.mp table c isNumeral
  simpa [notDigit] using row

/-- A point or an exponent is no part of an integer. -/
theorem unsignedValue?_fraction {chars : List Char} (fraction : IsFraction chars) :
    unsignedValue? chars = none := by
  have noBase : basedValue? chars = none := by
    unfold basedValue?
    split
    · exact absurd (fraction.numerals 'x' (by simp)) (by decide)
    · exact absurd (fraction.numerals 'o' (by simp)) (by decide)
    · exact absurd (fraction.numerals 'b' (by simp)) (by decide)
    · rfl
  obtain ⟨c, isChar, notDigit⟩ := fraction.notInteger
  have folded : ∀ (chars : List Char) (start : Nat), c ∈ chars →
      chars.foldlM (fun value d => (digitValue? 10 d).map (value * 10 + ·)) start = none := by
    intro chars
    induction chars with
    | nil =>
        intro start isChar
        cases isChar
    | cons d chars inductionHypothesis =>
        intro start isChar
        rw [List.foldlM_cons]
        rcases List.mem_cons.mp isChar with rfl | isLater
        · rw [digitValue?_eq_none (fraction.numerals c ‹_›) notDigit]
          rfl
        · cases digitValue? 10 d with
          | none => rfl
          | some value => exact inductionHypothesis _ isLater
  rw [unsignedValue?, noBase, digitsValue?, folded chars 0 isChar]
  split <;> rfl

private theorem hasLeadingZero_fraction
    {c : Char}
    {rest : List Char}
    (fraction : IsFraction (c :: rest))
    (isDigit : c.isDigit = true)
    (negative : Bool) :
    hasLeadingZero ((if negative then ['-'] else []) ++ c :: rest) = false := by
  unfold hasLeadingZero
  rw [withoutSign_signed isDigit]
  split
  · rename_i same
    cases same
    rw [Bool.eq_false_iff]
    intro allDigits
    obtain ⟨d, isChar, notDigit⟩ := fraction.notInteger
    rcases List.mem_cons.mp isChar with rfl | isLater
    · rw [isDigit] at notDigit
      cases notDigit
    · rw [List.all_eq_true.mp allDigits d isLater] at notDigit
      cases notDigit
  · rfl

/-- A number with a point or an exponent means what it is read as. -/
theorem meaning_text
    {x : Binary64}
    (recovered : number? (x.text numberStyle) = some x) :
    meaning (String.ofList (x.text numberStyle)) = .number x := by
  have numeral : IsNumeral (x.text numberStyle) := isNumeral_numberForm (.float x)
  have fraction := isFraction_magnitudeText x
  obtain ⟨first, rest, isText, isDigit⟩ := fraction.first
  rw [isText] at fraction
  have form : x.text numberStyle = (if x.negative then ['-'] else []) ++ first :: rest := by
    rw [Binary64.text, isText]
  have noZero := hasLeadingZero_fraction fraction isDigit x.negative
  have noInteger : integer? (x.text numberStyle) = none := by
    rw [integer?, form, anyInteger?_signed isDigit _ noZero, unsignedValue?_fraction fraction]
    rfl
  rw [← form] at noZero
  have nonempty : x.text numberStyle ≠ [] := by
    rw [form]
    simp
  rw [meaning_of_numerals (by rwa [String.toList_ofList])
      (by rw [String.toList_ofList]; exact numeral.mem), String.toList_ofList, noInteger, noZero,
    recovered]
  rfl

end RunManifest.Yaml
