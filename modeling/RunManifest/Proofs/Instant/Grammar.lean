import RunManifest.Proofs.Instant

/-!
Contract: each step of the reader of instants recognises the texts of a value.

Owns:
- the grammar of the parts of a text: years, numbers of one or two digits, places of the second
  and offsets from universal time;
- `Instant.Step.Reads`, that a step accepts the texts of each value and nothing else, and one law
  for each step;
- what may follow a number in a text.
-/

set_option autoImplicit false

namespace RunManifest.Instant

open Text Document

/-! ## The grammar -/

/-- White space, or nothing. -/
def blanks : Language Char :=
  {text : List Char | ∀ c ∈ text, isSpace c}

instance (text : List Char) : Decidable (text ∈ blanks) :=
  decidable_of_iff (text.all isSpace = true) List.all_eq_true

/-- The digits of a number, with zeros before them or not. -/
def numerals (value : Nat) : Language Char :=
  {text : List Char | text ≠ [] ∧ (∀ c ∈ text, c.isDigit) ∧ decimalValue text = value}

instance (value : Nat) (text : List Char) : Decidable (text ∈ numerals value) :=
  decidable_of_iff (text ≠ [] ∧ text.all Char.isDigit = true ∧ decimalValue text = value)
    (and_congr_right' (and_congr_left' List.all_eq_true))

/-- The texts of a year: up to four digits, or a sign and any number of them. -/
def yearTexts (year : Int) : Language Char :=
  {text : List Char | ∃ digits ∈ numerals year.natAbs,
    (0 ≤ year ∧ text = digits ∧ digits.length ≤ 4) ∨ (0 ≤ year ∧ text = '+' :: digits) ∨
      (year ≤ 0 ∧ text = '-' :: digits)}

/-- One or two digits. -/
def pairTexts (value : Nat) : Language Char :=
  {text : List Char | text ∈ numerals value ∧ text.length ≤ 2}

instance (value : Nat) (text : List Char) : Decidable (text ∈ pairTexts value) :=
  inferInstanceAs (Decidable (_ ∧ _))

/-- What stands between date and time. -/
def dividers : Language Char :=
  {['T'], ['t'], [' ']}

/-- The places of the second after a point, or nothing. Nine of them count; those that are not
written are zero. -/
def fractionTexts (nanos : Nat) : Language Char :=
  {text : List Char | (nanos = 0 ∧ text = []) ∨
    ∃ digits, digits ≠ [] ∧ (∀ c ∈ digits, c.isDigit) ∧ text = '.' :: digits ∧
      nanos = decimalValue ((digits ++ List.replicate 9 '0').take 9)}

/-- Two digits, for a number below hundred. -/
def twoDigitTexts (value : Nat) : Language Char :=
  {text : List Char | text ∈ numerals value ∧ text.length = 2}

instance (value : Nat) (text : List Char) : Decidable (text ∈ twoDigitTexts value) :=
  inferInstanceAs (Decidable (_ ∧ _))

/-- What stands between the hours and the minutes of an offset. -/
def gaps : Language Char :=
  {text : List Char | ∀ c ∈ text, c = ':' ∨ isSpace c}

/-- The hours and the minutes of an offset. -/
def amountTexts (minutes : Nat) : Language Char :=
  twoDigitTexts (minutes / 60) * gaps * twoDigitTexts (minutes % 60)

/-- The texts of an offset in minutes east: a name of universal time, or a sign and an amount. -/
def offsetTexts (minutes : Int) : Language Char :=
  {text : List Char |
    (minutes = 0 ∧ (text = ['Z'] ∨ text = ['z'] ∨ text.map Char.toUpper = ['U', 'T', 'C'])) ∨
    (0 ≤ minutes ∧ ∃ amount ∈ amountTexts minutes.natAbs, text = '+' :: amount) ∨
    (minutes ≤ 0 ∧ ∃ amount ∈ amountTexts minutes.natAbs,
      text = '-' :: amount ∨ text = '−' :: amount)}

/-! ## Steps -/

/-- A step recognises the texts of each value, if nothing follows that would prolong them. -/
structure Step.Reads
    {α : Type}
    (step : Step α)
    (texts : α → Language Char)
    (Ends : List Char → Prop) : Prop where
  complete (value : α) {piece rest : List Char} (isText : piece ∈ texts value) (ends : Ends rest) :
    step (piece ++ rest) = .ok (value, rest)
  sound {value : α} {text rest : List Char} (result : step text = .ok (value, rest)) :
    ∃ piece ∈ texts value, text = piece ++ rest

/-- Whether a text begins with something other than white space. -/
def Solid (text : List Char) : Prop :=
  ∃ c rest, text = c :: rest ∧ isSpace c = false

theorem trimStart_blanks
    {blank : List Char}
    (isBlank : blank ∈ blanks)
    (rest : List Char) :
    trimStart (blank ++ rest) = trimStart rest :=
  List.dropWhile_append_of_pos isBlank

theorem exists_blanks (text : List Char) : ∃ blank ∈ blanks, text = blank ++ trimStart text :=
  ⟨text.takeWhile isSpace, fun _ member => List.mem_takeWhile_imp member,
    List.takeWhile_append_dropWhile.symm⟩

/-- White space before the texts of a step. -/
theorem Step.Reads.spaced
    {α : Type}
    {step : Step α}
    {texts : α → Language Char}
    {Ends : List Char → Prop}
    (reads : step.Reads texts Ends)
    (solid : ∀ value, ∀ piece ∈ texts value, Solid piece) :
    Step.Reads (fun text => step (trimStart text)) (fun value => blanks * texts value) Ends where
  complete := by
    rintro value _ rest ⟨blank, isBlank, piece, isText, rfl⟩ ends
    obtain ⟨c, others, rfl, notSpace⟩ := solid value piece isText
    simp only [List.append_assoc, trimStart_blanks isBlank]
    rw [List.cons_append, trimStart_of_not_space notSpace, ← List.cons_append,
      reads.complete value isText ends]
  sound := by
    intro value text rest result
    obtain ⟨blank, isBlank, split⟩ := exists_blanks text
    obtain ⟨piece, isText, trimmed⟩ := reads.sound result
    exact ⟨blank ++ piece, Language.append_mem_mul isBlank isText,
      by rw [split, trimmed, List.append_assoc]⟩

/-- A check of the value after a step. -/
theorem Step.Reads.checked
    {α : Type}
    {step : Step α}
    {texts : α → Language Char}
    {Ends : List Char → Prop}
    (reads : step.Reads texts Ends)
    (accepts : α → Prop)
    [DecidablePred accepts]
    (problem : ReadError) :
    Step.Reads
      (fun text => do
        let (value, rest) ← step text
        if accepts value then .ok (value, rest) else .error problem)
      (fun value => {text : List Char | text ∈ texts value ∧ accepts value})
      Ends where
  complete := by
    rintro value piece rest ⟨isText, accepted⟩ ends
    simp only [reads.complete value isText ends, ok_bind, if_pos accepted]
  sound := by
    intro value text rest result
    obtain ⟨⟨found, after⟩, isRead, checked⟩ := bind_eq_ok.mp result
    simp only at checked
    split_ifs at checked with accepted
    obtain ⟨rfl, rfl⟩ := Prod.mk.inj (Except.ok.inj checked)
    obtain ⟨piece, isText, split⟩ := reads.sound isRead
    exact ⟨piece, ⟨isText, accepted⟩, split⟩

private theorem solid_of_mem_numerals
    {value : Nat}
    {digits : List Char}
    (isNumeral : digits ∈ numerals value) :
    Solid digits := by
  obtain ⟨nonempty, areDigits, -⟩ := isNumeral
  obtain ⟨c, others, rfl⟩ := List.exists_cons_of_ne_nil nonempty
  exact ⟨c, others, rfl, isSpace_of_isDigit (areDigits c (by simp))⟩

/-! ## Numbers -/

/-- As many digits are read as are asked for, unless their value is too large. -/
theorem number_digits
    (width : Nat)
    {digits : List Char}
    (nonempty : digits ≠ [])
    (areDigits : ∀ c ∈ digits, c.isDigit)
    {rest : List Char}
    (stops : StopsDigits rest) :
    number width (digits ++ rest) =
      if Word64.signedBound ≤ decimalValue (digits.take width) then .error .outOfRange
      else .ok (decimalValue (digits.take width), digits.drop width ++ rest) := by
  have taken : ((digits ++ rest).take width).takeWhile Char.isDigit = digits.take width := by
    rw [List.take_append]
    exact takeWhile_isDigit_append (fun c member => areDigits c (List.mem_of_mem_take member))
      (stopsDigits_take stops _)
  have dropped : (digits ++ rest).drop (digits.take width).length = digits.drop width ++ rest := by
    have split : digits ++ rest = digits.take width ++ (digits.drop width ++ rest) := by
      rw [← List.append_assoc, List.take_append_drop]
    rw [split, List.drop_left]
  obtain ⟨first, others, same⟩ := List.exists_cons_of_ne_nil nonempty
  have isDigit := areDigits first (by simp [same])
  have shape : digits ++ rest = first :: (others ++ rest) := by simp [same]
  simp only [number, shape, isDigit, if_true]
  rw [← shape, taken, dropped]

private theorem number_numerals
    {value width : Nat}
    {digits rest : List Char}
    (isNumeral : digits ∈ numerals value)
    (within : digits.length ≤ width)
    (stops : StopsDigits rest) :
    number width (digits ++ rest) =
      if Word64.signedBound ≤ value then .error .outOfRange else .ok (value, rest) := by
  obtain ⟨nonempty, areDigits, rfl⟩ := isNumeral
  rw [number_digits width nonempty areDigits stops, List.take_of_length_le within,
    List.drop_of_length_le within, List.nil_append]

private theorem exists_numerals_of_number
    {value width : Nat}
    {text rest : List Char}
    (positive : 0 < width)
    (result : number width text = .ok (value, rest)) :
    ∃ digits ∈ numerals value, text = digits ++ rest ∧ digits.length ≤ width := by
  cases text with
  | nil => cases result
  | cons first others =>
      simp only [number] at result
      split_ifs at result with isDigit large
      obtain ⟨rfl, rfl⟩ := Prod.mk.inj (Except.ok.inj result)
      have isPrefix : ((first :: others).take width).takeWhile Char.isDigit <+: first :: others :=
        (List.takeWhile_prefix _).trans (List.take_prefix _ _)
      refine ⟨_, ⟨?_, fun _ member => List.mem_takeWhile_imp member, rfl⟩,
        (List.prefix_append_drop isPrefix), ?_⟩
      · rw [List.take_cons positive, List.takeWhile_cons_of_pos isDigit]
        exact List.cons_ne_nil _ _
      · exact (List.takeWhile_prefix _).length_le.trans (List.length_take_le _ _)

/-- All of a text may be asked for. -/
theorem exists_numerals_of_number_length
    {value : Nat}
    {text rest : List Char}
    (result : number text.length text = .ok (value, rest)) :
    ∃ digits ∈ numerals value, text = digits ++ rest := by
  cases text with
  | nil => cases result
  | cons first others =>
      obtain ⟨digits, isNumeral, split, -⟩ :=
        exists_numerals_of_number (Nat.succ_pos others.length) result
      exact ⟨digits, isNumeral, split⟩

private theorem reads_number_two : (number 2).Reads pairTexts StopsDigits where
  complete := by
    rintro value piece rest ⟨isNumeral, short⟩ stops
    have small : ¬ Word64.signedBound ≤ value := by
      have below := decimalValue_lt isNumeral.2.1
      have power : 10 ^ piece.length ≤ 10 ^ 2 := Nat.pow_le_pow_right (by decide) short
      rw [isNumeral.2.2] at below
      rw [Word64.signedBound]
      omega
    rw [number_numerals isNumeral short stops, if_neg small]
  sound := by
    intro value text rest result
    obtain ⟨digits, isNumeral, split, short⟩ := exists_numerals_of_number (by decide) result
    exact ⟨digits, ⟨isNumeral, short⟩, split⟩

theorem reads_pair (least greatest : Nat) :
    (pair least greatest).Reads
      (fun value => {text : List Char |
        text ∈ blanks * pairTexts value ∧ least ≤ value ∧ value ≤ greatest})
      StopsDigits :=
  (reads_number_two.spaced fun _ _ isText => solid_of_mem_numerals isText.1).checked
    (fun value => least ≤ value ∧ value ≤ greatest) .outOfRange

/-! ## The year -/

/-- The last step for a year, where its sign is applied and its range is checked. -/
def signYear (sign : Int) (found : Nat × List Char) : Except ReadError (Int × List Char) :=
  if -2147483648 ≤ sign * (found.1 : Int) ∧ sign * (found.1 : Int) ≤ 2147483647 then
    .ok (sign * (found.1 : Int), found.2)
  else .error .outOfRange

/-- Digits that are too many for a number are those of a year out of range. -/
theorem signYear_number
    {sign value : Int}
    (isValue : sign * value.natAbs = value)
    (rest : List Char) :
    Except.bind (if Word64.signedBound ≤ value.natAbs then .error .outOfRange
        else .ok (value.natAbs, rest)) (signYear sign) =
      if -2147483648 ≤ value ∧ value ≤ 2147483647 then .ok (value, rest)
      else .error .outOfRange := by
  split_ifs with large inside inside
  · rw [Word64.signedBound] at large
    omega
  · rfl
  · simp only [Except.bind, signYear, isValue, if_pos inside]
  · simp only [Except.bind, signYear, isValue, if_neg inside]

private theorem exists_of_signYear
    {sign value : Int}
    {found : Except ReadError (Nat × List Char)}
    {rest : List Char}
    (result : found.bind (signYear sign) = .ok (value, rest)) :
    ∃ number : Nat, found = .ok (number, rest) ∧ value = sign * number := by
  obtain ⟨⟨number, after⟩, isFound, inRange⟩ := bind_eq_ok.mp result
  rw [signYear] at inRange
  split_ifs at inRange
  obtain ⟨rfl, rfl⟩ := Prod.mk.inj (Except.ok.inj inRange)
  exact ⟨number, isFound, rfl⟩

/-- A year is read with its sign if it is in the range of the reader. -/
theorem year_yearTexts
    {value : Int}
    {piece rest : List Char}
    (isText : piece ∈ blanks * yearTexts value)
    (stops : StopsDigits rest) :
    year (piece ++ rest) =
      if -2147483648 ≤ value ∧ value ≤ 2147483647 then .ok (value, rest)
      else .error .outOfRange := by
  obtain ⟨blank, isBlank, body, ⟨digits, isNumeral, shape⟩, rfl⟩ := isText
  simp only [List.append_assoc, year, trimStart_blanks isBlank]
  have within : digits.length ≤ (digits ++ rest).length := by simp
  rcases shape with ⟨positive, rfl, short⟩ | ⟨positive, rfl⟩ | ⟨negative, rfl⟩
  · obtain ⟨first, others, same, notSpace⟩ := solid_of_mem_numerals isNumeral
    have isDigit : first.isDigit := isNumeral.2.1 first (by simp [same])
    have notMinus : first ≠ '-' := by rintro rfl; revert isDigit; decide
    have notPlus : first ≠ '+' := by rintro rfl; revert isDigit; decide
    have read := number_numerals isNumeral short stops
    rw [same, List.cons_append] at read ⊢
    rw [trimStart_of_not_space notSpace]
    split
    case h_1 minus => exact absurd (List.cons.inj minus).1 notMinus
    case h_2 plus => exact absurd (List.cons.inj plus).1 notPlus
    case h_3 =>
      rw [read]
      exact signYear_number (by omega) rest
  · rw [List.cons_append, trimStart_of_not_space (by decide)]
    simp only [number_numerals isNumeral within stops]
    exact signYear_number (by omega) rest
  · rw [List.cons_append, trimStart_of_not_space (by decide)]
    simp only [number_numerals isNumeral within stops]
    exact signYear_number (by omega) rest

theorem exists_yearTexts_of_year
    {value : Int}
    {text rest : List Char}
    (result : year text = .ok (value, rest)) :
    ∃ piece ∈ blanks * yearTexts value, text = piece ++ rest := by
  obtain ⟨blank, isBlank, split⟩ := exists_blanks text
  suffices isYear : ∃ body ∈ yearTexts value, trimStart text = body ++ rest by
    obtain ⟨body, isText, trimmed⟩ := isYear
    exact ⟨blank ++ body, Language.append_mem_mul isBlank isText,
      by rw [split, trimmed, List.append_assoc]⟩
  rw [year] at result
  split at result
  case h_1 after signed =>
    obtain ⟨number, isFound, isValue⟩ := exists_of_signYear result
    obtain ⟨digits, isNumeral, split⟩ := exists_numerals_of_number_length isFound
    have same : value.natAbs = number := by omega
    exact ⟨'-' :: digits, ⟨digits, same ▸ isNumeral, .inr (.inr ⟨by omega, rfl⟩)⟩,
      by rw [signed, split, List.cons_append]⟩
  case h_2 after signed =>
    obtain ⟨number, isFound, isValue⟩ := exists_of_signYear result
    obtain ⟨digits, isNumeral, split⟩ := exists_numerals_of_number_length isFound
    have same : value.natAbs = number := by omega
    exact ⟨'+' :: digits, ⟨digits, same ▸ isNumeral, .inr (.inl ⟨by omega, rfl⟩)⟩,
      by rw [signed, split, List.cons_append]⟩
  case h_3 =>
    obtain ⟨number, isFound, isValue⟩ := exists_of_signYear result
    obtain ⟨digits, isNumeral, split, short⟩ := exists_numerals_of_number (by decide) isFound
    have same : value.natAbs = number := by omega
    exact ⟨digits, ⟨digits, same ▸ isNumeral, .inl ⟨by omega, rfl, short⟩⟩, split⟩

/-! ## Separators -/

private theorem reads_literal (c : Char) :
    (literal c).Reads (fun _ => {[c]}) fun _ => True where
  complete := by
    rintro ⟨⟩ _ rest rfl -
    exact if_pos rfl
  sound := by
    rintro ⟨⟩ text rest result
    cases text with
    | nil => cases result
    | cons first others =>
        simp only [literal] at result
        split_ifs at result with same
        obtain ⟨-, rfl⟩ := Prod.mk.inj (Except.ok.inj result)
        exact ⟨[c], rfl, by rw [same]; rfl⟩

theorem reads_separator {c : Char} (notSpace : isSpace c = false) :
    (separator c).Reads (fun _ => blanks * {[c]}) fun _ => True :=
  (reads_literal c).spaced fun _ _ same => ⟨c, [], same, notSpace⟩

theorem reads_divider : divider.Reads (fun _ => dividers) fun _ => True where
  complete := by
    rintro ⟨⟩ _ rest (rfl | rfl | rfl) - <;> rfl
  sound := by
    rintro ⟨⟩ text rest result
    cases text with
    | nil => cases result
    | cons first others =>
        simp only [divider] at result
        split_ifs at result with isDivider
        obtain ⟨-, rfl⟩ := Prod.mk.inj (Except.ok.inj result)
        refine ⟨[first], ?_, rfl⟩
        rcases isDivider with rfl | rfl | rfl
        · exact .inl rfl
        · exact .inr (.inl rfl)
        · exact .inr (.inr rfl)

/-! ## Places of the second -/

/-- The nine places of a second, of which those that are not written are zeros. -/
theorem decimalValue_places (digits : List Char) :
    decimalValue ((digits ++ List.replicate 9 '0').take 9) =
      decimalValue (digits.take 9) * 10 ^ (9 - (digits.take 9).length) := by
  have count : min (9 - digits.length) 9 = 9 - min 9 digits.length := by omega
  rw [List.take_append, List.take_replicate, decimalValue_append, decimalValue_zeros,
    List.length_replicate, List.length_take, count]
  rfl

private theorem places_digits
    {digits : List Char}
    (nonempty : digits ≠ [])
    (areDigits : ∀ c ∈ digits, c.isDigit)
    {rest : List Char}
    (stops : StopsDigits rest) :
    places ('.' :: digits ++ rest) =
      .ok (decimalValue ((digits ++ List.replicate 9 '0').take 9), rest) := by
  have small : ¬ Word64.signedBound ≤ decimalValue (digits.take 9) := by
    have below := decimalValue_lt fun c member => areDigits c (List.mem_of_mem_take (i := 9) member)
    have power : 10 ^ (digits.take 9).length ≤ 10 ^ 9 :=
      Nat.pow_le_pow_right (by decide) (List.length_take_le _ _)
    rw [Word64.signedBound]
    omega
  have read := number_digits 9 nonempty areDigits stops
  rw [if_neg small] at read
  have count : (digits ++ rest).length - (digits.drop 9 ++ rest).length
      = (digits.take 9).length := by
    simp only [List.length_append, List.length_drop, List.length_take]
    omega
  have remaining : (digits.drop 9 ++ rest).dropWhile Char.isDigit = rest :=
    dropWhile_isDigit_append (fun c member => areDigits c (List.mem_of_mem_drop member)) stops
  rw [List.cons_append, decimalValue_places]
  simp only [places, read, ok_bind, count, remaining]
  rfl

/-- Places may be followed by anything that neither is a digit nor starts places. -/
theorem reads_places :
    places.Reads fractionTexts fun rest => StopsDigits rest ∧ rest.head? ≠ some '.' where
  complete := by
    rintro value _ rest (⟨rfl, rfl⟩ | ⟨digits, nonempty, areDigits, rfl, rfl⟩) ⟨stops, noPoint⟩
    · rw [List.nil_append, places]
      rintro others rfl
      exact noPoint rfl
    · exact places_digits nonempty areDigits stops
  sound := by
    intro value text rest result
    by_cases point : ∃ others, text = '.' :: others
    · obtain ⟨others, rfl⟩ := point
      -- The digits after the point are read as one of the texts, so that the result is that one.
      have split := (List.takeWhile_append_dropWhile (p := Char.isDigit) (l := others)).symm
      have areDigits : ∀ c ∈ others.takeWhile Char.isDigit, c.isDigit := fun _ member =>
        List.mem_takeWhile_imp member
      have stops : StopsDigits (others.dropWhile Char.isDigit) := by
        intro c same
        simpa [same] using List.head?_dropWhile_not Char.isDigit others
      have nonempty : others.takeWhile Char.isDigit ≠ [] := by
        obtain ⟨⟨number, after⟩, isNumber, -⟩ := bind_eq_ok.mp result
        cases others with
        | nil => cases isNumber
        | cons first others =>
            simp only [Instant.number] at isNumber
            split_ifs at isNumber with isDigit
            rw [List.takeWhile_cons_of_pos isDigit]
            exact List.cons_ne_nil _ _
      have read := places_digits nonempty areDigits stops
      rw [List.cons_append, ← split, result] at read
      obtain ⟨rfl, rfl⟩ := Prod.mk.inj (Except.ok.inj read)
      exact ⟨_, .inr ⟨_, nonempty, areDigits, rfl, rfl⟩, by rw [List.cons_append, ← split]⟩
    · rw [places] at result
      · obtain ⟨rfl, rfl⟩ := Prod.mk.inj (Except.ok.inj result)
        exact ⟨[], .inl ⟨rfl, rfl⟩, rfl⟩
      · exact fun others isPoint => point ⟨others, isPoint⟩

/-! ## Offsets -/

private theorem twoDigits_numerals
    {value : Nat}
    {piece : List Char}
    (isText : piece ∈ twoDigitTexts value)
    (rest : List Char) :
    value < 100 ∧ twoDigits (piece ++ rest) = .ok ((value / 10, value % 10), rest) := by
  obtain ⟨⟨-, areDigits, rfl⟩, two⟩ := isText
  obtain ⟨tens, ones, rfl⟩ := List.length_eq_two.mp two
  have tensDigit := areDigits tens (by simp)
  have onesDigit := areDigits ones (by simp)
  have tensSmall := digitValue_lt tensDigit
  have onesSmall := digitValue_lt onesDigit
  have isValue : decimalValue [tens, ones] = digitValue tens * 10 + digitValue ones := by
    simp [decimalValue]
  have isTens : decimalValue [tens, ones] / 10 = digitValue tens := by omega
  have isOnes : decimalValue [tens, ones] % 10 = digitValue ones := by omega
  refine ⟨by omega, ?_⟩
  rw [isTens, isOnes]
  exact if_pos ⟨tensDigit, onesDigit⟩

private theorem exists_of_twoDigits
    {tens ones : Nat}
    {text rest : List Char}
    (result : twoDigits text = .ok ((tens, ones), rest)) :
    ones < 10 ∧ ∃ piece ∈ twoDigitTexts (tens * 10 + ones), text = piece ++ rest := by
  match text with
  | [] => cases result
  | [single] =>
      simp only [twoDigits] at result
      split_ifs at result
  | first :: second :: others =>
      simp only [twoDigits] at result
      split_ifs at result with areDigits
      obtain ⟨values, rfl⟩ := Prod.mk.inj (Except.ok.inj result)
      obtain ⟨rfl, rfl⟩ := Prod.mk.inj values
      have isNumeral : [first, second] ∈ numerals (digitValue first * 10 + digitValue second) :=
        ⟨by simp, by simpa using areDigits, by simp [decimalValue]⟩
      exact ⟨digitValue_lt areDigits.2, [first, second], ⟨isNumeral, rfl⟩, rfl⟩

/-- The hours and minutes of an offset, whatever follows them. -/
theorem offsetAmount_amountTexts
    {minutes : Nat}
    {piece : List Char}
    (isText : piece ∈ amountTexts minutes)
    (rest : List Char) :
    offsetAmount (piece ++ rest) = .ok ((minutes : Int) * 60, rest) := by
  obtain ⟨_, ⟨hours, areHours, gap, isGap, rfl⟩, last, areMinutes, rfl⟩ := isText
  have ⟨hoursSmall, readHours⟩ := twoDigits_numerals areHours (gap ++ (last ++ rest))
  have ⟨minutesSmall, readMinutes⟩ := twoDigits_numerals areMinutes rest
  have afterGap : (gap ++ (last ++ rest)).dropWhile (fun c => c == ':' || isSpace c)
      = last ++ rest := by
    obtain ⟨c, others, rfl, notSpace⟩ := solid_of_mem_numerals areMinutes.1
    have notColon : c ≠ ':' := by
      rintro rfl
      exact absurd (areMinutes.1.2.1 ':' (by simp)) (by decide)
    rw [List.dropWhile_append_of_pos fun c member => by simpa using isGap c member,
      List.cons_append, List.dropWhile_cons_of_neg (by simp [notSpace, notColon])]
  have inHour : ¬ 6 ≤ minutes % 60 / 10 := by omega
  simp only [List.append_assoc, offsetAmount, readHours, ok_bind, afterGap, readMinutes,
    if_neg inHour]
  congr 2
  omega

private theorem exists_amountTexts_of_offsetAmount
    {seconds : Int}
    {text rest : List Char}
    (result : offsetAmount text = .ok (seconds, rest)) :
    ∃ minutes : Nat, seconds = minutes * 60 ∧
      ∃ piece ∈ amountTexts minutes, text = piece ++ rest := by
  obtain ⟨⟨⟨hourTens, hourOnes⟩, afterHours⟩, readHours, result⟩ := bind_eq_ok.mp result
  obtain ⟨⟨⟨tens, ones⟩, afterMinutes⟩, readMinutes, result⟩ := bind_eq_ok.mp result
  simp only at result
  split_ifs at result with inHour
  obtain ⟨isSeconds, rfl⟩ := Prod.mk.inj (Except.ok.inj result)
  obtain ⟨-, hours, areHours, rfl⟩ := exists_of_twoDigits readHours
  obtain ⟨small, last, areMinutes, afterGap⟩ := exists_of_twoDigits readMinutes
  have split := List.takeWhile_append_dropWhile (p := fun c => c == ':' || isSpace c)
    (l := afterHours)
  have isGap : afterHours.takeWhile (fun c => c == ':' || isSpace c) ∈ gaps := by
    intro c member
    simpa using List.mem_takeWhile_imp member
  refine ⟨(hourTens * 10 + hourOnes) * 60 + (tens * 10 + ones), by omega, _,
    Language.append_mem_mul (Language.append_mem_mul (a := hours) ?_ isGap) (b := last) ?_, ?_⟩
  · rwa [show ((hourTens * 10 + hourOnes) * 60 + (tens * 10 + ones)) / 60
      = hourTens * 10 + hourOnes by omega]
  · rwa [show ((hourTens * 10 + hourOnes) * 60 + (tens * 10 + ones)) % 60
      = tens * 10 + ones by omega]
  · rw [List.append_assoc, List.append_assoc, ← afterGap, split]

/-- The texts of an offset in seconds, which is one in whole minutes. -/
def secondOffsetTexts (seconds : Int) : Language Char :=
  {text : List Char | ∃ minutes : Int, seconds = minutes * 60 ∧ text ∈ offsetTexts minutes}

private theorem reads_offset : offset.Reads secondOffsetTexts fun _ => True where
  complete := by
    rintro _ piece rest ⟨minutes, rfl, isText⟩ -
    rcases isText with ⟨rfl, rfl | rfl | universal⟩ | ⟨positive, amount, isAmount, rfl⟩ |
      ⟨negative, amount, isAmount, rfl | rfl⟩
    · rfl
    · rfl
    · have three : piece.length = 3 := by simpa using congrArg List.length universal
      have taken : (piece ++ rest).take 3 = piece := by rw [← three, List.take_left]
      have dropped : (piece ++ rest).drop 3 = rest := by rw [← three, List.drop_left]
      simp only [offset, taken, dropped, universal]
      rfl
    · have isValue : ((minutes.natAbs : Nat) : Int) = minutes := by omega
      have read := offsetAmount_amountTexts isAmount rest
      simp [offset, read, isValue]
    · have isValue : ((minutes.natAbs : Nat) : Int) = -minutes := by omega
      have read := offsetAmount_amountTexts isAmount rest
      simp [offset, read, isValue, Except.map]
    · have isValue : ((minutes.natAbs : Nat) : Int) = -minutes := by omega
      have read := offsetAmount_amountTexts isAmount rest
      simp [offset, read, isValue, Except.map]
  sound := by
    intro seconds text rest result
    simp only [offset] at result
    split_ifs at result with universal
    · obtain ⟨rfl, rfl⟩ := Prod.mk.inj (Except.ok.inj result)
      exact ⟨text.take 3, ⟨0, rfl, .inl ⟨rfl, .inr (.inr (beq_iff_eq.mp universal))⟩⟩,
        (List.take_append_drop 3 text).symm⟩
    cases text with
    | nil => cases result
    | cons sign others =>
        simp only at result
        split_ifs at result with isZulu isPlus isMinus
        · obtain ⟨rfl, rfl⟩ := Prod.mk.inj (Except.ok.inj result)
          refine ⟨[sign], ⟨0, rfl, .inl ⟨rfl, ?_⟩⟩, rfl⟩
          rcases isZulu with rfl | rfl
          · exact .inl rfl
          · exact .inr (.inl rfl)
        · obtain ⟨minutes, rfl, amount, isAmount, rfl⟩ := exists_amountTexts_of_offsetAmount result
          exact ⟨sign :: amount, ⟨minutes, rfl, .inr (.inl ⟨by omega, amount, isAmount,
            by rw [isPlus]⟩)⟩, rfl⟩
        · obtain ⟨⟨west, after⟩, isWest, same⟩ := map_eq_ok.mp result
          obtain ⟨rfl, rfl⟩ := Prod.mk.inj same
          obtain ⟨minutes, rfl, amount, isAmount, rfl⟩ := exists_amountTexts_of_offsetAmount isWest
          refine ⟨sign :: amount,
            ⟨-(minutes : Int), by ring, .inr (.inr ⟨by omega, amount, ?_, ?_⟩)⟩, rfl⟩
          · rwa [Int.natAbs_neg]
          · rcases isMinus with rfl | rfl
            · exact .inl rfl
            · exact .inr rfl

/-! ## What follows a number -/

/-- Whether a text begins with something that is neither white space, nor a digit, nor a point. -/
def Marked (text : List Char) : Prop :=
  ∃ c rest, text = c :: rest ∧ isSpace c = false ∧ c.isDigit = false ∧ c ≠ '.'

theorem Marked.solid {text : List Char} (marked : Marked text) : Solid text := by
  obtain ⟨c, rest, same, notSpace, -⟩ := marked
  exact ⟨c, rest, same, notSpace⟩

private theorem eq_of_toUpper_eq {c : Char} (upper : c.toUpper = 'U') : c = 'U' ∨ c = 'u' := by
  rw [Char.toUpper] at upper
  split at upper
  · have sameCode := congrArg Char.val upper
    refine .inr (Char.ext ?_)
    simp only at sameCode
    grind
  · exact .inl upper

theorem marked_of_mem_offsetTexts
    {minutes : Int}
    {piece : List Char}
    (isText : piece ∈ offsetTexts minutes) :
    Marked piece := by
  rcases isText with ⟨-, rfl | rfl | universal⟩ | ⟨-, amount, -, rfl⟩ | ⟨-, amount, -, rfl | rfl⟩
  case inl.inr.inr =>
    obtain ⟨c, others, rfl⟩ : ∃ c others, piece = c :: others := by
      cases piece with
      | nil => cases universal
      | cons c others => exact ⟨c, others, rfl⟩
    rcases eq_of_toUpper_eq (List.cons.inj universal).1 with rfl | rfl
    · exact ⟨_, _, rfl, by decide⟩
    · exact ⟨_, _, rfl, by decide⟩
  all_goals exact ⟨_, _, rfl, by decide⟩

/-- What is marked ends a number and places, with white space before it or not. -/
theorem ends_spaced
    {marks : Language Char}
    (marked : ∀ piece ∈ marks, Marked piece)
    {piece : List Char}
    (isText : piece ∈ blanks * marks)
    (rest : List Char) :
    StopsDigits (piece ++ rest) ∧ (piece ++ rest).head? ≠ some '.' := by
  obtain ⟨blank, isBlank, body, isMark, rfl⟩ := isText
  cases blank with
  | nil =>
      obtain ⟨c, others, rfl, -, notDigit, notPoint⟩ := marked body isMark
      exact ⟨(stopsDigits_cons c _).mpr notDigit, fun same => notPoint (Option.some.inj same)⟩
  | cons c others =>
      have isSpace : isSpace c := isBlank c (by simp)
      refine ⟨(stopsDigits_cons c _).mpr ?_, fun same => ?_⟩
      · by_contra isDigit
        rw [isSpace_of_isDigit (Bool.eq_true_of_not_eq_false isDigit)] at isSpace
        cases isSpace
      · rw [Option.some.inj same] at isSpace
        revert isSpace
        decide

theorem stops_separator
    {c : Char}
    (isMark : isSpace c = false ∧ c.isDigit = false ∧ c ≠ '.')
    {piece : List Char}
    (isText : piece ∈ blanks * ({[c]} : Language Char))
    (rest : List Char) :
    StopsDigits (piece ++ rest) := by
  refine (ends_spaced (fun mark same => ?_) isText rest).1
  exact ⟨c, [], same, isMark⟩

theorem stops_divider
    {piece : List Char}
    (isText : piece ∈ dividers)
    (rest : List Char) :
    StopsDigits (piece ++ rest) := by
  rcases isText with rfl | rfl | rfl <;> exact (stopsDigits_cons _ _).mpr rfl

theorem stops_fraction
    {nanos : Nat}
    {piece : List Char}
    (isText : piece ∈ fractionTexts nanos)
    {rest : List Char}
    (stops : StopsDigits rest) :
    StopsDigits (piece ++ rest) := by
  rcases isText with ⟨-, rfl⟩ | ⟨digits, -, -, rfl, -⟩
  · exact stops
  · exact (stopsDigits_cons _ _).mpr rfl

theorem reads_spaced_offset :
    Step.Reads (fun text => offset (trimStart text))
      (fun seconds => blanks * secondOffsetTexts seconds) fun _ => True :=
  reads_offset.spaced fun _ _ ⟨_, _, isText⟩ => (marked_of_mem_offsetTexts isText).solid

end RunManifest.Instant
