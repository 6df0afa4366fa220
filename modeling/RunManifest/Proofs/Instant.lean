import RunManifest.Instant.Printer
import RunManifest.Instant.Reader
import RunManifest.Proofs.Calendar
import RunManifest.Proofs.Document.Outcome
import RunManifest.Proofs.Text.Decimal

/-!
Contract: the text of an instant is read as that instant.

Owns:
- one law for each step of the reader, about the part of a text that the printer wrote for it;
- `Instant.read_text`, the round trip, for all years, all fractions and leap seconds;
- `Instant.mem_text`, the characters that such a text is made of.
-/

set_option autoImplicit false

namespace RunManifest.Instant

open Text Document

/-! ## White space -/

theorem isSpace_of_isDigit {c : Char} (isDigit : c.isDigit) : isSpace c = false := by
  have range : 48 ≤ c.toNat ∧ c.toNat ≤ 57 := by
    simpa [Char.isDigit, UInt32.le_iff_toNat_le] using isDigit
  simp only [isSpace, inRanges, spaceRanges, List.any_cons, List.any_nil, Bool.or_false,
    Bool.or_eq_false_iff, Bool.and_eq_false_iff, decide_eq_false_iff_not, not_le]
  omega

theorem trimStart_of_not_space
    {c : Char}
    (notSpace : isSpace c = false)
    (rest : List Char) :
    trimStart (c :: rest) = c :: rest := by
  simp [trimStart, notSpace]

private theorem trimStart_digits
    {digits : List Char}
    (nonempty : digits ≠ [])
    (areDigits : ∀ c ∈ digits, c.isDigit)
    (rest : List Char) :
    trimStart (digits ++ rest) = digits ++ rest := by
  obtain ⟨c, others, rfl⟩ := List.exists_cons_of_ne_nil nonempty
  exact trimStart_of_not_space (isSpace_of_isDigit (areDigits c (by simp))) _

/-! ## Numbers -/

/-- Digits are read as their value, as long as they are no more than asked for. -/
theorem number_append
    {digits : List Char}
    (nonempty : digits ≠ [])
    (areDigits : ∀ c ∈ digits, c.isDigit)
    (fits : decimalValue digits < Word64.signedBound)
    {width : Nat}
    (within : digits.length ≤ width)
    {rest : List Char}
    (stops : StopsDigits (rest.take (width - digits.length))) :
    number width (digits ++ rest) = .ok (decimalValue digits, rest) := by
  have taken : ((digits ++ rest).take width).takeWhile Char.isDigit = digits := by
    rw [List.take_append, List.take_of_length_le within, takeWhile_isDigit_append areDigits stops]
  have notTooLarge : ¬ Word64.signedBound ≤ decimalValue digits := by omega
  obtain ⟨first, others, same⟩ := List.exists_cons_of_ne_nil nonempty
  have isDigit := areDigits first (by simp [same])
  have shape : digits ++ rest = first :: (others ++ rest) := by simp [same]
  simp only [number, shape, isDigit, if_true]
  rw [← shape, taken, if_neg notTooLarge, List.drop_left]

private theorem number_padded
    {width n : Nat}
    (positive : 0 < width)
    (small : n < 10 ^ width)
    (fits : n < Word64.signedBound)
    (rest : List Char) :
    number width (padded width n ++ rest) = .ok (n, rest) := by
  have length := length_padded positive small
  have read : number width (padded width n ++ rest) =
      .ok (decimalValue (padded width n), rest) :=
    number_append (padded_ne_nil width n) (fun _ member => isDigit_of_mem_padded member)
      (by rw [decimalValue_padded]; exact fits) (le_of_eq length) (by simp [length])
  rw [read, decimalValue_padded]

private theorem pair_padded
    {n least greatest : Nat}
    (above : least ≤ n)
    (below : n ≤ greatest)
    (small : n < 100)
    (rest : List Char) :
    pair least greatest (padded 2 n ++ rest) = .ok (n, rest) := by
  have fits : n < Word64.signedBound := by
    simp only [Word64.signedBound]
    omega
  rw [pair, trimStart_digits (padded_ne_nil 2 n) fun _ member => isDigit_of_mem_padded member,
    number_padded (by decide) small fits]
  simp [above, below]

/-! ## The parts of a text -/

private theorem separator_cons
    {c : Char}
    (notSpace : isSpace c = false)
    (rest : List Char) :
    separator c (c :: rest) = .ok ((), rest) := by
  rw [separator, trimStart_of_not_space notSpace, literal, if_pos rfl]

theorem stopsDigits_take
    {text : List Char}
    (stops : StopsDigits text)
    (count : Nat) :
    StopsDigits (text.take count) := by
  intro c same
  rw [List.head?_take] at same
  split at same
  · cases same
  · exact stops c same

/-- A year that is followed by no digit is read with its sign. -/
theorem year_yearText
    {year : Int}
    (above : -2147483648 < year)
    (below : year ≤ 2147483647)
    {rest : List Char}
    (stops : StopsDigits rest) :
    Instant.year (Calendar.yearText year ++ rest) = .ok (year, rest) := by
  have signed : number (padded 4 year.natAbs ++ rest).length (padded 4 year.natAbs ++ rest)
      = .ok (year.natAbs, rest) := by
    have small : decimalValue (padded 4 year.natAbs) < Word64.signedBound := by
      rw [decimalValue_padded, Word64.signedBound]
      omega
    have within : (padded 4 year.natAbs).length ≤ (padded 4 year.natAbs ++ rest).length := by simp
    rw [number_append (padded_ne_nil 4 year.natAbs) (fun _ member => isDigit_of_mem_padded member)
      small within (stopsDigits_take stops _), decimalValue_padded]
  have range : -2147483648 ≤ year ∧ year ≤ 2147483647 := by omega
  rw [Calendar.yearText]
  split_ifs with short negative
  · have plain : number 4 (padded 4 year.toNat ++ rest) = .ok (year.toNat, rest) :=
      number_padded (by decide) (by omega) (by rw [Word64.signedBound]; omega) rest
    obtain ⟨first, others, same⟩ := List.exists_cons_of_ne_nil (padded_ne_nil 4 year.toNat)
    have isDigit : first.isDigit := by
      have member : first ∈ padded 4 year.toNat := by simp [same]
      exact isDigit_of_mem_padded member
    have notMinus : first ≠ '-' := by rintro rfl; revert isDigit; decide
    have notPlus : first ≠ '+' := by rintro rfl; revert isDigit; decide
    rw [same, List.cons_append] at plain ⊢
    rw [Instant.year, trimStart_of_not_space (isSpace_of_isDigit isDigit)]
    split
    case h_1 minus => exact absurd (List.cons.inj minus).1 notMinus
    case h_2 plus => exact absurd (List.cons.inj plus).1 notPlus
    case h_3 =>
      rw [plain]
      simp only [Except.bind, one_mul, Int.toNat_of_nonneg short.1, if_pos range]
  · have isYear : (-1 : Int) * year.natAbs = year := by omega
    rw [List.cons_append, Instant.year, trimStart_of_not_space (by decide)]
    simp only [signed, Except.bind, isYear, if_pos range]
  · have isYear : (1 : Int) * year.natAbs = year := by omega
    rw [List.cons_append, Instant.year, trimStart_of_not_space (by decide)]
    simp only [signed, Except.bind, isYear, if_pos range]

/-- Places that are followed by no digit are read as nanoseconds. -/
theorem places_padded
    {width n : Nat}
    (positive : 0 < width)
    (within : width ≤ 9)
    (small : n < 10 ^ width)
    {rest : List Char}
    (stops : StopsDigits rest) :
    places ('.' :: (padded width n ++ rest)) = .ok (n * 10 ^ (9 - width), rest) := by
  have length := length_padded positive small
  have bound : n < Word64.signedBound := by
    have larger : 10 ^ width ≤ 10 ^ 9 := Nat.pow_le_pow_right (by decide) within
    rw [Word64.signedBound]
    omega
  have read : number 9 (padded width n ++ rest) = .ok (n, rest) := by
    rw [number_append (padded_ne_nil width n) (fun _ member => isDigit_of_mem_padded member)
      (by rw [decimalValue_padded]; exact bound) (by omega) (stopsDigits_take stops _),
      decimalValue_padded]
  have noDigits : ∀ c ∈ ([] : List Char), c.isDigit := by simp
  have none : rest.dropWhile Char.isDigit = rest := dropWhile_isDigit_append noDigits stops
  simp only [places, read, ok_bind, none, List.length_append, length, Nat.add_sub_cancel]
  rfl

/-- The places of the second of an instant. -/
theorem places_fractionText
    (instant : Instant)
    (rest : List Char) :
    places (instant.fractionText ++ 'Z' :: rest) = .ok (instant.fraction, 'Z' :: rest) := by
  have stops : StopsDigits ('Z' :: rest) := (stopsDigits_cons 'Z' rest).mpr rfl
  have bound : instant.fraction < 1000000000 := Nat.mod_lt _ (by decide)
  simp only [fractionText]
  split_ifs with whole milli micro
  · rw [List.nil_append, whole]
    rfl
  · rw [List.cons_append, places_padded (by decide) (by decide) (by omega) stops]
    simp only [Except.ok.injEq, Prod.mk.injEq, and_true]
    omega
  · rw [List.cons_append, places_padded (by decide) (by decide) (by omega) stops]
    simp only [Except.ok.injEq, Prod.mk.injEq, and_true]
    omega
  · rw [List.cons_append, places_padded (by decide) (by decide) (by omega) stops]
    simp

/-! ## Whole texts -/

private theorem second_le (instant : Instant) : instant.second ≤ 60 := by
  obtain ⟨-, -, small, leap⟩ := instant.valid
  simp only [second, secondOfDay, secondsPerDay, nanosPerSecond] at *
  omega

/-- The years that instants have are years that can be read. -/
theorem year_bounds (instant : Instant) :
    -2147483648 < instant.date.year ∧ instant.date.year ≤ 2147483647 := by
  obtain ⟨first, last, -⟩ := instant.valid
  obtain ⟨after, before⟩ := Calendar.yearOfDay_spec (instant.seconds / secondsPerDay)
  have isYear : instant.date.year = Calendar.yearOfDay (instant.seconds / secondsPerDay) := rfl
  rw [isYear]
  simp only [firstSecond, lastSecond, secondsPerDay, Calendar.daysBeforeYear] at *
  omega

/-- The parts of an instant. -/
def parts (instant : Instant) : Fields where
  year := instant.date.year
  month := instant.date.month
  day := instant.date.day
  hour := instant.hour
  minute := instant.minute
  second := instant.second
  nanos := instant.fraction
  offset := 0

private theorem fields_text (instant : Instant) :
    fields instant.text.toList = .ok (instant.parts, []) := by
  have ⟨yearAbove, yearBelow⟩ := instant.year_bounds
  have ⟨monthAbove, monthBelow⟩ := Date.month_ofDayNumber (instant.seconds / secondsPerDay)
  have ⟨dayAbove, dayBelow⟩ := Date.day_ofDayNumber (instant.seconds / secondsPerDay)
  have secondBelow := instant.second_le
  have hourBelow : instant.hour ≤ 23 := by
    simp only [hour, secondOfDay, secondsPerDay]
    omega
  have minuteBelow : instant.minute ≤ 59 := by
    simp only [minute]
    omega
  rw [← date] at *
  rw [text, String.toList_ofList, Date.text, clockText]
  simp only [List.append_assoc, List.cons_append]
  rw [fields, year_yearText yearAbove yearBelow (by simp)]
  simp only [ok_bind, divider, true_or, if_true,
    separator_cons (c := '-') rfl, separator_cons (c := ':') rfl,
    pair_padded monthAbove monthBelow (by omega), pair_padded dayAbove dayBelow (by omega),
    pair_padded (Nat.zero_le _) hourBelow (by omega),
    pair_padded (Nat.zero_le _) minuteBelow (by omega),
    pair_padded (Nat.zero_le _) secondBelow (by omega), places_fractionText]
  rfl

/-- The parts of an instant describe it: the leap second, which is written as second 60, moves back
into the nanoseconds. -/
theorem toInstant_parts (instant : Instant) : instant.parts.toInstant = .ok instant := by
  obtain ⟨first, last, small, leap⟩ := instant.valid
  have seconds : instant.parts.localSeconds = instant.seconds := by
    have day : Date.dayNumber ⟨instant.date.year, instant.date.month, instant.date.day⟩
        = instant.seconds / secondsPerDay := Date.dayNumber_ofDayNumber _
    simp only [Fields.localSeconds, parts, day, hour, minute, second, secondOfDay, secondsPerDay,
      nanosPerSecond] at *
    omega
  have nanos : instant.parts.nanos + (if instant.parts.second = 60 then nanosPerSecond else 0)
      = instant.nanos := by
    have isFraction : instant.parts.nanos = instant.nanos % nanosPerSecond := rfl
    have isSecond : instant.parts.second = instant.secondOfDay % 60 + instant.nanos / nanosPerSecond :=
      rfl
    simp only [secondOfDay, secondsPerDay, nanosPerSecond] at *
    split <;> omega
  have isValid : Date.isValid ⟨instant.parts.year, instant.parts.month, instant.parts.day⟩ = true :=
    Date.isValid_ofDayNumber _
  have inside : ¬ (instant.seconds < firstSecond ∨ lastSecond < instant.seconds) := by omega
  have noOffset : instant.parts.offset = 0 := rfl
  simp only [Fields.toInstant, isValid, seconds, nanos, inside, noOffset, sub_zero,
    ofSeconds?, instant.valid]
  rfl

/-- The text of an instant is read as that instant. -/
theorem read_text (instant : Instant) : read instant.text = .ok instant := by
  simp only [read, fields_text, ok_bind, toInstant_parts]
  rfl

/-! ## Characters -/

/-- The characters of texts of instants that are no digits. -/
def marks : List Char := ['-', '+', 'T', ':', '.', 'Z']

private theorem mem_yearText
    {year : Int}
    {c : Char}
    (member : c ∈ Calendar.yearText year) :
    c.isDigit ∨ c ∈ marks := by
  rw [Calendar.yearText] at member
  split_ifs at member with short negative
  · exact .inl (isDigit_of_mem_padded member)
  · rcases List.mem_cons.mp member with rfl | digit
    · exact .inr (by decide)
    · exact .inl (isDigit_of_mem_padded digit)
  · rcases List.mem_cons.mp member with rfl | digit
    · exact .inr (by decide)
    · exact .inl (isDigit_of_mem_padded digit)

private theorem mem_fractionText
    {instant : Instant}
    {c : Char}
    (member : c ∈ instant.fractionText) :
    c.isDigit ∨ c ∈ marks := by
  simp only [fractionText] at member
  split_ifs at member
  · cases member
  all_goals
    rcases List.mem_cons.mp member with rfl | digit
    · exact .inr (by decide)
    · exact .inl (isDigit_of_mem_padded digit)

/-- A text of an instant has digits and a few marks. -/
theorem mem_text
    {instant : Instant}
    {c : Char}
    (member : c ∈ instant.text.toList) :
    c.isDigit ∨ c ∈ marks := by
  simp only [text, Date.text, clockText, String.toList_ofList, List.mem_append, List.mem_cons,
    List.not_mem_nil, or_false] at member
  rcases member with (((((year | rfl | month) | rfl | day) | rfl | (hour | rfl | minute) | rfl
    | second) | fraction) | rfl)
  case inl.inl.inl.inl.inl => exact mem_yearText year
  case inl.inr => exact mem_fractionText fraction
  case inl.inl.inl.inl.inr.inr => exact .inl (isDigit_of_mem_padded month)
  case inl.inl.inl.inr.inr => exact .inl (isDigit_of_mem_padded day)
  case inl.inl.inr.inr.inl.inl => exact .inl (isDigit_of_mem_padded hour)
  case inl.inl.inr.inr.inl.inr.inr => exact .inl (isDigit_of_mem_padded minute)
  case inl.inl.inr.inr.inr.inr => exact .inl (isDigit_of_mem_padded second)
  all_goals exact .inr (by decide)

end RunManifest.Instant
