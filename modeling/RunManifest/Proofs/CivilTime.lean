import RunManifest.Proofs.Gregorian
import RunManifest.Proofs.Instant.Grammar

/-!
Contract: the reader accepts the texts of local times and gives the instants they are.

Owns:
- `CivilTime`, a local date and time of day with its distance from universal time, and
  `CivilTime.texts`, the texts of one;
- `Instant.exists_of_read` and `Instant.read_of_mem_texts`: an accepted text is the text of a local
  time, and a text of a local time is read as what the time describes;
- `Instant.seconds_of_read`, the seconds of an accepted text counted on the calendar;
- `Instant.text_injective`, different instants are written differently.
-/

set_option autoImplicit false

namespace RunManifest

open Text

/-- A date and a time of day at some place. -/
structure CivilTime where
  date : Date
  hour : Nat
  minute : Nat
  /-- The second of the minute, 60 in a leap second. -/
  second : Nat
  nanos : Nat
  /-- Minutes east of universal time. -/
  offset : Int
  onCalendar : date.OnCalendar
  onClock : hour ≤ 23 ∧ minute ≤ 59 ∧ second ≤ 60

namespace CivilTime

open Instant (blanks yearTexts pairTexts dividers fractionTexts offsetTexts)

/-- The texts of a local time. White space may stand before each number, each separator and the
offset, and at the end. -/
def texts (time : CivilTime) : Language Char :=
  (blanks * yearTexts time.date.year) *
    ((blanks * {['-']}) * ((blanks * pairTexts time.date.month) *
    ((blanks * {['-']}) * ((blanks * pairTexts time.date.day) *
    (dividers *
    ((blanks * pairTexts time.hour) *
    ((blanks * {[':']}) * ((blanks * pairTexts time.minute) *
    ((blanks * {[':']}) * ((blanks * pairTexts time.second) *
    (fractionTexts time.nanos * ((blanks * offsetTexts time.offset) * blanks))))))))))))

/-- What the parts of a text of a local time say. -/
def fields (time : CivilTime) : Instant.Fields :=
  ⟨time.date.year, time.date.month, time.date.day, time.hour, time.minute, time.second, time.nanos,
    time.offset * 60⟩

/-- No instant has a year that the reader refuses. -/
theorem localSeconds_outside
    (time : CivilTime)
    (refused : ¬ (-2147483648 ≤ time.date.year ∧ time.date.year ≤ 2147483647)) :
    time.fields.localSeconds < Instant.firstSecond ∨
      Instant.lastSecond < time.fields.localSeconds := by
  obtain ⟨hour, minute, second⟩ := time.onClock
  have ⟨least, greatest⟩ := Date.dayNumber_bounds time.onCalendar
  have isDay : Date.dayNumber ⟨time.fields.year, time.fields.month, time.fields.day⟩
      = time.date.dayNumber := rfl
  simp only [Instant.Fields.localSeconds, isDay, Calendar.daysBeforeYear, Instant.secondsPerDay,
    Instant.firstSecond, Instant.lastSecond] at *
  simp only [fields]
  omega

end CivilTime

namespace Instant

open Document

/-! ## Whole texts -/

/-- The parts of a text are those of the local time, if the year is in the range of the reader. -/
theorem fields_of_mem_texts
    {time : CivilTime}
    {text : List Char}
    (isText : text ∈ time.texts) :
    ∃ rest ∈ blanks, Instant.fields text =
      if -2147483648 ≤ time.date.year ∧ time.date.year ≤ 2147483647 then .ok (time.fields, rest)
      else .error .outOfRange := by
  obtain ⟨yearText, isYear, _, ⟨dash, isDash, _, ⟨monthText, isMonth, _, ⟨dash', isDash', _,
    ⟨dayText, isDay, _, ⟨divider, isDivider, _, ⟨hourText, isHour, _, ⟨colon, isColon, _,
    ⟨minuteText, isMinute, _, ⟨colon', isColon', _, ⟨secondText, isSecond, _,
    ⟨fraction, isFraction, _, ⟨zone, isZone, rest, isRest, rfl⟩, rfl⟩, rfl⟩, rfl⟩, rfl⟩, rfl⟩,
    rfl⟩, rfl⟩, rfl⟩, rfl⟩, rfl⟩, rfl⟩, rfl⟩ := isText
  have dashMark : isSpace '-' = false ∧ '-'.isDigit = false ∧ '-' ≠ '.' := by decide
  have colonMark : isSpace ':' = false ∧ ':'.isDigit = false ∧ ':' ≠ '.' := by decide
  have ⟨zoneStops, zoneNoPoint⟩ := ends_spaced (fun _ => marked_of_mem_offsetTexts) isZone rest
  have isOffset : zone ∈ blanks * secondOffsetTexts (time.offset * 60) := by
    obtain ⟨blank, isBlank, body, isBody, rfl⟩ := isZone
    exact Language.append_mem_mul isBlank ⟨time.offset, rfl, isBody⟩
  have readZone : offset (trimStart (zone ++ rest)) = .ok (time.offset * 60, rest) :=
    reads_spaced_offset.complete _ isOffset trivial
  have ⟨hour, minute, second⟩ := time.onClock
  have ⟨month, firstDay, _⟩ := time.onCalendar
  have lastDay := Date.day_le time.onCalendar
  refine ⟨rest, isRest, ?_⟩
  rw [Instant.fields, year_yearTexts isYear (stops_separator dashMark isDash _)]
  split_ifs with inRange
  · simp only [ok_bind, (reads_separator dashMark.1).complete () isDash trivial,
      (reads_pair 1 12).complete _ ⟨isMonth, month⟩ (stops_separator dashMark isDash' _),
      (reads_separator dashMark.1).complete () isDash' trivial,
      (reads_pair 1 31).complete _ ⟨isDay, firstDay, lastDay⟩ (stops_divider isDivider _),
      reads_divider.complete () isDivider trivial,
      (reads_pair 0 23).complete _ ⟨isHour, Nat.zero_le _, hour⟩
        (stops_separator colonMark isColon _),
      (reads_separator colonMark.1).complete () isColon trivial,
      (reads_pair 0 59).complete _ ⟨isMinute, Nat.zero_le _, minute⟩
        (stops_separator colonMark isColon' _),
      (reads_separator colonMark.1).complete () isColon' trivial,
      (reads_pair 0 60).complete _ ⟨isSecond, Nat.zero_le _, second⟩
        (stops_fraction isFraction zoneStops),
      reads_places.complete _ isFraction ⟨zoneStops, zoneNoPoint⟩, readZone]
    rfl
  · rfl

/-- A text whose parts can be read has the form of a text of a local time. -/
theorem exists_of_fields
    {parts : Fields}
    {text rest : List Char}
    (result : Instant.fields text = .ok (parts, rest))
    (onCalendar : Date.OnCalendar ⟨parts.year, parts.month, parts.day⟩)
    (ends : rest ∈ blanks) :
    ∃ time : CivilTime, text ∈ time.texts := by
  obtain ⟨⟨year, _⟩, yearRead, result⟩ := bind_eq_ok.mp result
  obtain ⟨⟨⟨⟩, _⟩, dashRead, result⟩ := bind_eq_ok.mp result
  obtain ⟨⟨month, _⟩, monthRead, result⟩ := bind_eq_ok.mp result
  obtain ⟨⟨⟨⟩, _⟩, dashRead', result⟩ := bind_eq_ok.mp result
  obtain ⟨⟨day, _⟩, dayRead, result⟩ := bind_eq_ok.mp result
  obtain ⟨⟨⟨⟩, _⟩, dividerRead, result⟩ := bind_eq_ok.mp result
  obtain ⟨⟨hour, _⟩, hourRead, result⟩ := bind_eq_ok.mp result
  obtain ⟨⟨⟨⟩, _⟩, colonRead, result⟩ := bind_eq_ok.mp result
  obtain ⟨⟨minute, _⟩, minuteRead, result⟩ := bind_eq_ok.mp result
  obtain ⟨⟨⟨⟩, _⟩, colonRead', result⟩ := bind_eq_ok.mp result
  obtain ⟨⟨second, _⟩, secondRead, result⟩ := bind_eq_ok.mp result
  obtain ⟨⟨nanos, _⟩, placesRead, result⟩ := bind_eq_ok.mp result
  obtain ⟨⟨offset, _⟩, offsetRead, result⟩ := bind_eq_ok.mp result
  obtain ⟨rfl, rfl⟩ := Prod.mk.inj (Except.ok.inj result)
  obtain ⟨yearText, isYear, rfl⟩ := exists_yearTexts_of_year yearRead
  obtain ⟨dash, isDash, rfl⟩ := (reads_separator (by decide)).sound dashRead
  obtain ⟨monthText, ⟨isMonth, -⟩, rfl⟩ := (reads_pair 1 12).sound monthRead
  obtain ⟨dash', isDash', rfl⟩ := (reads_separator (by decide)).sound dashRead'
  obtain ⟨dayText, ⟨isDay, -⟩, rfl⟩ := (reads_pair 1 31).sound dayRead
  obtain ⟨divider, isDivider, rfl⟩ := reads_divider.sound dividerRead
  obtain ⟨hourText, ⟨isHour, -, inDay⟩, rfl⟩ := (reads_pair 0 23).sound hourRead
  obtain ⟨colon, isColon, rfl⟩ := (reads_separator (by decide)).sound colonRead
  obtain ⟨minuteText, ⟨isMinute, -, inHour⟩, rfl⟩ := (reads_pair 0 59).sound minuteRead
  obtain ⟨colon', isColon', rfl⟩ := (reads_separator (by decide)).sound colonRead'
  obtain ⟨secondText, ⟨isSecond, -, inMinute⟩, rfl⟩ := (reads_pair 0 60).sound secondRead
  obtain ⟨fraction, isFraction, rfl⟩ := reads_places.sound placesRead
  obtain ⟨zone, ⟨blank, isBlank, body, ⟨minutes, -, isBody⟩, rfl⟩, rfl⟩ :=
    reads_spaced_offset.sound offsetRead
  have isZone := Language.append_mem_mul isBlank isBody
  exact ⟨⟨⟨year, month, day⟩, hour, minute, second, nanos, minutes, onCalendar,
      inDay, inHour, inMinute⟩,
    Language.append_mem_mul isYear <| Language.append_mem_mul isDash <|
    Language.append_mem_mul isMonth <| Language.append_mem_mul isDash' <|
    Language.append_mem_mul isDay <| Language.append_mem_mul isDivider <|
    Language.append_mem_mul isHour <| Language.append_mem_mul isColon <|
    Language.append_mem_mul isMinute <| Language.append_mem_mul isColon' <|
    Language.append_mem_mul isSecond <| Language.append_mem_mul isFraction <|
    Language.append_mem_mul isZone ends⟩

/-- What the parts of a text must be for an instant, and the instant that they are. -/
theorem toInstant_eq_ok
    {parts : Fields}
    {instant : Instant}
    (result : parts.toInstant = .ok instant) :
    Date.OnCalendar ⟨parts.year, parts.month, parts.day⟩ ∧
      instant.seconds = parts.localSeconds - parts.offset ∧
      instant.nanos = parts.nanos + if parts.second = 60 then nanosPerSecond else 0 := by
  simp only [Fields.toInstant] at result
  generalize (parts.nanos + if parts.second = 60 then nanosPerSecond else 0) = nanos at result ⊢
  split_ifs at result with isValid outside far
  split at result
  case h_1 found isFound =>
    cases result
    rw [ofSeconds?] at isFound
    split_ifs at isFound
    cases isFound
    exact ⟨(Date.isValid_iff _).mp isValid, rfl, rfl⟩
  case h_2 => cases result

/-- An accepted text is the text of a local time. -/
theorem exists_of_read
    {text : String}
    {instant : Instant}
    (result : read text = .ok instant) :
    ∃ time : CivilTime, text.toList ∈ time.texts := by
  obtain ⟨⟨parts, rest⟩, isParts, ended⟩ := bind_eq_ok.mp result
  simp only at ended
  split_ifs at ended with blank
  have ends : rest ∈ blanks := by
    obtain ⟨blanks, areBlank, split⟩ := exists_blanks rest
    rwa [split, blank, List.append_nil]
  exact exists_of_fields isParts (toInstant_eq_ok ended).1 ends

/-- A text of a local time is read as what the time describes. -/
theorem read_of_mem_texts
    {time : CivilTime}
    {text : String}
    (isText : text.toList ∈ time.texts) :
    read text = time.fields.toInstant := by
  obtain ⟨rest, isRest, isParts⟩ := fields_of_mem_texts isText
  have ended : trimStart rest = [] := by
    have trimmed := trimStart_blanks isRest []
    rwa [List.append_nil] at trimmed
  rw [read, isParts]
  split_ifs with inRange
  · rw [ok_bind]
    exact if_pos ended
  -- A year that is out of the range of the reader is one that no instant has.
  · have isValid : Date.isValid ⟨time.fields.year, time.fields.month, time.fields.day⟩ = true :=
      (Date.isValid_iff _).mpr time.onCalendar
    have outside := time.localSeconds_outside inRange
    simp only [Fields.toInstant, isValid, not_true_eq_false, if_false, if_pos outside]
    rfl

/-- The instant of an accepted text, from what its parts say. -/
theorem seconds_of_read
    {text : String}
    {instant : Instant}
    (result : read text = .ok instant)
    {time : CivilTime}
    (isText : text.toList ∈ time.texts) :
    instant.seconds = time.date.countedDays * 86400 + time.hour * 3600 + time.minute * 60 +
        min time.second 59 - time.offset * 60 ∧
      instant.nanos = time.nanos + if time.second = 60 then 1000000000 else 0 := by
  rw [read_of_mem_texts isText] at result
  obtain ⟨-, isSeconds, isNanos⟩ := toInstant_eq_ok result
  refine ⟨?_, isNanos⟩
  have isDay : Date.dayNumber ⟨time.fields.year, time.fields.month, time.fields.day⟩
      = time.date.countedDays := Date.dayNumber_eq_countedDays time.onCalendar
  rw [isSeconds, Fields.localSeconds, isDay]
  simp only [CivilTime.fields, secondsPerDay]
  push_cast
  ring

/-- Different instants are written differently. -/
theorem text_injective : Function.Injective text := by
  intro left right same
  have read := read_text left
  rw [same, read_text right] at read
  exact (Except.ok.inj read).symm

end Instant

end RunManifest
