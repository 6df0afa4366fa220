import RunManifest.Instant.Basic
import RunManifest.Text.Digits
import RunManifest.Text.Space
import RunManifest.Word64

/-!
Contract: reading instants from texts.

Owns:
- `Instant.ReadError` with its wording;
- `Instant.Fields`, what the parts of a text say before they are combined;
- `Instant.read`, the reader.

The text is a date, one of `T`, `t` or a blank, a time of day and an offset from universal time.
White space may stand before each number and each separator. The range of month, day, hour, minute
and second is checked as each is read; whether the day exists, how large the offset is and whether
the instant can be represented are checked after the whole text was read.
-/

set_option autoImplicit false

namespace RunManifest.Instant

/-- Why a text is no instant. -/
inductive ReadError where
  /-- The text ends where something is required. -/
  | premature
  /-- A character stands where another is required. -/
  | invalid
  /-- A part has no meaning, such as month 13. -/
  | outOfRange
  /-- The offset moves the instant beyond the years that can be represented. -/
  | impossible
  /-- Something follows the instant. -/
  | trailing
deriving DecidableEq, Repr

def ReadError.message : ReadError → String
  | .premature => "premature end of input"
  | .invalid => "input contains invalid characters"
  | .outOfRange => "input is out of range"
  | .impossible => "no possible date and time matching input"
  | .trailing => "trailing input"

/-- What the parts of a text say. -/
structure Fields where
  year : Int
  month : Nat
  day : Nat
  hour : Nat
  minute : Nat
  second : Nat
  nanos : Nat
  /-- Seconds east of universal time. -/
  offset : Int
deriving DecidableEq, Repr

/-- A step of the reader: what it read and the rest of the text. -/
abbrev Step (α : Type) := List Char → Except ReadError (α × List Char)

/-- A number of at least one and at most `width` digits. -/
def number (width : Nat) : Step Nat := fun text =>
  match text with
  | [] => .error .premature
  | first :: _ =>
      if first.isDigit then
        let digits := (text.take width).takeWhile Char.isDigit
        let value := Text.decimalValue digits
        if Word64.signedBound ≤ value then .error .outOfRange
        else .ok (value, text.drop digits.length)
      else .error .invalid

def literal (expected : Char) : Step Unit := fun text =>
  match text with
  | [] => .error .premature
  | first :: rest => if first = expected then .ok ((), rest) else .error .invalid

/-- The year: any number of digits after a sign, at most four without one. -/
def year : Step Int := fun text =>
  let checked (sign : Int) (result : Except ReadError (Nat × List Char)) :
      Except ReadError (Int × List Char) :=
    result.bind fun (value, rest) =>
      let year := sign * (value : Int)
      if -2147483648 ≤ year ∧ year ≤ 2147483647 then .ok (year, rest) else .error .outOfRange
  match Text.trimStart text with
  | '-' :: rest => checked (-1) (number rest.length rest)
  | '+' :: rest => checked 1 (number rest.length rest)
  | rest => checked 1 (number 4 rest)

/-- White space and a number of at most two digits between two bounds. -/
def pair (least greatest : Nat) : Step Nat := fun text => do
  let (value, rest) ← number 2 (Text.trimStart text)
  if least ≤ value ∧ value ≤ greatest then .ok (value, rest) else .error .outOfRange

def separator (expected : Char) : Step Unit := fun text =>
  literal expected (Text.trimStart text)

def divider : Step Unit := fun text =>
  match text with
  | [] => .error .premature
  | first :: rest =>
      if first = 'T' ∨ first = 't' ∨ first = ' ' then .ok ((), rest) else .error .invalid

/-- The places of the second after a point, in nanoseconds. Places after the ninth are ignored. -/
def places : Step Nat := fun text =>
  match text with
  | '.' :: rest => do
      let (value, after) ← number 9 rest
      let count := rest.length - after.length
      .ok (value * Nat.pow 10 (9 - count), after.dropWhile Char.isDigit)
  | _ => .ok (0, text)

/-- Exactly two digits. A single character is too short unless it takes more than one byte. -/
def twoDigits : Step (Nat × Nat) := fun text =>
  match text with
  | [] => .error .premature
  | [single] => if single.utf8Size < 2 then .error .premature else .error .invalid
  | tens :: ones :: rest =>
      if tens.isDigit ∧ ones.isDigit then
        .ok ((Text.digitValue tens, Text.digitValue ones), rest)
      else .error .invalid

/-- The hours and minutes of an offset, after its sign, in seconds. -/
def offsetAmount : Step Int := fun text => do
  let (hours, rest) ← twoDigits text
  let (minutes, rest) ← twoDigits (rest.dropWhile fun c => c == ':' || Text.isSpace c)
  if 6 ≤ minutes.1 then .error .outOfRange
  else
    .ok (((hours.1 * 10 + hours.2) * 3600 + (minutes.1 * 10 + minutes.2) * 60 : Nat), rest)

/-- The offset from universal time, in seconds east. -/
def offset : Step Int := fun text =>
  let universal := (text.take 3).map Char.toUpper == ['U', 'T', 'C']
  if universal then .ok (0, text.drop 3)
  else
    match text with
    | [] => .error .premature
    | sign :: rest =>
        if sign = 'Z' ∨ sign = 'z' then .ok (0, rest)
        else if sign = '+' then offsetAmount rest
        else if sign = '-' ∨ sign = '−' then
          (offsetAmount rest).map fun (amount, after) => (-amount, after)
        else .error .invalid

def fields : Step Fields := fun text => do
  let (year, text) ← year text
  let ((), text) ← separator '-' text
  let (month, text) ← pair 1 12 text
  let ((), text) ← separator '-' text
  let (day, text) ← pair 1 31 text
  let ((), text) ← divider text
  let (hour, text) ← pair 0 23 text
  let ((), text) ← separator ':' text
  let (minute, text) ← pair 0 59 text
  let ((), text) ← separator ':' text
  let (second, text) ← pair 0 60 text
  let (nanos, text) ← places text
  let (offset, text) ← offset (Text.trimStart text)
  .ok (⟨year, month, day, hour, minute, second, nanos, offset⟩, text)

/-- The seconds since 1 January 1970 that the parts describe, as a local time. Second 60 counts as
second 59. -/
def Fields.localSeconds (fields : Fields) : Int :=
  Date.dayNumber ⟨fields.year, fields.month, fields.day⟩ * secondsPerDay
    + (fields.hour * 3600 + fields.minute * 60 + min fields.second 59 : Nat)

def Fields.toInstant (fields : Fields) : Except ReadError Instant :=
  let nanos := fields.nanos + (if fields.second = 60 then nanosPerSecond else 0)
  if ¬ Date.isValid ⟨fields.year, fields.month, fields.day⟩ then .error .outOfRange
  else if fields.localSeconds < firstSecond ∨ lastSecond < fields.localSeconds then
    .error .outOfRange
  else if ¬ (-secondsPerDay < fields.offset ∧ fields.offset < secondsPerDay) then
    .error .outOfRange
  else
    match ofSeconds? (fields.localSeconds - fields.offset) nanos with
    | some instant => .ok instant
    | none => .error .impossible

def read (text : String) : Except ReadError Instant := do
  let (fields, rest) ← fields text.toList
  if Text.trimStart rest = [] then fields.toInstant else .error .trailing

end RunManifest.Instant
