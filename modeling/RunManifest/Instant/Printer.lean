import RunManifest.Instant.Basic
import RunManifest.Text.Digits

/-!
Contract: the texts of instants.

Owns:
- `Instant.text`, the form in documents: date and time in universal time with the fewest of no,
  three, six or nine places of the second that lose nothing;
- `Instant.display`, the form on the screen: date and time to the second.

Years from 0 to 9999 have four digits; others have a sign and at least four digits.
-/

set_option autoImplicit false

namespace RunManifest

def Calendar.yearText (year : Int) : List Char :=
  if 0 ≤ year ∧ year ≤ 9999 then Text.padded 4 year.toNat
  else (if year < 0 then '-' else '+') :: Text.padded 4 year.natAbs

/-- The text of a date: year, month and day with hyphens between them. -/
def Date.text (date : Date) : List Char :=
  Calendar.yearText date.year ++ '-' :: Text.padded 2 date.month ++ '-' :: Text.padded 2 date.day

namespace Instant

def clockText (instant : Instant) : List Char :=
  Text.padded 2 instant.hour ++ ':' :: Text.padded 2 instant.minute
    ++ ':' :: Text.padded 2 instant.second

/-- The places of the second, as few as lose nothing. -/
def fractionText (instant : Instant) : List Char :=
  let fraction := instant.fraction
  if fraction = 0 then []
  else if fraction % 1000000 = 0 then '.' :: Text.padded 3 (fraction / 1000000)
  else if fraction % 1000 = 0 then '.' :: Text.padded 6 (fraction / 1000)
  else '.' :: Text.padded 9 fraction

/-- The text of an instant in a document. -/
def text (instant : Instant) : String :=
  String.ofList
    (instant.date.text ++ 'T' :: instant.clockText ++ instant.fractionText ++ ['Z'])

def display (instant : Instant) : String :=
  String.ofList (instant.date.text ++ ' ' :: instant.clockText)

end Instant

end RunManifest
