import RunManifest.Calendar

/-!
Contract: moments in time with nanosecond precision.

Owns:
- `Instant`, the whole seconds since 1 January 1970 in universal time and the nanoseconds after
  them;
- its civil parts (`date`, `hour`, `minute`, `second`, `fraction`);
- `ofSeconds?`, which builds an instant where one exists.

A leap second is the last second of a minute with 1,000,000,000 nanoseconds or more. Instants range
over the years -262143 to 262142.
-/

set_option autoImplicit false

namespace RunManifest

namespace Instant

def nanosPerSecond : Nat := 1000000000

def secondsPerDay : Int := 86400

/-- The first second that can be represented: the start of year -262143. -/
def firstSecond : Int := -8334601228800

/-- The last second that can be represented: the end of year 262142. -/
def lastSecond : Int := 8210266876799

def Valid (seconds : Int) (nanos : Nat) : Prop :=
  firstSecond ≤ seconds ∧ seconds ≤ lastSecond ∧ nanos < 2 * nanosPerSecond
    ∧ (nanosPerSecond ≤ nanos → seconds % 60 = 59)

instance (seconds : Int) (nanos : Nat) : Decidable (Valid seconds nanos) :=
  inferInstanceAs (Decidable (_ ∧ _ ∧ _ ∧ _))

end Instant

/-- A moment in time. -/
structure Instant where
  seconds : Int
  nanos : Nat
  valid : Instant.Valid seconds nanos
deriving DecidableEq

namespace Instant

/-- 1 January 1970, the start of the count of seconds. -/
def epoch : Instant :=
  ⟨0, 0, by decide⟩

instance : Inhabited Instant := ⟨epoch⟩

/-- The instant with the given seconds and nanoseconds, if there is one. -/
def ofSeconds? (seconds : Int) (nanos : Nat) : Option Instant :=
  if valid : Valid seconds nanos then some ⟨seconds, nanos, valid⟩ else none

/-- The date of an instant in universal time. -/
def date (instant : Instant) : Date :=
  Date.ofDayNumber (instant.seconds / secondsPerDay)

def secondOfDay (instant : Instant) : Nat :=
  (instant.seconds % secondsPerDay).toNat

def hour (instant : Instant) : Nat :=
  instant.secondOfDay / 3600

def minute (instant : Instant) : Nat :=
  instant.secondOfDay / 60 % 60

/-- The second of the minute, 60 in a leap second. -/
def second (instant : Instant) : Nat :=
  instant.secondOfDay % 60 + instant.nanos / nanosPerSecond

def fraction (instant : Instant) : Nat :=
  instant.nanos % nanosPerSecond

end Instant

end RunManifest
