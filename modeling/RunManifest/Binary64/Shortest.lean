import RunManifest.Binary64.Basic

/-!
Contract: the shortest decimal that identifies a finite number.

Owns:
- `Decimal`, a whole coefficient times a power of ten;
- `shortest`, which takes the fewest digits such that some decimal with that many digits rounds to
  the number, and of those decimals the nearest one, ties to an even last digit.

The decimals that round to a number form an interval. Its ends lie halfway to the neighbours and
belong to it exactly when the significand is even.
-/

set_option autoImplicit false

namespace RunManifest

/-- A whole coefficient times ten to the exponent. -/
structure Decimal where
  coefficient : Nat
  exponent : Int
deriving DecidableEq, Repr, Inhabited

namespace Binary64

/-- The interval of reals that round to a positive number, in quarters of its last place: the lower
end, the number itself and the upper end. The neighbour below a power of two is closer. -/
def roundingInterval (x : Binary64) : Nat × Nat × Nat :=
  let middle := 4 * x.significand
  let below := if x.significand = Nat.pow 2 52 ∧ leastExponent < x.exponent then 1 else 2
  (middle - below, middle, middle + 2)

/-- Factors that bring quarters of the last place of a number and multiples of a power of ten to a
common unit: the first for the quarters, the second for the multiples. -/
def commonUnits (x : Binary64) (power : Int) : Nat × Nat :=
  let quarter := powerOfTwo (x.exponent - 2)
  (quarter.1 * Nat.pow 10 (-power).toNat, quarter.2 * Nat.pow 10 power.toNat)

/-- Whether a multiple of a power of ten rounds to the number. -/
def reads (x : Binary64) (power : Int) (coefficient : Nat) : Bool :=
  let units := commonUnits x power
  let interval := roundingInterval x
  let low := interval.1 * units.1
  let high := interval.2.2 * units.1
  let point := coefficient * units.2
  if x.significand % 2 = 0 then low ≤ point && point ≤ high
  else low < point && point < high

/-- The nearest multiple of a power of ten that rounds to the number, ties to an even coefficient,
if there is one. -/
def onGrid? (x : Binary64) (power : Int) : Option Decimal :=
  let units := commonUnits x power
  let middle := (roundingInterval x).2.1 * units.1
  let lower := middle / units.2
  let below := 2 * (middle % units.2)
  let preferLower := below < units.2 || (below == units.2 && lower % 2 == 0)
  match reads x power lower, reads x power (lower + 1) with
  | true, true => some ⟨if preferLower then lower else lower + 1, power⟩
  | true, false => some ⟨lower, power⟩
  | false, true => some ⟨lower + 1, power⟩
  | false, false => none

/-- A power of ten above every decimal of one digit that rounds to a positive number. -/
def startingPower (x : Binary64) : Int :=
  ((Nat.log2 x.significand : Int) + x.exponent + 1) * 30103 / 100000 + 1

/-- The search from a power of ten downwards, over the given number of powers. -/
def searchGrids (x : Binary64) : Nat → Int → Option Decimal
  | 0, _ => none
  | count + 1, power =>
      match onGrid? x power with
      | some found => some found
      | none => searchGrids x count (power - 1)

/-- The decimal without zeros at the end of its coefficient, as far as the given count allows. -/
def stripZeros : Nat → Decimal → Decimal
  | 0, decimal => decimal
  | count + 1, decimal =>
      if decimal.coefficient % 10 = 0 ∧ decimal.coefficient ≠ 0 then
        stripZeros count ⟨decimal.coefficient / 10, decimal.exponent + 1⟩
      else decimal

/-- The shortest decimal that rounds to a positive number. Seventeen digits always suffice, so the
search needs no more than twenty powers of ten. -/
def shortest (x : Binary64) : Decimal :=
  if x.isZero then ⟨0, 0⟩
  else stripZeros 20 ((searchGrids x 20 (startingPower x)).getD ⟨0, 0⟩)

end Binary64

end RunManifest
