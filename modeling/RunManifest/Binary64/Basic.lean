/-!
Contract: finite binary floating-point numbers of double precision, with their arithmetic in exact
natural numbers.

Owns:
- `Binary64`, a sign, a whole significand and a power of two;
- `roundRatio`, which rounds a quotient of natural numbers to the nearest such number, ties to an
  even significand, and fails when the quotient is too large;
- `times` and `dividedBy`, the rounded product and quotient of magnitudes.

A number is kept in its standard form: the significand has 53 bits, or fewer when the exponent is
the least one. Infinities and numbers that are no numbers have no place in a document and are not
represented.
-/

set_option autoImplicit false

namespace RunManifest

/-- A finite number of double precision: the significand times two to the exponent, negated when
`negative` holds. Zero has a sign too. -/
structure Binary64 where
  negative : Bool
  significand : Nat
  exponent : Int
deriving DecidableEq, Repr, Inhabited

namespace Binary64

def leastExponent : Int := -1074

def greatestExponent : Int := 971

def zero (negative : Bool) : Binary64 :=
  ⟨negative, 0, leastExponent⟩

def isZero (x : Binary64) : Bool :=
  x.significand == 0

def negate (x : Binary64) : Binary64 :=
  { x with negative := !x.negative }

/-- The number, with the sign of a zero forgotten. Two numbers compare as equal exactly when these
forms are the same. -/
def withoutZeroSign (x : Binary64) : Binary64 :=
  if x.isZero then { x with negative := false } else x

/-- A power of two as a numerator and a denominator. -/
def powerOfTwo (exponent : Int) : Nat × Nat :=
  (Nat.pow 2 exponent.toNat, Nat.pow 2 (-exponent).toNat)

/-- The quotient rounded to the nearest whole number, ties to the even one. -/
def roundQuotient (numerator denominator : Nat) : Nat :=
  let quotient := numerator / denominator
  let twiceRemainder := 2 * (numerator % denominator)
  if twiceRemainder < denominator then quotient
  else if denominator < twiceRemainder then quotient + 1
  else quotient + quotient % 2

/-- The exponent at which the significand of a positive quotient has 53 bits, but at least the
least exponent. -/
def exponentOfRatio (numerator denominator : Nat) : Int :=
  let guess : Int := (Nat.log2 numerator : Int) - (Nat.log2 denominator : Int) - 53
  let scale := powerOfTwo guess
  let exponent :=
    if numerator * scale.2 < Nat.pow 2 53 * (denominator * scale.1) then guess else guess + 1
  max exponent leastExponent

/-- The magnitude nearest to a quotient of natural numbers, ties to an even significand; none when
it would be beyond the greatest number. -/
def roundRatio (numerator denominator : Nat) : Option Binary64 :=
  if numerator = 0 then some (zero false)
  else
    let exponent := exponentOfRatio numerator denominator
    let scale := powerOfTwo exponent
    let significand := roundQuotient (numerator * scale.2) (denominator * scale.1)
    let carried : Binary64 :=
      if significand = Nat.pow 2 53 then ⟨false, Nat.pow 2 52, exponent + 1⟩
      else ⟨false, significand, exponent⟩
    if carried.exponent ≤ greatestExponent then some carried else none

/-- The magnitude of a number as a numerator and a denominator. -/
def ratio (x : Binary64) : Nat × Nat :=
  let scale := powerOfTwo x.exponent
  (x.significand * scale.1, scale.2)

/-- The rounded product of two magnitudes; none when it is too large. -/
def times (x y : Binary64) : Option Binary64 :=
  roundRatio (x.ratio.1 * y.ratio.1) (x.ratio.2 * y.ratio.2)

/-- The rounded quotient of two magnitudes; none when it is too large. -/
def dividedBy (x y : Binary64) : Option Binary64 :=
  roundRatio (x.ratio.1 * y.ratio.2) (x.ratio.2 * y.ratio.1)

end Binary64

end RunManifest
