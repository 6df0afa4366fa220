/-!
Contract: the integers that fit 64 bits.

Owns `signedBound` and `unsignedBound`, the first natural numbers that do not fit with and without a
sign, and the same for 128 bits.
-/

set_option autoImplicit false

namespace RunManifest.Word64

/-- The first natural number that does not fit 64 bits with a sign, 2^63. Its negative does fit. -/
def signedBound : Nat := 9223372036854775808

/-- The first natural number that does not fit 64 bits without a sign, 2^64. -/
def unsignedBound : Nat := 18446744073709551616

/-- The first natural number that does not fit 128 bits with a sign. Its negative does fit. -/
def wideSignedBound : Nat := signedBound * unsignedBound

/-- The first natural number that does not fit 128 bits without a sign. -/
def wideUnsignedBound : Nat := unsignedBound * unsignedBound

end RunManifest.Word64
