/-!
Contract: numbers written as digits, and digits read as numbers.

Owns:
- `decimal`, `decimalInt` and `padded`, the decimal forms of natural numbers and integers;
- `hexadecimal`, with lower-case digits, and `upperHexadecimal`;
- `decimalValue`, the number that a run of decimal digits stands for;
- `hexValue?`, the value of one hexadecimal digit of either case.
-/

set_option autoImplicit false

namespace RunManifest.Text

/-- The decimal digits of a natural number, without superfluous zeros. -/
def decimal (n : Nat) : List Char :=
  Nat.toDigits 10 n

/-- The decimal form of an integer, with a sign only when it is negative. -/
def decimalInt : Int → List Char
  | .ofNat n => decimal n
  | .negSucc n => '-' :: decimal (n + 1)

/-- The decimal digits of a natural number, filled up with zeros on the left to `width`. -/
def padded (width n : Nat) : List Char :=
  List.replicate (width - (decimal n).length) '0' ++ decimal n

/-- The lower-case hexadecimal digits of a natural number, without superfluous zeros. -/
def hexadecimal (n : Nat) : List Char :=
  Nat.toDigits 16 n

/-- The upper-case hexadecimal digits of a natural number, filled up with zeros on the left to
`width`. -/
def upperHexadecimal (width n : Nat) : List Char :=
  List.replicate (width - (hexadecimal n).length) '0' ++ (hexadecimal n).map Char.toUpper

def digitValue (c : Char) : Nat :=
  c.toNat - '0'.toNat

def decimalValue (digits : List Char) : Nat :=
  digits.foldl (fun value c => value * 10 + digitValue c) 0

def hexValue? (c : Char) : Option Nat :=
  if c.isDigit then some (c.toNat - '0'.toNat)
  else if 'a' ≤ c ∧ c ≤ 'f' then some (c.toNat - 'a'.toNat + 10)
  else if 'A' ≤ c ∧ c ≤ 'F' then some (c.toNat - 'A'.toNat + 10)
  else none

/-- The number that hexadecimal digits stand for, provided that they are such digits. -/
def hexadecimalValue? (digits : List Char) : Option Nat :=
  digits.foldlM (fun value c => (hexValue? c).map (value * 16 + ·)) 0

end RunManifest.Text
