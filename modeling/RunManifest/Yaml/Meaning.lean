import RunManifest.Json.Basic
import RunManifest.Text.Digits
import RunManifest.Word64

/-!
Contract: what a plain scalar means.

Owns:
- `Meaning` and `meaning`, which tell words for nothing, truth values, integers and numbers from
  mere texts;
- `hasLeadingZero`, the digits that look like an integer and are a text.

Integers are decimal without leading zeros, or hexadecimal, octal or binary after `0x`, `0o` or
`0b`. They are recognized up to 128 bits; a longer run of decimal digits is a rounded number. A
number too large to be represented is a text.
-/

set_option autoImplicit false

namespace RunManifest.Yaml

/-- What a plain scalar means. -/
inductive Meaning where
  | null
  | flag (value : Bool)
  | integer (value : Int)
  | number (value : Binary64)
  /-- An infinity, or no number at all. -/
  | nonFinite
  | text
deriving DecidableEq, Repr

def nullWords : List String := ["null", "Null", "NULL", "~"]

def isNullWord (text : String) : Bool :=
  nullWords.contains text

def flag? (text : String) : Option Bool :=
  if ["true", "True", "TRUE"].contains text then some true
  else if ["false", "False", "FALSE"].contains text then some false
  else none

def isSign (c : Char) : Bool :=
  c == '+' || c == '-'

def withoutSign : List Char → List Char
  | [] => []
  | c :: rest => if isSign c then rest else c :: rest

/-- Whether a text is a run of two or more digits, after a sign or none, that starts with 0. -/
def hasLeadingZero (chars : List Char) : Bool :=
  match withoutSign chars with
  | '0' :: c :: rest => (c :: rest).all Char.isDigit
  | _ => false

def digitValue? (base : Nat) (c : Char) : Option Nat :=
  (Text.hexValue? c).filter (· < base)

def digitsValue? (base : Nat) (chars : List Char) : Option Nat :=
  if chars.isEmpty then none
  else chars.foldlM (fun value c => (digitValue? base c).map (value * base + ·)) 0

/-- The value of digits to a base other than ten, with the letter that announces the base. -/
def basedValue? : List Char → Option Nat
  | '0' :: 'x' :: digits => digitsValue? 16 digits
  | '0' :: 'o' :: digits => digitsValue? 8 digits
  | '0' :: 'b' :: digits => digitsValue? 2 digits
  | _ => none

/-- The integer that a text without a sign spells. -/
def unsignedValue? (chars : List Char) : Option Nat :=
  (basedValue? chars).or (digitsValue? 10 chars)

def anyInteger? (chars : List Char) : Option Int :=
  if hasLeadingZero chars then none
  else
    match chars with
    | '-' :: digits => (unsignedValue? digits).map fun value => -(value : Int)
    | '+' :: digits => (unsignedValue? digits).map Int.ofNat
    | digits => (unsignedValue? digits).map Int.ofNat

/-- Whether an integer fits 128 bits, with a sign if it is negative and without one if not. -/
def isRecognized (value : Int) : Bool :=
  -(Word64.wideSignedBound : Int) ≤ value && value < (Word64.wideUnsignedBound : Int)

def integer? (chars : List Char) : Option Int :=
  (anyInteger? chars).filter isRecognized

def nonFiniteWords : List String :=
  [".inf", ".Inf", ".INF", "+.inf", "+.Inf", "+.INF", "-.inf", "-.Inf", "-.INF", ".nan", ".NaN",
    ".NAN"]

/-- The exponent at the end of a number, none if it is misspelt. -/
def exponent? : List Char → Option Int
  | [] => some 0
  | mark :: rest =>
      if mark = 'e' ∨ mark = 'E' then
        let digits := withoutSign rest
        if digits.isEmpty || !digits.all Char.isDigit then none
        else if rest.head? = some '-' then some (-(Text.decimalValue digits : Int))
        else some (Text.decimalValue digits)
      else none

/-- The size of powers of ten beyond which a number is certainly nothing, or too large. -/
def exponentLimit : Int := 400

/-- The magnitude nearest to a significand times a power of ten, none when it is too large. -/
def scaled (significand : Nat) (exponent : Int) : Option Binary64 :=
  let size : Int := exponent + (Text.decimal significand).length
  if significand = 0 ∨ size < -exponentLimit then some (Binary64.zero false)
  else if exponentLimit < size then none
  else
    Binary64.roundRatio (significand * Nat.pow 10 exponent.toNat) (Nat.pow 10 (-exponent).toNat)

def magnitude? (chars : List Char) : Option Binary64 :=
  let whole := chars.takeWhile Char.isDigit
  let (fraction, rest) :=
    match chars.dropWhile Char.isDigit with
    | '.' :: rest => (rest.takeWhile Char.isDigit, rest.dropWhile Char.isDigit)
    | rest => ([], rest)
  if whole.isEmpty && fraction.isEmpty then none
  else
    (exponent? rest).bind fun exponent =>
      scaled (Text.decimalValue (whole ++ fraction)) (exponent - fraction.length)

def number? : List Char → Option Binary64
  | '+' :: rest => magnitude? rest
  | '-' :: rest => (magnitude? rest).map Binary64.negate
  | chars => magnitude? chars

def meaning (text : String) : Meaning :=
  let chars := text.toList
  if chars.isEmpty || isNullWord text then .null
  else
    match flag? text, integer? chars with
    | some value, _ => .flag value
    | none, some value => .integer value
    | none, none =>
        if hasLeadingZero chars then .text
        else if nonFiniteWords.contains text then .nonFinite
        else
          match number? chars with
          | some value => .number value
          | none => .text

end RunManifest.Yaml
