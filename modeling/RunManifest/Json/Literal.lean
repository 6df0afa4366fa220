import RunManifest.Json.Node
import RunManifest.Word64

/-!
Contract: the strings and numbers of JSON texts.

Owns:
- `scanString`, which takes a string apart into characters and UTF-16 units, and `assemble`, which
  joins the units in pairs;
- `scanNumber`, which takes a number apart into its digits, and `NumberText.toNumber?`, which says
  what number they are.

Integers that fit 64 bits, with a sign or without, stay integers. All others become the product or
the quotient of a rounded significand and a rounded power of ten, so the last digits of a number may
differ from those of the nearest one.
-/

set_option autoImplicit false

namespace RunManifest.Json

/-! ## Strings -/

/-- A part of a string: a character, or a UTF-16 unit given by its number. -/
inductive Piece where
  | char (c : Char)
  | unit (code : Nat)
deriving DecidableEq, Repr

/-- Whether a unit opens a surrogate pair. -/
def isLeading (code : Nat) : Bool :=
  0xD800 ≤ code && code ≤ 0xDBFF

/-- Whether a unit closes a surrogate pair. -/
def isTrailing (code : Nat) : Bool :=
  0xDC00 ≤ code && code ≤ 0xDFFF

def pairedChar (leading trailing : Nat) : Char :=
  Char.ofNat ((leading - 0xD800) * 0x400 + (trailing - 0xDC00) + 0x10000)

/-- The characters of the pieces of a string, unless a surrogate has no partner. -/
def assemble : List Piece → Readable (List Char)
  | [] => .ok []
  | .char c :: rest => (assemble rest).map (c :: ·)
  | .unit code :: .unit next :: rest =>
      if isLeading code then
        if isTrailing next then (assemble rest).map (pairedChar code next :: ·)
        else .error .loneSurrogate
      else if isTrailing code then .error .loneSurrogate
      else (assemble (.unit next :: rest)).map (Char.ofNat code :: ·)
  | .unit code :: rest =>
      if isLeading code then .error .openPair
      else if isTrailing code then .error .loneSurrogate
      else (assemble rest).map (Char.ofNat code :: ·)

/-- Whether the last of the pieces is a surrogate whose partner may be yet to come, unless one in
front of it has none. -/
def awaits : List Piece → Readable Bool
  | [] => .ok false
  | .char _ :: rest => awaits rest
  | .unit code :: .unit next :: rest =>
      if isLeading code then
        if isTrailing next then awaits rest else .error .loneSurrogate
      else if isTrailing code then .error .loneSurrogate
      else awaits (.unit next :: rest)
  | .unit code :: rest =>
      if isLeading code then
        if rest.isEmpty then .ok true else .error .openPair
      else if isTrailing code then .error .loneSurrogate
      else awaits rest

def shortEscape? (c : Char) : Option Char :=
  if c = '\"' ∨ c = '\\' ∨ c = '/' then some c
  else if c = 'b' then some (Char.ofNat 0x8)
  else if c = 'f' then some (Char.ofNat 0xC)
  else if c = 'n' then some '\n'
  else if c = 'r' then some '\r'
  else if c = 't' then some '\t'
  else none

def underFourBytes (text : List Char) : Bool :=
  (text.take 4).foldl (fun size c => size + c.utf8Size) 0 < 4

/-- How the pieces of a string stop before its closing quote. -/
structure Interruption where
  fault : Fault
  /-- The fault where the second half of a surrogate pair is awaited. -/
  awaited : Fault
deriving DecidableEq, Repr

/-- A string that ends with the text. -/
def Interruption.atEnd : Interruption :=
  ⟨.truncated .text, .truncated .text⟩

/-- Four digits that are no number. -/
def Interruption.atDigits : Interruption :=
  ⟨.malformed .badEscape, .malformed .badEscape⟩

/-- Something wrong that is no unit, and so not what is awaited either. -/
def Interruption.noUnit (cause : Malformation) : Interruption :=
  ⟨.malformed cause, .malformed .openPair⟩

/-- The pieces of a string after its opening quote, and either what follows its closing quote or
how they stop. -/
def scanPieces : List Char → List Piece × Except Interruption (List Char)
  | [] => ([], .error .atEnd)
  | '\"' :: rest => ([], .ok rest)
  | ['\\'] => ([], .error .atEnd)
  | '\\' :: 'u' :: a :: b :: c :: d :: rest =>
      match Text.hexadecimalValue? [a, b, c, d] with
      | some code =>
          let (pieces, ending) := scanPieces rest
          (.unit code :: pieces, ending)
      | none => ([], .error .atDigits)
  | '\\' :: c :: rest =>
      if c = 'u' then ([], .error (if underFourBytes rest then .atEnd else .atDigits))
      else
        match shortEscape? c with
        | some escaped =>
            let (pieces, ending) := scanPieces rest
            (.char escaped :: pieces, ending)
        | none => ([], .error (.noUnit .badEscape))
  | c :: rest =>
      if c.toNat < 0x20 then ([], .error (.noUnit .controlCharacter))
      else
        let (pieces, ending) := scanPieces rest
        (.char c :: pieces, ending)

/-- What a reader makes of pieces that stop. -/
def Interruption.read (interruption : Interruption) (pieces : List Piece) : Fault :=
  match awaits pieces with
  | .error cause => .malformed cause
  | .ok true => interruption.awaited
  | .ok false => interruption.fault

/-- A string after its opening quote: its text, and what follows; or how it breaks. -/
def scanString (text : List Char) : Except Breakage (Readable String × List Char) :=
  match scanPieces text with
  | (pieces, .ok rest) => .ok ((assemble pieces).map String.ofList, rest)
  | (pieces, .error interruption) => .error ⟨interruption.read pieces, interruption.fault⟩

/-! ## Numbers -/

/-- The digits of a number. -/
structure NumberText where
  negative : Bool
  whole : List Char
  /-- The digits after the point. -/
  fraction : Option (List Char)
  /-- The digits of the exponent and whether it is negative. -/
  exponent : Option (Bool × List Char)
deriving DecidableEq, Repr

/-- A number that breaks off: too short for a reader, wrong for someone who skips. -/
def brokenOff (rest : List Char) : Breakage :=
  if rest.isEmpty then ⟨.truncated .value, .malformed .badNumber⟩
  else .both (.malformed .badNumber)

def someDigits (text : List Char) : Except Breakage (List Char × List Char) :=
  let digits := text.takeWhile Char.isDigit
  if digits.isEmpty then .error (brokenOff text)
  else .ok (digits, text.dropWhile Char.isDigit)

def scanFraction : List Char → Except Breakage (Option (List Char) × List Char)
  | '.' :: rest => (someDigits rest).map fun (digits, after) => (some digits, after)
  | chars => .ok (none, chars)

def scanExponent : List Char → Except Breakage (Option (Bool × List Char) × List Char)
  | mark :: rest =>
      if mark = 'e' ∨ mark = 'E' then
        let (negative, digits) :=
          match rest with
          | '+' :: digits => (false, digits)
          | '-' :: digits => (true, digits)
          | digits => (false, digits)
        (someDigits digits).map fun (digits, after) => (some (negative, digits), after)
      else .ok (none, mark :: rest)
  | [] => .ok (none, [])

/-- A number and what follows it, or how it breaks. -/
def scanNumber (text : List Char) : Except Breakage (NumberText × List Char) := do
  let (negative, unsigned) :=
    match text with
    | '-' :: rest => (true, rest)
    | _ => (false, text)
  let (whole, rest) ← someDigits unsigned
  if whole.head? = some '0' ∧ whole.length ≠ 1 then .error (.both (.malformed .badNumber))
  else
    let (fraction, rest) ← scanFraction rest
    let (exponent, rest) ← scanExponent rest
    .ok (⟨negative, whole, fraction, exponent⟩, rest)

/-- Digits before the point appended to a significand as long as it fits, and the number of digits
that no longer did. -/
def gatherWhole : Nat → List Char → Nat × Nat
  | significand, [] => (significand, 0)
  | significand, c :: rest =>
      let next := significand * 10 + Text.digitValue c
      if next < Word64.unsignedBound then gatherWhole next rest else (significand, rest.length + 1)

/-- Digits after the point appended to a significand as long as it fits, and the number of digits
that did. -/
def gatherFraction : Nat → List Char → Nat × Nat
  | significand, [] => (significand, 0)
  | significand, c :: rest =>
      let next := significand * 10 + Text.digitValue c
      if next < Word64.unsignedBound then
        let (result, count) := gatherFraction next rest
        (result, count + 1)
      else (significand, 0)

/-- A power of ten. Up to 10^308 it can be represented. -/
def powerOfTen (exponent : Nat) : Binary64 :=
  (Binary64.roundRatio (Nat.pow 10 exponent) 1).getD (Binary64.zero false)

/-- A magnitude scaled by a power of ten, in steps of at most 10^308. Two steps down leave nothing
of a 64-bit significand, so a count of three is never used up. -/
def scale : Nat → Binary64 → Int → Option Binary64
  | 0, _, _ => some (Binary64.zero false)
  | count + 1, magnitude, exponent =>
      if exponent.natAbs ≤ 308 then
        if 0 ≤ exponent then magnitude.times (powerOfTen exponent.toNat)
        else magnitude.dividedBy (powerOfTen (-exponent).toNat)
      else if magnitude.isZero then some magnitude
      else if 0 ≤ exponent then none
      else
        (magnitude.dividedBy (powerOfTen 308)).bind fun smaller =>
          scale count smaller (exponent + 308)

/-- A significand and a power of ten as a number of double precision; none when it is too large. -/
def floatOfParts (negative : Bool) (significand : Nat) (exponent : Int) : Option Number :=
  (Binary64.roundRatio significand 1).bind fun magnitude =>
    (scale 3 magnitude exponent).map fun scaled => .float { scaled with negative := negative }

def exponentValue : Option (Bool × List Char) → Int
  | none => 0
  | some (negative, digits) =>
      if negative then -(Text.decimalValue digits : Int) else Text.decimalValue digits

namespace NumberText

/-- The number that digits stand for; none when it is too large. -/
def toNumber? (number : NumberText) : Option Number :=
  let (significand, dropped) := gatherWhole 0 number.whole
  match number.fraction, number.exponent with
  | none, none =>
      if dropped ≠ 0 then floatOfParts number.negative significand dropped
      else if ¬ number.negative then some (.integer significand)
      else if significand = 0 ∨ Word64.signedBound < significand then
        floatOfParts true significand 0
      else some (.integer (-(significand : Int)))
  | fraction, exponent =>
      let (significand, places) := gatherFraction significand (fraction.getD [])
      floatOfParts number.negative significand
        ((dropped : Int) - places + exponentValue exponent)

end NumberText

end RunManifest.Json
