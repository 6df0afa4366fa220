import RunManifest.Binary64.Shortest
import RunManifest.Text.Digits

/-!
Contract: the text of a finite number.

Owns `Binary64.text`, the shortest digits that identify the number, laid out in positional form for
decimal exponents from -5 to 15 and with an exponent otherwise. The positional form always has a
point. Whether a positive exponent shows its sign is the choice of the document format.
-/

set_option autoImplicit false

namespace RunManifest

/-- How a document format writes exponents. -/
structure ExponentStyle where
  /-- Whether a positive exponent has a plus sign. -/
  plusSign : Bool
deriving DecidableEq, Repr

namespace Binary64

/-- The layout of significant digits whose decimal point stands after `point` of them. -/
def layOut (style : ExponentStyle) (digits : List Char) (point : Int) : List Char :=
  let exponent := point - 1
  if -5 ≤ exponent ∧ exponent ≤ 15 then
    if point ≤ 0 then
      ['0', '.'] ++ List.replicate (-point).toNat '0' ++ digits
    else if digits.length ≤ point.toNat then
      digits ++ List.replicate (point.toNat - digits.length) '0' ++ ['.', '0']
    else digits.take point.toNat ++ ['.'] ++ digits.drop point.toNat
  else
    let fraction := digits.drop 1
    digits.take 1 ++ (if fraction.isEmpty then [] else '.' :: fraction) ++ ['e']
      ++ (if style.plusSign ∧ 0 ≤ exponent then ['+'] else []) ++ Text.decimalInt exponent

def magnitudeText (style : ExponentStyle) (x : Binary64) : List Char :=
  if x.isZero then ['0', '.', '0']
  else
    let decimal := x.shortest
    let digits := Text.decimal decimal.coefficient
    layOut style digits (decimal.exponent + digits.length)

def text (style : ExponentStyle) (x : Binary64) : List Char :=
  (if x.negative then ['-'] else []) ++ magnitudeText style x

end Binary64

end RunManifest
