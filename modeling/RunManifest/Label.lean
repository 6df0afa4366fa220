import RunManifest.Log
import RunManifest.Text.Digits
import RunManifest.Text.Quoted
import RunManifest.Word64

/-!
Contract: integers as label values.

Owns:
- `Label.format`, which writes an integer of 64 bits as decimal digits and reports when it has to
  put 0 for a negative one;
- `Label.retrieve`, which accepts a non-empty run of decimal digits whose value fits;
- `Label.RetrieveError`, which keeps the refused value and the reason.
-/

set_option autoImplicit false

namespace RunManifest.Label

/-- Why a label value is no number. -/
inductive Reason where
  | empty
  | notDigits
  | tooLarge
deriving DecidableEq, Repr

def Reason.phrase : Reason → String
  | .empty => "empty value"
  | .notDigits => "expected only ASCII digits"
  | .tooLarge => "number too large to fit in target type"

/-- A refused label value. -/
structure RetrieveError where
  value : String
  reason : Reason
deriving DecidableEq, Repr

def RetrieveError.message (error : RetrieveError) : String :=
  "Failed to parse label value " ++ Text.quoted error.value ++ ": " ++ error.reason.phrase

/-- The label value of an integer. Negative integers have none of their own and are written as 0,
with a report. -/
def format (value : Int) : Logged String :=
  if value < 0 then do
    Logged.report .warn .labels
      ("Clamping negative label value " ++ String.ofList (Text.decimalInt value) ++ " to 0")
    return "0"
  else return String.ofList (Text.decimal value.toNat)

def retrieve (value : String) : Except RetrieveError Int :=
  let digits := value.toList
  if digits.isEmpty then .error ⟨value, .empty⟩
  else if ¬ digits.all Char.isDigit then .error ⟨value, .notDigits⟩
  else if Word64.signedBound ≤ Text.decimalValue digits then .error ⟨value, .tooLarge⟩
  else .ok (Text.decimalValue digits)

end RunManifest.Label
