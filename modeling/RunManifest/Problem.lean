import RunManifest.Instant.Reader
import RunManifest.Json.Printer
import RunManifest.Text.Quoted

/-!
Contract: why a document text cannot be read.

Owns:
- `Fault`, a breach of the grammar of JSON: the text ends too early, or it is wrong where it stands;
- `Mismatch`, a grammatical text that is not what was expected there;
- `Problem`, either of the two, or a breach of the rules of YAML, which are not told apart;
- the wording of faults and mismatches, without the place in the text.
-/

set_option autoImplicit false

namespace RunManifest

/-- What a text leaves unfinished that ends too early. -/
inductive Unfinished where
  | list
  | object
  | text
  | value
deriving DecidableEq, Repr

/-- What is wrong with a text where it stands. -/
inductive Malformation where
  | noColon
  | noListEnd
  | noObjectEnd
  | noWord
  | noValue
  | noKey
  | badEscape
  | badNumber
  | controlCharacter
  /-- A number is too large to be read. -/
  | outOfRange
  /-- A surrogate is followed by a unit that does not close its pair, or closes none. -/
  | loneSurrogate
  /-- A surrogate is not followed by a unit. -/
  | openPair
  | trailingComma
  | trailingText
  /-- More containers are open at once than may be. -/
  | tooDeep
deriving DecidableEq, Repr

/-- A breach of the grammar of JSON. -/
inductive Fault where
  | truncated (inside : Unfinished)
  | malformed (cause : Malformation)
deriving DecidableEq, Repr

/-- What a document has at some place, as messages name it. -/
inductive Found where
  | null
  | flag (value : Bool)
  | number (value : Number)
  | text (value : String)
  | sequence
  | mapping
deriving DecidableEq, Repr

/-- What is expected at some place of a document. -/
inductive Expected where
  | text
  | flag
  | sequence
  | mapping
  | time
  | record (name : String)
deriving DecidableEq, Repr

/-- Why a grammatical document is not what was expected. -/
inductive Mismatch where
  /-- A value of one kind stands where another kind is expected. -/
  | wrongType (found : Found) (expected : Expected)
  /-- A required member is not there. -/
  | missingField (name : String)
  /-- A known member is there twice. -/
  | duplicateField (name : String)
  /-- A record given by position is too short. -/
  | wrongLength (length : Nat) (record : String) (count : Nat)
  /-- A parameter value has none of the shapes such values have. -/
  | unknownShape
  /-- A text is no instant. -/
  | time (cause : Instant.ReadError)
deriving DecidableEq, Repr

/-- Why a document text cannot be read. -/
inductive Problem where
  | fault (fault : Fault)
  | mismatch (mismatch : Mismatch)
  /-- A breach of the rules of YAML. -/
  | irregular
deriving DecidableEq, Repr

namespace Problem

abbrev truncated (inside : Unfinished) : Problem := .fault (.truncated inside)

abbrev malformed (cause : Malformation) : Problem := .fault (.malformed cause)

end Problem

def Unfinished.phrase : Unfinished → String
  | .list => "a list"
  | .object => "an object"
  | .text => "a string"
  | .value => "a value"

def Malformation.message : Malformation → String
  | .noColon => "expected `:`"
  | .noListEnd => "expected `,` or `]`"
  | .noObjectEnd => "expected `,` or `\x7d`"
  | .noWord => "expected ident"
  | .noValue => "expected value"
  | .noKey => "key must be a string"
  | .badEscape => "invalid escape"
  | .badNumber => "invalid number"
  | .controlCharacter => "control character (\\u0000-\\u001F) found while parsing a string"
  | .outOfRange => "number out of range"
  | .loneSurrogate => "lone leading surrogate in hex escape"
  | .openPair => "unexpected end of hex escape"
  | .trailingComma => "trailing comma"
  | .trailingText => "trailing characters"
  | .tooDeep => "recursion limit exceeded"

def Fault.message : Fault → String
  | .truncated inside => "EOF while parsing " ++ inside.phrase
  | .malformed cause => cause.message

def Found.phrase : Found → String
  | .null => "null"
  | .flag value => "boolean `" ++ String.ofList (Json.flagText value) ++ "`"
  | .number (.integer value) => "integer `" ++ String.ofList (Text.decimalInt value) ++ "`"
  | .number (.float value) =>
      "floating point `" ++ String.ofList (value.text Number.jsonStyle) ++ "`"
  | .text value => "string " ++ Text.quoted value
  | .sequence => "sequence"
  | .mapping => "map"

def Expected.phrase : Expected → String
  | .text => "a string"
  | .flag => "a boolean"
  | .sequence => "a sequence"
  | .mapping => "a map"
  | .time => "an RFC 3339 formatted date and time string"
  | .record name => "struct " ++ name

def Mismatch.message : Mismatch → String
  | .wrongType found expected =>
      "invalid type: " ++ found.phrase ++ ", expected " ++ expected.phrase
  | .missingField name => "missing field `" ++ name ++ "`"
  | .duplicateField name => "duplicate field `" ++ name ++ "`"
  | .wrongLength length record count =>
      "invalid length " ++ String.ofList (Text.decimal length) ++ ", expected struct " ++ record
        ++ " with " ++ String.ofList (Text.decimal count) ++ " elements"
  | .unknownShape => "data did not match any variant of untagged enum ParamValue"
  | .time cause => cause.message

/-- The wording of a problem. Those with the rules of YAML have none here. -/
def Problem.message? : Problem → Option String
  | .fault cause => some cause.message
  | .mismatch cause => some cause.message
  | .irregular => none

end RunManifest
