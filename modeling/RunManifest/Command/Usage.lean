import RunManifest.Command.Config
import RunManifest.Text.ControlSequence
import RunManifest.Text.Digits
import RunManifest.Text.Quoted
import RunManifest.Word64

/-!
Contract: options and the ways to misuse them.

Owns:
- `Flag`, an option with a value, and `Value`, what such values are;
- `Misuse`, what can be wrong with the arguments of a call, and its wording;
- `Flag.parse`, which reads the value of an option.
-/

set_option autoImplicit false

namespace RunManifest.Command

/-- What the value of an option has to be. -/
inductive ValueKind where
  | text
  | integer
  /-- A name and a value with `=` between them. -/
  | assignment
  /-- The form of manifests. -/
  | form
deriving DecidableEq, Repr

/-- The value of an option. -/
inductive Value where
  | text (value : String)
  | integer (value : Int)
  | assignment (name value : String)
  | form (form : Manifest.Form)
deriving DecidableEq, Repr

/-- An option with a value. -/
structure Flag where
  name : String
  /-- What the value is called in messages. -/
  placeholder : String
  kind : ValueKind
  /-- Whether the option may be given several times. -/
  repeatable : Bool
deriving DecidableEq, Repr

def Flag.display (flag : Flag) : String :=
  "--" ++ flag.name ++ " <" ++ flag.placeholder ++ ">"

/-- Why a text is not the value of an option. -/
inductive ValueError where
  | emptyInteger
  | notDigits
  | tooLarge
  | tooSmall
  | noEqualsSign
  | noName
  | unknownForm
deriving DecidableEq, Repr

/-- What can be wrong with the arguments of a call. -/
inductive Misuse where
  | unrecognizedSubcommand (word : String)
  | unexpectedArgument (word : String)
  /-- An option without a value has one. -/
  | unexpectedValue (value option : String)
  | invalidValue (value : String) (flag : Flag) (cause : ValueError)
  | missingValue (flag : Flag)
  | repeated (flag : Flag)
  | missingArguments (arguments : List String)
  | missingSubcommand
deriving DecidableEq, Repr

def possibleForms : String := "\n  [possible values: json, yaml]"

/-- What follows the mention of an option whose value is wrong or not there. -/
def Flag.possibleValues (flag : Flag) : String :=
  if flag.kind = .form then possibleForms else ""

def ValueError.phrase (value : String) : ValueError → String
  | .emptyInteger => ": cannot parse integer from empty string"
  | .notDigits => ": invalid digit found in string"
  | .tooLarge => ": number too large to fit in target type"
  | .tooSmall => ": number too small to fit in target type"
  | .noEqualsSign => ": invalid name=value pair: no '=' found in " ++ Text.quoted value
  | .noName => ": invalid name=value pair: empty name in " ++ Text.quoted value
  | .unknownForm => possibleForms

/-- A part of a call in messages. What would steer a terminal is left out. -/
def cited (word : String) : String :=
  "'" ++ Text.withoutControls word ++ "'"

def Misuse.message : Misuse → String
  | .unrecognizedSubcommand word => "unrecognized subcommand " ++ cited word
  | .unexpectedArgument word => "unexpected argument " ++ cited word ++ " found"
  | .unexpectedValue value option =>
      "unexpected value " ++ cited value ++ " for '" ++ option ++ "' found; no more were expected"
  | .invalidValue value flag cause =>
      "invalid value " ++ cited value ++ " for '" ++ flag.display ++ "'" ++ cause.phrase value
  | .missingValue flag =>
      "a value is required for '" ++ flag.display ++ "' but none was supplied"
        ++ flag.possibleValues
  | .repeated flag => "the argument '" ++ flag.display ++ "' cannot be used multiple times"
  | .missingArguments arguments =>
      "the following required arguments were not provided:"
        ++ String.join (arguments.map fun argument => "\n  " ++ argument)
  | .missingSubcommand =>
      "'tekrun' requires a subcommand but one was not provided\n"
        ++ "  [subcommands: inspect, prepare, artifact-key, help]"

/-! ## Values -/

/-- Digits appended to a magnitude as long as it stays below a limit. The first digit that is none,
or that makes the magnitude too great, decides. -/
def magnitude? (limit : Nat) (overflow : ValueError) : Nat → List Char → Except ValueError Nat
  | magnitude, [] => .ok magnitude
  | magnitude, c :: rest =>
      if ¬ c.isDigit then .error .notDigits
      else
        let next := magnitude * 10 + Text.digitValue c
        if limit ≤ next then .error overflow else magnitude? limit overflow next rest

def integer? (text : String) : Except ValueError Int :=
  match text.toList with
  | [] => .error .emptyInteger
  | ['+'] => .error .notDigits
  | ['-'] => .error .notDigits
  | '-' :: digits =>
      (magnitude? (Word64.signedBound + 1) .tooSmall 0 digits).map fun value => -(value : Int)
  | '+' :: digits => (magnitude? Word64.signedBound .tooLarge 0 digits).map Int.ofNat
  | digits => (magnitude? Word64.signedBound .tooLarge 0 digits).map Int.ofNat

/-- The name and the value of an assignment, parted at the first `=`. -/
def assignment? (text : String) : Except ValueError (String × String) :=
  let name := text.toList.takeWhile (· ≠ '=')
  match text.toList.dropWhile (· ≠ '=') with
  | [] => .error .noEqualsSign
  | _ :: value =>
      if name.isEmpty then .error .noName else .ok (String.ofList name, String.ofList value)

def form? (text : String) : Except ValueError Manifest.Form :=
  if text = "json" then .ok .json
  else if text = "yaml" then .ok .yaml
  else .error .unknownForm

/-- The value of an option. An empty form is no value. -/
def Flag.parse (flag : Flag) (text : String) : Except Misuse Value :=
  let refused := Misuse.invalidValue text flag
  match flag.kind with
  | .text => .ok (.text text)
  | .integer => ((integer? text).map .integer).mapError refused
  | .assignment => ((assignment? text).map fun pair => .assignment pair.1 pair.2).mapError refused
  | .form =>
      if text.isEmpty then .error (.missingValue flag)
      else ((form? text).map .form).mapError refused

end RunManifest.Command
