import RunManifest.Command.Usage

/-!
Contract: the arguments of a command, taken apart.

Owns:
- `Grammar`, the options, operands and subcommands of a command;
- `Reading`, what was read so far, and `Grammar.read`, which reads the arguments of a command up to
  its subcommand or to their end.

The value of an option may follow in the next argument. It is looked at when the next option or
operand comes, or at the end, so what is wrong with that argument may come first. An option that is
not known is refused at once, whatever is still to be looked at.
-/

set_option autoImplicit false

namespace RunManifest.Command

/-- Why a call ends before any command runs. -/
inductive Stop where
  /-- Help is asked for. -/
  | help
  /-- Nothing is asked for at all, so help is shown as a remark. -/
  | nothingAsked
  | misuse (misuse : Misuse)
deriving DecidableEq, Repr

/-- What the arguments of a command can be. -/
structure Grammar where
  flags : List Flag
  /-- What the operands are called in messages. -/
  operands : List String
  /-- The names of subcommands. A command with subcommands has no operands. -/
  subcommands : List String
deriving DecidableEq, Repr

/-- An option whose value is not looked at yet, or has not come yet. -/
structure PendingFlag where
  flag : Flag
  value : Option String
deriving DecidableEq, Repr

/-- What was read so far. -/
structure Reading where
  /-- The values of options by name, in order. -/
  values : List (String × Value)
  pending : Option PendingFlag
  /-- The operands, in order. -/
  operands : List String
deriving DecidableEq, Repr

namespace Reading

def blank : Reading :=
  ⟨[], none, []⟩

def has (reading : Reading) (name : String) : Bool :=
  reading.values.any fun entry => entry.1 == name

def isAwaiting (reading : Reading) : Bool :=
  reading.pending.any fun pending => pending.value.isNone

def accept (reading : Reading) (flag : Flag) (text : String) : Except Stop Reading := do
  if reading.has flag.name && !flag.repeatable then throw (.misuse (.repeated flag))
  let value ← (flag.parse text).mapError .misuse
  return { reading with values := reading.values ++ [(flag.name, value)] }

/-- The reading with nothing left to be looked at. -/
def settle (reading : Reading) : Except Stop Reading :=
  match reading.pending with
  | none => .ok reading
  | some ⟨flag, none⟩ => .error (.misuse (.missingValue flag))
  | some ⟨flag, some text⟩ => { reading with pending := none }.accept flag text

def valuesOf (reading : Reading) (name : String) : List Value :=
  (reading.values.filter fun entry => entry.1 == name).map Prod.snd

def text? (reading : Reading) (name : String) : Option String :=
  (reading.valuesOf name).findSome? fun value =>
    match value with
    | .text value => some value
    | _ => none

def integer? (reading : Reading) (name : String) : Option Int :=
  (reading.valuesOf name).findSome? fun value =>
    match value with
    | .integer value => some value
    | _ => none

def form? (reading : Reading) (name : String) : Option Manifest.Form :=
  (reading.valuesOf name).findSome? fun value =>
    match value with
    | .form form => some form
    | _ => none

def assignments (reading : Reading) (name : String) : List (String × String) :=
  (reading.valuesOf name).filterMap fun value =>
    match value with
    | .assignment name value => some (name, value)
    | _ => none

end Reading

/-- The kinds of arguments by their first characters. -/
inductive Word where
  /-- Two hyphens: only operands follow. -/
  | separator
  /-- Two hyphens and a name, perhaps with a value after `=`. -/
  | long (name : String) (value : Option String)
  /-- One hyphen and letters, of which the first is given. -/
  | short (letter : Char)
  | plain
deriving DecidableEq, Repr

def Word.ofArgument (argument : String) : Word :=
  match argument.toList with
  | ['-', '-'] => .separator
  | '-' :: '-' :: rest =>
      .long (String.ofList (rest.takeWhile (· ≠ '=')))
        (match rest.dropWhile (· ≠ '=') with
          | [] => none
          | _ :: value => some (String.ofList value))
  | '-' :: letter :: _ => .short letter
  | _ => .plain

namespace Grammar

def flag? (grammar : Grammar) (name : String) : Option Flag :=
  grammar.flags.find? fun flag => flag.name == name

def surplus (grammar : Grammar) (operandsOnly : Bool) (argument : String) : Misuse :=
  if grammar.subcommands.isEmpty || (operandsOnly && grammar.subcommands.contains argument) then
    .unexpectedArgument argument
  else .unrecognizedSubcommand argument

def readOperand
    (grammar : Grammar)
    (operandsOnly : Bool)
    (reading : Reading)
    (argument : String) :
    Except Stop Reading :=
  if reading.operands.length < grammar.operands.length then do
    let reading ← reading.settle
    return { reading with operands := reading.operands ++ [argument] }
  else .error (.misuse (grammar.surplus operandsOnly argument))

def readLong
    (grammar : Grammar)
    (reading : Reading)
    (name : String)
    (value : Option String) :
    Except Stop Reading :=
  if name = "help" then
    match value with
    | some value => .error (.misuse (.unexpectedValue value "--help"))
    | none => do
        let _ ← reading.settle
        throw .help
  else
    match grammar.flag? name with
    | none => .error (.misuse (.unexpectedArgument ("--" ++ name)))
    | some flag => do
        let reading ← reading.settle
        match value with
        | some text => reading.accept flag text
        | none => return { reading with pending := some ⟨flag, none⟩ }

/-- An option with a letter read. Only help has one. -/
def readShort (reading : Reading) (letter : Char) : Except Stop Reading :=
  if letter = 'h' then do
    let _ ← reading.settle
    throw .help
  else .error (.misuse (.unexpectedArgument (String.ofList ['-', letter])))

/-- One argument read that names no subcommand and is no separator. -/
def readArgument (grammar : Grammar) (reading : Reading) (argument : String) :
    Except Stop Reading :=
  match Word.ofArgument argument with
  | .long name value => grammar.readLong reading name value
  | .short letter => readShort reading letter
  | _ =>
      match reading.pending with
      | some ⟨flag, none⟩ => .ok { reading with pending := some ⟨flag, some argument⟩ }
      | _ => grammar.readOperand false reading argument

def readOperands (grammar : Grammar) : Reading → List String → Except Stop Reading
  | reading, [] => .ok reading
  | reading, argument :: rest => do
      grammar.readOperands (← grammar.readOperand true reading argument) rest

/-- Arguments read up to a subcommand, which is given with the arguments after it, or to their
end. -/
def read (grammar : Grammar) :
    Reading → List String → Except Stop (Reading × Option (String × List String))
  | reading, [] => .ok (reading, none)
  | reading, argument :: rest =>
      if !reading.isAwaiting && grammar.subcommands.contains argument then
        .ok (reading, some (argument, rest))
      else if Word.ofArgument argument = .separator then do
        return (← grammar.readOperands reading rest, none)
      else do
        grammar.read (← grammar.readArgument reading argument) rest

end Grammar

end RunManifest.Command
