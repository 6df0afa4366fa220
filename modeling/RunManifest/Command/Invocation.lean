import RunManifest.Command.Arguments
import RunManifest.Command.Prepare

/-!
Contract: calls of the program.

Owns:
- `Task`, what the program can be asked to do, and `Invocation`, a task with its configuration;
- `Surroundings`, the variables outside the arguments that count;
- `Invocation.read`, which takes a call apart.

A subcommand is read to its end before the options in front of it are looked at, then the variables,
which count where an option is not given.
-/

set_option autoImplicit false

namespace RunManifest.Command

/-- What the program can be asked to do with a manifest. -/
inductive Task where
  /-- Report on the run. -/
  | inspect
  /-- Derive a run that is ready to be submitted. -/
  | prepare (preparation : Preparation)
  /-- Tell where an artifact is stored. -/
  | artifactKey (nodeId artifactName : String)
deriving DecidableEq, Repr

/-- A call of the program. -/
structure Invocation where
  config : Config
  /-- Where the manifest is. -/
  file : String
  task : Task
deriving DecidableEq, Repr

/-- The variables outside the arguments that count. -/
structure Surroundings where
  output : Option String
  serviceAccount : Option String
deriving DecidableEq, Repr

/-! ## Grammars -/

def outputFlag : Flag := ⟨"output", "OUTPUT", .form, false⟩

def serviceAccountFlag : Flag := ⟨"service-account", "SERVICE_ACCOUNT", .text, false⟩

def schedulerNameFlag : Flag := ⟨"scheduler-name", "SCHEDULER_NAME", .text, false⟩

def schedulerUidFlag : Flag := ⟨"scheduler-uid", "SCHEDULER_UID", .text, false⟩

def epochFlag : Flag := ⟨"epoch", "EPOCH", .integer, false⟩

def indexFlag : Flag := ⟨"index", "INDEX", .integer, false⟩

/-- The arguments in front of a subcommand. -/
def callGrammar : Grammar where
  flags := [outputFlag, serviceAccountFlag]
  operands := []
  subcommands := ["inspect", "prepare", "artifact-key", "help"]

def inspectGrammar : Grammar where
  flags := []
  operands := ["<FILE>"]
  subcommands := []

def prepareGrammar : Grammar where
  flags :=
    [⟨"name", "NAME", .text, false⟩, ⟨"param", "PARAMS", .assignment, true⟩, serviceAccountFlag,
      ⟨"run-id", "RUN_ID", .text, false⟩, schedulerNameFlag, schedulerUidFlag, epochFlag, indexFlag,
      ⟨"original-name", "ORIGINAL_NAME", .text, false⟩]
  operands := ["<FILE>"]
  subcommands := []

def artifactKeyGrammar : Grammar where
  flags := []
  operands := ["<FILE>", "<NODE_ID>", "<ARTIFACT_NAME>"]
  subcommands := []

/-! ## Subcommands -/

/-- The options that go together, in the order in which missing ones are listed. -/
def occasionFlags : List Flag := [schedulerUidFlag, epochFlag, indexFlag, schedulerNameFlag]

/-- The options that are missing because others of the same group are given. -/
def missingFlags (reading : Reading) : List String :=
  if occasionFlags.any fun flag => reading.has flag.name then
    (occasionFlags.filter fun flag => !reading.has flag.name).map Flag.display
  else []

/-- The arguments of a subcommand read to their end, with all that are required. Missing options are
listed before missing operands. -/
def readSubcommand (grammar : Grammar) (arguments : List String) : Except Stop Reading := do
  let (reading, _) ← grammar.read .blank arguments
  let reading ← reading.settle
  match missingFlags reading ++ grammar.operands.drop reading.operands.length with
  | [] => return reading
  | missing => throw (.misuse (.missingArguments missing))

def occasion? (reading : Reading) : Option Occasion := do
  let name ← reading.text? schedulerNameFlag.name
  let uid ← reading.text? schedulerUidFlag.name
  let epoch ← reading.integer? epochFlag.name
  let index ← reading.integer? indexFlag.name
  return ⟨⟨name, uid⟩, epoch, index⟩

def preparationOf (reading : Reading) : Preparation where
  name := reading.text? "name"
  params := reading.assignments "param"
  serviceAccount := reading.text? serviceAccountFlag.name
  runId := reading.text? "run-id"
  occasion := occasion? reading
  earlierName := reading.text? "original-name"

/-- The operand at a position. All required ones are there. -/
def operandAt (reading : Reading) (position : Nat) : String :=
  reading.operands.getD position ""

/-- Help on a subcommand. The words after `help` name it. -/
def readHelp : List String → Except Stop (String × Task)
  | [] => .error .help
  | [topic] =>
      if callGrammar.subcommands.contains topic then .error .help
      else .error (.misuse (.unrecognizedSubcommand topic))
  | topic :: word :: _ =>
      if callGrammar.subcommands.contains topic then
        .error (.misuse (.unrecognizedSubcommand word))
      else .error (.misuse (.unrecognizedSubcommand topic))

/-- A subcommand with its arguments: where the manifest is, and the task. -/
def readTask (name : String) (arguments : List String) : Except Stop (String × Task) :=
  match name with
  | "inspect" => do
      let reading ← readSubcommand inspectGrammar arguments
      return (operandAt reading 0, .inspect)
  | "prepare" => do
      let reading ← readSubcommand prepareGrammar arguments
      return (operandAt reading 0, .prepare (preparationOf reading))
  | "artifact-key" => do
      let reading ← readSubcommand artifactKeyGrammar arguments
      return (operandAt reading 0, .artifactKey (operandAt reading 1) (operandAt reading 2))
  | _ => readHelp arguments

/-! ## Calls -/

def complete (flag : Flag) (variableValue : Option String) (reading : Reading) :
    Except Stop Reading :=
  match variableValue with
  | some text => if reading.has flag.name then .ok reading else reading.accept flag text
  | none => .ok reading

def configOf (reading : Reading) : Config where
  output := (reading.form? outputFlag.name).getD .json
  serviceAccount := reading.text? serviceAccountFlag.name

/-- The options in front of a subcommand, with what the variables add. -/
def readConfig (surroundings : Surroundings) (reading : Reading) : Except Stop Reading := do
  let reading ← reading.settle
  let reading ← complete outputFlag surroundings.output reading
  complete serviceAccountFlag surroundings.serviceAccount reading

def Invocation.read (surroundings : Surroundings) (arguments : List String) :
    Except Stop Invocation := do
  let (reading, subcommand) ← callGrammar.read .blank arguments
  match subcommand with
  | some (name, rest) =>
      let (file, task) ← readTask name rest
      let reading ← readConfig surroundings reading
      return ⟨configOf reading, file, task⟩
  | none =>
      let reading ← readConfig surroundings reading
      throw (if reading.values.isEmpty then .nothingAsked else .misuse .missingSubcommand)

end RunManifest.Command
