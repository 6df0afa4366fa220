import RunManifest.Command.Identifier
import RunManifest.Command.Inspect
import RunManifest.Command.Invocation

/-!
Contract: the whole program, apart from files and streams.

Owns:
- `Invocation.source`, the manifest that a call needs, and `formOfPath`, the form of a file by its
  name;
- `Invocation.run`, what a call prints, reports and returns, given the text of its manifest;
- `threshold`, the reports that are shown.
-/

set_option autoImplicit false

namespace RunManifest.Command

/-! ## Manifests -/

/-- Where a manifest is. -/
inductive Source where
  | standardInput
  | file (path : String)
deriving DecidableEq, Repr

/-- The parts of a path between slashes, without empty ones and those that mean the same place. -/
def pathParts (path : String) : List String :=
  (path.splitOn "/").filter fun part => part ≠ "" ∧ part ≠ "."

/-- The part of a file name after its last point. A point at the start is part of the name. -/
def extension? (name : String) : Option String :=
  let parts := name.splitOn "."
  match parts with
  | [] => none
  | [_] => none
  | ["", _] => none
  | _ => if name = ".." then none else parts.getLast?

def formOfPath (path : String) : Manifest.Form :=
  match (pathParts path).getLast?.bind extension? with
  | some "yaml" => .yaml
  | some "yml" => .yaml
  | _ => .json

/-- Where the manifest of a call is. A hyphen stands for the standard input. -/
def Invocation.source (invocation : Invocation) : Source :=
  if invocation.file = "-" then .standardInput else .file invocation.file

/-- The run of a call, or the wording of why there is none and of the causes of that. When there is
no text the system gives a reason. -/
def Invocation.load (invocation : Invocation) (text : Except String String) :
    Except (List String) PipelineRun :=
  match invocation.source, text with
  | .standardInput, .error reason => .error ["Failed to read manifest from stdin", reason]
  | .standardInput, .ok text =>
      (Manifest.parse none text).mapError fun error => [error.message]
  | .file path, .error reason => .error ["Failed to read manifest " ++ path, reason]
  | .file path, .ok text =>
      (Manifest.parse (some (formOfPath path)) text).mapError fun error =>
        ["Failed to parse manifest " ++ path, error.message]

/-! ## Tasks -/

/-- What a task prints, or the wording of its failure and the causes of that. -/
def Task.run
    (task : Task)
    (config : Config)
    (painted : Bool)
    (fresh : String)
    (run : PipelineRun) :
    Logged (Except (List String) String) :=
  match task with
  | .inspect => do
      let report ← Inspect.report painted run
      return .ok report
  | .prepare preparation => do
      match ← preparation.prepare config fresh run with
      | .ok prepared => return .ok (Manifest.render config.output prepared ++ "\n")
      | .error failure => return .error failure.messages
  | .artifactKey nodeId artifactName =>
      return .ok (run.artifactKey nodeId artifactName ++ "\n")

/-- What a call prints, or the wording of its failure and the causes of that. The manifest is only
looked at when the configuration can be used. -/
def Invocation.run
    (invocation : Invocation)
    (painted : Bool)
    (fresh : String)
    (text : Except String String) :
    Logged (Except (List String) String) :=
  match invocation.config.validate with
  | .error refusal => return .error [refusal.message]
  | .ok () =>
      match invocation.load text with
      | .error messages => return .error messages
      | .ok run => invocation.task.run invocation.config painted fresh run

/-! ## Reports -/

/-- The least level of the reports that are shown, as a variable gives it. -/
def threshold (level : Option String) : Log.Threshold :=
  match level with
  | none => some .info
  | some "error" => some .error
  | some "warn" => some .warn
  | some "info" => some .info
  | some "debug" => some .debug
  | some "trace" => some .debug
  | some _ => none

def about : String := "Pipeline run descriptor tool"

def helpText : String :=
  String.intercalate "\n"
    [about, "", "Usage: tekrun [OPTIONS] <COMMAND>", "", "Commands:",
      "  inspect       Show identity, provenance and state of a run",
      "  prepare       Derive a submission-ready run from a stored template",
      "  artifact-key  Print the object store key of a node artifact",
      "  help          Print this message or the help of the given subcommand(s)", "", "Options:",
      "      --output <OUTPUT>                    Manifest output format",
      "      --service-account <SERVICE_ACCOUNT>  Default service account for prepared runs",
      "  -h, --help                               Print help", ""]

/-- What a call that ends early prints as a remark; none when it only asks for help. -/
def Stop.remark? : Stop → Option String
  | .help => none
  | .nothingAsked => some helpText
  | .misuse cause =>
      some ("error: " ++ cause.message ++ "\n\nFor more information, try '--help'.\n")

end RunManifest.Command
