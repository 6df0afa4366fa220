import RunManifest.Log
import RunManifest.Text.Truncate
import RunManifest.Workflow.Labels

/-!
Contract: the names of runs.

Owns:
- `specOnlyClone`, a copy that is ready to be submitted anew: it keeps what the run is asked to do
  and drops what has become of it, and its name is to be generated from the old one;
- `overrideName`, an explicit name in place of a generated one.
-/

set_option autoImplicit false

namespace RunManifest.PipelineRun

/-- The number of characters of a name from which others are generated. -/
def generateNameLimit : Nat := 200

def cloneName (run : PipelineRun) : String :=
  Text.truncate generateNameLimit run.name

/-- A copy of a run that is ready to be submitted. -/
def clone (run : PipelineRun) : PipelineRun :=
  { run with
    metadata := { ObjectMeta.blank with generateName := run.cloneName }
    status := .blank }

def specOnlyClone (run : PipelineRun) : Logged PipelineRun := do
  Logged.report .debug .identity
    ("Cloning workflow " ++ run.name ++ " with generated name prefix " ++ run.cloneName)
  return run.clone

def overrideName (name : String) (run : PipelineRun) : PipelineRun :=
  { run with metadata := { run.metadata with generateName := "", name := name } }

end RunManifest.PipelineRun
