import RunManifest.Log
import RunManifest.Run.Basic
import RunManifest.Table

/-!
Contract: the parameters of a run.

Owns:
- `parameters`, the values of parameters by name;
- `overrideParameters`, which gives declared parameters new values and never adds one;
- `unrecognizedParameters` and `verifyParameters`, which say what overriding would ignore;
- `setServiceAccount`, the identity that the run's tasks run as.
-/

set_option autoImplicit false

namespace RunManifest.PipelineRun

/-- The values of the parameters by name. Of several parameters with one name the last counts. -/
def parameters (run : PipelineRun) : Dictionary String :=
  .ofList (run.spec.params.map fun param => (param.name, param.value.asText))

/-- The parameter with the desired value, if one is desired. -/
def overrideParameter (desired : Table String) (param : Param) : Param :=
  match desired.find? param.name with
  | some value => { param with value := .text value }
  | none => param

/-- The run with desired values put for declared parameters. -/
def overrideParameters (desired : Table String) (run : PipelineRun) : PipelineRun :=
  { run with
    spec := { run.spec with params := run.spec.params.map (overrideParameter desired) } }

def declares (run : PipelineRun) (name : String) : Bool :=
  run.spec.params.any fun param => param.name == name

/-- The desired names that are not declared, put in increasing order. -/
def unrecognizedParameters (desired : Table String) (run : PipelineRun) : List String :=
  (desired.keys.filter fun name => !run.declares name).mergeSort

def warnUnrecognized : List String → Logged Unit
  | [] => return ()
  | name :: rest => do
      Logged.report .warn .parameters ("Unrecognized input parameter: " ++ name)
      warnUnrecognized rest

/-- A warning for each desired name that is not declared. -/
def verifyParameters (desired : Table String) (run : PipelineRun) : Logged Unit :=
  warnUnrecognized (run.unrecognizedParameters desired)

def setServiceAccount (account : String) (run : PipelineRun) : PipelineRun :=
  { run with
    spec :=
      { run.spec with
        taskRunTemplate := { run.spec.taskRunTemplate with serviceAccountName := account } } }

end RunManifest.PipelineRun
