import RunManifest.Workflow.Identity
import RunManifest.Workflow.Parameters
import RunManifest.Workflow.Provenance
import RunManifest.Workflow.Substitution

/-!
Contract: what can be done to a run, one operation after the other.

Owns:
- `Operation`, the operations that change a run, with `Operation.apply`;
- `Operation.runAll`, the run after a list of operations, and `Operation.states`, the runs on the
  way to it.
-/

set_option autoImplicit false

namespace RunManifest

/-- An operation that changes a run. -/
inductive Operation where
  | overrideParameters (desired : Table String)
  | setServiceAccount (account : String)
  | specOnlyClone
  | overrideName (name : String)
  | setOwnerReference (schedule : Schedule)
  | setCanonicalLabels (name : String) (epoch index : Int)
  | setLabel (key value : String)
  | setAnnotation (key value : String)
  | setRunIdLabel (id : String)
  | replaceUid (id : String)
  | replaceEarlierRunName (name : String)
deriving DecidableEq

namespace Operation

/-- The outcome of a substitution, or the run as it was. -/
def settle (run : PipelineRun) : Except Corruption PipelineRun → PipelineRun
  | .ok result => result
  | .error _ => run

/-- The run after an operation. A substitution that fails leaves it as it was. -/
def apply (run : PipelineRun) : Operation → PipelineRun
  | .overrideParameters desired => run.overrideParameters desired
  | .setServiceAccount account => run.setServiceAccount account
  | .specOnlyClone => run.specOnlyClone.result
  | .overrideName name => run.overrideName name
  | .setOwnerReference schedule => (run.setOwnerReference schedule).result
  | .setCanonicalLabels name epoch index => (run.setCanonicalLabels name epoch index).result
  | .setLabel key value => run.setLabel key value
  | Operation.setAnnotation key value => run.setAnnotation key value
  | .setRunIdLabel id => run.setRunIdLabel id
  | .replaceUid id => settle run (run.replaceUid id).result
  | .replaceEarlierRunName name => settle run (run.replaceEarlierRunName name).result

def runAll (run : PipelineRun) (operations : List Operation) : PipelineRun :=
  operations.foldl apply run

/-- The runs on the way, from before the first operation to after the last. -/
def states (run : PipelineRun) : List Operation → List PipelineRun
  | [] => [run]
  | operation :: rest => run :: states (operation.apply run) rest

end Operation

end RunManifest
