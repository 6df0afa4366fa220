import RunManifest.Command.Config
import RunManifest.Workflow.Identity
import RunManifest.Workflow.Parameters
import RunManifest.Workflow.Provenance
import RunManifest.Workflow.Substitution

/-!
Contract: deriving a run that is ready to be submitted from a stored template.

Owns:
- `Preparation`, what is asked of the derived run;
- `Preparation.prepare`, the steps of the derivation in their order: copy, parameters, account,
  name, schedule, identifier, and the name of the run that the new one is derived from.

The identifier is put for its placeholders before it is recorded in a label, and the earlier name is
put for its placeholder after that, so a label that holds the placeholder is replaced too.
-/

set_option autoImplicit false

namespace RunManifest.Command

/-- The place of a run in a schedule. -/
structure Occasion where
  schedule : Schedule
  /-- The time for which the run is scheduled, in seconds. -/
  epoch : Int
  /-- The number of the run within the schedule. -/
  index : Int
deriving DecidableEq, Repr

/-- What is asked of a derived run. -/
structure Preparation where
  /-- An explicit name. -/
  name : Option String
  /-- New values of parameters, in order. -/
  params : List (String × String)
  serviceAccount : Option String
  /-- The identifier of the run. -/
  runId : Option String
  occasion : Option Occasion
  /-- The name of the run that this one is derived from. -/
  earlierName : Option String
deriving DecidableEq, Repr

namespace Preparation

/-- Why no run could be derived. -/
inductive Failure where
  /-- Putting the identifier for its placeholders corrupts the run. -/
  | runId (id : String) (corruption : Corruption)
  /-- Putting the earlier name for its placeholder corrupts the run. -/
  | earlierName (name : String) (corruption : Corruption)
deriving DecidableEq, Repr

def Failure.messages : Failure → List String
  | .runId id corruption => ["Failed to substitute run id " ++ id, corruption.message]
  | .earlierName name corruption =>
      ["Failed to substitute original run name " ++ name, corruption.message]

/-- New values by name. Of several for one parameter the last counts. -/
def desired (preparation : Preparation) : Table String :=
  .ofList preparation.params

def account (preparation : Preparation) (config : Config) : Option String :=
  preparation.serviceAccount.or config.serviceAccount

/-- The run with its place in a schedule recorded. -/
def schedule (occasion : Option Occasion) (run : PipelineRun) : Logged PipelineRun :=
  match occasion with
  | none => return run
  | some occasion => do
      let owned ← run.setOwnerReference occasion.schedule
      owned.setCanonicalLabels occasion.schedule.name occasion.epoch occasion.index

/-- The run as it is before any placeholder is replaced. -/
def arrange (preparation : Preparation) (config : Config) (template : PipelineRun) :
    Logged PipelineRun := do
  let run ← template.specOnlyClone
  run.verifyParameters preparation.desired
  let run := run.overrideParameters preparation.desired
  let run := ((preparation.account config).map run.setServiceAccount).getD run
  let run := (preparation.name.map run.overrideName).getD run
  schedule preparation.occasion run

/-- The run with the earlier name put for its placeholder, if one is given. -/
def derive (earlierName : Option String) (run : PipelineRun) :
    Logged (Except Failure PipelineRun) :=
  match earlierName with
  | none => return .ok run
  | some name => do
      let outcome ← run.replaceEarlierRunName name
      return outcome.mapError (.earlierName name)

def announce (id : String) (run : PipelineRun) : Logged Unit :=
  Logged.report .info .preparation
    ("Prepared run " ++ id ++ " with " ++ String.ofList (Text.decimal run.spec.params.length)
      ++ " parameter(s)")

/-- The derived run. `fresh` is the identifier of a run for which none is given. -/
def prepare (preparation : Preparation) (config : Config) (fresh : String)
    (template : PipelineRun) : Logged (Except Failure PipelineRun) := do
  let run ← preparation.arrange config template
  let id := preparation.runId.getD fresh
  match ← run.replaceUid id with
  | .error corruption => return .error (.runId id corruption)
  | .ok run =>
      match ← derive preparation.earlierName (run.setRunIdLabel id) with
      | .error failure => return .error failure
      | .ok run =>
          announce id run
          return .ok run

end Preparation

end RunManifest.Command
