import RunManifest.Label
import RunManifest.Workflow.Labels

/-!
Contract: the schedule that a run comes from.

Owns:
- `schedulingParent?`, the first owner that is a schedule with an identifier, and the readers built
  on it;
- `setOwnerReference`, which makes a schedule the only owner of a run;
- `setCanonicalLabels` and `scheduledAt`, the labels that tell the time for which a run was
  scheduled.
-/

set_option autoImplicit false

namespace RunManifest.PipelineRun

def isSchedulingParent (reference : OwnerReference) : Bool :=
  reference.isKind .scheduledWorkflow && !reference.uid.isEmpty

def schedulingParent? (run : PipelineRun) : Option OwnerReference :=
  run.metadata.owners.find? isSchedulingParent

/-- The identifier of the owning schedule, empty when there is none. -/
def scheduledWorkflowUid (run : PipelineRun) : String :=
  (run.schedulingParent?.map OwnerReference.uid).getD ""

def hasScheduledWorkflowParent (run : PipelineRun) : Bool :=
  run.schedulingParent?.isSome

def withOwner (schedule : Schedule) (run : PipelineRun) : PipelineRun :=
  { run with
    metadata :=
      { run.metadata with
        ownerReferences :=
          some [OwnerReference.managing .scheduledWorkflow schedule.name schedule.uid] } }

def setOwnerReference (schedule : Schedule) (run : PipelineRun) : Logged PipelineRun := do
  Logged.report .debug .provenance
    ("Setting controller reference to " ++ Kind.scheduledWorkflow.display ++ " " ++ schedule.name
      ++ " (" ++ schedule.uid ++ ")")
  return run.withOwner schedule

def setCanonicalLabels (name : String) (epoch index : Int) (run : PipelineRun) :
    Logged PipelineRun := do
  let epochLabel ← Label.format epoch
  let indexLabel ← Label.format index
  return run
    |>.setLabel LabelKey.scheduledWorkflowName name
    |>.setLabel LabelKey.workflowEpoch epochLabel
    |>.setLabel LabelKey.workflowIndex indexLabel
    |>.setLabel LabelKey.isOwnedBySchedule "true"

/-- The time for which the run was scheduled, in seconds. It is 0 when the label is not there, and
also, with a report, when the label is no number. -/
def scheduledAt (run : PipelineRun) : Logged Int :=
  match run.metadata.label? LabelKey.workflowEpoch with
  | none => return 0
  | some value =>
      match Label.retrieve value with
      | .ok epoch => return epoch
      | .error error => do
          Logged.report .error .provenance
            ("Could not retrieve scheduled epoch from label key (" ++ LabelKey.workflowEpoch
              ++ ") and label value (" ++ value ++ "): " ++ error.message)
          return 0

end RunManifest.PipelineRun
