/-!
Contract: the well-known keys of labels and annotations, and the placeholders of templates.

The labels are written by whoever schedules runs and read by whoever reports on them. The
placeholders are left in templates by the compiler of pipelines.
-/

set_option autoImplicit false

namespace RunManifest

namespace LabelKey

def scheduledWorkflowName : String := "scheduledworkflows.kubeflow.org/scheduledWorkflowName"

/-- The time for which the run was scheduled, in seconds. -/
def workflowEpoch : String := "scheduledworkflows.kubeflow.org/workflowEpoch"

/-- The number of the run within its schedule. -/
def workflowIndex : String := "scheduledworkflows.kubeflow.org/workflowIndex"

def isOwnedBySchedule : String := "scheduledworkflows.kubeflow.org/isOwnedByScheduledWorkflow"

def persistedFinalState : String := "pipeline/persistedFinalState"

def runId : String := "pipeline/runid"

end LabelKey

namespace AnnotationKey

/-- Set to `true` on runs of pipelines of the second version. -/
def secondVersion : String := "pipelines.kubeflow.org/v2_pipeline"

end AnnotationKey

namespace Placeholder

/-- The older placeholder of the run's identifier. -/
def workflowUid : String := "\x7b\x7bworkflow.uid\x7d\x7d"

/-- The newer placeholder of the run's identifier. -/
def pipelineRunUid : String := "$(context.pipelineRun.uid)"

/-- The placeholder of the name of the run that this one was derived from. -/
def earlierRunName : String := "$ORIG_PR_NAME"

end Placeholder

end RunManifest
