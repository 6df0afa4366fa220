import RunManifest.Workflow.Labels

/-!
Contract: the state that a run is in.

Owns:
- `TerminalReason`, the reasons after which a run no longer changes;
- the readers of a run's state, each of which has an answer for every run;
- `artifactKey`, where an artifact of a run is stored.
-/

set_option autoImplicit false

namespace RunManifest

/-- A reason after which a run no longer changes. -/
inductive TerminalReason where
  | succeeded
  | failed
  | completed
  | cancelled
  /-- The older word for `cancelled`. -/
  | pipelineRunCancelled
  | pipelineRunCouldntCancel
  | pipelineRunTimeout
  | stoppedRunFinally
  | cancelledRunFinally
  | invalidTaskResultReference
deriving DecidableEq, Repr

namespace TerminalReason

def all : List TerminalReason :=
  [.succeeded, .failed, .completed, .cancelled, .pipelineRunCancelled, .pipelineRunCouldntCancel,
    .pipelineRunTimeout, .stoppedRunFinally, .cancelledRunFinally, .invalidTaskResultReference]

def word : TerminalReason → String
  | .succeeded => "Succeeded"
  | .failed => "Failed"
  | .completed => "Completed"
  | .cancelled => "Cancelled"
  | .pipelineRunCancelled => "PipelineRunCancelled"
  | .pipelineRunCouldntCancel => "PipelineRunCouldntCancel"
  | .pipelineRunTimeout => "PipelineRunTimeout"
  | .stoppedRunFinally => "StoppedRunFinally"
  | .cancelledRunFinally => "CancelledRunFinally"
  | .invalidTaskResultReference => "InvalidTaskResultReference"

/-- The reason with exactly the given word. -/
def ofWord? (word : String) : Option TerminalReason :=
  all.find? fun reason => reason.word == word

def position (reason : TerminalReason) : Nat :=
  all.idxOf reason

end TerminalReason

namespace PipelineRun

/-- The completion time of a run that has one. The start of the count of seconds stands for none. -/
def completion? (run : PipelineRun) : Option Instant :=
  run.status.completionTime.filter (· ≠ Instant.epoch)

def isFinished (run : PipelineRun) : Bool :=
  run.completion?.isSome

/-- When a run ended, in seconds, 0 if it has not. -/
def finishedAt (run : PipelineRun) : Int :=
  (run.completion?.map Instant.seconds).getD 0

/-- The reason of the first condition, empty if there is none. -/
def condition (run : PipelineRun) : String :=
  (run.status.conditions.head?.map Condition.reason).getD ""

/-- Whether the first condition has a reason after which the run no longer changes. -/
def isInFinalState (run : PipelineRun) : Bool :=
  (TerminalReason.ofWord? run.condition).isSome

def persistedFinalState (run : PipelineRun) : Bool :=
  (run.metadata.label? LabelKey.persistedFinalState).isSome

def isSecondVersion (run : PipelineRun) : Bool :=
  run.metadata.annotation? AnnotationKey.secondVersion == some "true"

/-- The key under which an artifact of a node of a run is stored, empty while the run has no
children. -/
def artifactKey (nodeId artifactName : String) (run : PipelineRun) : String :=
  if run.status.childReferences.isEmpty then ""
  else "artifacts/" ++ run.name ++ "/" ++ nodeId ++ "/" ++ artifactName ++ ".tgz"

end PipelineRun

end RunManifest
