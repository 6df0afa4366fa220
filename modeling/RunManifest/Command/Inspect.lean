import RunManifest.Command.Paint
import RunManifest.Workflow.Parameters
import RunManifest.Workflow.Provenance
import RunManifest.Workflow.State

/-!
Contract: the report on a run.

Owns `Inspect.report`: the identity of the run, the schedule it comes from, its state and its
parameters, in lines that each end with a break. Parts of the identity that are empty are left out,
and so are the parameters if there are none.
-/

set_option autoImplicit false

namespace RunManifest.Command.Inspect

def line (text : String) : String :=
  text ++ "\n"

/-- A line that is left out when its value is empty. -/
def optionalLine (title value shown : String) : String :=
  if value.isEmpty then "" else line (title ++ shown)

def section_ (painted : Bool) (title : String) : String :=
  line ("\n" ++ paint painted .bold title)

def identity (painted : Bool) (run : PipelineRun) : String :=
  line (paint painted .bold "Run Details:")
    ++ optionalLine "  Name:          " run.metadata.name (paint painted .cyan run.metadata.name)
    ++ optionalLine "  Generate Name: " run.metadata.generateName
      (paint painted .cyan run.metadata.generateName)
    ++ optionalLine "  Namespace:     " run.metadata.namespace run.metadata.namespace
    ++ optionalLine "  Service Acct:  " run.spec.taskRunTemplate.serviceAccountName
      run.spec.taskRunTemplate.serviceAccountName

/-- The schedule of a run. The time is only looked up when there is a schedule. -/
def schedule (painted : Bool) (run : PipelineRun) : Logged String :=
  if run.hasScheduledWorkflowParent then do
    let scheduledAt ← run.scheduledAt
    return section_ painted "Schedule:"
      ++ line ("  Scheduler UID: " ++ paint painted .dimmed run.scheduledWorkflowUid)
      ++ line ("  Scheduled At:  " ++ String.ofList (Text.decimalInt scheduledAt))
  else
    return section_ painted "Schedule:"
      ++ line ("  " ++ paint painted .dimmed "Not owned by a scheduled workflow")

/-- The emphasis of a condition that the run no longer leaves. -/
def emphasis : TerminalReason → Emphasis
  | .succeeded => .green
  | .completed => .green
  | _ => .red

def condition (painted : Bool) (reason : String) : String :=
  match TerminalReason.ofWord? reason with
  | some terminal => paint painted (emphasis terminal) terminal.word
  | none => if reason.isEmpty then paint painted .dimmed "-" else paint painted .cyan reason

def mark (painted answer : Bool) : String :=
  if answer then paint painted .green "✓" else paint painted .dimmed "✗"

def finished (painted : Bool) (run : PipelineRun) : String :=
  match run.completion? with
  | some completed => completed.display
  | none => paint painted .dimmed "no"

def state (painted : Bool) (run : PipelineRun) : String :=
  section_ painted "State:"
    ++ line ("  Condition:     " ++ condition painted run.condition)
    ++ line ("  Finished:      " ++ finished painted run)
    ++ line ("  Final:         " ++ mark painted run.isInFinalState)
    ++ line ("  Persisted:     " ++ mark painted run.persistedFinalState)
    ++ line ("  V2 Compatible: " ++ mark painted run.isSecondVersion)

/-- The parameters of a run, in the order of their names. -/
def parameters (painted : Bool) (run : PipelineRun) : String :=
  let entries := run.parameters.entries
  if entries.isEmpty then ""
  else
    section_ painted "Parameters:"
      ++ String.join (entries.map fun entry =>
        line ("  " ++ paint painted .cyan entry.1 ++ " = " ++ entry.2))

def report (painted : Bool) (run : PipelineRun) : Logged String := do
  let schedule ← schedule painted run
  return identity painted run ++ schedule ++ state painted run ++ parameters painted run

end RunManifest.Command.Inspect
