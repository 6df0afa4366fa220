import RunManifest.Keys
import RunManifest.Run.Basic

/-!
Contract: the labels and annotations of a run.
-/

set_option autoImplicit false

namespace RunManifest.PipelineRun

def name (run : PipelineRun) : String :=
  run.metadata.name

def setLabel (key value : String) (run : PipelineRun) : PipelineRun :=
  { run with metadata := run.metadata.setLabel key value }

def setAnnotation (key value : String) (run : PipelineRun) : PipelineRun :=
  { run with metadata := run.metadata.setAnnotation key value }

def setRunIdLabel (id : String) (run : PipelineRun) : PipelineRun :=
  run.setLabel LabelKey.runId id

end RunManifest.PipelineRun
