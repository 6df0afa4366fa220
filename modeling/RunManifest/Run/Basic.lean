import RunManifest.Json.Format
import RunManifest.Run.Spec
import RunManifest.Run.Status

/-!
Contract: runs of pipelines as documents.

Owns:
- `PipelineRun`, the record that is submitted to have a pipeline run;
- its documents, and reading and writing it as JSON;
- `PipelineRun.stored`, the text in which runs are kept;
- `PipelineRun.same`, the comparison of runs, which ignores the signs of zeros.
-/

set_option autoImplicit false

namespace RunManifest

/-- A run of a pipeline. -/
structure PipelineRun where
  apiVersion : String
  kind : String
  metadata : ObjectMeta
  spec : PipelineRunSpec
  status : PipelineRunStatus
deriving DecidableEq, Inhabited

namespace PipelineRun

def blank : PipelineRun :=
  ⟨"", "", .blank, .blank, .blank⟩

open Document in
def schema {m : Type → Type} [Monad m] [MonadExceptOf Problem m] {ν : Type} (format : Format m ν) :
    Schema m ν PipelineRun where
  name := "PipelineRun"
  blank := blank
  fields :=
    [ Field.text format "apiVersion" (·.apiVersion)
        (fun value run => { run with apiVersion := value }),
      Field.text format "kind" (·.kind)
        (fun value run => { run with kind := value }),
      Field.part "metadata" false ((ObjectMeta.schema format).read format)
        (ObjectMeta.schema format).write (fun _ => false) (·.metadata)
        (fun value run => { run with metadata := value }),
      Field.part "spec" false ((PipelineRunSpec.schema format).read format)
        (PipelineRunSpec.schema format).write (fun _ => false) (·.spec)
        (fun value run => { run with spec := value }),
      Field.part "status" false ((PipelineRunStatus.schema format).read format)
        (PipelineRunStatus.schema format).write PipelineRunStatus.isEmpty (·.status)
        (fun value run => { run with status := value }) ]
  others := .dropped

def ofJsonText (text : String) : Except Problem PipelineRun :=
  Json.decode ((schema Json.format).read Json.format) text

def toJson (run : PipelineRun) : Json :=
  (schema Json.format).write run

/-- The text in which a run is kept. -/
def stored (run : PipelineRun) : String :=
  String.ofList run.toJson.compact

def withoutZeroSigns (run : PipelineRun) : PipelineRun :=
  { run with
    metadata := run.metadata.withoutZeroSigns
    spec := run.spec.withoutZeroSigns
    status := run.status.withoutZeroSigns }

/-- Whether two runs are the same, positive and negative zeros being equal. -/
def same (left right : PipelineRun) : Bool :=
  left.withoutZeroSigns = right.withoutZeroSigns

end PipelineRun

end RunManifest
