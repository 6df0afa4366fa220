import RunManifest.Run.Basic
import RunManifest.Yaml.Format
import RunManifest.Yaml.Printer

/-!
Contract: manifests, the texts in which runs are given and printed.

Owns:
- `Manifest.Form`, the two forms of such texts;
- `Manifest.parse`, which reads a text in a given form or in whichever fits, and
  `Manifest.render`, which prints a run.

Without a form JSON is tried first, and YAML if that fails for any reason.
-/

set_option autoImplicit false

namespace RunManifest.Manifest

/-- The form of a manifest. -/
inductive Form where
  | json
  | yaml
deriving DecidableEq, Repr

/-- Why a text is no manifest. -/
inductive ParseError where
  /-- It is no JSON manifest, for the given reason. -/
  | invalidJson (cause : Problem)
  /-- It is no YAML manifest, for the given reason. -/
  | invalidYaml (cause : Problem)
  /-- It is neither. -/
  | unrecognized
deriving DecidableEq, Repr

def ParseError.message : ParseError → String
  | .invalidJson _ => "Invalid JSON manifest"
  | .invalidYaml _ => "Invalid YAML manifest"
  | .unrecognized => "Manifest is neither valid JSON nor valid YAML"

def ofYamlText (text : String) : Except Problem PipelineRun :=
  Yaml.decode (fun format => (PipelineRun.schema format).read format) text

def parse (form : Option Form) (text : String) : Except ParseError PipelineRun :=
  match form with
  | some .json => (PipelineRun.ofJsonText text).mapError .invalidJson
  | some .yaml => (ofYamlText text).mapError .invalidYaml
  | none =>
      match PipelineRun.ofJsonText text with
      | .ok run => .ok run
      | .error _ => (ofYamlText text).mapError fun _ => .unrecognized

def render (form : Form) (run : PipelineRun) : String :=
  match form with
  | .json => String.ofList run.toJson.pretty
  | .yaml => String.ofList run.toJson.yaml

end RunManifest.Manifest
