import RunManifest.Log
import RunManifest.Text.Replace
import RunManifest.Workflow.Labels

/-!
Contract: putting values in the place of placeholders throughout a run.

Owns:
- `Substitution`, a named list of replacements;
- `substituteText`, which replaces in the stored text of the run and reads the result again;
- `Corruption`, what is known when the result is no run any more;
- `replaceUid` and `replaceEarlierRunName`.

Values are not escaped. One with a quote, a backslash or a control character may corrupt the text,
and the run is then left as it was.
-/

set_option autoImplicit false

namespace RunManifest

/-- Replacements of placeholders, applied one after the other. -/
structure Substitution where
  /-- What the substitution is for. -/
  operation : String
  replacements : List (String × String)
deriving DecidableEq, Repr

namespace Substitution

def runUid (id : String) : Substitution :=
  ⟨"replace run uid", [(Placeholder.workflowUid, id), (Placeholder.pipelineRunUid, id)]⟩

def earlierRunName (name : String) : Substitution :=
  ⟨"replace original run name", [(Placeholder.earlierRunName, name)]⟩

end Substitution

/-- A substitution whose result is no run. -/
structure Corruption where
  operation : String
  /-- The stored text of the run before the substitution. -/
  manifest : String
  /-- Why the result cannot be read. -/
  cause : Problem
deriving DecidableEq, Repr

def Corruption.message (corruption : Corruption) : String :=
  "Failed to " ++ corruption.operation
    ++ ": substituted manifest does not deserialize. Workflow: " ++ corruption.manifest

/-- A way to carry out substitutions. -/
abbrev Substitution.Strategy := Substitution → PipelineRun → Except Corruption PipelineRun

namespace PipelineRun

/-- The run after replacements in its stored text. -/
def substituteText : Substitution.Strategy := fun substitution run =>
  match ofJsonText (Text.replaceEach substitution.replacements run.stored) with
  | .ok result => .ok result
  | .error cause => .error ⟨substitution.operation, run.stored, cause⟩

def substituteWith
    (strategy : Substitution.Strategy)
    (substitution : Substitution)
    (announcement : String)
    (run : PipelineRun) :
    Logged (Except Corruption PipelineRun) :=
  match strategy substitution run with
  | .ok result => do
      Logged.report .debug .substitution announcement
      return .ok result
  | .error corruption => return .error corruption

/-- The run with both placeholders of its identifier replaced, by a given strategy. -/
def replaceUidWith (strategy : Substitution.Strategy) (id : String) (run : PipelineRun) :
    Logged (Except Corruption PipelineRun) :=
  substituteWith strategy (.runUid id) ("Replaced run uid placeholders with " ++ id) run

def replaceUid (id : String) (run : PipelineRun) : Logged (Except Corruption PipelineRun) :=
  replaceUidWith substituteText id run

/-- The run with the placeholder of the earlier name replaced, by a given strategy. -/
def replaceEarlierRunNameWith
    (strategy : Substitution.Strategy)
    (name : String)
    (run : PipelineRun) :
    Logged (Except Corruption PipelineRun) :=
  substituteWith strategy (.earlierRunName name)
    ("Replaced original run name placeholder with " ++ name) run

def replaceEarlierRunName (name : String) (run : PipelineRun) :
    Logged (Except Corruption PipelineRun) :=
  replaceEarlierRunNameWith substituteText name run

end PipelineRun

end RunManifest
