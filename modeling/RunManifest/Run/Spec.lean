import RunManifest.Document.Schema

/-!
Contract: what a run is asked to do.

Owns:
- `ParamValue` and `Param`, the parameters of a run;
- `TaskRunTemplate`, what every task of the run starts from;
- `PipelineRunSpec`, parameters, template and all other members;
- their documents.
-/

set_option autoImplicit false

namespace RunManifest

/-- The value of a parameter. -/
inductive ParamValue where
  | text (value : String)
  | list (values : List String)
  | map (values : Dictionary String)
deriving DecidableEq

namespace ParamValue

instance : Inhabited ParamValue := ⟨.text ""⟩

/-- The value as a text. Lists and maps show as the empty text. -/
def asText : ParamValue → String
  | .text value => value
  | .list _ => ""
  | .map _ => ""

def text? : Json → Option String
  | .text value => some value
  | _ => none

def textMember? (member : String × Json) : Option (String × String) :=
  (text? member.2).map fun value => (member.1, value)

def ofJson? : Json → Option ParamValue
  | .text value => some (.text value)
  | .array items => (items.mapM text?).map .list
  | .object members => (members.mapM textMember?).map fun entries => .map (.ofList entries)
  | _ => none

def write : ParamValue → Json
  | .text value => .text value
  | .list values => .array (values.map Json.text)
  | .map values => .object (values.map Json.text).entries

open Document in
/-- A parameter value, which is read whole before its shape is looked at. -/
def read
    {m : Type → Type} [Monad m] [MonadExceptOf Problem m] {ν : Type}
    (format : Format m ν)
    (levels : Nat)
    (node : ν) :
    m ParamValue := do
  let value ← format.value levels node
  match ofJson? value with
  | some value => return value
  | none => throw (Problem.mismatch .unknownShape)

end ParamValue

/-- A parameter. -/
structure Param where
  name : String
  value : ParamValue
deriving DecidableEq, Inhabited

namespace Param

open Document in
def schema {m : Type → Type} [Monad m] [MonadExceptOf Problem m] {ν : Type} (format : Format m ν) :
    Schema m ν Param where
  name := "Param"
  blank := ⟨"", .text ""⟩
  fields :=
    [ Field.writtenText format "name" true (·.name)
        (fun value param => { param with name := value }),
      Field.part "value" true (ParamValue.read format) ParamValue.write (fun _ => false) (·.value)
        (fun value param => { param with value := value }) ]
  others := .dropped

end Param

/-- What every task of a run starts from. -/
structure TaskRunTemplate where
  /-- The identity that tasks run as. -/
  serviceAccountName : String
  /-- All other members. -/
  extra : Dictionary Json
deriving DecidableEq, Inhabited

namespace TaskRunTemplate

def blank : TaskRunTemplate :=
  ⟨"", .empty⟩

def isEmpty (template : TaskRunTemplate) : Bool :=
  template.serviceAccountName.isEmpty && template.extra.isEmpty

def withoutZeroSigns (template : TaskRunTemplate) : TaskRunTemplate :=
  { template with extra := template.extra.map Json.withoutZeroSigns }

open Document in
def schema {m : Type → Type} [Monad m] [MonadExceptOf Problem m] {ν : Type} (format : Format m ν) :
    Schema m ν TaskRunTemplate where
  name := "TaskRunTemplate"
  blank := blank
  fields :=
    [ Field.text format "serviceAccountName" (·.serviceAccountName)
        (fun value template => { template with serviceAccountName := value }) ]
  others := .kept (·.extra) (fun extra template => { template with extra := extra })

end TaskRunTemplate

/-- What a run is asked to do. -/
structure PipelineRunSpec where
  /-- The declared parameters, in order. -/
  params : List Param
  taskRunTemplate : TaskRunTemplate
  /-- The pipeline, time limits, workspaces and all other members. -/
  extra : Dictionary Json
deriving DecidableEq, Inhabited

namespace PipelineRunSpec

def blank : PipelineRunSpec :=
  ⟨[], .blank, .empty⟩

def withoutZeroSigns (spec : PipelineRunSpec) : PipelineRunSpec :=
  { spec with
    taskRunTemplate := spec.taskRunTemplate.withoutZeroSigns
    extra := spec.extra.map Json.withoutZeroSigns }

open Document in
def schema {m : Type → Type} [Monad m] [MonadExceptOf Problem m] {ν : Type} (format : Format m ν) :
    Schema m ν PipelineRunSpec where
  name := "PipelineRunSpec"
  blank := blank
  fields :=
    [ Field.list format "params" ((Param.schema format).read format) (Param.schema format).write
        (·.params)
        (fun value spec => { spec with params := value }),
      Field.part "taskRunTemplate" false ((TaskRunTemplate.schema format).read format)
        (TaskRunTemplate.schema format).write TaskRunTemplate.isEmpty (·.taskRunTemplate)
        (fun value spec => { spec with taskRunTemplate := value }) ]
  others := .kept (·.extra) (fun extra spec => { spec with extra := extra })

end PipelineRunSpec

end RunManifest
