import RunManifest.Run.Metadata

/-!
Contract: what is known about the progress of a run.

Owns:
- `Condition`, a statement about a run with the reason for it;
- `ChildReference`, a reference to a task that the run started;
- `PipelineRunStatus`, conditions, times, children and all other members;
- their documents.
-/

set_option autoImplicit false

namespace RunManifest

/-- A statement about a run. -/
structure Condition where
  /-- What the statement is about. -/
  type : String
  /-- Whether it holds: `True`, `False` or `Unknown`. -/
  status : String
  reason : String
  message : String
  lastTransitionTime : Option Instant
  /-- All other members. -/
  extra : Dictionary Json
deriving DecidableEq, Inhabited

namespace Condition

def blank : Condition :=
  ⟨"", "", "", "", none, .empty⟩

def withoutZeroSigns (condition : Condition) : Condition :=
  { condition with extra := condition.extra.map Json.withoutZeroSigns }

open Document in
/-- The documents of conditions. What a condition is about is written even when it is empty. -/
def schema {m : Type → Type} [Monad m] [MonadExceptOf Problem m] {ν : Type} (format : Format m ν) :
    Schema m ν Condition where
  name := "Condition"
  blank := blank
  fields :=
    [ Field.writtenText format "type" false (·.type)
        (fun value condition => { condition with type := value }),
      Field.text format "status" (·.status)
        (fun value condition => { condition with status := value }),
      Field.text format "reason" (·.reason)
        (fun value condition => { condition with reason := value }),
      Field.text format "message" (·.message)
        (fun value condition => { condition with message := value }),
      Field.optional format "lastTransitionTime" (readInstant format) ObjectMeta.writeInstant
        (·.lastTransitionTime)
        (fun value condition => { condition with lastTransitionTime := value }) ]
  others := .kept (·.extra) (fun extra condition => { condition with extra := extra })

end Condition

/-- A reference to a task that a run started. -/
structure ChildReference where
  name : String
  pipelineTaskName : String
  kind : String
  apiVersion : String
  /-- All other members. -/
  extra : Dictionary Json
deriving DecidableEq, Inhabited

namespace ChildReference

def blank : ChildReference :=
  ⟨"", "", "", "", .empty⟩

def withoutZeroSigns (child : ChildReference) : ChildReference :=
  { child with extra := child.extra.map Json.withoutZeroSigns }

open Document in
def schema {m : Type → Type} [Monad m] [MonadExceptOf Problem m] {ν : Type} (format : Format m ν) :
    Schema m ν ChildReference where
  name := "ChildReference"
  blank := blank
  fields :=
    [ Field.writtenText format "name" true (·.name)
        (fun value child => { child with name := value }),
      Field.text format "pipelineTaskName" (·.pipelineTaskName)
        (fun value child => { child with pipelineTaskName := value }),
      Field.text format "kind" (·.kind)
        (fun value child => { child with kind := value }),
      Field.text format "apiVersion" (·.apiVersion)
        (fun value child => { child with apiVersion := value }) ]
  others := .kept (·.extra) (fun extra child => { child with extra := extra })

end ChildReference

/-- The progress of a run. -/
structure PipelineRunStatus where
  /-- The conditions, the most significant first. -/
  conditions : List Condition
  startTime : Option Instant
  /-- When the run ended, present only once it has. -/
  completionTime : Option Instant
  childReferences : List ChildReference
  /-- All other members. -/
  extra : Dictionary Json
deriving DecidableEq, Inhabited

namespace PipelineRunStatus

def blank : PipelineRunStatus :=
  ⟨[], none, none, [], .empty⟩

def isEmpty (status : PipelineRunStatus) : Bool :=
  status.conditions.isEmpty && status.startTime.isNone && status.completionTime.isNone
    && status.childReferences.isEmpty && status.extra.isEmpty

def withoutZeroSigns (status : PipelineRunStatus) : PipelineRunStatus :=
  { status with
    conditions := status.conditions.map Condition.withoutZeroSigns
    childReferences := status.childReferences.map ChildReference.withoutZeroSigns
    extra := status.extra.map Json.withoutZeroSigns }

open Document in
def schema {m : Type → Type} [Monad m] [MonadExceptOf Problem m] {ν : Type} (format : Format m ν) :
    Schema m ν PipelineRunStatus where
  name := "PipelineRunStatus"
  blank := blank
  fields :=
    [ Field.list format "conditions" ((Condition.schema format).read format)
        (Condition.schema format).write (·.conditions)
        (fun value status => { status with conditions := value }),
      Field.optional format "startTime" (readInstant format) ObjectMeta.writeInstant (·.startTime)
        (fun value status => { status with startTime := value }),
      Field.optional format "completionTime" (readInstant format) ObjectMeta.writeInstant
        (·.completionTime)
        (fun value status => { status with completionTime := value }),
      Field.list format "childReferences" ((ChildReference.schema format).read format)
        (ChildReference.schema format).write (·.childReferences)
        (fun value status => { status with childReferences := value }) ]
  others := .kept (·.extra) (fun extra status => { status with extra := extra })

end PipelineRunStatus

end RunManifest
