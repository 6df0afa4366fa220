/-!
Contract: the kinds of objects that a control plane manages.

Owns:
- `Kind`, the group, the version and the name of a kind of object;
- `Kind.apiVersion`, the form in which documents give group and version;
- `Kind.scheduledWorkflow`, the kind of the schedules that create runs;
- `Schedule`, the identity of one of them.
-/

set_option autoImplicit false

namespace RunManifest

/-- A kind of object. -/
structure Kind where
  group : String
  version : String
  name : String
deriving DecidableEq, Repr

namespace Kind

/-- Group and version in one text. The core group is empty and leaves the version alone. -/
def apiVersion (kind : Kind) : String :=
  if kind.group.isEmpty then kind.version else kind.group ++ "/" ++ kind.version

def display (kind : Kind) : String :=
  kind.apiVersion ++ ", Kind=" ++ kind.name

def scheduledWorkflow : Kind :=
  ⟨"kubeflow.org", "v1beta1", "ScheduledWorkflow"⟩

end Kind

/-- The identity of a schedule. -/
structure Schedule where
  name : String
  uid : String
deriving DecidableEq, Repr

end RunManifest
