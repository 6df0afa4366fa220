import RunManifest.Document.Schema
import RunManifest.Instant.Printer
import RunManifest.Kind

/-!
Contract: the metadata of objects.

Owns:
- `OwnerReference`, a reference to the object that owns another;
- `ObjectMeta`, names, labels, annotations and owners, with all other members kept;
- their documents.

Of `name` and `generateName` an object that is ready to be submitted has one: either its name, or
what the control plane completes to a name.
-/

set_option autoImplicit false

namespace RunManifest

/-- A reference to an owner. -/
structure OwnerReference where
  apiVersion : String
  kind : String
  name : String
  uid : String
  /-- Whether the owner manages the object. -/
  controller : Option Bool
  /-- Whether the owner has to wait for the object when it is deleted. -/
  blockOwnerDeletion : Option Bool
deriving DecidableEq, Repr, Inhabited

namespace OwnerReference

/-- A reference to an owner that manages the object and has to wait for it. -/
def managing (kind : Kind) (name uid : String) : OwnerReference :=
  { apiVersion := kind.apiVersion
    kind := kind.name
    name := name
    uid := uid
    controller := some true
    blockOwnerDeletion := some true }

def isKind (reference : OwnerReference) (kind : Kind) : Bool :=
  reference.apiVersion == kind.apiVersion && reference.kind == kind.name

def blank : OwnerReference :=
  ⟨"", "", "", "", none, none⟩

open Document in
def schema {m : Type → Type} [Monad m] [MonadExceptOf Problem m] {ν : Type} (format : Format m ν) :
    Schema m ν OwnerReference where
  name := "OwnerReference"
  blank := blank
  fields :=
    [ Field.writtenText format "apiVersion" true (·.apiVersion)
        (fun value reference => { reference with apiVersion := value }),
      Field.writtenText format "kind" true (·.kind)
        (fun value reference => { reference with kind := value }),
      Field.writtenText format "name" true (·.name)
        (fun value reference => { reference with name := value }),
      Field.writtenText format "uid" true (·.uid)
        (fun value reference => { reference with uid := value }),
      Field.optional format "controller" (fun _ => format.flag) Json.flag (·.controller)
        (fun value reference => { reference with controller := value }),
      Field.optional format "blockOwnerDeletion" (fun _ => format.flag) Json.flag
        (·.blockOwnerDeletion)
        (fun value reference => { reference with blockOwnerDeletion := value }) ]
  others := .dropped

end OwnerReference

/-- The metadata of an object. -/
structure ObjectMeta where
  name : String
  /-- What the control plane completes to a name. -/
  generateName : String
  «namespace» : String
  uid : String
  resourceVersion : String
  creationTimestamp : Option Instant
  labels : Option (Dictionary String)
  annotations : Option (Dictionary String)
  ownerReferences : Option (List OwnerReference)
  /-- All other members. -/
  extra : Dictionary Json
deriving DecidableEq, Inhabited

namespace ObjectMeta

def blank : ObjectMeta where
  name := ""
  generateName := ""
  «namespace» := ""
  uid := ""
  resourceVersion := ""
  creationTimestamp := none
  labels := none
  annotations := none
  ownerReferences := none
  extra := .empty

def label? (metadata : ObjectMeta) (key : String) : Option String :=
  metadata.labels.bind (Dictionary.find? key)

def annotation? (metadata : ObjectMeta) (key : String) : Option String :=
  metadata.annotations.bind (Dictionary.find? key)

def setLabel (key value : String) (metadata : ObjectMeta) : ObjectMeta :=
  { metadata with labels := some ((metadata.labels.getD .empty).insert key value) }

def setAnnotation (key value : String) (metadata : ObjectMeta) : ObjectMeta :=
  { metadata with annotations := some ((metadata.annotations.getD .empty).insert key value) }

/-- The owners, none when they are not given. -/
def owners (metadata : ObjectMeta) : List OwnerReference :=
  metadata.ownerReferences.getD []

def withoutZeroSigns (metadata : ObjectMeta) : ObjectMeta :=
  { metadata with extra := metadata.extra.map Json.withoutZeroSigns }

def writeTexts (texts : Dictionary String) : Json :=
  .object (texts.map Json.text).entries

def writeInstant (instant : Instant) : Json :=
  .text instant.text

open Document in
def schema {m : Type → Type} [Monad m] [MonadExceptOf Problem m] {ν : Type} (format : Format m ν) :
    Schema m ν ObjectMeta where
  name := "ObjectMeta"
  blank := blank
  fields :=
    [ Field.text format "name" (·.name)
        (fun value metadata => { metadata with name := value }),
      Field.text format "generateName" (·.generateName)
        (fun value metadata => { metadata with generateName := value }),
      Field.text format "namespace" (·.«namespace»)
        (fun value metadata => { metadata with «namespace» := value }),
      Field.text format "uid" (·.uid)
        (fun value metadata => { metadata with uid := value }),
      Field.text format "resourceVersion" (·.resourceVersion)
        (fun value metadata => { metadata with resourceVersion := value }),
      Field.optional format "creationTimestamp" (readInstant format) writeInstant
        (·.creationTimestamp)
        (fun value metadata => { metadata with creationTimestamp := value }),
      Field.optional format "labels" (readTexts format) writeTexts (·.labels)
        (fun value metadata => { metadata with labels := value }),
      Field.optional format "annotations" (readTexts format) writeTexts (·.annotations)
        (fun value metadata => { metadata with annotations := value }),
      Field.optional format "ownerReferences"
        (readList format ((OwnerReference.schema format).read format))
        (fun references => .array (references.map (OwnerReference.schema format).write))
        (·.ownerReferences)
        (fun value metadata => { metadata with ownerReferences := value }) ]
  others := .kept (·.extra) (fun extra metadata => { metadata with extra := extra })

end ObjectMeta

end RunManifest
