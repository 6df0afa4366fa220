import RunManifest.Document.Format

/-!
Contract: records and their documents.

Owns:
- `Field`, a named part of a record with its reader and its writer;
- `Schema`, the fields of a record in order and what becomes of other members;
- `Schema.read`, which reads a record given by key or by position, and `Schema.write`, which gives
  its document.

A known member that stands there twice is a mismatch, reported at the second key. A required member
that is not there is a mismatch, reported at the end of the record. A record that keeps other
members cannot be given by position.
-/

set_option autoImplicit false

namespace RunManifest.Document

/-- A named part of a record. -/
structure Field (m : Type → Type) (ν ρ : Type) where
  /-- The key of the part. -/
  name : String
  /-- Whether the part has to be there. -/
  required : Bool
  /-- What a node says about the part, as a change of the record. -/
  read : Nat → ν → m (ρ → ρ)
  /-- The document of the part, none when it is left out. -/
  write : ρ → Option Json

/-- What becomes of members that a record does not know. -/
inductive Others (ρ : Type) where
  /-- They are passed over. -/
  | dropped
  /-- They are kept with their values. -/
  | kept (get : ρ → Dictionary Json) (put : Dictionary Json → ρ → ρ)

def Others.areKept {ρ : Type} : Others ρ → Bool
  | .dropped => false
  | .kept _ _ => true

/-- The documents of a kind of record. -/
structure Schema (m : Type → Type) (ν ρ : Type) where
  /-- The name of the record in messages. -/
  name : String
  /-- The record before anything was read. -/
  blank : ρ
  /-- The known parts, in the order in which they are written. -/
  fields : List (Field m ν ρ)
  /-- What becomes of other members. -/
  others : Others ρ

/-- A record on its way: the keys seen so far and the record so far. -/
structure Progress (ρ : Type) where
  seen : List String
  record : ρ

namespace Schema

variable {m : Type → Type} [Monad m] [MonadExceptOf Problem m] {ν ρ : Type}

def field? (schema : Schema m ν ρ) (name : String) : Option (Field m ν ρ) :=
  schema.fields.find? fun field => field.name == name

def readMember
    (schema : Schema m ν ρ)
    (format : Format m ν)
    (levels : Nat)
    (progress : Progress ρ)
    (key : String)
    (node : ν) :
    m (Progress ρ) :=
  match schema.field? key with
  | some field =>
      if progress.seen.contains key then throw (Problem.mismatch (.duplicateField key))
      else do
        let change ← field.read levels node
        return ⟨key :: progress.seen, change progress.record⟩
  | none =>
      match schema.others with
      | .dropped => do
          format.skip node
          return progress
      | .kept get put => do
          let value ← format.value levels node
          return { progress with
            record := put ((get progress.record).insert key value.normal) progress.record }

def readMembers
    (schema : Schema m ν ρ)
    (format : Format m ν)
    (levels : Nat) :
    Progress ρ → List (m String × ν) → m (Progress ρ)
  | progress, [] => return progress
  | progress, (key, node) :: rest => do
      let key ← key
      let progress ← schema.readMember format levels progress key node
      schema.readMembers format levels progress rest

def missing? (schema : Schema m ν ρ) (seen : List String) : Option String :=
  (schema.fields.find? fun field => field.required && !seen.contains field.name).map Field.name

def readKeyed
    (schema : Schema m ν ρ)
    (format : Format m ν)
    (levels : Nat)
    (members : Members m ν) :
    m ρ := do
  let progress ← schema.readMembers format levels ⟨[], schema.blank⟩ members.entries
  settled members.ending
  match schema.missing? progress.seen with
  | some name => throw (Problem.mismatch (.missingField name))
  | none => return progress.record

/-- Values read into fields of the same position, as far as both go: the record, the fields without
a value and the values without a field. -/
def readPositions
    (levels : Nat) :
    ρ → List (Field m ν ρ) → List ν → m (ρ × List (Field m ν ρ) × List ν)
  | record, [], nodes => return (record, [], nodes)
  | record, fields, [] => return (record, fields, [])
  | record, field :: fields, node :: nodes => do
      let change ← field.read levels node
      readPositions levels (change record) fields nodes

def readPositional
    (schema : Schema m ν ρ)
    (levels : Nat)
    (sequence : Sequence ν) :
    m ρ := do
  let (record, unread, surplus) ← readPositions levels schema.blank schema.fields sequence.items
  -- Whoever has a value for every field asks for no further item.
  settled (if unread.isEmpty then sequence.closing surplus else sequence.ending)
  if unread.any Field.required then
    throw
      (Problem.mismatch
        (.wrongLength sequence.items.length schema.name schema.fields.length))
  else return record

def read
    (schema : Schema m ν ρ)
    (format : Format m ν)
    (levels : Nat)
    (node : ν) :
    m ρ := do
  let layout ← format.record (!schema.others.areKept) schema.name node
  let inner ← enter levels
  match layout with
  | .keyed members => schema.readKeyed format inner members
  | .positional sequence => schema.readPositional inner sequence

def writtenFields (schema : Schema m ν ρ) (record : ρ) : List (String × Json) :=
  schema.fields.filterMap fun field => (field.write record).map fun value => (field.name, value)

def writtenOthers (schema : Schema m ν ρ) (record : ρ) : List (String × Json) :=
  match schema.others with
  | .dropped => []
  | .kept get _ => (get record).entries

/-- The document of a record: its fields in order, then the members it keeps. -/
def write (schema : Schema m ν ρ) (record : ρ) : Json :=
  .object (schema.writtenFields record ++ schema.writtenOthers record)

end Schema

/-! ## Kinds of fields -/

namespace Field

variable {m : Type → Type} [Monad m] [MonadExceptOf Problem m] {ν ρ α : Type}

/-- A text that is left out when it is empty. -/
def text
    (format : Format m ν)
    (name : String)
    (get : ρ → String)
    (set : String → ρ → ρ) :
    Field m ν ρ where
  name := name
  required := false
  read _ node := set <$> format.text .text node
  write record := if (get record).isEmpty then none else some (.text (get record))

/-- A text that is always written. -/
def writtenText
    (format : Format m ν)
    (name : String)
    (required : Bool)
    (get : ρ → String)
    (set : String → ρ → ρ) :
    Field m ν ρ where
  name := name
  required := required
  read _ node := set <$> format.text .text node
  write record := some (.text (get record))

/-- A part that may be absent, and is then left out. -/
def optional
    (format : Format m ν)
    (name : String)
    (readPart : Nat → ν → m α)
    (writePart : α → Json)
    (get : ρ → Option α)
    (set : Option α → ρ → ρ) :
    Field m ν ρ where
  name := name
  required := false
  read levels node := set <$> readOptional format readPart levels node
  write record := (get record).map writePart

/-- A list that is left out when it is empty. -/
def list
    (format : Format m ν)
    (name : String)
    (readPart : Nat → ν → m α)
    (writePart : α → Json)
    (get : ρ → List α)
    (set : List α → ρ → ρ) :
    Field m ν ρ where
  name := name
  required := false
  read levels node := set <$> readList format readPart levels node
  write record :=
    if (get record).isEmpty then none else some (.array ((get record).map writePart))

/-- A part that is left out when it has no content. -/
def part
    (name : String)
    (required : Bool)
    (readPart : Nat → ν → m α)
    (writePart : α → Json)
    (isEmpty : α → Bool)
    (get : ρ → α)
    (set : α → ρ → ρ) :
    Field m ν ρ where
  name := name
  required := required
  read levels node := set <$> readPart levels node
  write record := if isEmpty (get record) then none else some (writePart (get record))

end Field

end RunManifest.Document
