import RunManifest.Document.Format
import RunManifest.Word64
import RunManifest.Yaml.Meaning
import RunManifest.Yaml.Node

/-!
Contract: YAML as a document format.

Owns:
- `Reading`, reading while it is counted how many references are followed;
- `Anchors`, what references stand for, and `Anchors.follow`, which follows one;
- `Yaml.format`, the answers of the nodes of a document;
- `Yaml.decode`, which reads a text that holds at most one document.

Where a text is expected the text of any scalar is taken. Elsewhere a plain scalar means what it
looks like, unless a tag says otherwise. An empty plain scalar also stands for a container without
content.

References can make a short text stand for a very large document. The number of references that are
followed while a text is read is therefore limited by the size of its tree.
-/

set_option autoImplicit false

namespace RunManifest.Yaml

/-! ## References -/

/-- Reading nodes. The state is the number of references that may still be followed. -/
abbrev Reading := StateT Nat (Except Problem)

/-- What references stand for: nodes by the numbers of their anchors. -/
abbrev Anchors := List (Nat × Node)

/-- How many references may be followed for each unit of a document's size. -/
def repetitionLimit : Nat := 100

namespace Anchors

/-- What the references in a document stand for. -/
def ofNode (node : Node) : Anchors :=
  node.anchored.reverse

def target (anchors : Anchors) (node : Node) : Node :=
  match node with
  | .alias number => ((anchors.find? fun entry => entry.1 == number).map Prod.snd).getD node
  | node => node

/-- The node that a node stands for, counted if it is a reference. -/
def follow (anchors : Anchors) (node : Node) : Reading Node := fun budget =>
  match node, budget with
  | .alias _, 0 => .error .irregular
  | .alias _, budget + 1 => .ok (anchors.target node, budget)
  | node, budget => .ok (node, budget)

end Anchors

/-! ## Scalars -/

/-- A tag that says what a scalar is. -/
def coreTag (word : String) : Tag :=
  .ofText ("tag:yaml.org,2002:" ++ word)

/-- Whether a node cannot be read as a value because its tag is one of the application's own. -/
def isForeign (tag : Option Tag) : Bool :=
  tag.any fun tag => tag.isLocal && tag.isLegible

/-- An integer as a document value. Beyond 64 bits it has none. -/
def integerValue (value : Int) : Except Problem Json :=
  if -(Word64.signedBound : Int) ≤ value ∧ value < (Word64.unsignedBound : Int) then
    .ok (.number (.integer value))
  else .error .irregular

def plainValue (text : String) : Except Problem Json :=
  match meaning text with
  | .null => .ok .null
  | .flag value => .ok (.flag value)
  | .integer value => integerValue value
  | .number value => .ok (.number (.float value))
  | .nonFinite => .ok .null
  | .text => .ok (.text text)

def taggedNumber (text : String) : Except Problem Json :=
  if nonFiniteWords.contains text then .ok .null
  else
    match number? text.toList with
    | some value => .ok (.number (.float value))
    | none => .error .irregular

/-- What a scalar with a tag is. A tag of the application that cannot be told says nothing about a
plain scalar. -/
def taggedValue (tag : Tag) (style : ScalarStyle) (text : String) : Except Problem Json :=
  if tag = coreTag "bool" then
    match flag? text with
    | some value => .ok (.flag value)
    | none => .error .irregular
  else if tag = coreTag "int" then
    match integer? text.toList with
    | some value => integerValue value
    | none => .error .irregular
  else if tag = coreTag "float" then taggedNumber text
  else if tag = coreTag "null" then
    if isNullWord text then .ok .null else .error .irregular
  else if tag.isLocal ∧ style = .plain then plainValue text
  else .ok (.text text)

def scalarValue (tag : Option Tag) (style : ScalarStyle) (text : String) : Except Problem Json :=
  match tag with
  | some tag => taggedValue tag style text
  | none => if style = .plain then plainValue text else .ok (.text text)

namespace Node

def isEmpty : Node → Bool
  | .scalar _ _ .plain text => text.isEmpty
  | _ => false

def found : Node → Found
  | .scalar _ _ _ text => .text text
  | .sequence _ _ _ => .sequence
  | .mapping _ _ _ => .mapping
  | .alias _ => .null

def unexpected {α : Type} (expected : Expected) (node : Node) : Reading α :=
  throw (.mismatch (.wrongType node.found expected))

def text (anchors : Anchors) (expected : Expected) (node : Node) : Reading String := do
  match ← anchors.follow node with
  | .scalar _ _ _ text => return text
  | node => node.unexpected expected

/-- The truth value of a node: a plain scalar, or a literal one with a tag that says so. -/
def flag (anchors : Anchors) (node : Node) : Reading Bool := do
  match ← anchors.follow node with
  | .scalar anchor tag style text =>
      match (style = .plain ∨ (style = .literal ∧ tag = some (coreTag "bool")) : Bool),
        flag? text with
      | true, some value => return value
      | _, _ => (Node.scalar anchor tag style text).unexpected .flag
  | node => node.unexpected .flag

/-- Whether a scalar without quotes stands for nothing. -/
def isNothing (tag : Option Tag) (text : String) : Except Problem Bool :=
  match tag with
  | none => .ok (text.isEmpty || isNullWord text)
  | some tag =>
      if tag = coreTag "null" then if isNullWord text then .ok true else .error .irregular
      else .ok false

/-- Whether a node stands for nothing. A reference that stands for something is counted when that is
read. -/
def isAbsent (anchors : Anchors) (node : Node) : Reading Bool := do
  match anchors.target node with
  | .scalar _ tag .plain text =>
      if ← Document.settled (isNothing tag text) then
        let _ ← anchors.follow node
        return true
      else return false
  | _ => return false

def listed (items : List Node) : Document.Sequence Node :=
  ⟨items, .ok (), fun surplus => if surplus.isEmpty then .ok () else .error .irregular⟩

def sequenceOf (anchors : Anchors) (node : Node) : Reading (Document.Sequence Node) := do
  match ← anchors.follow node with
  | .sequence _ _ items => return listed items
  | node => if node.isEmpty then return listed [] else node.unexpected .sequence

def membersOf (anchors : Anchors) (expected : Expected) (node : Node) :
    Reading (Document.Members Reading Node) := do
  match ← anchors.follow node with
  | .mapping _ _ members =>
      return ⟨members.map fun (key, value) => (key.text anchors .text, value), .ok ()⟩
  | node => if node.isEmpty then return ⟨[], .ok ()⟩ else node.unexpected expected

/-- The key of a member: a value that is a text. -/
def keyText (value : Json) : Except Problem String :=
  match value with
  | .text key => .ok key
  | _ => .error .irregular

/-- Reading a value whole. The number is that of the containers that may be open inside each other
here. -/
def value (anchors : Anchors) : Nat → Node → Reading Json
  | levels, node => do
      match levels, ← anchors.follow node with
      | _, .scalar _ tag style text =>
          if isForeign tag then throw .irregular
          else Document.settled (scalarValue tag style text)
      | levels + 1, .sequence _ tag items =>
          if isForeign tag then throw .irregular
          else return .array (← items.mapM (value anchors levels))
      | levels + 1, .mapping _ tag members =>
          if isForeign tag then throw .irregular
          else
            let members ← members.mapM fun (key, node) => do
              let key ← Document.settled (keyText (← value anchors levels key))
              return (key, ← value anchors levels node)
            return .object members
      | _, _ => throw (.malformed .tooDeep)

end Node

open Document in
/-- YAML as a document format, for a document with the given anchors. -/
def format (anchors : Anchors) : Format Reading Node where
  text := Node.text anchors
  flag := Node.flag anchors
  isAbsent := Node.isAbsent anchors
  sequence := Node.sequenceOf anchors
  mapping := Node.membersOf anchors .mapping
  record _ name node := .keyed <$> Node.membersOf anchors (.record name) node
  value := Node.value anchors
  skip _ := return ()

/-- The number of containers that may be open at once. -/
def levels : Nat := 128

/-- Reading a text that holds at most one document. -/
def decode {α : Type}
    (read : Document.Format Reading Node → Nat → Node → Reading α)
    (text : String) :
    Except Problem α :=
  match (tokens? text).bind Node.ofTokens? with
  | some node =>
      (read (format (.ofNode node)) levels node).run' (repetitionLimit * node.size)
  | none => .error .irregular

end RunManifest.Yaml
