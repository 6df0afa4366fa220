import RunManifest.Document.Format
import RunManifest.Json.Reader

/-!
Contract: JSON as a document format.

Owns `Json.format`, the answers of the nodes of a JSON text. The kind of a container is known from
its first character, so a container of the wrong kind is a mismatch whatever is in it; a string or a
number is read to its end first.
-/

set_option autoImplicit false

namespace RunManifest.Json

namespace Node

def found : Node → Except Problem Found
  | .null => .ok .null
  | .flag value => .ok (.flag value)
  | .number value => (inRange value).map .number
  | .text value => (legible value).map .text
  | .array _ _ => .ok .sequence
  | .object _ _ => .ok .mapping
  | .broken breakage => .error (.fault breakage.read)

def unexpected {α : Type} (expected : Expected) (node : Node) : Except Problem α :=
  node.found.bind fun found => .error (.mismatch (.wrongType found expected))

/-- The outcome for someone who expects the end of an array and not the given items. -/
def closed (ending : Option Fault) (surplus : List Node) : Except Problem Unit :=
  match surplus, ending with
  | [], none => .ok ()
  | [], some (.truncated inside) => .error (.truncated inside)
  | .broken ⟨.malformed .trailingComma, _⟩ :: _, _ => .error (.malformed .trailingComma)
  | _, _ => .error (.malformed .trailingText)

def contents (items : List Node) (ending : Option Fault) : Document.Sequence Node :=
  ⟨items, ended ending, closed ending⟩

def memberContents (members : List (Readable String × Node)) (ending : Option Breakage) :
    Document.Members (Except Problem) Node :=
  ⟨members.map fun (key, node) => (legible key, node), ended (ending.map Breakage.read)⟩

def isNull : Node → Bool
  | .null => true
  | _ => false

end Node

open Document in
def format : Format (Except Problem) Node where
  text expected node :=
    match node with
    | .text value => Node.legible value
    | node => node.unexpected expected
  flag node :=
    match node with
    | .flag value => .ok value
    | node => node.unexpected .flag
  isAbsent node := .ok node.isNull
  sequence node :=
    match node with
    | .array items ending => .ok (Node.contents items ending)
    | node => node.unexpected .sequence
  mapping node :=
    match node with
    | .object members ending => .ok (Node.memberContents members ending)
    | node => node.unexpected .mapping
  record byPosition name node :=
    match node with
    | .object members ending => .ok (.keyed (Node.memberContents members ending))
    | .array items ending =>
        if byPosition then .ok (.positional (Node.contents items ending))
        else node.unexpected (.record name)
    | node => node.unexpected (.record name)
  value := Node.value
  skip := Node.skip

end RunManifest.Json
