import RunManifest.Dictionary
import RunManifest.Yaml.Token

/-!
Contract: the tree of a YAML document.

Owns:
- `Node`, a scalar, a sequence, a mapping, or a reference to a node with an anchor;
- `Node.ofTokens?`, which builds the tree of the only document in a text;
- `Node.anchored`, the nodes that references can stand for.

Anchors are numbered. The number of an anchor is how many different names came before it, so an
anchor whose name was used before may share its number with a later one; a reference then stands for
the last node of that number.
-/

set_option autoImplicit false

namespace RunManifest.Yaml

/-- A node of a document. -/
inductive Node where
  | scalar (anchor : Option Nat) (tag : Option Tag) (style : ScalarStyle) (text : String)
  | sequence (anchor : Option Nat) (tag : Option Tag) (items : List Node)
  | mapping (anchor : Option Nat) (tag : Option Tag) (members : List (Node × Node))
  | alias (anchor : Nat)
deriving Repr, Inhabited

/-- What is known while a tree is built: the tokens to come, the numbers of anchors by name, and
what the handles of tags stand for. -/
structure Builder where
  tokens : List Token
  anchors : List (String × Nat)
  handles : List (String × Tag)
deriving DecidableEq, Repr

namespace Builder

def peek (builder : Builder) : Option Token :=
  builder.tokens.head?

def skip (builder : Builder) : Builder :=
  { builder with tokens := builder.tokens.drop 1 }

def accept? (token : Token) (builder : Builder) : Option Builder :=
  if builder.peek = some token then some builder.skip else none

def isAt (tokens : List Token) (builder : Builder) : Bool :=
  builder.peek.any tokens.contains

/-- The number of an anchor, and what is known with it. -/
def number (builder : Builder) (name : Option String) : Option Nat × Builder :=
  match name with
  | none => (none, builder)
  | some name =>
      let number := builder.anchors.length
      (some number, { builder with anchors := Entries.insert name number builder.anchors })

def wholeTag? (builder : Builder) (tag : TagName) : Option Tag :=
  if tag.handle.isEmpty then some tag.suffix
  else (Entries.find? tag.handle builder.handles).map fun stem => stem ++ tag.suffix

/-- An anchor and a tag, in either order, neither of them required. -/
def properties (builder : Builder) : (Option String × Option TagName) × Builder :=
  match builder.tokens with
  | .anchor name :: .tag tag :: rest => ((some name, some tag), { builder with tokens := rest })
  | .tag tag :: .anchor name :: rest => ((some name, some tag), { builder with tokens := rest })
  | .anchor name :: rest => ((some name, none), { builder with tokens := rest })
  | .tag tag :: rest => ((none, some tag), { builder with tokens := rest })
  | _ => ((none, none), builder)

end Builder

namespace Node

/-- A scalar that is not there. -/
def missing : Node :=
  .scalar none none .plain ""

/-- Where a node stands: whether blocks may start there, and whether the items of a list may stand
there without a block of their own. -/
structure Place where
  block : Bool
  listItems : Bool
deriving DecidableEq, Repr

def Place.flow : Place := ⟨false, false⟩

def Place.item : Place := ⟨true, false⟩

def Place.member : Place := ⟨true, true⟩

/-- The tokens before which a key or a value of a block is missing. -/
def memberEnds : List Token := [.key, .value, .blockEnd]

def itemEnds : List Token := [.blockEntry, .blockEnd]

/-- The tokens before which an item of a list without a block of its own is missing. -/
def looseItemEnds : List Token := [.blockEntry, .key, .value, .blockEnd]

mutual

/-- A node. In all these functions the first argument bounds the number of nested steps. -/
def build : Nat → Place → Builder → Option (Node × Builder)
  | 0, _, _ => none
  | fuel + 1, place, builder =>
      match builder.peek with
      | some (.alias name) => do
          let number ← Entries.find? name builder.anchors
          return (.alias number, builder.skip)
      | _ => do
          let ((anchor, tagName), builder) := builder.properties
          let tag ←
            match tagName with
            | none => some none
            | some tagName => (builder.wholeTag? tagName).map some
          let (number, builder) := builder.number anchor
          buildContent fuel place number tag builder

def buildContent :
    Nat → Place → Option Nat → Option Tag → Builder → Option (Node × Builder)
  | 0, _, _, _, _ => none
  | fuel + 1, place, anchor, tag, builder =>
      match builder.peek with
      | some (.scalar style text) =>
          some (.scalar anchor tag style text, builder.skip)
      | some .flowSequenceStart => do
          let (items, builder) ← buildFlowItems fuel true builder.skip
          return (.sequence anchor tag items, builder)
      | some .flowMappingStart => do
          let (members, builder) ← buildFlowMembers fuel true builder.skip
          return (.mapping anchor tag members, builder)
      | token =>
          if place.listItems ∧ token = some .blockEntry then do
            let (items, builder) ← buildLooseItems fuel builder
            return (.sequence anchor tag items, builder)
          else if place.block ∧ token = some .blockSequenceStart then do
            let (items, builder) ← buildItems fuel builder.skip
            return (.sequence anchor tag items, builder)
          else if place.block ∧ token = some .blockMappingStart then do
            let (members, builder) ← buildMembers fuel builder.skip
            return (.mapping anchor tag members, builder)
          else if anchor.isSome ∨ tag.isSome then some (.scalar anchor tag .plain "", builder)
          else none

/-- A node that is missing when one of the given tokens comes. -/
def buildUnless : Nat → List Token → Place → Builder → Option (Node × Builder)
  | 0, _, _, _ => none
  | fuel + 1, ends, place, builder =>
      if builder.isAt ends then some (missing, builder) else build fuel place builder

/-- The items of a block up to and with its end. -/
def buildItems : Nat → Builder → Option (List Node × Builder)
  | 0, _ => none
  | fuel + 1, builder =>
      match builder.accept? .blockEntry with
      | some builder => do
          let (item, builder) ← buildUnless fuel itemEnds .item builder
          let (items, builder) ← buildItems fuel builder
          return (item :: items, builder)
      | none => do
          let builder ← builder.accept? .blockEnd
          return ([], builder)

/-- The items of a list without a block of its own. -/
def buildLooseItems : Nat → Builder → Option (List Node × Builder)
  | 0, _ => none
  | fuel + 1, builder =>
      match builder.accept? .blockEntry with
      | some builder => do
          let (item, builder) ← buildUnless fuel looseItemEnds .item builder
          let (items, builder) ← buildLooseItems fuel builder
          return (item :: items, builder)
      | none => some ([], builder)

def buildMembers : Nat → Builder → Option (List (Node × Node) × Builder)
  | 0, _ => none
  | fuel + 1, builder =>
      match builder.accept? .key with
      | some builder => do
          let (key, builder) ← buildUnless fuel memberEnds .member builder
          let (value, builder) ← buildValue fuel memberEnds .member builder
          let (members, builder) ← buildMembers fuel builder
          return ((key, value) :: members, builder)
      | none => do
          let builder ← builder.accept? .blockEnd
          return ([], builder)

/-- The value after a key, missing when its mark or what follows the mark is. -/
def buildValue : Nat → List Token → Place → Builder → Option (Node × Builder)
  | 0, _, _, _ => none
  | fuel + 1, ends, place, builder =>
      match builder.accept? .value with
      | some builder => buildUnless fuel ends place builder
      | none => some (missing, builder)

/-- The items of a flow sequence up to and with its end. The flag says whether the next one is the
first. -/
def buildFlowItems : Nat → Bool → Builder → Option (List Node × Builder)
  | 0, _, _ => none
  | fuel + 1, first, builder =>
      match builder.accept? .flowSequenceEnd with
      | some builder => some ([], builder)
      | none => do
          let builder ← if first then some builder else builder.accept? .flowEntry
          match builder.accept? .flowSequenceEnd with
          | some builder => some ([], builder)
          | none =>
              let (item, builder) ← buildFlowItem fuel builder
              let (items, builder) ← buildFlowItems fuel false builder
              return (item :: items, builder)

/-- An item of a flow sequence. A key makes it a mapping of one member. -/
def buildFlowItem : Nat → Builder → Option (Node × Builder)
  | 0, _ => none
  | fuel + 1, builder =>
      match builder.accept? .key with
      | none => build fuel .flow builder
      | some builder => do
          let (key, builder) ←
            if builder.isAt [.value, .flowEntry, .flowSequenceEnd] then
              some (missing, builder.skip)
            else build fuel .flow builder
          let (value, builder) ← buildValue fuel [.flowEntry, .flowSequenceEnd] .flow builder
          return (.mapping none none [(key, value)], builder)

/-- The members of a flow mapping up to and with its end. The flag says whether the next one is the
first. -/
def buildFlowMembers : Nat → Bool → Builder → Option (List (Node × Node) × Builder)
  | 0, _, _ => none
  | fuel + 1, first, builder =>
      match builder.accept? .flowMappingEnd with
      | some builder => some ([], builder)
      | none => do
          let builder ← if first then some builder else builder.accept? .flowEntry
          match builder.accept? .flowMappingEnd with
          | some builder => some ([], builder)
          | none =>
              let (member, builder) ← buildFlowMember fuel builder
              let (members, builder) ← buildFlowMembers fuel false builder
              return (member :: members, builder)

/-- A member of a flow mapping. A node that is no key stands for one whose value is missing. -/
def buildFlowMember : Nat → Builder → Option ((Node × Node) × Builder)
  | 0, _ => none
  | fuel + 1, builder =>
      match builder.accept? .key with
      | none => do
          let (key, builder) ← build fuel .flow builder
          return ((key, missing), builder)
      | some builder => do
          let (key, builder) ←
            buildUnless fuel [.value, .flowEntry, .flowMappingEnd] .flow builder
          let (value, builder) ← buildValue fuel [.flowEntry, .flowMappingEnd] .flow builder
          return ((key, value), builder)

end

/-! ## Documents -/

/-- What the handles of tags stand for when no directive says otherwise. -/
def defaultHandles : List (String × Tag) :=
  [("!", .ofText "!"), ("!!", .ofText "tag:yaml.org,2002:")]

def isReadable (major minor : Nat) : Bool :=
  major == 1 && (minor == 1 || minor == 2)

/-- The directives before a document: whether a version was given, and the handles so far; and the
tokens after them. -/
def readDirectives :
    Bool → List (String × Tag) → List Token → Option (List (String × Tag) × List Token)
  | versioned, handles, .directive (.version major minor) :: rest =>
      if versioned || !isReadable major minor then none else readDirectives true handles rest
  | versioned, handles, .directive (.handle handle stem) :: rest =>
      if (Entries.find? handle handles).isSome then none
      else readDirectives versioned (handles ++ [(handle, stem)]) rest
  | _, handles, tokens => some (handles ++ defaultHandles, tokens)

def isDocumentLimit : Token → Bool
  | .directive _ => true
  | .documentStart => true
  | .documentEnd => true
  | _ => false

def isExplicit : List Token → Bool
  | .directive _ :: _ => true
  | .documentStart :: _ => true
  | _ => false

/-- The content of a document, and the tokens after it. Every nested step uses up a token, and no
token is used by more than three steps. -/
def buildDocument (tokens : List Token) : Option (Node × List Token) := do
  let (handles, rest) ← readDirectives false [] tokens
  let explicit := isExplicit tokens
  let content ←
    match explicit, rest with
    | false, rest => some rest
    | true, .documentStart :: rest => some rest
    | true, _ => none
  if explicit ∧ content.head?.all isDocumentLimit then return (missing, content)
  else
    let (node, builder) ← build (3 * tokens.length + 3) .item ⟨content, [], handles⟩
    return (node, builder.tokens)

/-- The tree of the only document of a text. A text without a document has an empty one. -/
def ofTokens? (tokens : List Token) : Option Node :=
  match tokens with
  | [] => some missing
  | tokens => do
      let (node, rest) ← buildDocument tokens
      if rest.all (· = .documentEnd) then return node else none

/-! ## Views -/

mutual

/-- The nodes with anchors, by number, in the order in which they start. -/
def anchored : Node → List (Nat × Node)
  | .scalar (some number) tag style text => [(number, .scalar (some number) tag style text)]
  | .scalar none _ _ _ => []
  | .sequence (some number) tag items =>
      (number, .sequence (some number) tag items) :: anchoredItems items
  | .sequence none _ items => anchoredItems items
  | .mapping (some number) tag members =>
      (number, .mapping (some number) tag members) :: anchoredMembers members
  | .mapping none _ members => anchoredMembers members
  | .alias _ => []

def anchoredItems : List Node → List (Nat × Node)
  | [] => []
  | item :: rest => item.anchored ++ anchoredItems rest

def anchoredMembers : List (Node × Node) → List (Nat × Node)
  | [] => []
  | (key, value) :: rest => key.anchored ++ value.anchored ++ anchoredMembers rest

end

mutual

/-- The size of a tree: two for each container, one for each other node. -/
def size : Node → Nat
  | .scalar _ _ _ _ => 1
  | .sequence _ _ items => 2 + sizeItems items
  | .mapping _ _ members => 2 + sizeMembers members
  | .alias _ => 1

def sizeItems : List Node → Nat
  | [] => 0
  | item :: rest => item.size + sizeItems rest

def sizeMembers : List (Node × Node) → Nat
  | [] => 0
  | (key, value) :: rest => key.size + value.size + sizeMembers rest

end

end Node

end RunManifest.Yaml
