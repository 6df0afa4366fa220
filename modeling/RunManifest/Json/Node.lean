import RunManifest.Problem

/-!
Contract: what a JSON text says, as far as it says it.

Owns:
- `Json.Node`, the tree of a text that may break off or go wrong anywhere. The faults stand in the
  tree where they stand in the text, so that walking the tree from left to right meets the first
  problem first;
- `Node.skip`, passing over a value without looking at what it means;
- `Node.value`, reading a value whole.

A text can be read or merely skipped, and the two differ: a skipped string may have unpaired
surrogates, a skipped number may be of any size, and a skipped value may be nested to any depth.
-/

set_option autoImplicit false

namespace RunManifest.Json

/-- What a breach of the grammar is to a reader and to someone who skips. -/
structure Breakage where
  read : Fault
  skipped : Fault
deriving DecidableEq, Repr

/-- A breach that is the same to both. -/
def Breakage.both (fault : Fault) : Breakage :=
  ⟨fault, fault⟩

/-- What can be skipped, and read unless something is wrong with it. -/
abbrev Readable (α : Type) : Type :=
  Except Malformation α

/-- The tree of a JSON text. -/
inductive Node where
  | null
  | flag (value : Bool)
  /-- A number, none when it is too large to be read. -/
  | number (value : Option Number)
  /-- A string, which cannot be read when it has an unpaired surrogate. -/
  | text (value : Readable String)
  /-- The items of an array, and what is wrong after the last of them. -/
  | array (items : List Node) (ending : Option Fault)
  /-- The members of an object, and what is wrong after the last of them. -/
  | object (members : List (Readable String × Node)) (ending : Option Breakage)
  /-- No value could be made out here. -/
  | broken (breakage : Breakage)
deriving Repr, Inhabited

namespace Node

/-- The result of a place where the text may be wrong. -/
def ended (ending : Option Fault) : Except Problem Unit :=
  match ending with
  | some fault => .error (.fault fault)
  | none => .ok ()

mutual

/-- Passing over a value: the first breach of the grammar in it. -/
def skip : Node → Except Problem Unit
  | .null => .ok ()
  | .flag _ => .ok ()
  | .number _ => .ok ()
  | .text _ => .ok ()
  | .array items ending => do
      skipItems items
      ended ending
  | .object members ending => do
      skipMembers members
      ended (ending.map Breakage.skipped)
  | .broken breakage => .error (.fault breakage.skipped)

def skipItems : List Node → Except Problem Unit
  | [] => .ok ()
  | item :: rest => do
      skip item
      skipItems rest

def skipMembers : List (Readable String × Node) → Except Problem Unit
  | [] => .ok ()
  | (_, value) :: rest => do
      skip value
      skipMembers rest

end

/-- A string as it is read. -/
def legible (value : Readable String) : Except Problem String :=
  match value with
  | .ok value => .ok value
  | .error cause => .error (.malformed cause)

def inRange (value : Option Number) : Except Problem Number :=
  match value with
  | some value => .ok value
  | none => .error (.malformed .outOfRange)

/-- Reading a value whole. `levels` is the number of containers that may be open inside each other
here. All members are kept, in order, also those with one key. -/
def value : Nat → Node → Except Problem Json
  | _, .null => .ok .null
  | _, .flag value => .ok (.flag value)
  | _, .number value => return .number (← inRange value)
  | _, .text value => return .text (← legible value)
  | 0, .array _ _ => .error (.malformed .tooDeep)
  | levels + 1, .array items ending => do
      let items ← items.mapM (value levels)
      ended ending
      return .array items
  | 0, .object _ _ => .error (.malformed .tooDeep)
  | levels + 1, .object members ending => do
      let members ← members.mapM fun (key, node) => do
        let key ← legible key
        return (key, ← value levels node)
      ended (ending.map Breakage.read)
      return .object members
  | _, .broken breakage => .error (.fault breakage.read)

end Node

end RunManifest.Json
