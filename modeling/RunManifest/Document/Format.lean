import RunManifest.Problem

/-!
Contract: what a document format offers to those who read records from it.

Owns:
- `Format`, the questions that can be asked of the nodes of a format;
- `Sequence`, `Members` and `Layout`, the contents of a node that holds others;
- `enter`, the limit on containers inside containers;
- `readList`, `readTexts` and `readOptional`, readers built from the questions.

A node may hold faults further on. The contents of a node list what stands before the first of
them, and end with it.

Readers work in any monad `m` in which a problem can be thrown. A format whose nodes answer by
themselves has `Except Problem`; one that has to keep account of what was read adds a state.
-/

set_option autoImplicit false

namespace RunManifest.Document

/-- Nodes in order, and the problem after the last of them, if any. -/
structure Sequence (ν : Type) where
  items : List ν
  ending : Except Problem Unit
  /-- The outcome for someone who expects the end and not the given rest of the items. -/
  closing : List ν → Except Problem Unit

/-- Members in order, and the problem after the last of them, if any. A key may be a problem. -/
structure Members (m : Type → Type) (ν : Type) where
  entries : List (m String × ν)
  ending : Except Problem Unit

/-- How the values of a record are given: by key, or by position. -/
inductive Layout (m : Type → Type) (ν : Type) where
  | keyed (members : Members m ν)
  | positional (sequence : Sequence ν)

/-- A document format, by the questions that its nodes answer. -/
structure Format (m : Type → Type) (ν : Type) where
  /-- The text of a node where a text is expected. -/
  text : Expected → ν → m String
  /-- The truth value of a node. -/
  flag : ν → m Bool
  /-- Whether a node stands for nothing. -/
  isAbsent : ν → m Bool
  /-- The items of a node. -/
  sequence : ν → m (Sequence ν)
  /-- The members of a node. -/
  mapping : ν → m (Members m ν)
  /-- The values of a node that is a record of the given name. The flag says whether the record may
  be given by position. -/
  record : Bool → String → ν → m (Layout m ν)
  /-- The whole value of a node, in which at most the given number of containers is open at once.
  All members of mappings are kept, in order. -/
  value : Nat → ν → m Json
  /-- Passing over a node. -/
  skip : ν → m Unit

variable {m : Type → Type} [Monad m] [MonadExceptOf Problem m] {ν α : Type}

/-- A known outcome as that of a step. -/
def settled : Except Problem α → m α
  | .ok value => pure value
  | .error problem => throw problem

@[simp]
theorem settled_eq_self (outcome : Except Problem α) :
    (settled outcome : Except Problem α) = outcome := by
  cases outcome <;> rfl

/-- The number of containers that may be open inside a container, if one may be opened at all. -/
def enter : Nat → m Nat
  | 0 => throw (Problem.malformed .tooDeep)
  | levels + 1 => pure levels

def readList
    (format : Format m ν)
    (read : Nat → ν → m α)
    (levels : Nat)
    (node : ν) :
    m (List α) := do
  let sequence ← format.sequence node
  let inner ← enter levels
  let parts ← sequence.items.mapM (read inner)
  settled sequence.ending
  return parts

/-- A dictionary of texts. Of several members with one key the last counts. -/
def readTexts
    (format : Format m ν)
    (levels : Nat)
    (node : ν) :
    m (Dictionary String) := do
  let members ← format.mapping node
  let _ ← enter levels
  let entries ← members.entries.mapM fun (key, value) => do
    let key ← key
    return (key, ← format.text .text value)
  settled members.ending
  return Dictionary.ofList entries

def readOptional
    (format : Format m ν)
    (read : Nat → ν → m α)
    (levels : Nat)
    (node : ν) :
    m (Option α) := do
  if ← format.isAbsent node then return none
  return some (← read levels node)

def readInstant
    (format : Format m ν)
    (_levels : Nat)
    (node : ν) :
    m Instant := do
  let text ← format.text .time node
  match Instant.read text with
  | .ok instant => return instant
  | .error cause => throw (Problem.mismatch (.time cause))

end RunManifest.Document
