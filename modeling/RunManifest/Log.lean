import RunManifest.Text.Digits

/-!
Contract: what the library reports while it works.

Owns:
- `Log.Level`, `Log.Source` and `Log.Entry`, a report with its weight and its origin;
- `Log.Entry.printed`, the message of a report as it is printed;
- `Logged`, a result together with the reports made on the way to it, in order.

Reports are values. Whoever runs the library decides which of them are shown.
-/

set_option autoImplicit false

namespace RunManifest

namespace Log

/-- How much a report matters, from least to most. -/
inductive Level where
  | debug
  | info
  | warn
  | error
deriving DecidableEq, Repr

def Level.word : Level → String
  | .debug => "DEBUG"
  | .info => "INFO"
  | .warn => "WARN"
  | .error => "ERROR"

def Level.weight : Level → Nat
  | .debug => 1
  | .info => 2
  | .warn => 3
  | .error => 4

/-- The part of the program that makes a report. -/
inductive Source where
  | labels
  | parameters
  | identity
  | provenance
  | substitution
  | preparation
deriving DecidableEq, Repr

def Source.path : Source → String
  | .labels => "tekrun_core::label"
  | .parameters => "tekrun_workflow::params"
  | .identity => "tekrun_workflow::identity"
  | .provenance => "tekrun_workflow::provenance"
  | .substitution => "tekrun_workflow::substitute"
  | .preparation => "tekrun::commands::prepare"

/-- A report. -/
structure Entry where
  level : Level
  source : Source
  message : String
deriving DecidableEq, Repr

/-- The codes of the characters with which a terminal can be steered, apart from those beyond
ASCII. -/
def steeringCodes : List Nat := [0x07, 0x08, 0x0C, 0x1B, 0x7F]

/-- How a character stands in a printed report. One that could steer a terminal is written by its
code. -/
def printedChar (c : Char) : List Char :=
  let digits := Text.hexadecimal c.toNat
  if steeringCodes.contains c.toNat then
    ['\\', 'x'] ++ List.replicate (2 - digits.length) '0' ++ digits
  else if 0x80 ≤ c.toNat ∧ c.toNat ≤ 0x9F then ['\\', 'u', '\x7b'] ++ digits ++ ['\x7d']
  else [c]

def Entry.printed (entry : Entry) : String :=
  String.ofList (entry.message.toList.flatMap printedChar)

/-- The least level that is shown; none shows nothing. -/
abbrev Threshold := Option Level

def shown (threshold : Threshold) (entries : List Entry) : List Entry :=
  match threshold with
  | none => []
  | some least => entries.filter fun entry => least.weight ≤ entry.level.weight

end Log

/-- A result and the reports made on the way to it. -/
structure Logged (α : Type) where
  entries : List Log.Entry
  result : α
deriving DecidableEq, Repr

namespace Logged

variable {α β : Type}

def quiet (result : α) : Logged α :=
  ⟨[], result⟩

def report (level : Log.Level) (source : Log.Source) (message : String) : Logged Unit :=
  ⟨[⟨level, source, message⟩], ()⟩

/-- What follows a result, its reports after those of the result. -/
def andThen (first : Logged α) (next : α → Logged β) : Logged β :=
  let second := next first.result
  ⟨first.entries ++ second.entries, second.result⟩

instance : Monad Logged where
  pure := quiet
  bind := andThen

@[simp]
theorem entries_pure (result : α) : (pure result : Logged α).entries = [] := rfl

@[simp]
theorem result_pure (result : α) : (pure result : Logged α).result = result := rfl

@[simp]
theorem entries_bind (first : Logged α) (next : α → Logged β) :
    (first >>= next).entries = first.entries ++ (next first.result).entries := rfl

@[simp]
theorem result_bind (first : Logged α) (next : α → Logged β) :
    (first >>= next).result = (next first.result).result := rfl

end Logged

end RunManifest
