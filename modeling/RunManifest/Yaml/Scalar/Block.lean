import RunManifest.Text.Digits
import RunManifest.Yaml.Cursor

/-!
Contract: block scalars, which are set off by indentation.

Owns:
- `BlockHeader`, what the first line says: how many breaks at the end count, and the indentation;
- `readBlock`, which reads the text of such a scalar. A literal scalar keeps its breaks; in a folded
  one a single break between two lines that start with a word becomes a space.
-/

set_option autoImplicit false

namespace RunManifest.Yaml

/-- What becomes of the breaks at the end of a block scalar. -/
inductive Chomping where
  /-- All are dropped. -/
  | strip
  /-- The first is kept. -/
  | clip
  /-- All are kept. -/
  | keep
deriving DecidableEq, Repr

/-- What the first line of a block scalar says. -/
structure BlockHeader where
  chomping : Chomping
  /-- The indentation relative to what is around the scalar. -/
  indent : Option Nat
deriving DecidableEq, Repr

def chomping? (c : Char) : Option Chomping :=
  match c with
  | '+' => some .keep
  | '-' => some .strip
  | _ => none

/-- An indentation at the front of a text, and what follows it; none for the digit 0. -/
def headerIndent (chars : List Char) : Option (Option Nat × List Char) :=
  match chars with
  | [] => some (none, [])
  | c :: rest =>
      if c = '0' then none
      else if c.isDigit then some (some (Text.digitValue c), rest)
      else some (none, c :: rest)

def headerChomping (chars : List Char) : Option Chomping × List Char :=
  match chars with
  | [] => (none, [])
  | c :: rest =>
      match chomping? c with
      | some chomping => (some chomping, rest)
      | none => (none, c :: rest)

/-- The sign and the indentation of a header in either order, and what follows them. -/
def headerMarks (chars : List Char) : Option (BlockHeader × List Char) := do
  let (first, rest) := headerChomping chars
  let (indent, rest) ← headerIndent rest
  match first, indent with
  | some chomping, indent => return (⟨chomping, indent⟩, rest)
  | none, none => return (⟨.clip, none⟩, rest)
  | none, some indent =>
      let (last, rest) := headerChomping rest
      return (⟨last.getD .clip, some indent⟩, rest)

/-- The header of a block scalar from its first mark on, and the place where its lines start. -/
def readBlockHeader (cursor : Cursor) : Option (BlockHeader × Cursor) := do
  let marks := cursor.next
  let (header, rest) ← headerMarks marks.rest
  let cursor := (marks.advance (marks.rest.length - rest.length)).skipWhile isBlank
  let cursor :=
    if cursor.rest.head? = some '#' then cursor.skipWhile fun c => !isBreak c else cursor
  match cursor.rest with
  | [] => return (header, cursor)
  | c :: _ => if isBreak c then return (header, cursor.nextLine) else none

/-- Empty lines: their breaks, the widest column reached, and the place after them. -/
structure EmptyLines where
  breaks : List Char
  widest : Nat
  after : Cursor
deriving DecidableEq, Repr

/-- Whether a column is still within an indentation that may not be known yet. -/
def isWithin (indent : Option Nat) (column : Nat) : Bool :=
  match indent with
  | none => true
  | some indent => column < indent

/-- Passing over indentation and empty lines. The first argument bounds the number of steps. -/
def readEmptyLines (indent : Option Nat) : Nat → Nat → Cursor → Option EmptyLines
  | 0, widest, cursor => some ⟨[], widest, cursor⟩
  | fuel + 1, widest, cursor =>
      let reached := max widest cursor.column
      match cursor.rest with
      | [] => some ⟨[], reached, cursor⟩
      | c :: _ =>
          if c = ' ' ∧ isWithin indent cursor.column then
            readEmptyLines indent fuel widest cursor.next
          else if c = '\t' ∧ isWithin indent cursor.column then none
          else if isBreak c then do
            let read ← readEmptyLines indent fuel reached cursor.nextLine
            return { read with breaks := c :: read.breaks }
          else some ⟨[], reached, cursor⟩

/-- The indentation of a scalar that does not give it: that of its first line, or of the widest
empty line before, but more than that of what is around the scalar. -/
def detectedIndent (around : Int) (widest : Nat) : Nat :=
  max widest (max (around + 1).toNat 1)

/-- The break that ended the last line, if any, and the breaks of the empty lines since then. -/
structure Trail where
  last : Option Char
  empty : List Char
deriving DecidableEq, Repr

/-- What is written between two lines of a folded or literal scalar. The flags say whether the
lines start with a blank. -/
def lineJoint (folded : Bool) (trail : Trail) (blankBefore blankAfter : Bool) : List Char :=
  if folded ∧ trail.last = some '\n' ∧ ¬ blankBefore ∧ ¬ blankAfter then
    if trail.empty.isEmpty then [' '] else trail.empty
  else trail.last.toList ++ trail.empty

/-- The lines of a scalar after the given trail, with the trail after the last of them, and the
place after that. The first argument bounds the number of lines. -/
def readLines (folded : Bool) (indent : Nat) :
    Nat → Trail → Bool → Cursor → Option (List Char × Trail × Cursor)
  | 0, trail, _, cursor => some ([], trail, cursor)
  | fuel + 1, trail, blankBefore, cursor =>
      match cursor.rest with
      | [] => some ([], trail, cursor)
      | c :: _ =>
          if cursor.column = indent then do
            let content := cursor.rest.takeWhile fun d => !isBreak d
            let ending := cursor.advance content.length
            let last := ending.rest.head?
            let cursor := if last.isSome then ending.nextLine else ending
            let empty ← readEmptyLines (some indent) (cursor.rest.length + 1) 0 cursor
            let (chars, trail', after) ←
              readLines folded indent fuel ⟨last, empty.breaks⟩ (isBlank c) empty.after
            let joint := lineJoint folded trail blankBefore (isBlank c)
            return (joint ++ content ++ chars, trail', after)
          else some ([], trail, cursor)

/-- The breaks that count at the end of a scalar. -/
def chomped (chomping : Chomping) (trail : Trail) : List Char :=
  match chomping with
  | .strip => []
  | .clip => trail.last.toList
  | .keep => trail.last.toList ++ trail.empty

/-- The text of a block scalar from its first mark on, and the place after it. `around` is the
indentation of what is around the scalar, -1 when there is nothing. -/
def readBlock (folded : Bool) (around : Int) (cursor : Cursor) : Option (List Char × Cursor) := do
  let (header, cursor) ← readBlockHeader cursor
  let given := header.indent.map fun indent => (max around 0).toNat + indent
  let empty ← readEmptyLines given (cursor.rest.length + 1) 0 cursor
  let indent := given.getD (detectedIndent around empty.widest)
  let (chars, trail, after) ←
    readLines folded indent (cursor.rest.length + 1) ⟨none, empty.breaks⟩ false empty.after
  return (chars ++ chomped header.chomping trail, after)

end RunManifest.Yaml
