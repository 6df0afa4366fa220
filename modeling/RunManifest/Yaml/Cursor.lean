import RunManifest.Yaml.Character

/-!
Contract: places in a YAML text.

Owns:
- `Cursor`, the rest of a text and where it starts: how many octets stand before it, and in which
  line and column it is;
- `Cursor.next`, `Cursor.nextLine` and `Cursor.skipWhile`, the ways to move on;
- `normalBreaks`, which makes every break of a text one character.
-/

set_option autoImplicit false

namespace RunManifest.Yaml

/-- A text with one character for each break. The separators of lines and paragraphs stay what they
are, all other breaks become a newline. -/
def normalBreaks : List Char → List Char
  | [] => []
  | '\r' :: '\n' :: rest => '\n' :: normalBreaks rest
  | c :: rest => (if c = '\r' ∨ c = nextLine then '\n' else c) :: normalBreaks rest

def octetCount (chars : List Char) : Nat :=
  chars.foldl (fun count c => count + c.utf8Size) 0

/-- A place in a text. -/
structure Cursor where
  rest : List Char
  /-- The number of octets before it. -/
  index : Nat
  line : Nat
  column : Nat
deriving DecidableEq, Repr

namespace Cursor

def start (text : List Char) : Cursor :=
  ⟨text, 0, 0, 0⟩

/-- Past a number of characters of the same line. -/
def advance (count : Nat) (cursor : Cursor) : Cursor :=
  { cursor with
    rest := cursor.rest.drop count
    index := cursor.index + octetCount (cursor.rest.take count)
    column := cursor.column + count }

def next (cursor : Cursor) : Cursor :=
  cursor.advance 1

def nextLine (cursor : Cursor) : Cursor :=
  { cursor.next with line := cursor.line + 1, column := 0 }

def skipWhile (property : Char → Bool) (cursor : Cursor) : Cursor :=
  cursor.advance (cursor.rest.takeWhile property).length

/-- Whether a line starts here with the mark of a document's start or end. -/
def isAtDocumentMark (cursor : Cursor) : Bool :=
  cursor.column == 0
    && (("---".toList.isPrefixOf cursor.rest || "...".toList.isPrefixOf cursor.rest)
      && endsWord (cursor.rest.drop 3))

end Cursor

end RunManifest.Yaml
