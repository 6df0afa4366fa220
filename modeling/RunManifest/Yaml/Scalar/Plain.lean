import RunManifest.Yaml.Cursor
import RunManifest.Yaml.Scalar.Gap

/-!
Contract: plain scalars, which have no quotes.

Owns:
- `startsPlain`, the characters with which such a scalar can start;
- `readPlain`, which reads its text. It ends where a key or a value ends, where a comment or a
  document starts, and where a line is indented less than the scalar has to be.
-/

set_option autoImplicit false

namespace RunManifest.Yaml

/-- The characters that part the entries of flow collections and enclose these. -/
def flowMarks : List Char := [',', '[', ']', '\x7b', '\x7d']

def plainExclusions : List Char :=
  ['-', '?', ':', ',', '[', ']', '\x7b', '\x7d', '#', '&', '*', '!', '|', '>', '\x27', '\"', '%',
    '@', '\x60']

def startsPlain (inFlow : Bool) : List Char → Bool
  | [] => false
  | c :: rest =>
      (!isSpacing c && !plainExclusions.contains c)
        || (c == '-' && !rest.head?.any isBlank)
        || (!inFlow && (c == '?' || c == ':') && !endsWord rest)

/-- Whether a plain scalar ends before a character because of what the character means. -/
def endsPlain (inFlow : Bool) (c : Char) (rest : List Char) : Bool :=
  (c == ':' && endsWord rest) || (inFlow && flowMarks.contains c)

/-- Whether a colon stands where the entries of a flow collection leave no room for it. -/
def isMisplacedColon (inFlow : Bool) (c : Char) (rest : List Char) : Bool :=
  inFlow && c == ':' && rest.head?.any fun d => d == '?' || flowMarks.contains d

/-- A plain scalar: its text, whether a line ended after it, and the place after the spacing that
follows it. -/
structure PlainText where
  chars : List Char
  lineEnded : Bool
  after : Cursor
deriving DecidableEq, Repr

/-- The text of a plain scalar from a place in it on, after the given spacing. Lines of a block have
to be indented by `indent`. The first argument bounds the number of steps. -/
def readPlainFrom (inFlow : Bool) (indent : Int) : Nat → Gap → Cursor → Option PlainText
  | 0, gap, cursor => some ⟨[], gap.hasBreak, cursor⟩
  | fuel + 1, gap, cursor =>
      match cursor.rest with
      | [] => some ⟨[], gap.hasBreak, cursor⟩
      | c :: rest =>
          if isBreak c then readPlainFrom inFlow indent fuel (gap.extend c) cursor.nextLine
          else if isBlank c then
            if gap.hasBreak ∧ c = '\t' ∧ (cursor.column : Int) < indent then none
            else readPlainFrom inFlow indent fuel (gap.extend c) cursor.next
          else if gap.isOpen
              ∧ ((¬ inFlow ∧ (cursor.column : Int) < indent)
                ∨ cursor.isAtDocumentMark ∨ c = '#') then
            some ⟨[], gap.hasBreak, cursor⟩
          else if isMisplacedColon inFlow c rest then none
          else if endsPlain inFlow c rest then some ⟨[], gap.hasBreak, cursor⟩
          else do
            let read ← readPlainFrom inFlow indent fuel .none cursor.next
            return { read with chars := gap.text ++ c :: read.chars }

/-- The text of a plain scalar. Every step uses up a character. -/
def readPlain (inFlow : Bool) (indent : Int) (cursor : Cursor) : Option PlainText :=
  readPlainFrom inFlow indent (cursor.rest.length + 1) .none cursor

end RunManifest.Yaml
