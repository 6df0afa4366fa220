import RunManifest.Json.Printer
import RunManifest.Yaml.Character
import RunManifest.Yaml.Meaning

/-!
Contract: the YAML texts of document values.

Owns:
- `Style` and `style`, how a text is written: plain where it would be read back as the same text,
  else in single quotes, in double quotes, or as a literal block when it has several lines;
- `Json.yaml`, the block form of a value, with two blanks of indentation for each level, where the
  items of a list stand below their key without further indentation.

Every line of the text ends with a line break.
-/

set_option autoImplicit false

namespace RunManifest.Yaml

/-! ## Styles of texts -/

/-- How a text is written. -/
inductive Style where
  | plain
  | singleQuoted
  | doubleQuoted
  | literal
deriving DecidableEq, Repr

def reservedStarts : List Char :=
  ['#', ',', '[', ']', '\x7b', '\x7d', '&', '*', '!', '|', '>', '\x27', '\"', '%', '@', '\x60']

/-- The characters that a plain text cannot start with when its first word is over after them. -/
def looseStarts : List Char := ['?', ':', '-']

def hasReservedStart : List Char → Bool
  | [] => false
  | c :: rest => reservedStarts.contains c || (looseStarts.contains c && endsWord rest)

def hasDocumentMark (chars : List Char) : Bool :=
  "---".toList.isPrefixOf chars || "...".toList.isPrefixOf chars

/-- Whether a text has, after its given first character, the end of a key or the start of a
comment. -/
def hasInnerMark : Char → List Char → Bool
  | _, [] => false
  | previous, c :: rest =>
      (c == ':' && endsWord rest) || (c == '#' && isSpacing previous) || hasInnerMark c rest

/-- Whether a text has the end of a key or the start of a comment after its first character. -/
def hasMark : List Char → Bool
  | [] => false
  | c :: rest => hasInnerMark c rest

/-- Whether two neighbouring characters have the given properties. -/
def hasNeighbours (first second : Char → Bool) : List Char → Bool
  | c :: d :: rest => (first c && second d) || hasNeighbours first second (d :: rest)
  | _ => false

def isSpace (c : Char) : Bool :=
  c == ' '

def allowsPlain (chars : List Char) : Bool :=
  !(hasReservedStart chars || hasDocumentMark chars || hasMark chars
    || chars.head?.any isSpace || chars.getLast?.any isSpace
    || chars.any isBreak || !chars.all isPrintable)

def allowsSingleQuoted (chars : List Char) : Bool :=
  !(hasNeighbours isBreak isSpace chars || hasNeighbours isSpace isBreak chars
    || !chars.all isPrintable)

def allowsLiteral (chars : List Char) : Bool :=
  !(chars.getLast?.any isSpace || hasNeighbours isSpace isBreak chars || !chars.all isPrintable)

/-- Whether a plain text would be read back as the text it is. -/
def readsBack (text : String) : Bool :=
  meaning text = .text && !hasLeadingZero text.toList

def style (text : String) : Style :=
  let chars := text.toList
  if chars.contains '\n' then
    if allowsLiteral chars then .literal else .doubleQuoted
  else if readsBack text && allowsPlain chars then .plain
  else if allowsSingleQuoted chars then .singleQuoted
  else .doubleQuoted

/-! ## Forms of texts -/

def blanks (count : Nat) : List Char :=
  List.replicate count ' '

def indentStep : Nat := 2

/-- A text in single quotes from a place in it on. The flag says whether a line has just ended. -/
def singleQuotedFrom (indent : Nat) : Bool → List Char → List Char
  | atStart, [] => (if atStart then blanks indent else []) ++ ['\x27']
  | atStart, c :: rest =>
      if isBreak c then c :: singleQuotedFrom indent true rest
      else
        (if atStart then blanks indent else []) ++ (if c = '\x27' then ['\x27', c] else [c])
          ++ singleQuotedFrom indent false rest

/-- A text in single quotes. A quote inside is written twice. -/
def singleQuoted (indent : Nat) (chars : List Char) : List Char :=
  '\x27' :: singleQuotedFrom indent false chars

def escapeLetters : List (Nat × Char) :=
  [(0x0, '0'), (0x7, 'a'), (0x8, 'b'), (0x9, 't'), (0xA, 'n'), (0xB, 'v'), (0xC, 'f'), (0xD, 'r'),
    (0x1B, 'e'), (0x22, '\"'), (0x5C, '\\'), (0x85, 'N'), (0xA0, '_'), (0x2028, 'L'),
    (0x2029, 'P')]

def escape (c : Char) : List Char :=
  match escapeLetters.find? fun entry => entry.1 == c.toNat with
  | some (_, letter) => [letter]
  | none =>
      if c.toNat ≤ 0xFF then 'x' :: Text.upperHexadecimal 2 c.toNat
      else if c.toNat ≤ 0xFFFF then 'u' :: Text.upperHexadecimal 4 c.toNat
      else 'U' :: Text.upperHexadecimal 8 c.toNat

def isEscaped (c : Char) : Bool :=
  !isPrintable c || isBreak c || c == '\"' || c == '\\'

def doubleQuoted (chars : List Char) : List Char :=
  '\"' :: chars.flatMap (fun c => if isEscaped c then '\\' :: escape c else [c]) ++ ['\"']

/-- What the header of a literal block says about the breaks at its end: none, one, or several. -/
def chomping (chars : List Char) : List Char :=
  match chars.reverse with
  | [] => ['-']
  | last :: before =>
      if !isBreak last then ['-']
      else
        match before with
        | [] => ['+']
        | c :: _ => if isBreak c then ['+'] else []

/-- The header of a literal block. The indentation is given when the text starts with a blank line
or a blank. -/
def literalHeader (chars : List Char) : List Char :=
  '|' :: (if chars.head?.any fun c => isSpace c || isBreak c then Text.decimal indentStep else [])
    ++ chomping chars

/-- The lines of a literal block. The flag says whether a line has just ended. -/
def literalLines (indent : Nat) : Bool → List Char → List Char
  | atStart, [] => if atStart then [] else ['\n']
  | atStart, c :: rest =>
      if isBreak c then c :: literalLines indent true rest
      else (if atStart then blanks indent else []) ++ c :: literalLines indent false rest

/-- A text, up to and with the end of its last line, inside something of the given indentation. -/
def textForm (indent : Nat) (text : String) : List Char :=
  let chars := text.toList
  match style text with
  | .plain => chars ++ ['\n']
  | .singleQuoted => singleQuoted (indent + indentStep) chars ++ ['\n']
  | .doubleQuoted => doubleQuoted chars ++ ['\n']
  | .literal => literalHeader chars ++ '\n' :: literalLines (indent + indentStep) true chars

/-- The number of bytes up to which a key is written before its colon on one line. -/
def simpleKeyLimit : Nat := 128

/-- Whether a key is written before its colon on one line. -/
def isSimpleKey (key : String) : Bool :=
  !key.toList.any isBreak && key.utf8ByteSize ≤ simpleKeyLimit

/-- Exponents of numbers in YAML texts show a sign only when they are negative. -/
def numberStyle : ExponentStyle := ⟨false⟩

def numberForm : Number → List Char
  | .integer value => Text.decimalInt value
  | .float value => value.text numberStyle

/-- A key up to and with its colon, inside a mapping of the given indentation, and whether the value
starts like that of a list item. -/
def keyForm (indent : Nat) (key : String) : List Char × Bool :=
  if isSimpleKey key then ((textForm indent key).dropLast ++ [':'], false)
  else (['?', ' '] ++ textForm indent key ++ blanks indent ++ [':'], true)

end RunManifest.Yaml

namespace RunManifest.Json

open Yaml

mutual

/-- The block form of a value after a mark or a key, inside something of the given indentation. The
flag says whether a container may start on the same line. -/
def yamlAfter (indent : Nat) (sameLine : Bool) : Json → List Char
  | .null => ' ' :: "null\n".toList
  | .flag value => ' ' :: flagText value ++ ['\n']
  | .number value => ' ' :: numberForm value ++ ['\n']
  | .text value => ' ' :: textForm indent value
  | .array [] => " []\n".toList
  | .array (item :: rest) =>
      if sameLine then
        ' ' :: '-' :: item.yamlAfter (indent + indentStep) true
          ++ yamlItems (indent + indentStep) rest
      else
        '\n' :: blanks indent ++ '-' :: item.yamlAfter indent true ++ yamlItems indent rest
  | .object [] => " \x7b\x7d\n".toList
  | .object ((key, value) :: rest) =>
      let inner := indent + indentStep
      let (form, besideValue) := keyForm inner key
      (if sameLine then [' '] else '\n' :: blanks inner) ++ form
        ++ value.yamlAfter inner besideValue ++ yamlMembers inner rest

/-- Items of a list, each on lines of its own. -/
def yamlItems (indent : Nat) : List Json → List Char
  | [] => []
  | item :: rest => blanks indent ++ '-' :: item.yamlAfter indent true ++ yamlItems indent rest

def yamlMembers (indent : Nat) : List (String × Json) → List Char
  | [] => []
  | (key, value) :: rest =>
      let (form, besideValue) := keyForm indent key
      blanks indent ++ form ++ value.yamlAfter indent besideValue ++ yamlMembers indent rest

end

def yaml : Json → List Char
  | .array (item :: rest) => yamlItems 0 (item :: rest)
  | .object (member :: rest) => yamlMembers 0 (member :: rest)
  | value => (value.yamlAfter 0 true).drop 1

end RunManifest.Json
