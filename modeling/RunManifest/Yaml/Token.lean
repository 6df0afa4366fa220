import RunManifest.Yaml.Scalar.Block
import RunManifest.Yaml.Scalar.Plain
import RunManifest.Yaml.Scalar.Quoted
import RunManifest.Yaml.Tag

/-!
Contract: the tokens of a YAML text.

Owns:
- `Token`, the marks and scalars of a text, and the starts and ends of blocks that its indentation
  implies;
- `Lexer`, the state of taking a text apart, and `tokens?`, which takes a whole text apart.

Whether a scalar is a key shows only at the colon after it. The lexer remembers the last place where
a key may have started; when a colon comes in time, the mark of a key, and perhaps the start of a
mapping, are put before the tokens since then.
-/

set_option autoImplicit false

namespace RunManifest.Yaml

/-- How a scalar is written. -/
inductive ScalarStyle where
  | plain
  | quoted
  | literal
  | folded
deriving DecidableEq, Repr

/-- A token. -/
inductive Token where
  | directive (directive : Directive)
  | documentStart
  | documentEnd
  | blockSequenceStart
  | blockMappingStart
  | blockEnd
  | flowSequenceStart
  | flowSequenceEnd
  | flowMappingStart
  | flowMappingEnd
  | blockEntry
  | flowEntry
  | key
  | value
  | alias (name : String)
  | anchor (name : String)
  | tag (name : TagName)
  | scalar (style : ScalarStyle) (text : String)
deriving DecidableEq, Repr

/-- A place where a key may have started. -/
structure PossibleKey where
  /-- The number of tokens before it. -/
  position : Nat
  index : Nat
  line : Nat
  column : Nat
  /-- Whether there has to be a key, because its column is that of the keys of the current block. -/
  required : Bool
deriving DecidableEq, Repr

/-- The state of taking a text apart. -/
structure Lexer where
  cursor : Cursor
  /-- The tokens so far, the last one first. -/
  tokens : List Token
  /-- The column of the current block, -1 outside all blocks. -/
  indent : Int
  /-- The columns of the blocks around it. -/
  around : List Int
  /-- Whether a key may start here. -/
  keyAllowed : Bool
  /-- Where a key may have started in the current flow collection, or outside all of them. -/
  possibleKey : Option PossibleKey
  /-- The same for the flow collections around it. -/
  outerKeys : List (Option PossibleKey)
deriving DecidableEq, Repr

namespace Lexer

def start (text : List Char) : Lexer where
  cursor := .start text
  tokens := []
  indent := -1
  around := []
  keyAllowed := true
  possibleKey := none
  outerKeys := []

def inFlow (lexer : Lexer) : Bool :=
  !lexer.outerKeys.isEmpty

def emit (token : Token) (lexer : Lexer) : Lexer :=
  { lexer with tokens := token :: lexer.tokens }

def insertAt (position : Nat) (token : Token) (lexer : Lexer) : Lexer :=
  let later := lexer.tokens.length - position
  { lexer with tokens := lexer.tokens.take later ++ token :: lexer.tokens.drop later }

/-! ## Blocks -/

/-- The ends of blocks that start right of a column: how many, the column of the block then reached,
and those around it. -/
def closeBlocks (column : Int) : Int → List Int → Nat × Int × List Int
  | indent, [] => (0, indent, [])
  | indent, outer :: around =>
      if column < indent then
        let (count, indent, around) := closeBlocks column outer around
        (count + 1, indent, around)
      else (0, indent, outer :: around)

/-- Leaving all blocks that start right of a column. -/
def leaveBlocks (column : Int) (lexer : Lexer) : Lexer :=
  if lexer.inFlow then lexer
  else
    let (count, indent, around) := closeBlocks column lexer.indent lexer.around
    { lexer with
      tokens := List.replicate count .blockEnd ++ lexer.tokens
      indent := indent
      around := around }

/-- Entering a block at a column, unless one starts there already. Its first token is put at a
position, by default at the end. -/
def enterBlock (column : Nat) (position : Nat) (token : Token) (lexer : Lexer) : Lexer :=
  if lexer.inFlow then lexer
  else if lexer.indent < column then
    { lexer with indent := column, around := lexer.indent :: lexer.around }.insertAt position token
  else lexer

/-! ## Possible keys -/

def dropKey (lexer : Lexer) : Option Lexer :=
  if lexer.possibleKey.any PossibleKey.required then none
  else some { lexer with possibleKey := none }

/-- A key may start here, if it is allowed to. -/
def saveKey (lexer : Lexer) : Option Lexer :=
  if lexer.keyAllowed then do
    let lexer ← lexer.dropKey
    let cursor := lexer.cursor
    return { lexer with
      possibleKey :=
        some
          { position := lexer.tokens.length
            index := cursor.index
            line := cursor.line
            column := cursor.column
            required := !lexer.inFlow && lexer.indent == cursor.column } }
  else some lexer

/-- The number of octets within which the colon after a key has to come. -/
def keyReach : Nat := 1024

/-- Whether a key that may have started somewhere can no longer be one. -/
def isStale (cursor : Cursor) (key : PossibleKey) : Bool :=
  key.line < cursor.line || key.index + keyReach < cursor.index

/-- A possible key as long as it can still be one; none when it has to be one and cannot. -/
def freshKey (cursor : Cursor) (key : Option PossibleKey) : Option (Option PossibleKey) :=
  match key with
  | none => some none
  | some key =>
      if isStale cursor key then if key.required then none else some none else some (some key)

/-- Forgetting the possible keys that can no longer be keys. -/
def dropStaleKeys (lexer : Lexer) : Option Lexer := do
  let possibleKey ← freshKey lexer.cursor lexer.possibleKey
  let outerKeys ← lexer.outerKeys.mapM (freshKey lexer.cursor)
  return { lexer with possibleKey := possibleKey, outerKeys := outerKeys }

/-! ## Between tokens -/

/-- Passing over blanks, comments and breaks. A new line in a block allows a key, and where a key is
allowed a tab is no blank. At the start of a line a byte order mark is passed over, too; it takes up
a column. The first argument bounds the number of steps. -/
def skipSpacing (inFlow : Bool) : Nat → Bool → Cursor → Bool × Cursor
  | 0, keyAllowed, cursor => (keyAllowed, cursor)
  | fuel + 1, keyAllowed, cursor =>
      match cursor.rest with
      | [] => (keyAllowed, cursor)
      | c :: _ =>
          if isBreak c then skipSpacing inFlow fuel (keyAllowed || !inFlow) cursor.nextLine
          else if c = ' ' ∨ (c = '\t' ∧ (inFlow ∨ ¬ keyAllowed))
              ∨ (c = byteOrderMark ∧ cursor.column = 0) then
            skipSpacing inFlow fuel keyAllowed cursor.next
          else if c = '#' then
            skipSpacing inFlow fuel keyAllowed (cursor.skipWhile fun d => !isBreak d)
          else (keyAllowed, cursor)

def toToken (lexer : Lexer) : Option Lexer := do
  let (keyAllowed, cursor) :=
    skipSpacing lexer.inFlow (lexer.cursor.rest.length + 1) lexer.keyAllowed lexer.cursor
  let lexer ← { lexer with keyAllowed := keyAllowed, cursor := cursor }.dropStaleKeys
  return lexer.leaveBlocks cursor.column

/-! ## Tokens -/

def mark (token : Token) (width : Nat) (lexer : Lexer) : Lexer :=
  { lexer with cursor := lexer.cursor.advance width }.emit token

def documentMark (token : Token) (lexer : Lexer) : Option Lexer := do
  let lexer ← (lexer.leaveBlocks (-1)).dropKey
  return { lexer with keyAllowed := false }.mark token 3

def directive (lexer : Lexer) : Option Lexer := do
  let lexer ← (lexer.leaveBlocks (-1)).dropKey
  let (directive, after) ← readDirective lexer.cursor
  return { lexer with keyAllowed := false, cursor := after }.emit (.directive directive)

def flowStart (token : Token) (lexer : Lexer) : Option Lexer := do
  let lexer ← lexer.saveKey
  return { lexer with
    keyAllowed := true
    possibleKey := none
    outerKeys := lexer.possibleKey :: lexer.outerKeys }.mark token 1

def flowEnd (token : Token) (lexer : Lexer) : Option Lexer := do
  let lexer ← lexer.dropKey
  let lexer :=
    match lexer.outerKeys with
    | [] => lexer
    | key :: outerKeys => { lexer with possibleKey := key, outerKeys := outerKeys }
  return { lexer with keyAllowed := false }.mark token 1

def flowEntry (lexer : Lexer) : Option Lexer := do
  let lexer ← lexer.dropKey
  return { lexer with keyAllowed := true }.mark .flowEntry 1

/-- A mark that has to stand where a key may start, and that starts a block there. -/
def blockMark (start : Token) (lexer : Lexer) : Option Lexer :=
  if lexer.inFlow then some lexer
  else if lexer.keyAllowed then
    some (lexer.enterBlock lexer.cursor.column lexer.tokens.length start)
  else none

def blockEntry (lexer : Lexer) : Option Lexer := do
  let lexer ← lexer.blockMark .blockSequenceStart
  let lexer ← lexer.dropKey
  return { lexer with keyAllowed := true }.mark .blockEntry 1

def explicitKey (lexer : Lexer) : Option Lexer := do
  let lexer ← lexer.blockMark .blockMappingStart
  let lexer ← lexer.dropKey
  return { lexer with keyAllowed := !lexer.inFlow }.mark .key 1

def valueMark (lexer : Lexer) : Option Lexer :=
  match lexer.possibleKey with
  | some key =>
      let lexer :=
        (lexer.insertAt key.position .key).enterBlock key.column key.position .blockMappingStart
      some ({ lexer with possibleKey := none, keyAllowed := false }.mark .value 1)
  | none => do
      let lexer ← lexer.blockMark .blockMappingStart
      return { lexer with keyAllowed := !lexer.inFlow }.mark .value 1

def name (token : String → Token) (lexer : Lexer) : Option Lexer := do
  let lexer ← lexer.saveKey
  let (name, after) ← readName lexer.cursor
  return { lexer with keyAllowed := false, cursor := after }.emit (token name)

def tag (lexer : Lexer) : Option Lexer := do
  let lexer ← lexer.saveKey
  let (tag, after) ← readTag lexer.inFlow lexer.cursor
  return { lexer with keyAllowed := false, cursor := after }.emit (.tag tag)

def blockScalar (folded : Bool) (lexer : Lexer) : Option Lexer := do
  let lexer ← lexer.dropKey
  let (chars, after) ← readBlock folded lexer.indent lexer.cursor
  let style := if folded then ScalarStyle.folded else .literal
  return { lexer with keyAllowed := true, cursor := after }.emit
    (.scalar style (String.ofList chars))

def quotedScalar (quote : Quote) (lexer : Lexer) : Option Lexer := do
  let lexer ← lexer.saveKey
  let (chars, after) ← readQuoted quote lexer.cursor
  return { lexer with keyAllowed := false, cursor := after }.emit
    (.scalar .quoted (String.ofList chars))

def plainScalar (lexer : Lexer) : Option Lexer := do
  let lexer ← lexer.saveKey
  let read ← readPlain lexer.inFlow (lexer.indent + 1) lexer.cursor
  return { lexer with keyAllowed := read.lineEnded, cursor := read.after }.emit
    (.scalar .plain (String.ofList read.chars))

/-- The token at a place where the text goes on with the given characters. -/
def token (lexer : Lexer) (c : Char) (rest : List Char) : Option Lexer :=
  if lexer.cursor.column = 0 ∧ c = '%' then lexer.directive
  else if lexer.cursor.isAtDocumentMark then
    lexer.documentMark (if c = '-' then .documentStart else .documentEnd)
  else if c = '[' then lexer.flowStart .flowSequenceStart
  else if c = '\x7b' then lexer.flowStart .flowMappingStart
  else if c = ']' then lexer.flowEnd .flowSequenceEnd
  else if c = '\x7d' then lexer.flowEnd .flowMappingEnd
  else if c = ',' then lexer.flowEntry
  else if c = '-' ∧ endsWord rest then lexer.blockEntry
  else if c = '?' ∧ (lexer.inFlow ∨ endsWord rest) then lexer.explicitKey
  else if c = ':' ∧ (lexer.inFlow ∨ endsWord rest) then lexer.valueMark
  else if c = '*' then lexer.name .alias
  else if c = '&' then lexer.name .anchor
  else if c = '!' then lexer.tag
  else if c = '|' ∧ ¬ lexer.inFlow then lexer.blockScalar false
  else if c = '>' ∧ ¬ lexer.inFlow then lexer.blockScalar true
  else if c = '\x27' then lexer.quotedScalar .single
  else if c = '\"' then lexer.quotedScalar .double
  else if startsPlain lexer.inFlow (c :: rest) then lexer.plainScalar
  else none

/-- The tokens from a place on, after those there are. The first argument bounds the number of
tokens. -/
def run : Nat → Lexer → Option (List Token)
  | 0, _ => none
  | fuel + 1, lexer => do
      let lexer ← lexer.toToken
      match lexer.cursor.rest with
      | [] =>
          let lexer ← (lexer.leaveBlocks (-1)).dropKey
          return lexer.tokens.reverse
      | c :: rest => run fuel (← lexer.token c rest)

end Lexer

/-- The tokens of a text. Every token uses up a character. -/
def tokens? (text : String) : Option (List Token) :=
  if text.toList.all isAllowed then
    let chars := normalBreaks text.toList
    (Lexer.start chars).run (chars.length + 1)
  else none

end RunManifest.Yaml
