import RunManifest.Text.Digits
import RunManifest.Yaml.Cursor

/-!
Contract: the names in YAML texts: anchors, tags and directives.

Owns:
- `readName`, the name of an anchor;
- `Tag`, the characters of a tag, and `TagName`, a tag as it is written;
- `readTag`, a tag in one of its forms: a whole name in angle brackets, a handle with a suffix, or a
  suffix alone;
- `readDirective`, a line that says which version of YAML a document has or what a handle stands
  for.

Characters of a tag can be given by the octets that encode them. These octets need not encode a
character, and a NUL among them ends the tag.
-/

set_option autoImplicit false

namespace RunManifest.Yaml

/-- Whether a character may stand in the name of an anchor, a handle or a directive. -/
def isNameChar (c : Char) : Bool :=
  c.isAlphanum || c == '-' || c == '_'

/-- The characters, beside spacing, that may follow the name of an anchor. -/
def nameEnds : List Char := ['?', ':', ',', ']', '\x7d', '%', '@', '\x60']

/-- Whether the name of an anchor is over. -/
def endsName (chars : List Char) : Bool :=
  endsWord chars || chars.head?.any nameEnds.contains

/-- The name of an anchor after its mark, and the place after the name. -/
def readName (cursor : Cursor) : Option (String × Cursor) :=
  let name := cursor.next.rest.takeWhile isNameChar
  let after := cursor.next.advance name.length
  if name.isEmpty || !endsName after.rest then none else some (String.ofList name, after)

/-! ## Tags -/

/-- The characters of a tag. Octets that encode no character stand there as none. -/
abbrev Tag := List (Option Char)

namespace Tag

def ofText (text : String) : Tag :=
  text.toList.map some

/-- The tag up to the first NUL. -/
def ended (tag : Tag) : Tag :=
  tag.takeWhile fun c => c != some (Char.ofNat 0)

/-- Whether a tag is one of the application's own. -/
def isLocal (tag : Tag) : Bool :=
  tag.head? == some (some '!')

/-- Whether all octets of a tag encode characters. -/
def isLegible (tag : Tag) : Bool :=
  tag.all Option.isSome

end Tag

/-- The handle of a tag and what follows it there. -/
structure TagName where
  handle : String
  suffix : Tag
deriving DecidableEq, Repr

/-- Whether a character may stand in a tag. Commas and brackets may only between angle brackets. -/
def isTagChar (whole : Bool) (c : Char) : Bool :=
  isNameChar c || ";/?:@&=+$.!~*\x27()%".toList.contains c
    || (whole && [',', '[', ']'].contains c)

def octet? : List Char → Option (Nat × List Char)
  | '%' :: high :: low :: rest =>
      (Text.hexadecimalValue? [high, low]).map fun value => (value, rest)
  | _ => none

/-- The number of octets of a character whose first octet is given, and the bits of that octet
which count. -/
def encodingLength? (first : Nat) : Option (Nat × Nat) :=
  if first < 0x80 then some (1, first)
  else if 0xC0 ≤ first ∧ first < 0xE0 then some (2, first % 0x20)
  else if 0xE0 ≤ first ∧ first < 0xF0 then some (3, first % 0x10)
  else if 0xF0 ≤ first ∧ first < 0xF8 then some (4, first % 0x8)
  else none

/-- Further octets of a character, added to the bits so far. -/
def moreOctets : Nat → Nat → List Char → Option (Nat × List Char)
  | 0, code, chars => some (code, chars)
  | count + 1, code, chars => do
      let (value, rest) ← octet? chars
      if 0x80 ≤ value ∧ value < 0xC0 then moreOctets count (code * 0x40 + value % 0x40) rest
      else none

/-- The character with a code point that is encoded by a number of octets. There is none if fewer
octets would do. -/
def encodedChar? (count code : Nat) : Option Char :=
  if h : code.isValidChar then
    let c := Char.ofNatAux code h
    if c.utf8Size = count then some c else none
  else none

def readOctets (chars : List Char) : Option (Option Char × List Char) := do
  let (first, rest) ← octet? chars
  let (count, bits) ← encodingLength? first
  let (code, rest) ← moreOctets (count - 1) bits rest
  return (encodedChar? count code, rest)

/-- The characters of a tag, with those given by octets put in. The first argument bounds the number
of characters. -/
def tagChars : Nat → List Char → Option Tag
  | 0, _ => some []
  | _, [] => some []
  | fuel + 1, c :: rest =>
      if c = '%' then do
        let (decoded, rest) ← readOctets (c :: rest)
        return decoded :: (← tagChars fuel rest)
      else do
        return some c :: (← tagChars fuel rest)

def readTagChars (whole : Bool) (cursor : Cursor) : Option (Tag × Cursor) := do
  let written := cursor.rest.takeWhile (isTagChar whole)
  let chars ← tagChars written.length written
  return (chars, cursor.advance written.length)

/-- A handle at a place: an exclamation mark, and perhaps a name and another one. -/
def readHandle (cursor : Cursor) : List Char × Cursor :=
  let name := cursor.next.rest.takeWhile isNameChar
  let after := cursor.next.advance name.length
  if after.rest.head? = some '!' then ('!' :: name ++ ['!'], after.next)
  else ('!' :: name, after)

/-- Whether a handle has a mark at both ends. -/
def isClosedHandle (handle : List Char) : Bool :=
  2 ≤ handle.length && handle.getLast? == some '!'

def readWholeTag (cursor : Cursor) : Option (TagName × Cursor) := do
  let (chars, after) ← readTagChars true (cursor.advance 2)
  if chars.isEmpty ∨ after.rest.head? ≠ some '>' then none
  else return (⟨"", chars.ended⟩, after.next)

/-- A tag with or without a handle, from its first mark on. A lone mark is a tag of its own. -/
def readShortTag (cursor : Cursor) : Option (TagName × Cursor) := do
  let (handle, after) := readHandle cursor
  let (chars, after) ← readTagChars false after
  if isClosedHandle handle then
    if chars.isEmpty then none else return (⟨String.ofList handle, chars.ended⟩, after)
  else
    let suffix := Tag.ended ((handle.drop 1).map some ++ chars)
    if suffix.isEmpty then return (⟨"", .ofText "!"⟩, after)
    else return (⟨"!", suffix⟩, after)

def readTag (inFlow : Bool) (cursor : Cursor) : Option (TagName × Cursor) := do
  let (tag, after) ←
    if cursor.next.rest.head? = some '<' then readWholeTag cursor else readShortTag cursor
  if endsWord after.rest ∨ (inFlow ∧ after.rest.head? = some ',') then return (tag, after) else none

/-! ## Directives -/

/-- What a directive says. -/
inductive Directive where
  /-- The version of YAML. -/
  | version (major minor : Nat)
  /-- What a handle stands for. -/
  | handle (handle : String) (stem : Tag)
deriving DecidableEq, Repr

def versionDigits : Nat := 9

def readVersionPart (cursor : Cursor) : Option (Nat × Cursor) :=
  let digits := cursor.rest.takeWhile Char.isDigit
  if digits.isEmpty || versionDigits < digits.length then none
  else some (Text.decimalValue digits, cursor.advance digits.length)

def readVersion (cursor : Cursor) : Option (Directive × Cursor) := do
  let (major, after) ← readVersionPart (cursor.skipWhile isBlank)
  if after.rest.head? ≠ some '.' then none
  else
    let (minor, after) ← readVersionPart after.next
    return (.version major minor, after)

/-- The handle of a directive and what it stands for. -/
def readHandleMeaning (cursor : Cursor) : Option (Directive × Cursor) := do
  let start := cursor.skipWhile isBlank
  if start.rest.head? ≠ some '!' then none
  else
    let (handle, after) := readHandle start
    if (handle ≠ ['!'] ∧ ¬ isClosedHandle handle) ∨ ¬ after.rest.head?.any isBlank then none
    else
      let (chars, after) ← readTagChars true (after.skipWhile isBlank)
      if chars.isEmpty ∨ ¬ endsWord after.rest then none
      else return (.handle (String.ofList handle) chars.ended, after)

/-- The rest of a line that holds nothing more, except perhaps a comment. -/
def finishLine (cursor : Cursor) : Option Cursor :=
  let cursor := cursor.skipWhile isBlank
  let cursor :=
    if cursor.rest.head? = some '#' then cursor.skipWhile fun c => !isBreak c else cursor
  match cursor.rest with
  | [] => some cursor
  | c :: _ => if isBreak c then some cursor.nextLine else none

/-- A directive from its first mark on, and the place after its line. -/
def readDirective (cursor : Cursor) : Option (Directive × Cursor) := do
  let name := cursor.next.rest.takeWhile isNameChar
  let after := cursor.next.advance name.length
  if name.isEmpty ∨ ¬ endsWord after.rest then none
  else
    let (directive, after) ←
      if name = "YAML".toList then readVersion after
      else if name = "TAG".toList then readHandleMeaning after
      else none
    return (directive, ← finishLine after)

end RunManifest.Yaml
