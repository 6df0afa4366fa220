import RunManifest.Binary64.Printer
import RunManifest.Json.Basic

/-!
Contract: the JSON texts of document values.

Owns:
- `Json.compact`, without any blank, and `Json.pretty`, with one item or member to a line and two
  blanks of indentation for each level;
- the spelling of strings, where only quotes, backslashes and characters below U+0020 are escaped;
- the spelling of numbers.

Both texts list the members of an object in the order in which the value has them.
-/

set_option autoImplicit false

namespace RunManifest

namespace Number

/-- Exponents of numbers in JSON texts always show their sign. -/
def jsonStyle : ExponentStyle := ⟨true⟩

def jsonText : Number → List Char
  | .integer value => Text.decimalInt value
  | .float value => value.text jsonStyle

end Number

namespace Json

def escapedChar (c : Char) : List Char :=
  if c = '\"' then ['\\', '\"']
  else if c = '\\' then ['\\', '\\']
  else if 0x20 ≤ c.toNat then [c]
  else if c = '\n' then ['\\', 'n']
  else if c = '\r' then ['\\', 'r']
  else if c = '\t' then ['\\', 't']
  else if c.toNat = 0x8 then ['\\', 'b']
  else if c.toNat = 0xC then ['\\', 'f']
  else ['\\', 'u', '0', '0'] ++ List.replicate (2 - (Text.hexadecimal c.toNat).length) '0'
    ++ Text.hexadecimal c.toNat

def stringText (text : String) : List Char :=
  '\"' :: text.toList.flatMap escapedChar ++ ['\"']

def flagText (value : Bool) : List Char :=
  if value then "true".toList else "false".toList

mutual

/-- The JSON text of a value without any blank. -/
def compact : Json → List Char
  | .null => "null".toList
  | .flag value => flagText value
  | .number value => value.jsonText
  | .text value => stringText value
  | .array items => '[' :: compactItems items ++ [']']
  | .object members => '\x7b' :: compactMembers members ++ ['\x7d']

def compactItems : List Json → List Char
  | [] => []
  | item :: rest => item.compact ++ compactItemsAfter rest

def compactItemsAfter : List Json → List Char
  | [] => []
  | item :: rest => ',' :: (item.compact ++ compactItemsAfter rest)

def compactMembers : List (String × Json) → List Char
  | [] => []
  | (key, value) :: rest => stringText key ++ ':' :: (value.compact ++ compactMembersAfter rest)

def compactMembersAfter : List (String × Json) → List Char
  | [] => []
  | (key, value) :: rest =>
      ',' :: (stringText key ++ ':' :: (value.compact ++ compactMembersAfter rest))

end

def newLine (level : Nat) : List Char :=
  '\n' :: List.replicate (2 * level) ' '

mutual

/-- The JSON text of a value at a level of indentation, over several lines. -/
def prettyAt (level : Nat) : Json → List Char
  | .null => "null".toList
  | .flag value => flagText value
  | .number value => value.jsonText
  | .text value => stringText value
  | .array [] => "[]".toList
  | .array (item :: rest) =>
      '[' :: newLine (level + 1) ++ item.prettyAt (level + 1)
        ++ prettyItemsAfter (level + 1) rest ++ newLine level ++ [']']
  | .object [] => "\x7b\x7d".toList
  | .object ((key, value) :: rest) =>
      '\x7b' :: newLine (level + 1) ++ stringText key ++ ':' :: ' ' :: value.prettyAt (level + 1)
        ++ prettyMembersAfter (level + 1) rest ++ newLine level ++ ['\x7d']

def prettyItemsAfter (level : Nat) : List Json → List Char
  | [] => []
  | item :: rest =>
      ',' :: newLine level ++ item.prettyAt level ++ prettyItemsAfter level rest

def prettyMembersAfter (level : Nat) : List (String × Json) → List Char
  | [] => []
  | (key, value) :: rest =>
      ',' :: newLine level ++ stringText key ++ ':' :: ' ' :: value.prettyAt level
        ++ prettyMembersAfter level rest

end

/-- The JSON text of a value over several lines, without a line break at its end. -/
def pretty (value : Json) : List Char :=
  value.prettyAt 0

end Json

end RunManifest
