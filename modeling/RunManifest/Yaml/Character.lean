/-!
Contract: the classes of characters that YAML tells apart.

Owns:
- `isBreak`, `isBlank` and `isSpacing`, the characters between words and lines;
- `isPrintable`, the characters that can stand in a text as they are;
- `isAllowed`, the characters that may occur in a document at all;
- `endsWord`, which says that a word is over.
-/

set_option autoImplicit false

namespace RunManifest.Yaml

/-- The character that parts lines with a paragraph between them, U+2028. -/
def lineSeparator : Char := Char.ofNat 0x2028

def paragraphSeparator : Char := Char.ofNat 0x2029

def nextLine : Char := Char.ofNat 0x85

def byteOrderMark : Char := Char.ofNat 0xFEFF

def isBreak (c : Char) : Bool :=
  c == '\n' || c == '\r' || c == nextLine || c == lineSeparator || c == paragraphSeparator

def isBlank (c : Char) : Bool :=
  c == ' ' || c == '\t'

def isSpacing (c : Char) : Bool :=
  isBlank c || isBreak c

/-- Whether nothing follows, or a blank, or the end of a line. -/
def endsWord : List Char → Bool
  | [] => true
  | c :: _ => isSpacing c

def isPrintable (c : Char) : Bool :=
  c == '\n' || (0x20 ≤ c.toNat && c.toNat ≤ 0x7E) || (0xA0 ≤ c.toNat && c.toNat ≤ 0xD7FF)
    || (0xE000 ≤ c.toNat && c.toNat ≤ 0xFFFD && c.toNat != 0xFEFF) || 0x10000 ≤ c.toNat

def isAllowed (c : Char) : Bool :=
  c == '\t' || c == '\n' || c == '\r' || c == nextLine || (0x20 ≤ c.toNat && c.toNat ≤ 0x7E)
    || (0xA0 ≤ c.toNat && c.toNat ≤ 0xD7FF) || (0xE000 ≤ c.toNat && c.toNat ≤ 0xFFFD)
    || 0x10000 ≤ c.toNat

end RunManifest.Yaml
