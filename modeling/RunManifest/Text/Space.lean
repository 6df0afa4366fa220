/-!
Contract: the characters with the Unicode property White_Space, and trimming by them.

Owns:
- `isSpace`, the property as a table of ranges;
- `trimStart`, which drops such characters from the front of a text;
- `isBlank`, which says that a text has no other characters.

Does not own the narrower notions of blank that the JSON and YAML readers use.
-/

set_option autoImplicit false

namespace RunManifest.Text

/-- The ranges of code points with the property White_Space, both ends included. -/
def spaceRanges : List (Nat × Nat) :=
  [(0x9, 0xD), (0x20, 0x20), (0x85, 0x85), (0xA0, 0xA0), (0x1680, 0x1680), (0x2000, 0x200A),
   (0x2028, 0x2029), (0x202F, 0x202F), (0x205F, 0x205F), (0x3000, 0x3000)]

/-- Whether a code point lies in one of the given ranges, both ends included. -/
def inRanges (ranges : List (Nat × Nat)) (code : Nat) : Bool :=
  ranges.any fun range => range.1 ≤ code && code ≤ range.2

def isSpace (c : Char) : Bool :=
  inRanges spaceRanges c.toNat

def trimStart (text : List Char) : List Char :=
  text.dropWhile isSpace

def isBlank (text : String) : Bool :=
  text.toList.all isSpace

end RunManifest.Text
