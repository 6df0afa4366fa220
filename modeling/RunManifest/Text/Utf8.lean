/-!
Contract: texts as bytes.

Owns:
- `bytes`, the code of a text in UTF-8;
- `firstWidth` and `isContinuation`, what a byte tells about the character it belongs to;
- `isBoundary`, the places at which a text can be cut.
-/

set_option autoImplicit false

namespace RunManifest.Text

def bytes (text : String) : List UInt8 :=
  text.toByteArray.data.toList

/-- The number of bytes of the character that begins with a byte. -/
def firstWidth (first : UInt8) : Nat :=
  if first < 0x80 then 1
  else if first < 0xE0 then 2
  else if first < 0xF0 then 3
  else 4

/-- Whether a byte goes on with a character that began before. -/
def isContinuation (byte : UInt8) : Bool :=
  0x80 ≤ byte && byte < 0xC0

/-- Whether a text can be cut at a place: at its ends, and before a byte that begins a character. -/
def isBoundary (code : List UInt8) (place : Nat) : Bool :=
  place == 0 || place == code.length || code[place]?.any fun byte => !isContinuation byte

end RunManifest.Text
