import RunManifest.Text.Utf8

/-!
Contract: the first characters of a text.

Owns:
- `truncate`, which counts code points, so that no character is ever split;
- `offset?`, `slice?` and `cut?`, the same on bytes: the search for the byte at which the character
  of a given number begins, which goes from one first byte of a character to the next, and the text
  in front of it.
-/

set_option autoImplicit false

namespace RunManifest.Text

/-- The first `limit` characters of a text, or all of it when it has no more. -/
def truncate (limit : Nat) (text : String) : String :=
  String.ofList (text.toList.take limit)

/-- The place of the byte at which the character of the given number begins, if there is one. -/
def offset? : Nat → List UInt8 → Option Nat
  | _, [] => none
  | 0, _ :: _ => some 0
  | count + 1, first :: rest =>
      (offset? count (rest.drop (firstWidth first - 1))).map (· + firstWidth first)

/-- The text of the first bytes; none when it cannot be cut there. -/
def slice? (text : String) (place : Nat) : Option String :=
  if isBoundary (bytes text) place then
    String.fromUTF8? ((bytes text).take place).toByteArray
  else none

/-- The text up to the character of the given number, cut at its byte, or all of the text when there
is no such character; none if the cut were refused. -/
def cut? (limit : Nat) (text : String) : Option String :=
  match offset? limit (bytes text) with
  | some place => slice? text place
  | none => some text

end RunManifest.Text
