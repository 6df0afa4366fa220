/-!
Contract: replacing every occurrence of a token in a text.

Owns:
- `replaceAll`, which finds occurrences from left to right without overlap;
- `replaceEach`, which applies a list of replacements one after the other, each to the result of
  the one before.

An empty token occurs before every character and at the end.
-/

set_option autoImplicit false

namespace RunManifest.Text

/-- The replacement of a non-empty token. The first argument counts the characters of an
occurrence that are still to be passed over. -/
def replaceFrom (token value : List Char) : Nat → List Char → List Char
  | _, [] => []
  | skip + 1, _ :: rest => replaceFrom token value skip rest
  | 0, c :: rest =>
      if token.isPrefixOf (c :: rest) then
        value ++ replaceFrom token value (token.length - 1) rest
      else c :: replaceFrom token value 0 rest

/-- The text with every occurrence of `token` replaced by `value`. -/
def replaceChars (token value text : List Char) : List Char :=
  if token.isEmpty then value ++ text.flatMap (fun c => c :: value)
  else replaceFrom token value 0 text

def replaceAll (token value text : String) : String :=
  String.ofList (replaceChars token.toList value.toList text.toList)

/-- The text after the given replacements, applied in order. -/
def replaceEach (replacements : List (String × String)) (text : String) : String :=
  replacements.foldl (fun text replacement => replaceAll replacement.1 replacement.2 text) text

end RunManifest.Text
