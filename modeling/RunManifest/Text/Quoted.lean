import RunManifest.Text.Digits
import RunManifest.Text.Hidden

/-!
Contract: a text in double quotes, as messages show it.

Owns `quoted`. Quotes and backslashes are escaped, tab, newline, carriage return and NUL have short
escapes, and every other character that could not be seen is written by its code point in braces.
-/

set_option autoImplicit false

namespace RunManifest.Text

def quotedChar (c : Char) : List Char :=
  if c = '\"' then ['\\', '\"']
  else if c = '\\' then ['\\', '\\']
  else if c = '\t' then ['\\', 't']
  else if c = '\n' then ['\\', 'n']
  else if c = '\r' then ['\\', 'r']
  else if c.toNat = 0 then ['\\', '0']
  else if isHidden c then ['\\', 'u', '\x7b'] ++ hexadecimal c.toNat ++ ['\x7d']
  else [c]

def quoted (text : String) : String :=
  String.ofList ('\"' :: text.toList.flatMap quotedChar ++ ['\"'])

end RunManifest.Text
