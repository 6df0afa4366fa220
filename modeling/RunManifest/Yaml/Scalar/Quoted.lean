import RunManifest.Text.Digits
import RunManifest.Yaml.Cursor
import RunManifest.Yaml.Scalar.Gap

/-!
Contract: scalars in quotes.

Owns `readQuoted`, which reads the text of a scalar from its opening quote on. In single quotes a
quote is written twice; in double quotes a backslash starts an escape, and one at the end of a line
takes the break away.
-/

set_option autoImplicit false

namespace RunManifest.Yaml

def escapedChar? (c : Char) : Option Char :=
  match c with
  | '0' => some (Char.ofNat 0x0)
  | 'a' => some (Char.ofNat 0x7)
  | 'b' => some (Char.ofNat 0x8)
  | 't' => some '\t'
  | '\t' => some '\t'
  | 'n' => some '\n'
  | 'v' => some (Char.ofNat 0xB)
  | 'f' => some (Char.ofNat 0xC)
  | 'r' => some '\r'
  | 'e' => some (Char.ofNat 0x1B)
  | ' ' => some ' '
  | '\"' => some '\"'
  | '/' => some '/'
  | '\\' => some '\\'
  | 'N' => some nextLine
  | '_' => some (Char.ofNat 0xA0)
  | 'L' => some lineSeparator
  | 'P' => some paragraphSeparator
  | _ => none

def escapeWidth? (c : Char) : Option Nat :=
  match c with
  | 'x' => some 2
  | 'u' => some 4
  | 'U' => some 8
  | _ => none

def charOfCode? (code : Nat) : Option Char :=
  if (0xD800 ≤ code ∧ code ≤ 0xDFFF) ∨ 0x10FFFF < code then none else some (Char.ofNat code)

/-- The character of an escape after the backslash, and the number of characters of the escape. -/
def escape? : List Char → Option (Char × Nat)
  | [] => none
  | c :: rest =>
      match escapedChar? c with
      | some escaped => some (escaped, 1)
      | none => do
          let width ← escapeWidth? c
          let digits := rest.take width
          if digits.length = width then
            let code ← Text.hexadecimalValue? digits
            let escaped ← charOfCode? code
            return (escaped, width + 1)
          else none

/-- The kind of quotes around a scalar. -/
inductive Quote where
  | single
  | double
deriving DecidableEq, Repr

def Quote.char : Quote → Char
  | .single => '\x27'
  | .double => '\"'

/-- The text of a scalar from a place in it on, after the given spacing, and the place after its
closing quote. The first argument bounds the number of steps. -/
def readQuotedFrom (quote : Quote) : Nat → Gap → Cursor → Option (List Char × Cursor)
  | 0, _, _ => none
  | fuel + 1, gap, cursor =>
      match cursor.rest with
      | [] => none
      | c :: rest =>
          if isBreak c then readQuotedFrom quote fuel (gap.extend c) cursor.nextLine
          else if isBlank c then readQuotedFrom quote fuel (gap.extend c) cursor.next
          else if cursor.isAtDocumentMark then none
          else if c = quote.char then
            if quote = .single ∧ rest.head? = some c then do
              let (chars, after) ← readQuotedFrom quote fuel .none (cursor.advance 2)
              return (gap.text ++ c :: chars, after)
            else some (gap.text, cursor.next)
          else if quote = .double ∧ c = '\\' then
            if rest.head?.any isBreak then do
              let (chars, after) ← readQuotedFrom quote fuel (.lines none []) cursor.next.nextLine
              return (gap.text ++ chars, after)
            else do
              let (escaped, width) ← escape? rest
              let (chars, after) ← readQuotedFrom quote fuel .none (cursor.advance (width + 1))
              return (gap.text ++ escaped :: chars, after)
          else do
            let (chars, after) ← readQuotedFrom quote fuel .none cursor.next
            return (gap.text ++ c :: chars, after)

/-- The text of a scalar from its opening quote on, and the place after its closing quote. Every
step uses up a character. -/
def readQuoted (quote : Quote) (cursor : Cursor) : Option (List Char × Cursor) :=
  readQuotedFrom quote cursor.rest.length .none cursor.next

end RunManifest.Yaml
