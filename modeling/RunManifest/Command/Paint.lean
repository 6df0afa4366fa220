import RunManifest.Text.Replace

/-!
Contract: emphasis on the terminal.

Owns:
- `Emphasis`, the kinds of emphasis, and `Emphasis.code`, what switches each on;
- `paint`, a text between the codes that switch its emphasis on and off. Where the text itself
  switches all emphasis off, its own is switched on again.
-/

set_option autoImplicit false

namespace RunManifest.Command

/-- A kind of emphasis. -/
inductive Emphasis where
  | bold
  | dimmed
  | red
  | green
  | cyan
deriving DecidableEq, Repr

def escapeChar : Char := Char.ofNat 0x1B

def terminalCode (number : String) : String :=
  String.singleton escapeChar ++ "[" ++ number ++ "m"

/-- The code that switches all emphasis off. -/
def plainCode : String := terminalCode "0"

def Emphasis.code : Emphasis → String
  | .bold => terminalCode "1"
  | .dimmed => terminalCode "2"
  | .red => terminalCode "31"
  | .green => terminalCode "32"
  | .cyan => terminalCode "36"

/-- A text with an emphasis, if emphasis is shown at all. -/
def paint (shown : Bool) (emphasis : Emphasis) (text : String) : String :=
  if shown then
    emphasis.code ++ Text.replaceAll plainCode (plainCode ++ emphasis.code) text ++ plainCode
  else text

end RunManifest.Command
