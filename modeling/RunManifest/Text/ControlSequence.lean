/-!
Contract: what is seen of a text whose control characters a terminal would obey.

Owns:
- `ControlState`, the place inside a control sequence, and `ControlState.next`, the place after one
  more character;
- `ControlState.shows`, the characters that are seen at a place;
- `withoutControls`, a text without its control sequences and without all other control characters
  that are no spacing.

A sequence starts with the escape character. What follows says where it ends: after one character,
after a parameter list, or at a terminator. Spacing inside a short sequence is seen, and so is the
text after it up to the next control character; there the sequence goes on where it was left.
-/

set_option autoImplicit false

namespace RunManifest.Text

/-- A place inside a control sequence. -/
inductive ControlState where
  /-- Outside of all sequences. -/
  | ground
  /-- After the escape character. -/
  | escape
  /-- After the escape character and further marks. -/
  | escapeMarks
  /-- In the parameters of a control sequence. -/
  | parameters
  /-- In a command to the operating system. -/
  | systemCommand
  /-- At the start of a device control string. -/
  | deviceStart
  /-- In the parameters of a device control string. -/
  | deviceParameters
  /-- In the marks after these parameters. -/
  | deviceMarks
  /-- In a string that only its terminator ends. -/
  | controlString
deriving DecidableEq, Repr

def isCodeIn (low high code : Nat) : Bool :=
  low ≤ code && code ≤ high

/-- Whether a control character is a blank or ends a line or a page. -/
def isSpacingControl (c : Char) : Bool :=
  c == '\t' || c == '\n' || c == '\r' || c.toNat == 0x0C

/-- Whether the terminator of control strings, 9C, is among the octets of a character after the
first. -/
def holdsTerminator (c : Char) : Bool :=
  let code := c.toNat
  (0x80 ≤ code && code % 0x40 == 0x1C) || (0x800 ≤ code && code / 0x40 % 0x40 == 0x1C)
    || (0x10000 ≤ code && code / 0x1000 % 0x40 == 0x1C)

namespace ControlState

/-- The place after the escape character and one more, given by its code. -/
def afterEscape (code : Nat) : ControlState :=
  if code = 0x5B then .parameters
  else if code = 0x5D then .systemCommand
  else if code = 0x50 then .deviceStart
  else if code = 0x58 ∨ code = 0x5E ∨ code = 0x5F then .controlString
  else if isCodeIn 0x20 0x2F code then .escapeMarks
  else if isCodeIn 0x30 0x7E code then .ground
  else .escape

/-- The place after a character that neither starts nor breaks off a sequence, given by its
code. -/
def afterCode (state : ControlState) (code : Nat) : ControlState :=
  match state with
  | .ground => .ground
  | .escape => afterEscape code
  | .escapeMarks => if isCodeIn 0x30 0x7E code then .ground else .escapeMarks
  | .parameters => if isCodeIn 0x40 0x7E code then .ground else .parameters
  | .systemCommand => if code = 0x07 then .ground else .systemCommand
  | .deviceStart =>
      if isCodeIn 0x20 0x2F code then .deviceMarks
      else if isCodeIn 0x30 0x3F code then .deviceParameters
      else if isCodeIn 0x40 0x7E code then .controlString
      else .deviceStart
  | .deviceParameters =>
      if isCodeIn 0x20 0x2F code then .deviceMarks
      else if isCodeIn 0x3C 0x7E code then .controlString
      else .deviceParameters
  | .deviceMarks => if isCodeIn 0x30 0x7E code then .controlString else .deviceMarks
  | .controlString => .controlString

/-- The place after a character. The escape character starts a sequence anywhere, and two other
control characters, 18 and 1A, break one off. -/
def next (state : ControlState) (c : Char) : ControlState :=
  let code := c.toNat
  if code = 0x1B then .escape
  else if code = 0x18 ∨ code = 0x1A then .ground
  else if code < 0x80 then state.afterCode code
  else if state = .controlString ∧ holdsTerminator c then .ground
  else state

def showsSpacing : ControlState → Bool
  | .ground => true
  | .escape => true
  | .escapeMarks => true
  | .parameters => true
  | _ => false

def shows (state : ControlState) (c : Char) : Bool :=
  if c.toNat < 0x20 then state.showsSpacing && isSpacingControl c
  else state == .ground && c.toNat != 0x7F

end ControlState

/-- The place after a character that is seen. The flag says whether the character before was seen,
too. Characters of several octets end the sequence in which they are seen. -/
def ControlState.afterSeen (seen : Bool) (state : ControlState) (c : Char) : ControlState :=
  if 0x80 ≤ c.toNat then .ground else if seen then state else state.next c

/-- What is seen of a text from a place on. The flag says whether the character before was seen; if
so, the next one is judged as outside of all sequences. -/
def seenFrom : Bool → ControlState → List Char → List Char
  | _, _, [] => []
  | seen, state, c :: rest =>
      if (if seen then ControlState.ground else state).shows c then
        c :: seenFrom true (state.afterSeen seen c) rest
      else seenFrom false (state.next c) rest

/-- A text without what a terminal would not show. -/
def withoutControls (text : String) : String :=
  String.ofList (seenFrom false .ground text.toList)

end RunManifest.Text
