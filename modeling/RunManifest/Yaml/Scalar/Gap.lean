import RunManifest.Yaml.Character

/-!
Contract: the spacing between two words of a scalar that goes over several lines.

Owns `Gap`, the spacing passed since the last word, and `Gap.text`, what is left of it: blanks
within a line stay, a single break becomes a space, and of several breaks the first is dropped.
-/

set_option autoImplicit false

namespace RunManifest.Yaml

/-- The spacing passed since the last word. -/
inductive Gap where
  /-- None: the word goes on. -/
  | none
  /-- Blanks within a line, the last one first. -/
  | blanks (passed : List Char)
  /-- Lines have ended: the first break, unless it was escaped, and the others, the last one
  first. -/
  | lines (first : Option Char) (others : List Char)
deriving DecidableEq, Repr

namespace Gap

def hasBreak : Gap → Bool
  | .lines _ _ => true
  | _ => false

def isOpen : Gap → Bool
  | .none => false
  | _ => true

/-- The spacing with one more blank or break. Blanks at the start of a line do not count. -/
def extend (gap : Gap) (c : Char) : Gap :=
  match gap, isBreak c with
  | .none, false => .blanks [c]
  | .blanks passed, false => .blanks (c :: passed)
  | .lines first others, false => .lines first others
  | .none, true => .lines (some c) []
  | .blanks _, true => .lines (some c) []
  | .lines first others, true => .lines first (c :: others)

/-- What is left of the spacing before the next word. -/
def text : Gap → List Char
  | .none => []
  | .blanks passed => passed.reverse
  | .lines (some '\n') [] => [' ']
  | .lines (some '\n') others => others.reverse
  | .lines first others => first.toList ++ others.reverse

end Gap

end RunManifest.Yaml
