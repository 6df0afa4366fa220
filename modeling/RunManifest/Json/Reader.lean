import RunManifest.Json.Literal

/-!
Contract: the tree of a JSON text.

Owns:
- `readNode`, which reads one value from the front of a text;
- `decode`, which reads a text that holds one value and nothing else.

A value that breaks leaves no rest, and everything around it ends there. Blanks between the parts
of a text are space, tab, newline and carriage return.
-/

set_option autoImplicit false

namespace RunManifest.Json

/-- Whether a character may stand between the parts of a JSON text. -/
def isBlank (c : Char) : Bool :=
  c == ' ' || c == '\t' || c == '\n' || c == '\r'

def skipBlanks (text : List Char) : List Char :=
  text.dropWhile isBlank

def readWord (value : Node) : List Char → List Char → Node × Option (List Char)
  | [], chars => (value, some chars)
  | _ :: _, [] => (.broken (.both (.truncated .value)), none)
  | expected :: word, c :: rest =>
      if c = expected then readWord value word rest
      else (.broken (.both (.malformed .noWord)), none)

def readText (text : List Char) : Node × Option (List Char) :=
  match scanString text with
  | .ok (value, rest) => (.text value, some rest)
  | .error breakage => (.broken breakage, none)

def readNumber (text : List Char) : Node × Option (List Char) :=
  match scanNumber text with
  | .ok (digits, rest) => (.number digits.toNumber?, some rest)
  | .error breakage => (.broken breakage, none)

/-- The items of an array and what follows it. -/
structure ReadItems where
  items : List Node
  ending : Option Fault
  rest : Option (List Char)

/-- The members of an object and what follows it. -/
structure ReadMembers where
  members : List (Readable String × Node)
  ending : Option Breakage
  rest : Option (List Char)

mutual

/-- The value at the front of a text, and the rest unless the value breaks. The first argument
bounds the number of nested steps. -/
def readNode : Nat → List Char → Node × Option (List Char)
  | 0, _ => (.broken (.both (.malformed .noValue)), none)
  | fuel + 1, chars =>
      match skipBlanks chars with
      | [] => (.broken (.both (.truncated .value)), none)
      | 'n' :: rest => readWord .null "ull".toList rest
      | 't' :: rest => readWord (.flag true) "rue".toList rest
      | 'f' :: rest => readWord (.flag false) "alse".toList rest
      | '\"' :: rest => readText rest
      | '[' :: rest =>
          match skipBlanks rest with
          | [] => (.array [] (some (.truncated .list)), none)
          | ']' :: rest => (.array [] none, some rest)
          | rest =>
              let read := readItems fuel rest
              (.array read.items read.ending, read.rest)
      | '\x7b' :: rest =>
          match skipBlanks rest with
          | [] => (.object [] (some (.both (.truncated .object))), none)
          | '\x7d' :: rest => (.object [] none, some rest)
          | rest =>
              let read := readMembers fuel rest
              (.object read.members read.ending, read.rest)
      | c :: rest =>
          if c = '-' ∨ c.isDigit then readNumber (c :: rest)
          else (.broken (.both (.malformed .noValue)), none)

/-- The items of an array from the next one on, which is required. -/
def readItems : Nat → List Char → ReadItems
  | 0, _ => ⟨[.broken (.both (.malformed .noValue))], none, none⟩
  | fuel + 1, chars =>
      match skipBlanks chars with
      -- Only a comma leads to a bracket here: one that closes an empty array was met before.
      | ']' :: _ => ⟨[.broken ⟨.malformed .trailingComma, .malformed .noValue⟩], none, none⟩
      | _ =>
          match readNode fuel chars with
          | (item, none) => ⟨[item], none, none⟩
          | (item, some rest) =>
              match skipBlanks rest with
              | [] => ⟨[item], some (.truncated .list), none⟩
              | ']' :: rest => ⟨[item], none, some rest⟩
              | ',' :: rest =>
                  let others := readItems fuel rest
                  { others with items := item :: others.items }
              | _ => ⟨[item], some (.malformed .noListEnd), none⟩

/-- The members of an object from the next one on, which is required. -/
def readMembers : Nat → List Char → ReadMembers
  | 0, _ => ⟨[], some (.both (.malformed .noKey)), none⟩
  | fuel + 1, chars =>
      match skipBlanks chars with
      -- Only a comma leads to the end of the text or to a brace here.
      | [] => ⟨[], some ⟨.truncated .value, .truncated .object⟩, none⟩
      | '\x7d' :: _ => ⟨[], some ⟨.malformed .trailingComma, .malformed .noKey⟩, none⟩
      | '\"' :: rest =>
          match scanString rest with
          | .error breakage => ⟨[], some breakage, none⟩
          | .ok (key, rest) =>
              match skipBlanks rest with
              | [] => ⟨[(key, .broken (.both (.truncated .object)))], none, none⟩
              | ':' :: rest =>
                  match readNode fuel rest with
                  | (value, none) => ⟨[(key, value)], none, none⟩
                  | (value, some rest) =>
                      match skipBlanks rest with
                      | [] => ⟨[(key, value)], some (.both (.truncated .object)), none⟩
                      | '\x7d' :: rest => ⟨[(key, value)], none, some rest⟩
                      | ',' :: rest =>
                          let others := readMembers fuel rest
                          { others with members := (key, value) :: others.members }
                      | _ => ⟨[(key, value)], some (.both (.malformed .noObjectEnd)), none⟩
              | _ => ⟨[(key, .broken (.both (.malformed .noColon)))], none, none⟩
      | _ => ⟨[], some (.both (.malformed .noKey)), none⟩

end

/-- The number of containers that may be open at once. -/
def levels : Nat := 127

/-- The value at the front of a text. Every nested step uses up a character, and no character is
used by more than two steps. -/
def nodeOf (text : List Char) : Node × Option (List Char) :=
  readNode (2 * text.length + 2) text

/-- Reading a text that holds one value and nothing else. -/
def decode {α : Type} (read : Nat → Node → Except Problem α) (text : String) :
    Except Problem α := do
  let (node, rest) := nodeOf text.toList
  let result ← read levels node
  match rest.map skipBlanks with
  | some [] => .ok result
  | _ => .error (.malformed .trailingText)

end RunManifest.Json
