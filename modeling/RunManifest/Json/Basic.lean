import RunManifest.Binary64.Basic
import RunManifest.Dictionary

/-!
Contract: document values, the data that JSON texts and YAML texts describe.

Owns:
- `Number`, an integer that fits 64 bits with or without sign, or a number of double precision;
- `Json`, a document value whose objects are lists of members in the order they are written;
- decidable equality of document values;
- `normal`, the form in which every object has its members sorted and the last of several members
  with one key left;
- `withoutZeroSigns`, the form by which two values compare as equal.
-/

set_option autoImplicit false

namespace RunManifest

/-- A number of a document. -/
inductive Number where
  | integer (value : Int)
  | float (value : Binary64)
deriving DecidableEq, Repr, Inhabited

/-- A document value. -/
inductive Json where
  | null
  | flag (value : Bool)
  | number (value : Number)
  | text (value : String)
  | array (items : List Json)
  | object (members : List (String × Json))
deriving Repr, Inhabited

namespace Json

mutual

/-- Equality of values, decided along their structure. -/
def decideEq : (left right : Json) → Decidable (left = right)
  | .null, .null => isTrue rfl
  | .null, .flag _ => isFalse (by simp)
  | .null, .number _ => isFalse (by simp)
  | .null, .text _ => isFalse (by simp)
  | .null, .array _ => isFalse (by simp)
  | .null, .object _ => isFalse (by simp)
  | .flag _, .null => isFalse (by simp)
  | .flag left, .flag right => decidable_of_iff (left = right) (by simp)
  | .flag _, .number _ => isFalse (by simp)
  | .flag _, .text _ => isFalse (by simp)
  | .flag _, .array _ => isFalse (by simp)
  | .flag _, .object _ => isFalse (by simp)
  | .number _, .null => isFalse (by simp)
  | .number _, .flag _ => isFalse (by simp)
  | .number left, .number right => decidable_of_iff (left = right) (by simp)
  | .number _, .text _ => isFalse (by simp)
  | .number _, .array _ => isFalse (by simp)
  | .number _, .object _ => isFalse (by simp)
  | .text _, .null => isFalse (by simp)
  | .text _, .flag _ => isFalse (by simp)
  | .text _, .number _ => isFalse (by simp)
  | .text left, .text right => decidable_of_iff (left = right) (by simp)
  | .text _, .array _ => isFalse (by simp)
  | .text _, .object _ => isFalse (by simp)
  | .array _, .null => isFalse (by simp)
  | .array _, .flag _ => isFalse (by simp)
  | .array _, .number _ => isFalse (by simp)
  | .array _, .text _ => isFalse (by simp)
  | .array left, .array right =>
      match decideItemsEq left right with
      | isTrue same => isTrue (by rw [same])
      | isFalse different => isFalse (by simpa using different)
  | .array _, .object _ => isFalse (by simp)
  | .object _, .null => isFalse (by simp)
  | .object _, .flag _ => isFalse (by simp)
  | .object _, .number _ => isFalse (by simp)
  | .object _, .text _ => isFalse (by simp)
  | .object _, .array _ => isFalse (by simp)
  | .object left, .object right =>
      match decideMembersEq left right with
      | isTrue same => isTrue (by rw [same])
      | isFalse different => isFalse (by simpa using different)

def decideItemsEq : (left right : List Json) → Decidable (left = right)
  | [], [] => isTrue rfl
  | [], _ :: _ => isFalse (by simp)
  | _ :: _, [] => isFalse (by simp)
  | left :: leftRest, right :: rightRest =>
      match decideEq left right, decideItemsEq leftRest rightRest with
      | isTrue sameHead, isTrue sameRest => isTrue (by rw [sameHead, sameRest])
      | isFalse different, _ => isFalse (by simp [different])
      | _, isFalse different => isFalse (by simp [different])

def decideMembersEq : (left right : List (String × Json)) → Decidable (left = right)
  | [], [] => isTrue rfl
  | [], _ :: _ => isFalse (by simp)
  | _ :: _, [] => isFalse (by simp)
  | (leftKey, left) :: leftRest, (rightKey, right) :: rightRest =>
      if sameKey : leftKey = rightKey then
        match decideEq left right, decideMembersEq leftRest rightRest with
        | isTrue sameHead, isTrue sameRest => isTrue (by rw [sameKey, sameHead, sameRest])
        | isFalse different, _ => isFalse (by simp [different])
        | _, isFalse different => isFalse (by simp [different])
      else isFalse (by simp [sameKey])

end

instance : DecidableEq Json := decideEq

mutual

/-- The value with the signs of zeros forgotten. -/
def withoutZeroSigns : Json → Json
  | .null => .null
  | .flag value => .flag value
  | .number (.integer value) => .number (.integer value)
  | .number (.float value) => .number (.float value.withoutZeroSign)
  | .text value => .text value
  | .array items => .array (itemsWithoutZeroSigns items)
  | .object members => .object (membersWithoutZeroSigns members)

def itemsWithoutZeroSigns : List Json → List Json
  | [] => []
  | item :: rest => item.withoutZeroSigns :: itemsWithoutZeroSigns rest

def membersWithoutZeroSigns : List (String × Json) → List (String × Json)
  | [] => []
  | (key, value) :: rest => (key, value.withoutZeroSigns) :: membersWithoutZeroSigns rest

end

mutual

/-- The value with the members of every object sorted. Of several members with one key the last is
left. -/
def normal : Json → Json
  | .null => .null
  | .flag value => .flag value
  | .number value => .number value
  | .text value => .text value
  | .array items => .array (normalItems items)
  | .object members => .object (insertNormal members [])

def normalItems : List Json → List Json
  | [] => []
  | item :: rest => item.normal :: normalItems rest

/-- Members put into sorted entries, one after the other. -/
def insertNormal : List (String × Json) → List (String × Json) → List (String × Json)
  | [], entries => entries
  | (key, value) :: rest, entries => insertNormal rest (Entries.insert key value.normal entries)

end

end Json

end RunManifest
