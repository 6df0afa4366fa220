import Mathlib
import RunManifest.Json.Node

/-!
Contract: document values as trees.

Owns:
- `Json.treeInduction`, induction over a value with one hypothesis for every item and member;
- `Json.mapStrings`, a value with its keys and texts changed and its shape kept;
- `Json.keys`, `Json.strings` and `Json.floats`, what occurs anywhere in a value;
- `Json.node`, the tree of a text that says a value without a fault, where each number is what
  reading it gives;
- `Json.braced`, the text of an object from the texts of its values.
-/

set_option autoImplicit false

namespace RunManifest.Json

/-- Induction over a value: what holds of all items of an array holds of the array, and what holds
of the values of all members of an object holds of the object. -/
@[elab_as_elim]
theorem treeInduction
    {motive : Json → Prop}
    (null : motive .null)
    (flag : ∀ value, motive (.flag value))
    (number : ∀ value, motive (.number value))
    (text : ∀ value, motive (.text value))
    (array : ∀ items, (∀ item ∈ items, motive item) → motive (.array items))
    (object : ∀ members, (∀ member ∈ members, motive member.2) → motive (.object members))
    (value : Json) :
    motive value := by
  refine @Json.rec motive (fun items => ∀ item ∈ items, motive item)
    (fun members => ∀ member ∈ members, motive member.2) (fun member => motive member.2)
    null flag number text array object (by simp) ?_ (by simp) ?_ (fun _ _ holds => holds) value
  · intro first rest atFirst atRest
    simpa using ⟨atFirst, atRest⟩
  · intro first rest atFirst atRest
    exact List.forall_mem_cons.mpr ⟨atFirst, atRest⟩

/-! ## Changing strings -/

mutual

/-- The value with one function applied to all keys and another to all texts. -/
def mapStrings (onKey onText : String → String) : Json → Json
  | .null => .null
  | .flag value => .flag value
  | .number value => .number value
  | .text value => .text (onText value)
  | .array items => .array (mapItemStrings onKey onText items)
  | .object members => .object (mapMemberStrings onKey onText members)

/-- The items with their strings changed. -/
def mapItemStrings (onKey onText : String → String) : List Json → List Json
  | [] => []
  | item :: rest => item.mapStrings onKey onText :: mapItemStrings onKey onText rest

/-- The members with their strings changed. -/
def mapMemberStrings (onKey onText : String → String) :
    List (String × Json) → List (String × Json)
  | [] => []
  | (key, value) :: rest =>
      (onKey key, value.mapStrings onKey onText) :: mapMemberStrings onKey onText rest

end

/-- The value with a function applied to all texts. Keys stay. -/
abbrev mapTexts (onText : String → String) : Json → Json :=
  mapStrings id onText

@[simp] theorem mapItemStrings_eq_map (onKey onText : String → String) (items : List Json) :
    mapItemStrings onKey onText items = items.map (mapStrings onKey onText) := by
  induction items with
  | nil => rfl
  | cons item rest inductionHypothesis => rw [mapItemStrings, inductionHypothesis, List.map_cons]

@[simp] theorem mapMemberStrings_eq_map
    (onKey onText : String → String)
    (members : List (String × Json)) :
    mapMemberStrings onKey onText members =
      members.map fun member => (onKey member.1, member.2.mapStrings onKey onText) := by
  induction members with
  | nil => rfl
  | cons member rest inductionHypothesis =>
      rw [mapMemberStrings, inductionHypothesis, List.map_cons]

attribute [simp] mapStrings

/-! ## What occurs in a value -/

mutual

/-- The keys of all objects in a value. -/
def keys : Json → List String
  | .array items => itemKeys items
  | .object members => memberKeys members
  | _ => []

/-- The keys in items. -/
def itemKeys : List Json → List String
  | [] => []
  | item :: rest => item.keys ++ itemKeys rest

/-- The keys of members and in their values. -/
def memberKeys : List (String × Json) → List String
  | [] => []
  | (key, value) :: rest => key :: (value.keys ++ memberKeys rest)

end

mutual

/-- The keys and the texts in a value. -/
def strings : Json → List String
  | .text value => [value]
  | .array items => itemStrings items
  | .object members => memberStrings members
  | _ => []

/-- The strings in items. -/
def itemStrings : List Json → List String
  | [] => []
  | item :: rest => item.strings ++ itemStrings rest

/-- The keys of members and the strings in their values. -/
def memberStrings : List (String × Json) → List String
  | [] => []
  | (key, value) :: rest => key :: (value.strings ++ memberStrings rest)

end

mutual

/-- The numbers of double precision in a value. -/
def floats : Json → List Binary64
  | .number (.float value) => [value]
  | .array items => itemFloats items
  | .object members => memberFloats members
  | _ => []

/-- The numbers of double precision in items. -/
def itemFloats : List Json → List Binary64
  | [] => []
  | item :: rest => item.floats ++ itemFloats rest

/-- The numbers of double precision in the values of members. -/
def memberFloats : List (String × Json) → List Binary64
  | [] => []
  | (_, value) :: rest => value.floats ++ memberFloats rest

end

@[simp] theorem itemKeys_eq_flatMap (items : List Json) : itemKeys items = items.flatMap keys := by
  induction items with
  | nil => rfl
  | cons item rest inductionHypothesis => rw [itemKeys, inductionHypothesis, List.flatMap_cons]

@[simp] theorem memberKeys_eq_flatMap (members : List (String × Json)) :
    memberKeys members = members.flatMap fun member => member.1 :: member.2.keys := by
  induction members with
  | nil => rfl
  | cons member rest inductionHypothesis =>
      rw [memberKeys, inductionHypothesis, List.flatMap_cons]
      rfl

@[simp] theorem itemStrings_eq_flatMap (items : List Json) :
    itemStrings items = items.flatMap strings := by
  induction items with
  | nil => rfl
  | cons item rest inductionHypothesis => rw [itemStrings, inductionHypothesis, List.flatMap_cons]

@[simp] theorem memberStrings_eq_flatMap (members : List (String × Json)) :
    memberStrings members = members.flatMap fun member => member.1 :: member.2.strings := by
  induction members with
  | nil => rfl
  | cons member rest inductionHypothesis =>
      rw [memberStrings, inductionHypothesis, List.flatMap_cons]
      rfl

@[simp] theorem itemFloats_eq_flatMap (items : List Json) :
    itemFloats items = items.flatMap floats := by
  induction items with
  | nil => rfl
  | cons item rest inductionHypothesis => rw [itemFloats, inductionHypothesis, List.flatMap_cons]

@[simp] theorem memberFloats_eq_flatMap (members : List (String × Json)) :
    memberFloats members = members.flatMap fun member => member.2.floats := by
  induction members with
  | nil => rfl
  | cons member rest inductionHypothesis =>
      rw [memberFloats, inductionHypothesis, List.flatMap_cons]

theorem mem_strings_array
    {items : List Json}
    {item : Json}
    {string : String}
    (member : item ∈ items)
    (occurs : string ∈ item.strings) :
    string ∈ strings (.array items) := by
  simp only [strings, itemStrings_eq_flatMap, List.mem_flatMap]
  exact ⟨item, member, occurs⟩

theorem mem_strings_object
    {members : List (String × Json)}
    {member : String × Json}
    {string : String}
    (isMember : member ∈ members)
    (occurs : string ∈ member.1 :: member.2.strings) :
    string ∈ strings (.object members) := by
  simp only [strings, memberStrings_eq_flatMap, List.mem_flatMap]
  exact ⟨member, isMember, occurs⟩

attribute [simp] keys strings floats

/-- Changing keys does nothing to a value whose keys stay. -/
theorem mapStrings_eq_mapTexts
    (onKey onText : String → String)
    (value : Json)
    (fixed : ∀ key ∈ value.keys, onKey key = key) :
    value.mapStrings onKey onText = value.mapTexts onText := by
  induction value using treeInduction with
  | null => rfl
  | flag => rfl
  | number => rfl
  | text => rfl
  | array items inductionHypothesis =>
      simp only [keys, itemKeys_eq_flatMap, List.mem_flatMap] at fixed
      simp only [mapStrings, mapItemStrings_eq_map, array.injEq]
      refine List.map_congr_left fun item member => ?_
      exact inductionHypothesis item member fun key isKey => fixed key ⟨item, member, isKey⟩
  | object members inductionHypothesis =>
      simp only [keys, memberKeys_eq_flatMap, List.mem_flatMap] at fixed
      simp only [mapStrings, mapMemberStrings_eq_map, object.injEq]
      refine List.map_congr_left fun member isMember => ?_
      rw [fixed member.1 ⟨member, isMember, by simp⟩,
        inductionHypothesis member isMember fun key isKey =>
          fixed key ⟨member, isMember, by simp [isKey]⟩]
      rfl

/-- Changing texts keeps the keys. -/
@[simp] theorem keys_mapTexts (onText : String → String) (value : Json) :
    (value.mapTexts onText).keys = value.keys := by
  induction value using treeInduction with
  | null => rfl
  | flag => rfl
  | number => rfl
  | text => rfl
  | array items inductionHypothesis =>
      simp only [mapStrings, mapItemStrings_eq_map, keys, itemKeys_eq_flatMap, List.flatMap_map]
      exact List.flatMap_congr inductionHypothesis
  | object members inductionHypothesis =>
      simp only [mapStrings, mapMemberStrings_eq_map, keys, memberKeys_eq_flatMap,
        List.flatMap_map, id]
      refine List.flatMap_congr fun member isMember => ?_
      rw [inductionHypothesis member isMember]

/-- Changing texts keeps the numbers. -/
@[simp] theorem floats_mapTexts (onText : String → String) (value : Json) :
    (value.mapTexts onText).floats = value.floats := by
  induction value using treeInduction with
  | null => rfl
  | flag => rfl
  | number => rfl
  | text => rfl
  | array items inductionHypothesis =>
      simp only [mapStrings, mapItemStrings_eq_map, floats, itemFloats_eq_flatMap, List.flatMap_map]
      exact List.flatMap_congr inductionHypothesis
  | object members inductionHypothesis =>
      simp only [mapStrings, mapMemberStrings_eq_map, floats, memberFloats_eq_flatMap,
        List.flatMap_map]
      exact List.flatMap_congr inductionHypothesis

/-- Two changes of texts are one. -/
theorem mapTexts_mapTexts (first second : String → String) (value : Json) :
    (value.mapTexts first).mapTexts second = value.mapTexts (second ∘ first) := by
  induction value using treeInduction with
  | null => rfl
  | flag => rfl
  | number => rfl
  | text => rfl
  | array items inductionHypothesis =>
      simp only [mapStrings, mapItemStrings_eq_map, List.map_map, array.injEq]
      exact List.map_congr_left inductionHypothesis
  | object members inductionHypothesis =>
      simp only [mapStrings, mapMemberStrings_eq_map, List.map_map, object.injEq]
      exact List.map_congr_left fun member isMember =>
        Prod.ext rfl (inductionHypothesis member isMember)

@[simp] theorem mapTexts_id (value : Json) : value.mapTexts id = value := by
  induction value using treeInduction with
  | null => rfl
  | flag => rfl
  | number => rfl
  | text => rfl
  | array items inductionHypothesis =>
      simp only [mapStrings, mapItemStrings_eq_map, array.injEq]
      exact (List.map_congr_left inductionHypothesis).trans (List.map_id _)
  | object members inductionHypothesis =>
      simp only [mapStrings, mapMemberStrings_eq_map, object.injEq]
      refine (List.map_congr_left fun member isMember => ?_).trans (List.map_id members)
      exact Prod.ext rfl (inductionHypothesis member isMember)

theorem mapTexts_id_eq_id : mapTexts id = id :=
  funext mapTexts_id

/-! ## Trees without faults -/

mutual

/-- The tree of a text that says a value. What becomes of its numbers is the first argument. -/
def node (reading : Number → Option Number) : Json → Node
  | .null => .null
  | .flag value => .flag value
  | .number value => .number (reading value)
  | .text value => .text (.ok value)
  | .array items => .array (itemNodes reading items) none
  | .object members => .object (memberNodes reading members) none

/-- The trees of items. -/
def itemNodes (reading : Number → Option Number) : List Json → List Node
  | [] => []
  | item :: rest => item.node reading :: itemNodes reading rest

/-- The trees of members. -/
def memberNodes (reading : Number → Option Number) :
    List (String × Json) → List (Readable String × Node)
  | [] => []
  | (key, value) :: rest => (.ok key, value.node reading) :: memberNodes reading rest

end

@[simp] theorem itemNodes_eq_map (reading : Number → Option Number) (items : List Json) :
    itemNodes reading items = items.map (node reading) := by
  induction items with
  | nil => rfl
  | cons item rest inductionHypothesis => rw [itemNodes, inductionHypothesis, List.map_cons]

@[simp] theorem memberNodes_eq_map
    (reading : Number → Option Number)
    (members : List (String × Json)) :
    memberNodes reading members =
      members.map fun member => (.ok member.1, member.2.node reading) := by
  induction members with
  | nil => rfl
  | cons member rest inductionHypothesis => rw [memberNodes, inductionHypothesis, List.map_cons]

attribute [simp] node

/-! ## Texts -/

/-- The text of an object from its keys and the texts of their values. -/
def braced (members : List (String × String)) : String :=
  let texts := members.map fun member => "\"" ++ member.1 ++ "\":" ++ member.2
  "\x7b" ++ ",".intercalate texts ++ "\x7d"

end RunManifest.Json
