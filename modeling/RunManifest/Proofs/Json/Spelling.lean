import RunManifest.Proofs.Json.Steps
import RunManifest.Proofs.Json.Tree

/-!
Contract: a compact JSON text is read as the value it was written from, also when its strings were
spelled in another way.

Owns:
- `Json.spelled`, the compact text of a value whose strings are spelled by a given function, which
  with escaped strings is `Json.compact`, and `spelled_congr`, only the strings of the value count;
- `decode_spelled`, reading such a text when every string of it is read as some text;
- `decode_spelled_of_breaks`, no reader accepts such a text when one of its strings breaks.

A spelling does not change the places of brackets, commas, colons and quotes. That is what makes
replacing inside the strings of a text a change of the value and not of its shape.
-/

set_option autoImplicit false

namespace RunManifest.Json

/-! ## Texts with given spellings -/

/-- A string with a given spelling between its quotes. -/
def quotedBy (spell : String → List Char) (value : String) : List Char :=
  '\"' :: spell value ++ ['\"']

mutual

/-- The compact text of a value, its strings spelled by a function. -/
def spelled (spell : String → List Char) : Json → List Char
  | .null => "null".toList
  | .flag value => flagText value
  | .number value => value.jsonText
  | .text value => quotedBy spell value
  | .array items => '[' :: spelledItems spell items ++ [']']
  | .object members => '\x7b' :: spelledMembers spell members ++ ['\x7d']

/-- Values separated by commas. -/
def spelledItems (spell : String → List Char) : List Json → List Char
  | [] => []
  | item :: rest => item.spelled spell ++ spelledItemsAfter spell rest

/-- Values, each after a comma. -/
def spelledItemsAfter (spell : String → List Char) : List Json → List Char
  | [] => []
  | item :: rest => ',' :: (item.spelled spell ++ spelledItemsAfter spell rest)

/-- Members separated by commas. -/
def spelledMembers (spell : String → List Char) : List (String × Json) → List Char
  | [] => []
  | (key, value) :: rest =>
      quotedBy spell key ++ ':' :: (value.spelled spell ++ spelledMembersAfter spell rest)

/-- Members, each after a comma. -/
def spelledMembersAfter (spell : String → List Char) : List (String × Json) → List Char
  | [] => []
  | (key, value) :: rest =>
      ',' :: (quotedBy spell key ++ ':' :: (value.spelled spell ++ spelledMembersAfter spell rest))

end

private theorem spelledItems_singleton (spell : String → List Char) (item : Json) :
    spelledItems spell [item] = item.spelled spell := by
  simp [spelledItems, spelledItemsAfter]

private theorem spelledItems_cons_cons
    (spell : String → List Char)
    (item next : Json)
    (others : List Json) :
    spelledItems spell (item :: next :: others) =
      item.spelled spell ++ ',' :: spelledItems spell (next :: others) := rfl

private theorem spelledMembers_singleton (spell : String → List Char) (member : String × Json) :
    spelledMembers spell [member] =
      quotedBy spell member.1 ++ ':' :: member.2.spelled spell := by
  simp [spelledMembers, spelledMembersAfter]

private theorem spelledMembers_cons_cons
    (spell : String → List Char)
    (member next : String × Json)
    (others : List (String × Json)) :
    spelledMembers spell (member :: next :: others) = quotedBy spell member.1 ++
      ':' :: (member.2.spelled spell ++ ',' :: spelledMembers spell (next :: others)) := rfl

/-- The spelling of strings in written texts. -/
def written (value : String) : List Char :=
  escaped value.toList

private theorem stringText_eq_quotedBy (value : String) :
    stringText value = quotedBy written value := rfl

private theorem compactItemsAfter_eq_spelled
    (items : List Json)
    (same : ∀ item ∈ items, compact item = spelled written item) :
    compactItemsAfter items = spelledItemsAfter written items := by
  induction items with
  | nil => rfl
  | cons item rest inductionHypothesis =>
      rw [compactItemsAfter, spelledItemsAfter, same item (by simp),
        inductionHypothesis fun other member => same other (by simp [member])]

private theorem compactMembersAfter_eq_spelled
    (members : List (String × Json))
    (same : ∀ member ∈ members, compact member.2 = spelled written member.2) :
    compactMembersAfter members = spelledMembersAfter written members := by
  induction members with
  | nil => rfl
  | cons member rest inductionHypothesis =>
      rw [compactMembersAfter, spelledMembersAfter, stringText_eq_quotedBy,
        same member (by simp),
        inductionHypothesis fun other isMember => same other (by simp [isMember])]

/-- The compact text of a value has its strings spelled by escaping. -/
theorem compact_eq_spelled (value : Json) : value.compact = value.spelled written := by
  induction value using treeInduction with
  | null => rfl
  | flag => rfl
  | number => rfl
  | text => rfl
  | array items inductionHypothesis =>
      cases items with
      | nil => rfl
      | cons item rest =>
          rw [compact, spelled, compactItems, spelledItems, inductionHypothesis item (by simp),
            compactItemsAfter_eq_spelled rest fun other member =>
              inductionHypothesis other (by simp [member])]
  | object members inductionHypothesis =>
      cases members with
      | nil => rfl
      | cons member rest =>
          rw [compact, spelled, compactMembers, spelledMembers, stringText_eq_quotedBy,
            inductionHypothesis member (by simp),
            compactMembersAfter_eq_spelled rest fun other isMember =>
              inductionHypothesis other (by simp [isMember])]

section Congruence

variable {first second : String → List Char}

private theorem spelledItemsAfter_congr
    (items : List Json)
    (same : ∀ item ∈ items, item.spelled first = item.spelled second) :
    spelledItemsAfter first items = spelledItemsAfter second items := by
  induction items with
  | nil => rfl
  | cons item rest inductionHypothesis =>
      rw [spelledItemsAfter, spelledItemsAfter, same item (by simp),
        inductionHypothesis fun other member => same other (by simp [member])]

private theorem spelledMembersAfter_congr
    (members : List (String × Json))
    (sameKeys : ∀ member ∈ members, first member.1 = second member.1)
    (same : ∀ member ∈ members, member.2.spelled first = member.2.spelled second) :
    spelledMembersAfter first members = spelledMembersAfter second members := by
  induction members with
  | nil => rfl
  | cons member rest inductionHypothesis =>
      rw [spelledMembersAfter, spelledMembersAfter, quotedBy, quotedBy, sameKeys member (by simp),
        same member (by simp),
        inductionHypothesis (fun other isMember => sameKeys other (by simp [isMember]))
          fun other isMember => same other (by simp [isMember])]

/-- Only the spelling of the strings that occur in a value counts. -/
theorem spelled_congr
    (value : Json)
    (same : ∀ string ∈ value.strings, first string = second string) :
    value.spelled first = value.spelled second := by
  induction value using treeInduction with
  | null => rfl
  | flag => rfl
  | number => rfl
  | text string => rw [spelled, spelled, quotedBy, quotedBy, same string (by simp)]
  | array items inductionHypothesis =>
      have sameItems : ∀ item ∈ items, item.spelled first = item.spelled second :=
        fun item member => inductionHypothesis item member fun string inItem =>
          same string (mem_strings_array member inItem)
      cases items with
      | nil => rfl
      | cons item rest =>
          rw [spelled, spelled, spelledItems, spelledItems, sameItems item (by simp),
            spelledItemsAfter_congr rest fun other member => sameItems other (by simp [member])]
  | object members inductionHypothesis =>
      have sameKeys : ∀ member ∈ members, first member.1 = second member.1 :=
        fun member isMember => same _ (mem_strings_object isMember (by simp))
      have sameValues : ∀ member ∈ members, member.2.spelled first = member.2.spelled second :=
        fun member isMember => inductionHypothesis member isMember fun string inValue =>
          same string (mem_strings_object isMember (by simp [inValue]))
      cases members with
      | nil => rfl
      | cons member rest =>
          rw [spelled, spelled, spelledMembers, spelledMembers, quotedBy, quotedBy,
            sameKeys member (by simp), sameValues member (by simp),
            spelledMembersAfter_congr rest (fun other isMember => sameKeys other (by simp [isMember]))
              fun other isMember => sameValues other (by simp [isMember])]

end Congruence

/-! ## Fronts of texts -/

/-- A number is known by its first character. -/
theorem readNode_of_number
    {c : Char}
    (starts : c = '-' ∨ c.isDigit)
    (fuel : Nat)
    (rest : List Char) :
    readNode (fuel + 1) (c :: rest) = readNumber (c :: rest) := by
  have notBlank : isBlank c = false := by
    simp only [isBlank, Bool.or_eq_false_iff, beq_eq_false_iff_ne]
    rcases starts with rfl | isDigit
    · decide
    · refine ⟨⟨⟨?_, ?_⟩, ?_⟩, ?_⟩ <;> (rintro rfl; exact absurd isDigit (by decide))
  have front : skipBlanks (c :: rest) = c :: rest := by simp [skipBlanks, notBlank]
  rw [readNode, front]
  split
  case h_8 same =>
    obtain ⟨rfl, rfl⟩ := List.cons.inj same
    rw [if_pos starts]
  all_goals simp_all

/-- An array that does not end at once is read item by item. -/
theorem readNode_of_item
    {c : Char}
    (notBlank : isBlank c = false)
    (notEnd : c ≠ ']')
    (fuel : Nat)
    (rest : List Char) :
    readNode (fuel + 1) ('[' :: c :: rest) =
      (.array (readItems fuel (c :: rest)).items (readItems fuel (c :: rest)).ending,
        (readItems fuel (c :: rest)).rest) := by
  have bracket : skipBlanks ('[' :: c :: rest) = '[' :: c :: rest := rfl
  have front : skipBlanks (c :: rest) = c :: rest := by simp [skipBlanks, notBlank]
  simp only [readNode, bracket, front]
  split <;> simp_all

theorem readNode_of_quote (fuel : Nat) (rest : List Char) :
    readNode (fuel + 1) ('\"' :: rest) = readText rest := rfl

/-- An object that does not end at once is read member by member. -/
theorem readNode_of_member (fuel : Nat) (rest : List Char) :
    readNode (fuel + 1) ('\x7b' :: '\"' :: rest) =
      (.object (readMembers fuel ('\"' :: rest)).members (readMembers fuel ('\"' :: rest)).ending,
        (readMembers fuel ('\"' :: rest)).rest) := rfl

/-- The text of a value is not empty, and begins neither with a blank nor with the end of an
array. -/
theorem spelled_eq_cons (spell : String → List Char) (value : Json) :
    ∃ c rest, value.spelled spell = c :: rest ∧ isBlank c = false ∧ c ≠ ']' := by
  cases value with
  | null => exact ⟨_, _, rfl, by decide, by decide⟩
  | flag value => cases value <;> exact ⟨_, _, rfl, by decide, by decide⟩
  | number value =>
      obtain ⟨c, rest, same, starts⟩ := jsonText_eq_cons value
      refine ⟨c, rest, same, ?_, ?_⟩
      · simp only [isBlank, Bool.or_eq_false_iff, beq_eq_false_iff_ne]
        rcases starts with rfl | isDigit
        · decide
        · refine ⟨⟨⟨?_, ?_⟩, ?_⟩, ?_⟩ <;> (rintro rfl; exact absurd isDigit (by decide))
      · rcases starts with rfl | isDigit
        · decide
        · rintro rfl
          exact absurd isDigit (by decide)
  | text value => exact ⟨_, _, rfl, by decide, by decide⟩
  | array items => exact ⟨_, _, rfl, by decide, by decide⟩
  | object members => exact ⟨_, _, rfl, by decide, by decide⟩

private theorem readNode_spelled_text
    (spell : String → List Char)
    (value : String)
    (fuel : Nat)
    (rest : List Char) :
    readNode (fuel + 1) (spelled spell (.text value) ++ rest) =
      readText (spell value ++ '\"' :: rest) := by
  have shape : spelled spell (.text value) ++ rest = '\"' :: (spell value ++ '\"' :: rest) := by
    simp [spelled, quotedBy]
  rw [shape, readNode_of_quote]

/-- The text of an array with items is read item by item. -/
theorem readNode_spelled_array
    (spell : String → List Char)
    (item : Json)
    (others : List Json)
    (fuel : Nat)
    (rest : List Char) :
    readNode (fuel + 1) (spelled spell (.array (item :: others)) ++ rest) =
      (.array (readItems fuel (spelledItems spell (item :: others) ++ ']' :: rest)).items
        (readItems fuel (spelledItems spell (item :: others) ++ ']' :: rest)).ending,
        (readItems fuel (spelledItems spell (item :: others) ++ ']' :: rest)).rest) := by
  obtain ⟨c, tail, front, notBlank, notEnd⟩ := spelled_eq_cons spell item
  have shape : spelled spell (.array (item :: others)) ++ rest =
      '[' :: (spelledItems spell (item :: others) ++ ']' :: rest) := by
    simp [spelled]
  have itemsFront : spelledItems spell (item :: others) =
      c :: (tail ++ spelledItemsAfter spell others) := by
    simp [spelledItems, front]
  rw [shape, itemsFront, List.cons_append, readNode_of_item notBlank notEnd]

/-- The text of an object with members is read member by member. -/
theorem readNode_spelled_object
    (spell : String → List Char)
    (member : String × Json)
    (others : List (String × Json))
    (fuel : Nat)
    (rest : List Char) :
    readNode (fuel + 1) (spelled spell (.object (member :: others)) ++ rest) =
      (.object (readMembers fuel (spelledMembers spell (member :: others) ++ '\x7d' :: rest)).members
        (readMembers fuel (spelledMembers spell (member :: others) ++ '\x7d' :: rest)).ending,
        (readMembers fuel (spelledMembers spell (member :: others) ++ '\x7d' :: rest)).rest) := by
  have shape : spelled spell (.object (member :: others)) ++ rest =
      '\x7b' :: (spelledMembers spell (member :: others) ++ '\x7d' :: rest) := by
    simp [spelled]
  obtain ⟨tail, front⟩ : ∃ tail, spelledMembers spell (member :: others) = '\"' :: tail :=
    ⟨_, rfl⟩
  rw [shape, front, List.cons_append, readNode_of_member]

/-! ## Texts whose strings are all read -/

/-- The spelling of a string is read as a text. -/
def Scans (spell : String → List Char) (value said : String) : Prop :=
  ∀ rest, scanString (spell value ++ '\"' :: rest) = .ok (.ok said, rest)

/-- The spelling of a string breaks, whatever follows it. -/
def Breaks (spell : String → List Char) (value : String) : Prop :=
  ∀ rest, ∃ breakage, scanString (spell value ++ '\"' :: rest) = .error breakage

private theorem skipBlanks_quotedBy
    (spell : String → List Char)
    (value : String)
    (rest : List Char) :
    skipBlanks (quotedBy spell value ++ rest) = '\"' :: (spell value ++ '\"' :: rest) := by
  simp [quotedBy, skipBlanks, isBlank]

section Reading

variable {spell : String → List Char} {said : String → String}

/-- The tree that the text of a value is read as. -/
def saidNode (said : String → String) (value : Json) : Node :=
  (value.mapStrings said said).node Number.reading

theorem saidNode_object (members : List (String × Json)) :
    saidNode said (.object members) =
      .object (members.map fun member => (.ok (said member.1), saidNode said member.2)) none := by
  simp [saidNode, Function.comp_def]

/-- The text of a value is read to its end, as the value with its strings as they are said. Twice
the length of the text is enough for the nested steps. -/
def ReadsBack (spell : String → List Char) (said : String → String) (value : Json) : Prop :=
  ∀ fuel rest, 2 * (value.spelled spell).length ≤ fuel → EndsNumber rest →
    readNode fuel (value.spelled spell ++ rest) = (saidNode said value, some rest)

private theorem readItems_spelled
    (items : List Json)
    (item : Json)
    (readsBack : ∀ value ∈ item :: items, ReadsBack spell said value)
    (fuel : Nat)
    (rest : List Char)
    (enough : 2 * (spelledItems spell (item :: items)).length + 1 ≤ fuel) :
    readItems fuel (spelledItems spell (item :: items) ++ ']' :: rest) =
      ⟨(item :: items).map (saidNode said), none, some rest⟩ := by
  induction items generalizing item fuel with
  | nil =>
      obtain ⟨fuel, rfl⟩ : ∃ smaller, fuel = smaller + 1 := ⟨fuel - 1, by omega⟩
      rw [spelledItems_singleton] at enough ⊢
      have readsItem := readsBack item (by simp) fuel (']' :: rest) (by omega) (by simp)
      rw [readItems_of_item readsItem, readAfterItem_of_close rfl]
      rfl
  | cons next others inductionHypothesis =>
      obtain ⟨fuel, rfl⟩ : ∃ smaller, fuel = smaller + 1 := ⟨fuel - 1, by omega⟩
      rw [spelledItems_cons_cons, List.length_append, List.length_cons] at enough
      have readsItem := readsBack item (by simp) fuel
        (',' :: (spelledItems spell (next :: others) ++ ']' :: rest)) (by omega) (by simp)
      have later := inductionHypothesis next
        (fun value member => readsBack value (List.mem_cons_of_mem _ member)) fuel (by omega)
      rw [spelledItems_cons_cons, List.append_assoc, List.cons_append, readItems_of_item readsItem,
        readAfterItem_of_comma rfl, later]
      rfl

/-- A member whose key is read and whose value is followed by the end of the object. -/
theorem readMembers_last
    {key : String}
    (scans : Scans spell key (said key))
    {fuel : Nat}
    {text rest : List Char}
    {node : Node}
    (readsValue : readNode fuel text = (node, some ('\x7d' :: rest))) :
    readMembers (fuel + 1) (quotedBy spell key ++ ':' :: text) =
      ⟨[(.ok (said key), node)], none, some rest⟩ := by
  have colon : skipBlanks (':' :: text) = ':' :: text := rfl
  have brace : skipBlanks ('\x7d' :: rest) = '\x7d' :: rest := rfl
  simp only [readMembers, skipBlanks_quotedBy, scans (':' :: text), colon, readsValue, brace]

/-- A member whose key is read and whose value is followed by a comma. -/
theorem readMembers_next
    {key : String}
    (scans : Scans spell key (said key))
    {fuel : Nat}
    {text rest : List Char}
    {node : Node}
    (readsValue : readNode fuel text = (node, some (',' :: rest))) :
    readMembers (fuel + 1) (quotedBy spell key ++ ':' :: text) =
      { readMembers fuel rest with
        members := (.ok (said key), node) :: (readMembers fuel rest).members } := by
  have colon : skipBlanks (':' :: text) = ':' :: text := rfl
  have comma : skipBlanks (',' :: rest) = ',' :: rest := rfl
  simp only [readMembers, skipBlanks_quotedBy, scans (':' :: text), colon, readsValue, comma]

private theorem readMembers_spelled
    (members : List (String × Json))
    (member : String × Json)
    (scans : ∀ entry ∈ member :: members, Scans spell entry.1 (said entry.1))
    (readsBack : ∀ entry ∈ member :: members, ReadsBack spell said entry.2)
    (fuel : Nat)
    (rest : List Char)
    (enough : 2 * (spelledMembers spell (member :: members)).length + 1 ≤ fuel) :
    readMembers fuel (spelledMembers spell (member :: members) ++ '\x7d' :: rest) =
      ⟨(member :: members).map fun entry => (.ok (said entry.1), saidNode said entry.2),
        none, some rest⟩ := by
  induction members generalizing member fuel with
  | nil =>
      obtain ⟨fuel, rfl⟩ : ∃ smaller, fuel = smaller + 1 := ⟨fuel - 1, by omega⟩
      rw [spelledMembers_singleton, List.length_append, List.length_cons] at enough
      have readsValue := readsBack member (by simp) fuel ('\x7d' :: rest) (by omega) (by simp)
      rw [spelledMembers_singleton, List.append_assoc, List.cons_append,
        readMembers_last (scans member (by simp)) readsValue]
      rfl
  | cons next others inductionHypothesis =>
      obtain ⟨fuel, rfl⟩ : ∃ smaller, fuel = smaller + 1 := ⟨fuel - 1, by omega⟩
      simp only [spelledMembers_cons_cons, List.length_append, List.length_cons] at enough
      have readsValue := readsBack member (by simp) fuel
        (',' :: (spelledMembers spell (next :: others) ++ '\x7d' :: rest)) (by omega) (by simp)
      have later := inductionHypothesis next
        (fun entry isMember => scans entry (List.mem_cons_of_mem _ isMember))
        (fun entry isMember => readsBack entry (List.mem_cons_of_mem _ isMember)) fuel (by omega)
      simp only [spelledMembers_cons_cons, List.append_assoc, List.cons_append]
      rw [readMembers_next (scans member (by simp)) readsValue, later]
      rfl

private theorem readsBack_of_succ
    {value : Json}
    (reads : ∀ fuel rest, 2 * (value.spelled spell).length ≤ fuel + 1 → EndsNumber rest →
      readNode (fuel + 1) (value.spelled spell ++ rest) = (saidNode said value, some rest)) :
    ReadsBack spell said value := by
  intro fuel rest enough ends
  obtain ⟨c, others, shape, -⟩ := spelled_eq_cons spell value
  have positive : 0 < (value.spelled spell).length := by simp [shape]
  obtain ⟨fuel, rfl⟩ : ∃ smaller, fuel = smaller + 1 := ⟨fuel - 1, by omega⟩
  exact reads fuel rest enough ends

/-- A text is read as the value that its strings say, if all of them say something. -/
theorem readsBack_of_scans
    (value : Json)
    (scans : ∀ string ∈ value.strings, Scans spell string (said string)) :
    ReadsBack spell said value := by
  induction value using treeInduction with
  | null => exact readsBack_of_succ fun fuel rest _ _ => rfl
  | flag value => exact readsBack_of_succ fun fuel rest _ _ => by cases value <;> rfl
  | number value =>
      refine readsBack_of_succ fun fuel rest _ ends => ?_
      obtain ⟨c, digits, shape, starts⟩ := jsonText_eq_cons value
      have read := readNumber_jsonText value ends
      rw [shape, List.cons_append] at read
      rw [spelled, shape, List.cons_append, readNode_of_number starts, read]
      rfl
  | text value =>
      refine readsBack_of_succ fun fuel rest _ _ => ?_
      rw [readNode_spelled_text, readText, scans value (by simp) rest]
      rfl
  | array items inductionHypothesis =>
      refine readsBack_of_succ fun fuel rest enough _ => ?_
      cases items with
      | nil => rfl
      | cons item others =>
          simp only [spelled, List.length_append, List.length_cons, List.cons_append] at enough
          have read := readItems_spelled others item
            (fun value member => inductionHypothesis value member fun string inItem =>
              scans string (mem_strings_array member inItem))
            fuel rest (by omega)
          rw [readNode_spelled_array, read]
          simp [saidNode]
  | object members inductionHypothesis =>
      refine readsBack_of_succ fun fuel rest enough _ => ?_
      cases members with
      | nil => rfl
      | cons member others =>
          simp only [spelled, List.length_append, List.length_cons, List.cons_append] at enough
          have read := readMembers_spelled others member
            (fun entry isMember => scans _ (mem_strings_object isMember (by simp)))
            (fun entry isMember => inductionHypothesis entry isMember fun string inValue =>
              scans _ (mem_strings_object isMember (by simp [inValue])))
            fuel rest (by omega)
          rw [readNode_spelled_object, read]
          simp [saidNode]

/-! ## Texts with a string that breaks -/

/-- The text of a value breaks before its end. -/
def BreaksOff (spell : String → List Char) (value : Json) : Prop :=
  ∀ fuel rest, 2 * (value.spelled spell).length ≤ fuel → EndsNumber rest →
    (readNode fuel (value.spelled spell ++ rest)).2 = none

private theorem breaksOff_of_succ
    {value : Json}
    (breaks : ∀ fuel rest, 2 * (value.spelled spell).length ≤ fuel + 1 → EndsNumber rest →
      (readNode (fuel + 1) (value.spelled spell ++ rest)).2 = none) :
    BreaksOff spell value := by
  intro fuel rest enough ends
  cases fuel with
  | zero => rfl
  | succ fuel => exact breaks fuel rest enough ends

private theorem readItems_breaks
    (items : List Json)
    (item : Json)
    (either : ∀ value ∈ item :: items, ReadsBack spell said value ∨ BreaksOff spell value)
    (broken : ∃ value ∈ item :: items, BreaksOff spell value)
    (fuel : Nat)
    (rest : List Char)
    (enough : 2 * (spelledItems spell (item :: items)).length + 1 ≤ fuel) :
    (readItems fuel (spelledItems spell (item :: items) ++ ']' :: rest)).rest = none := by
  induction items generalizing item fuel with
  | nil =>
      obtain ⟨fuel, rfl⟩ : ∃ smaller, fuel = smaller + 1 := ⟨fuel - 1, by omega⟩
      rw [spelledItems_singleton] at enough ⊢
      have breaks : BreaksOff spell item := by simpa using broken
      have off := breaks fuel (']' :: rest) (by omega) (by simp)
      exact rest_readItems_of_broken (Prod.ext rfl off)
  | cons next others inductionHypothesis =>
      obtain ⟨fuel, rfl⟩ : ∃ smaller, fuel = smaller + 1 := ⟨fuel - 1, by omega⟩
      rw [spelledItems_cons_cons, List.length_append, List.length_cons] at enough
      rw [spelledItems_cons_cons, List.append_assoc, List.cons_append]
      by_cases here : BreaksOff spell item
      · have off := here fuel (',' :: (spelledItems spell (next :: others) ++ ']' :: rest))
          (by omega) (by simp)
        exact rest_readItems_of_broken (Prod.ext rfl off)
      · have readsBack := (either item (by simp)).resolve_right here
        rw [readItems_of_item (readsBack fuel _ (by omega) (by simp)), readAfterItem_of_comma rfl]
        have brokenLater : ∃ value ∈ next :: others, BreaksOff spell value := by
          obtain ⟨value, member, breaks⟩ := broken
          rcases List.mem_cons.mp member with same | later
          · exact absurd (same ▸ breaks) here
          · exact ⟨value, later, breaks⟩
        exact inductionHypothesis next
          (fun value member => either value (List.mem_cons_of_mem _ member)) brokenLater fuel
          (by omega)

/-- A member whose key breaks, or whose value does, ends the text. -/
theorem readMembers_breaks_here
    {key : String}
    {fuel : Nat}
    {text : List Char}
    (either : Scans spell key (said key) ∨ Breaks spell key)
    (breaks : Breaks spell key ∨ (readNode fuel text).2 = none) :
    (readMembers (fuel + 1) (quotedBy spell key ++ ':' :: text)).rest = none := by
  have colon : skipBlanks (':' :: text) = ':' :: text := rfl
  have ofKey : Breaks spell key →
      (readMembers (fuel + 1) (quotedBy spell key ++ ':' :: text)).rest = none := by
    intro breaks
    obtain ⟨breakage, broken⟩ := breaks (':' :: text)
    simp only [readMembers, skipBlanks_quotedBy, broken]
  rcases breaks with breaks | off
  · exact ofKey breaks
  · rcases either with scans | breaks
    · simp only [readMembers, skipBlanks_quotedBy, scans (':' :: text), colon]
      split
      · rfl
      · simp_all
    · exact ofKey breaks

private theorem readMembers_breaks
    (members : List (String × Json))
    (member : String × Json)
    (eitherKey : ∀ entry ∈ member :: members, Scans spell entry.1 (said entry.1) ∨
      Breaks spell entry.1)
    (eitherValue : ∀ entry ∈ member :: members, ReadsBack spell said entry.2 ∨
      BreaksOff spell entry.2)
    (broken : ∃ entry ∈ member :: members, Breaks spell entry.1 ∨ BreaksOff spell entry.2)
    (fuel : Nat)
    (rest : List Char)
    (enough : 2 * (spelledMembers spell (member :: members)).length + 1 ≤ fuel) :
    (readMembers fuel (spelledMembers spell (member :: members) ++ '\x7d' :: rest)).rest =
      none := by
  induction members generalizing member fuel with
  | nil =>
      obtain ⟨fuel, rfl⟩ : ∃ smaller, fuel = smaller + 1 := ⟨fuel - 1, by omega⟩
      rw [spelledMembers_singleton, List.length_append, List.length_cons] at enough
      rw [spelledMembers_singleton, List.append_assoc, List.cons_append]
      have here : Breaks spell member.1 ∨ BreaksOff spell member.2 := by simpa using broken
      exact readMembers_breaks_here (eitherKey member (by simp))
        (here.imp_right fun breaks => breaks fuel _ (by omega) (by simp))
  | cons next others inductionHypothesis =>
      obtain ⟨fuel, rfl⟩ : ∃ smaller, fuel = smaller + 1 := ⟨fuel - 1, by omega⟩
      simp only [spelledMembers_cons_cons, List.length_append, List.length_cons] at enough
      simp only [spelledMembers_cons_cons, List.append_assoc, List.cons_append]
      by_cases here : Breaks spell member.1 ∨ BreaksOff spell member.2
      · exact readMembers_breaks_here (eitherKey member (by simp))
          (here.imp_right fun breaks => breaks fuel _ (by omega) (by simp))
      · obtain ⟨keyFine, valueFine⟩ := not_or.mp here
        have scans := (eitherKey member (by simp)).resolve_right keyFine
        have readsBack := (eitherValue member (by simp)).resolve_right valueFine
        have readsValue := readsBack fuel
          (',' :: (spelledMembers spell (next :: others) ++ '\x7d' :: rest)) (by omega) (by simp)
        have brokenLater : ∃ entry ∈ next :: others,
            Breaks spell entry.1 ∨ BreaksOff spell entry.2 := by
          obtain ⟨entry, isMember, breaks⟩ := broken
          rcases List.mem_cons.mp isMember with same | later
          · exact absurd (same ▸ breaks) here
          · exact ⟨entry, later, breaks⟩
        rw [readMembers_next scans readsValue]
        exact inductionHypothesis next
          (fun entry isMember => eitherKey entry (List.mem_cons_of_mem _ isMember))
          (fun entry isMember => eitherValue entry (List.mem_cons_of_mem _ isMember))
          brokenLater fuel (by omega)

/-- A text whose strings say something or break is read to its end or breaks off, if it breaks off
with any string that breaks. -/
theorem readsBack_or_breaksOff
    {value : Json}
    (either : ∀ string ∈ value.strings, Scans spell string (said string) ∨ Breaks spell string)
    (breaksOff : (∃ string ∈ value.strings, Breaks spell string) → BreaksOff spell value) :
    ReadsBack spell said value ∨ BreaksOff spell value := by
  by_cases broken : ∃ string ∈ value.strings, Breaks spell string
  · exact Or.inr (breaksOff broken)
  · refine Or.inl (readsBack_of_scans value fun string occurs => ?_)
    exact (either string occurs).resolve_right fun breaks => broken ⟨string, occurs, breaks⟩

/-- A text breaks off if one of its strings does. -/
theorem breaksOff_of_breaks
    (value : Json)
    (either : ∀ string ∈ value.strings, Scans spell string (said string) ∨ Breaks spell string)
    (broken : ∃ string ∈ value.strings, Breaks spell string) :
    BreaksOff spell value := by
  induction value using treeInduction with
  | null => simp at broken
  | flag value => simp at broken
  | number value => simp at broken
  | text value =>
      refine breaksOff_of_succ fun fuel rest _ _ => ?_
      have breaks : Breaks spell value := by simpa using broken
      obtain ⟨breakage, broken⟩ := breaks rest
      rw [readNode_spelled_text, readText, broken]
  | array items inductionHypothesis =>
      refine breaksOff_of_succ fun fuel rest enough _ => ?_
      have eitherString : ∀ item ∈ items, ∀ string ∈ item.strings,
          Scans spell string (said string) ∨ Breaks spell string :=
        fun item member string inItem => either string (mem_strings_array member inItem)
      have eitherItem : ∀ item ∈ items, ReadsBack spell said item ∨ BreaksOff spell item :=
        fun item member => readsBack_or_breaksOff (eitherString item member)
          (inductionHypothesis item member (eitherString item member))
      have brokenItem : ∃ item ∈ items, BreaksOff spell item := by
        obtain ⟨string, inArray, breaks⟩ := broken
        simp only [strings, itemStrings_eq_flatMap, List.mem_flatMap] at inArray
        obtain ⟨item, member, inItem⟩ := inArray
        exact ⟨item, member, inductionHypothesis item member (eitherString item member)
          ⟨string, inItem, breaks⟩⟩
      cases items with
      | nil => simp at brokenItem
      | cons item others =>
          simp only [spelled, List.length_append, List.length_cons, List.cons_append] at enough
          rw [readNode_spelled_array]
          exact readItems_breaks others item eitherItem brokenItem fuel rest (by omega)
  | object members inductionHypothesis =>
      refine breaksOff_of_succ fun fuel rest enough _ => ?_
      have eitherKey : ∀ entry ∈ members, Scans spell entry.1 (said entry.1) ∨
          Breaks spell entry.1 :=
        fun entry isMember => either _ (mem_strings_object isMember (by simp))
      have eitherString : ∀ entry ∈ members, ∀ string ∈ entry.2.strings,
          Scans spell string (said string) ∨ Breaks spell string :=
        fun entry isMember string inValue =>
          either _ (mem_strings_object isMember (by simp [inValue]))
      have eitherValue : ∀ entry ∈ members, ReadsBack spell said entry.2 ∨
          BreaksOff spell entry.2 :=
        fun entry isMember => readsBack_or_breaksOff (eitherString entry isMember)
          (inductionHypothesis entry isMember (eitherString entry isMember))
      have brokenMember : ∃ entry ∈ members, Breaks spell entry.1 ∨ BreaksOff spell entry.2 := by
        obtain ⟨string, inObject, breaks⟩ := broken
        simp only [strings, memberStrings_eq_flatMap, List.mem_flatMap] at inObject
        obtain ⟨entry, isMember, inEntry⟩ := inObject
        refine ⟨entry, isMember, ?_⟩
        rcases List.mem_cons.mp inEntry with isKey | inValue
        · exact Or.inl (isKey ▸ breaks)
        · exact Or.inr (inductionHypothesis entry isMember (eitherString entry isMember)
            ⟨string, inValue, breaks⟩)
      cases members with
      | nil => simp at brokenMember
      | cons member others =>
          simp only [spelled, List.length_append, List.length_cons, List.cons_append] at enough
          rw [readNode_spelled_object]
          exact readMembers_breaks others member eitherKey eitherValue brokenMember fuel rest
            (by omega)

/-! ## Whole texts -/

/-- Reading a text all of whose strings say something is reading the tree that they say. -/
theorem decode_spelled
    {α : Type}
    (read : Nat → Node → Except Problem α)
    (value : Json)
    (scans : ∀ string ∈ value.strings, Scans spell string (said string)) :
    decode read (String.ofList (value.spelled spell)) = read levels (saidNode said value) := by
  have readsBack := readsBack_of_scans value scans (2 * (value.spelled spell).length + 2) []
    (by omega) endsNumber_nil
  rw [List.append_nil] at readsBack
  simp only [decode, nodeOf, String.toList_ofList, readsBack]
  cases read levels (saidNode said value) <;> rfl

/-- No reader accepts a text with a string that breaks. -/
theorem decode_spelled_of_breaks
    {α : Type}
    (read : Nat → Node → Except Problem α)
    (value : Json)
    (either : ∀ string ∈ value.strings, Scans spell string (said string) ∨ Breaks spell string)
    (broken : ∃ string ∈ value.strings, Breaks spell string) :
    ∃ problem, decode read (String.ofList (value.spelled spell)) = .error problem := by
  have off := breaksOff_of_breaks value either broken (2 * (value.spelled spell).length + 2) []
    (by omega) endsNumber_nil
  rw [List.append_nil] at off
  simp only [decode, nodeOf, String.toList_ofList, off]
  cases read levels (readNode (2 * (value.spelled spell).length + 2) (value.spelled spell)).1 with
  | ok result => exact ⟨_, rfl⟩
  | error problem => exact ⟨_, rfl⟩

end Reading

end RunManifest.Json
