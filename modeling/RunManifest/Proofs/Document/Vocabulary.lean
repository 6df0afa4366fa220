import RunManifest.Proofs.Document.Members
import RunManifest.Proofs.Instant
import RunManifest.Proofs.Json.Replace
import RunManifest.Run.Metadata

/-!
Contract: reading invents no strings and no numbers.

Owns:
- `Vocabulary`, the keys, texts and numbers of double precision that may occur, and documents and
  trees within a vocabulary;
- `KeepsTo`, the law that what is written for what was read stays within the vocabulary of the tree
  it was read from, with its instances for flags, instants, dictionaries of texts and lists;
- `Field.KeepsTo`, the law for one field, with one instance for each kind of field;
- `Schema.keepsTo`, the law for records, given by key or by position.

The names of fields, the empty text and the texts of instants are not read from a tree, so every
vocabulary has them.
-/

set_option autoImplicit false

namespace RunManifest

/-- What may occur in a document. Strings in which no placeholder begins are always allowed. -/
structure Vocabulary where
  key : String → Prop
  text : String → Prop
  float : Binary64 → Prop
  key_of_hasNoStart : ∀ string, Json.hasNoStart string = true → key string
  text_of_hasNoStart : ∀ string, Json.hasNoStart string = true → text string

variable {vocabulary : Vocabulary}

/-! ## Documents and trees -/

namespace Json

/-- All that occurs in a document is in the vocabulary. -/
inductive Within (vocabulary : Vocabulary) : Json → Prop where
  | null : Within vocabulary .null
  | flag (value : Bool) : Within vocabulary (.flag value)
  | number {value : Number} (allowed : ∀ x, value = .float x → vocabulary.float x) :
      Within vocabulary (.number value)
  | text {value : String} (allowed : vocabulary.text value) : Within vocabulary (.text value)
  | array {items : List Json} (within : ∀ item ∈ items, Within vocabulary item) :
      Within vocabulary (.array items)
  | object {members : List (String × Json)}
      (allowed : ∀ member ∈ members, vocabulary.key member.1)
      (within : ∀ member ∈ members, Within vocabulary member.2) :
      Within vocabulary (.object members)

/-- All that occurs in a tree and can be read is in the vocabulary. -/
inductive Node.Within (vocabulary : Vocabulary) : Node → Prop where
  | null : Within vocabulary .null
  | flag (value : Bool) : Within vocabulary (.flag value)
  | number {value : Option Number} (allowed : ∀ x, value = some (.float x) → vocabulary.float x) :
      Within vocabulary (.number value)
  | text {value : Readable String} (allowed : ∀ string, value = .ok string → vocabulary.text string) :
      Within vocabulary (.text value)
  | array {items : List Node} (ending : Option Fault)
      (within : ∀ item ∈ items, Within vocabulary item) :
      Within vocabulary (.array items ending)
  | object {members : List (Readable String × Node)} (ending : Option Breakage)
      (allowed : ∀ member ∈ members, ∀ key, member.1 = .ok key → vocabulary.key key)
      (within : ∀ member ∈ members, Within vocabulary member.2) :
      Within vocabulary (.object members ending)
  | broken (breakage : Breakage) : Within vocabulary (.broken breakage)

theorem within_object {members : List (String × Json)} :
    (Json.object members).Within vocabulary ↔
      ∀ member ∈ members, vocabulary.key member.1 ∧ member.2.Within vocabulary := by
  constructor
  · rintro (_ | _ | _ | _ | _ | ⟨allowed, within⟩) member isMember
    exact ⟨allowed member isMember, within member isMember⟩
  · intro both
    exact .object (fun member isMember => (both member isMember).1)
      fun member isMember => (both member isMember).2

private theorem within_insertNormal
    {members entries : List (String × Json)}
    (ofMembers : ∀ member ∈ members,
      vocabulary.key member.1 ∧ member.2.normal.Within vocabulary)
    (ofEntries : ∀ entry ∈ entries, vocabulary.key entry.1 ∧ entry.2.Within vocabulary) :
    ∀ entry ∈ insertNormal members entries,
      vocabulary.key entry.1 ∧ entry.2.Within vocabulary := by
  induction members generalizing entries with
  | nil => exact ofEntries
  | cons member rest inductionHypothesis =>
      obtain ⟨atMember, atRest⟩ := List.forall_mem_cons.mp ofMembers
      exact inductionHypothesis atRest (Entries.forall_mem_insert atMember ofEntries)

theorem Within.normal
    {value : Json}
    (within : value.Within vocabulary) :
    value.normal.Within vocabulary := by
  induction within with
  | null => exact .null
  | flag value => exact .flag value
  | number allowed => exact .number allowed
  | text allowed => exact .text allowed
  | array _ inductionHypothesis =>
      rw [Json.normal, normalItems_eq_map]
      exact .array (List.forall_mem_map.mpr inductionHypothesis)
  | object allowed _ inductionHypothesis =>
      refine within_object.mpr (within_insertNormal (fun member isMember => ?_) (by simp))
      exact ⟨allowed member isMember, inductionHypothesis member isMember⟩

/-- The value of a tree is within the vocabulary of the tree. -/
theorem within_of_value
    {levels : Nat}
    {node : Node}
    (within : node.Within vocabulary)
    {value : Json}
    (read : node.value levels = .ok value) :
    value.Within vocabulary := by
  induction within generalizing levels value with
  | null =>
      simp only [Node.value, Except.ok.injEq] at read
      exact read ▸ .null
  | flag flag =>
      simp only [Node.value, Except.ok.injEq] at read
      exact read ▸ .flag flag
  | number allowed =>
      simp only [Node.value, Document.bind_eq_ok, Document.pure_eq_ok, Except.ok.injEq] at read
      obtain ⟨number, isNumber, rfl⟩ := read
      refine .number fun x isFloat => allowed x ?_
      rw [Document.eq_some_of_inRange isNumber, isFloat]
  | text allowed =>
      simp only [Node.value, Document.bind_eq_ok, Document.pure_eq_ok, Except.ok.injEq] at read
      obtain ⟨text, isText, rfl⟩ := read
      exact .text (allowed text (Document.eq_ok_of_legible isText))
  | array ending _ inductionHypothesis =>
      cases levels with
      | zero => simp [Node.value] at read
      | succ levels =>
          simp only [Node.value, Document.bind_eq_ok] at read
          obtain ⟨items, readItems, _, _, same⟩ := read
          cases same
          refine .array fun item member => ?_
          obtain ⟨source, isItem, readItem⟩ := Document.exists_of_mem_mapM readItems member
          exact inductionHypothesis source isItem readItem
  | object ending allowed _ inductionHypothesis =>
      cases levels with
      | zero => simp [Node.value] at read
      | succ levels =>
          simp only [Node.value, Document.bind_eq_ok] at read
          obtain ⟨members, readMembers, _, _, same⟩ := read
          cases same
          refine within_object.mpr fun member isMember => ?_
          obtain ⟨source, isSource, readMember⟩ := Document.exists_of_mem_mapM readMembers isMember
          simp only [Document.bind_eq_ok] at readMember
          obtain ⟨key, isKey, value, readValue, same⟩ := readMember
          cases same
          exact ⟨allowed source isSource key (Document.eq_ok_of_legible isKey),
            inductionHypothesis source isSource readValue⟩
  | broken breakage => simp [Node.value] at read

/-- The tree of a document whose numbers are read as they are has the vocabulary of the document. -/
theorem Within.node
    {value : Json}
    (within : value.Within vocabulary) :
    (value.node some).Within vocabulary := by
  induction within with
  | null => exact .null
  | flag value => exact .flag value
  | number allowed =>
      refine .number fun x isFloat => allowed x ?_
      exact Option.some.inj isFloat
  | text allowed =>
      refine .text fun string isString => ?_
      cases isString
      exact allowed
  | array _ inductionHypothesis =>
      simp only [Json.node, itemNodes_eq_map]
      exact .array none (List.forall_mem_map.mpr inductionHypothesis)
  | object allowed _ inductionHypothesis =>
      simp only [Json.node, memberNodes_eq_map]
      refine .object none (List.forall_mem_map.mpr fun member isMember key isKey => ?_)
        (List.forall_mem_map.mpr inductionHypothesis)
      cases isKey
      exact allowed member isMember

/-- A document with its strings changed is within a vocabulary that has the changed strings. -/
theorem within_mapStrings
    {onKey onText : String → String}
    {value : Json}
    (keys : ∀ key ∈ value.keys, vocabulary.key (onKey key))
    (texts : ∀ string, vocabulary.text (onText string))
    (floats : ∀ x ∈ value.floats, vocabulary.float x) :
    (value.mapStrings onKey onText).Within vocabulary := by
  induction value using treeInduction with
  | null => exact .null
  | flag value => exact .flag value
  | number value =>
      refine .number fun x isFloat => floats x ?_
      rw [isFloat]
      exact List.mem_singleton_self x
  | text value => exact .text (texts value)
  | array items inductionHypothesis =>
      simp only [Json.keys, itemKeys_eq_flatMap, List.mem_flatMap] at keys
      simp only [Json.floats, itemFloats_eq_flatMap, List.mem_flatMap] at floats
      simp only [mapStrings, mapItemStrings_eq_map]
      refine .array (List.forall_mem_map.mpr fun item member => ?_)
      exact inductionHypothesis item member (fun key isKey => keys key ⟨item, member, isKey⟩)
        fun x occurs => floats x ⟨item, member, occurs⟩
  | object members inductionHypothesis =>
      simp only [Json.keys, memberKeys_eq_flatMap, List.mem_flatMap, List.mem_cons] at keys
      simp only [Json.floats, memberFloats_eq_flatMap, List.mem_flatMap] at floats
      simp only [mapStrings, mapMemberStrings_eq_map]
      refine within_object.mpr (List.forall_mem_map.mpr fun member isMember => ⟨?_, ?_⟩)
      · exact keys member.1 ⟨member, isMember, .inl rfl⟩
      · exact inductionHypothesis member isMember
          (fun key isKey => keys key ⟨member, isMember, .inr isKey⟩)
          fun x occurs => floats x ⟨member, isMember, occurs⟩

namespace Within

variable {value : Json} (within : value.Within vocabulary)

include within

theorem key_of_mem_keys : ∀ key ∈ value.keys, vocabulary.key key := by
  induction within with
  | array _ inductionHypothesis =>
      simp only [Json.keys, itemKeys_eq_flatMap, List.mem_flatMap]
      rintro key ⟨item, member, isKey⟩
      exact inductionHypothesis item member key isKey
  | object allowed _ inductionHypothesis =>
      simp only [Json.keys, memberKeys_eq_flatMap, List.mem_flatMap, List.mem_cons]
      rintro key ⟨member, isMember, rfl | isKey⟩
      · exact allowed member isMember
      · exact inductionHypothesis member isMember key isKey
  | _ => simp

theorem of_mem_strings : ∀ string ∈ value.strings, vocabulary.key string ∨ vocabulary.text string := by
  induction within with
  | text allowed =>
      simp only [Json.strings, List.mem_singleton, forall_eq]
      exact .inr allowed
  | array _ inductionHypothesis =>
      simp only [Json.strings, itemStrings_eq_flatMap, List.mem_flatMap]
      rintro string ⟨item, member, occurs⟩
      exact inductionHypothesis item member string occurs
  | object allowed _ inductionHypothesis =>
      simp only [Json.strings, memberStrings_eq_flatMap, List.mem_flatMap, List.mem_cons]
      rintro string ⟨member, isMember, rfl | occurs⟩
      · exact .inl (allowed member isMember)
      · exact inductionHypothesis member isMember string occurs
  | _ => simp

theorem float_of_mem_floats : ∀ x ∈ value.floats, vocabulary.float x := by
  induction within with
  | @number value allowed =>
      cases value with
      | integer value => simp
      | float x =>
          simp only [Json.floats, List.mem_singleton, forall_eq]
          exact allowed x rfl
  | array _ inductionHypothesis =>
      simp only [Json.floats, itemFloats_eq_flatMap, List.mem_flatMap]
      rintro x ⟨item, member, occurs⟩
      exact inductionHypothesis item member x occurs
  | object _ _ inductionHypothesis =>
      simp only [Json.floats, memberFloats_eq_flatMap, List.mem_flatMap]
      rintro x ⟨member, isMember, occurs⟩
      exact inductionHypothesis member isMember x occurs
  | _ => simp

end Within

end Json

/-! ## Parts -/

/-- No placeholder begins in a number or an instant. -/
theorem hasNoStart_of_digits_or_marks
    {string : String}
    (chars : ∀ c ∈ string.toList, c.isDigit ∨ c ∈ Instant.marks) :
    Json.hasNoStart string = true := by
  refine List.all_eq_true.mpr fun c member => ?_
  simp only [Bool.and_eq_true, bne_iff_ne]
  constructor
  · rintro rfl
    exact absurd (chars _ member) (by decide)
  · rintro rfl
    exact absurd (chars _ member) (by decide)

theorem Instant.hasNoStart_text (instant : Instant) : Json.hasNoStart instant.text = true :=
  hasNoStart_of_digits_or_marks fun _ inText => Instant.mem_text inText

namespace Document

open Json (Node)

variable {α ρ : Type} {levels : Nat} {node part : Node}

private theorem within_of_mem_parts
    (within : node.Within vocabulary)
    (isPart : part ∈ node.parts) :
    part.Within vocabulary := by
  cases within with
  | array _ itemsWithin => exact itemsWithin part isPart
  | object _ _ membersWithin =>
      obtain ⟨member, isMember, rfl⟩ := List.mem_map.mp isPart
      exact membersWithin member isMember
  | _ => cases isPart

private theorem key_of_mem_members
    (within : node.Within vocabulary)
    {key : String}
    (isMember : (.ok key, part) ∈ node.members) :
    vocabulary.key key := by
  cases within with
  | object _ allowed _ => exact allowed _ isMember key rfl
  | _ => cases isMember

private theorem text_of_within
    {value : String}
    (within : (Node.text (.ok value)).Within vocabulary) :
    vocabulary.text value := by
  cases within with
  | text allowed => exact allowed value rfl

/-- What is written for what was read stays within the vocabulary of what it was read from. -/
def KeepsTo
    (vocabulary : Vocabulary)
    (levels : Nat)
    (read : Nat → Node → Except Problem α)
    (write : α → Json) : Prop :=
  ∀ node value, node.Within vocabulary → read levels node = .ok value →
    (write value).Within vocabulary

theorem keepsTo_flag : KeepsTo vocabulary levels (fun _ => Json.format.flag) Json.flag :=
  fun _ value _ _ => .flag value

theorem keepsTo_instant :
    KeepsTo vocabulary levels (readInstant Json.format) ObjectMeta.writeInstant :=
  fun _ instant _ _ => .text (vocabulary.text_of_hasNoStart _ instant.hasNoStart_text)

/-- The texts of a dictionary that is made of entries are among those of the entries. -/
theorem within_writeTexts
    {entries : List (String × String)}
    (allowed : ∀ entry ∈ entries, vocabulary.key entry.1 ∧ vocabulary.text entry.2) :
    (ObjectMeta.writeTexts (.ofList entries)).Within vocabulary := by
  refine Json.within_object.mpr (List.forall_mem_map.mpr fun entry isEntry => ?_)
  have atEntry := Dictionary.forall_mem_ofList allowed entry isEntry
  exact ⟨atEntry.1, .text atEntry.2⟩

theorem keepsTo_texts :
    KeepsTo vocabulary (levels + 1) (readTexts Json.format) ObjectMeta.writeTexts := by
  intro node texts within read
  obtain ⟨entries, rfl, rfl⟩ := readTexts_eq_ok read
  refine within_writeTexts fun entry isEntry => ?_
  have isMember := List.mem_map_of_mem
    (f := fun entry : String × String =>
      ((.ok entry.1 : Json.Readable String), Node.text (.ok entry.2))) isEntry
  exact ⟨key_of_mem_members within isMember,
    text_of_within (within_of_mem_parts within (mem_parts_of_mem_members isMember))⟩

theorem keepsTo_list
    {read : Nat → Node → Except Problem α}
    {write : α → Json}
    (keeps : KeepsTo vocabulary levels read write) :
    KeepsTo vocabulary (levels + 1) (readList Json.format read)
      fun values => .array (values.map write) := by
  intro node values within readNode
  refine .array (List.forall_mem_map.mpr fun value isValue => ?_)
  obtain ⟨item, isItem, readItem⟩ := exists_of_mem_readList readNode isValue
  exact keeps item value (within_of_mem_parts within isItem) readItem

/-! ## Fields -/

/-- What is written for a field, before or after it was read, stays within the vocabulary. -/
structure Field.KeepsTo
    (vocabulary : Vocabulary)
    (levels : Nat)
    (blank : ρ)
    (field : Field (Except Problem) Node ρ) : Prop where
  name : Json.hasNoStart field.name = true
  fresh : ∀ document, field.write blank = some document → document.Within vocabulary
  read : ∀ node change, node.Within vocabulary → field.read levels node = .ok change →
    ∀ record document, field.write (change record) = some document → document.Within vocabulary

namespace Field

variable {blank : ρ} {name : String}

theorem keepsTo_text
    {get : ρ → String}
    {set : String → ρ → ρ}
    (noStart : Json.hasNoStart name = true)
    (isBlank : get blank = "")
    (get_set : ∀ value record, get (set value record) = value) :
    (Field.text Json.format name get set).KeepsTo vocabulary levels blank where
  name := noStart
  fresh document written := by
    simp only [Field.text, isBlank] at written
    cases written
  read node change within readNode record document written := by
    obtain ⟨value, isText, rfl⟩ := map_eq_ok.mp readNode
    rw [text_eq_ok isText] at within
    simp only [Field.text, get_set, Option.ite_none_left_eq_some] at written
    rw [← Option.some.inj written.2]
    exact .text (text_of_within within)

theorem keepsTo_writtenText
    {required : Bool}
    {get : ρ → String}
    {set : String → ρ → ρ}
    (noStart : Json.hasNoStart name = true)
    (isBlank : get blank = "")
    (get_set : ∀ value record, get (set value record) = value) :
    (Field.writtenText Json.format name required get set).KeepsTo vocabulary levels blank where
  name := noStart
  fresh document written := by
    simp only [Field.writtenText, isBlank] at written
    cases written
    exact .text (vocabulary.text_of_hasNoStart _ rfl)
  read node change within readNode record document written := by
    obtain ⟨value, isText, rfl⟩ := map_eq_ok.mp readNode
    rw [text_eq_ok isText] at within
    simp only [Field.writtenText, get_set] at written
    rw [← Option.some.inj written]
    exact .text (text_of_within within)

theorem keepsTo_optional
    {readPart : Nat → Node → Except Problem α}
    {writePart : α → Json}
    {get : ρ → Option α}
    {set : Option α → ρ → ρ}
    (noStart : Json.hasNoStart name = true)
    (isBlank : get blank = none)
    (get_set : ∀ value record, get (set value record) = value)
    (keeps : Document.KeepsTo vocabulary levels readPart writePart) :
    (Field.optional Json.format name readPart writePart get set).KeepsTo vocabulary levels blank where
  name := noStart
  fresh document written := by
    simp only [Field.optional, isBlank] at written
    cases written
  read node change within readNode record document written := by
    obtain ⟨value, isValue, rfl⟩ := map_eq_ok.mp readNode
    simp only [Field.optional, get_set] at written
    obtain ⟨part, isPart, rfl⟩ := Option.map_eq_some_iff.mp written
    simp only [readOptional, Json.format, ok_bind] at isValue
    split at isValue
    · rw [isPart] at isValue
      cases isValue
    · obtain ⟨found, readPart, same⟩ := bind_eq_ok.mp isValue
      rw [isPart] at same
      cases same
      exact keeps node part within readPart

theorem keepsTo_list
    {readPart : Nat → Node → Except Problem α}
    {writePart : α → Json}
    {get : ρ → List α}
    {set : List α → ρ → ρ}
    (noStart : Json.hasNoStart name = true)
    (isBlank : get blank = [])
    (get_set : ∀ value record, get (set value record) = value)
    (keeps : Document.KeepsTo vocabulary levels readPart writePart) :
    (Field.list Json.format name readPart writePart get set).KeepsTo vocabulary (levels + 1)
      blank where
  name := noStart
  fresh document written := by
    simp only [Field.list, isBlank] at written
    cases written
  read node change within readNode record document written := by
    obtain ⟨values, isList, rfl⟩ := map_eq_ok.mp readNode
    simp only [Field.list, get_set, Option.ite_none_left_eq_some] at written
    rw [← Option.some.inj written.2]
    exact Document.keepsTo_list keeps node values within isList

theorem keepsTo_part
    {required : Bool}
    {readPart : Nat → Node → Except Problem α}
    {writePart : α → Json}
    {isEmpty : α → Bool}
    {get : ρ → α}
    {set : α → ρ → ρ}
    (noStart : Json.hasNoStart name = true)
    (isBlank : (writePart (get blank)).Within vocabulary)
    (get_set : ∀ value record, get (set value record) = value)
    (keeps : Document.KeepsTo vocabulary levels readPart writePart) :
    (Field.part name required readPart writePart isEmpty get set).KeepsTo vocabulary levels
      blank where
  name := noStart
  fresh document written := by
    simp only [Field.part, Option.ite_none_left_eq_some] at written
    rw [← Option.some.inj written.2]
    exact isBlank
  read node change within readNode record document written := by
    obtain ⟨value, isValue, rfl⟩ := map_eq_ok.mp readNode
    simp only [Field.part, get_set, Option.ite_none_left_eq_some] at written
    rw [← Option.some.inj written.2]
    exact keeps node value within isValue

end Field

/-! ## Records -/

namespace Schema

variable {schema : Schema (Except Problem) Node ρ}

/-- All that is written for a record is in the vocabulary. -/
structure Holds
    (vocabulary : Vocabulary)
    (schema : Schema (Except Problem) Node ρ)
    (record : ρ) : Prop where
  fields : ∀ field ∈ schema.fields, ∀ document, field.write record = some document →
    document.Within vocabulary
  others : ∀ get put, schema.others = .kept get put → ∀ entry ∈ (get record).entries,
    vocabulary.key entry.1 ∧ entry.2.Within vocabulary

theorem Holds.write
    {record : ρ}
    (holds : schema.Holds vocabulary record)
    (names : ∀ field ∈ schema.fields, Json.hasNoStart field.name = true) :
    (schema.write record).Within vocabulary := by
  refine Json.within_object.mpr (List.forall_mem_append.mpr ⟨?_, ?_⟩)
  · intro entry isEntry
    obtain ⟨field, isField, written⟩ := List.mem_filterMap.mp isEntry
    obtain ⟨document, isDocument, rfl⟩ := Option.map_eq_some_iff.mp written
    exact ⟨vocabulary.key_of_hasNoStart _ (names field isField),
      holds.fields field isField document isDocument⟩
  · rw [writtenOthers]
    split
    · simp
    · rename_i get put isKept
      exact holds.others get put isKept

/-- A record stays within the vocabulary of what it was read from. -/
theorem keepsTo
    (orderly : schema.Orderly)
    (fields : ∀ field ∈ schema.fields, field.KeepsTo vocabulary levels schema.blank) :
    KeepsTo vocabulary (levels + 1) (schema.read Json.format) schema.write := by
  intro node result within readNode
  have holds : schema.Holds vocabulary result := by
    refine holds_of_read_parts (schema.Holds vocabulary) ?_ ?_ ?_ readNode
    · refine ⟨fun field isField => (fields field isField).fresh, fun get put isKept => ?_⟩
      rw [(orderly.aside get put isKept).blank]
      simp [Dictionary.empty]
    · intro field isField part isPart change readField record holds
      refine ⟨fun other isOther document written => ?_, fun get put isKept => ?_⟩
      · -- A field is known by its name, and leaves the others as they were.
        by_cases same : field.name = other.name
        · have sameField : other = field := by
            have found := field?_name orderly.names isField
            rw [same, field?_name orderly.names isOther] at found
            exact Option.some.inj found
          rw [sameField] at written
          exact (fields field isField).read part change (within_of_mem_parts within isPart)
            readField record document written
        · rw [orderly.write_read other isOther field isField same levels part change readField]
            at written
          exact holds.fields other isOther document written
      · rw [(orderly.aside get put isKept).get_read field isField levels part change readField]
        exact holds.others get put isKept
    · intro get put isKept key part isMember unknown value readValue record holds
      have aside := orderly.aside get put isKept
      refine ⟨fun field isField document written => ?_, fun otherGet otherPut alsoKept => ?_⟩
      · rw [aside.write_put field isField] at written
        exact holds.fields field isField document written
      · rw [isKept] at alsoKept
        cases alsoKept
        rw [aside.get_put]
        have valueWithin := Json.within_of_value
          (within_of_mem_parts within (mem_parts_of_mem_members isMember)) readValue
        exact Entries.forall_mem_insert ⟨key_of_mem_members within isMember, valueWithin.normal⟩
          (holds.others get put isKept)
  exact holds.write fun field isField => (fields field isField).name

end Schema

end Document

end RunManifest
