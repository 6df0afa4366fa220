import RunManifest.Document.Schema
import RunManifest.Json.Format
import RunManifest.Proofs.Json.Opaque

/-!
Contract: what is known of a record because it was read.

Owns:
- `Schema.readMembers_preserves`, what every member preserves the whole reading preserves;
- `Schema.readMember_cases`, what one member does;
- `Schema.holds_of_read_parts`, what the parts of a node preserve holds of the record that is read
  from it, given by key or by position, with `Schema.holds_of_read` for integers that fit 64 bits and
  `Schema.holds_of_read_said` for the document of another record;
- `Schema.Keeps`, what is known of the members that a record keeps;
- the inversion of the questions that containers answer.
-/

set_option autoImplicit false

namespace RunManifest

/-! ## Parts of nodes -/

namespace Json.Node

/-- The members of an object. -/
def members : Node → List (Json.Readable String × Node)
  | .object members _ => members
  | _ => []

/-- The nodes directly inside a node. -/
def parts : Node → List Node
  | .array items _ => items
  | .object members _ => members.map Prod.snd
  | _ => []

end Json.Node

namespace Document

open Json (Node)

variable {α ρ : Type} {levels : Nat} {node : Node}

theorem mem_parts_of_mem_members
    {key : Json.Readable String}
    {part : Node}
    (isMember : (key, part) ∈ node.members) :
    part ∈ node.parts := by
  cases node with
  | object members ending => exact List.mem_map_of_mem isMember
  | _ => cases isMember

theorem inRange_of_mem_parts
    (inRange : node.InRange)
    {part : Node}
    (isPart : part ∈ node.parts) :
    part.InRange := by
  cases inRange with
  | array _ itemsInRange => exact itemsInRange part isPart
  | object _ membersInRange =>
      obtain ⟨member, isMember, rfl⟩ := List.mem_map.mp isPart
      exact membersInRange member isMember
  | _ => cases isPart

theorem eq_ok_of_legible
    {value : Json.Readable String}
    {result : String}
    (isLegible : Node.legible value = .ok result) :
    value = .ok result := by
  cases value with
  | error cause => cases isLegible
  | ok value =>
      cases isLegible
      rfl

theorem eq_some_of_inRange
    {value : Option Number}
    {result : Number}
    (isInRange : Node.inRange value = .ok result) :
    value = some result := by
  cases value with
  | none => cases isInRange
  | some value =>
      cases isInRange
      rfl

/-! ## Containers -/

theorem unexpected_ne_ok (expected : Expected) (node : Node) (value : α) :
    node.unexpected expected ≠ .ok value := by
  rw [Node.unexpected]
  cases node.found with
  | error problem => simp [Except.bind]
  | ok found => simp [Except.bind]

theorem text_eq_ok
    {expected : Expected}
    {value : String}
    (isText : Json.format.text expected node = .ok value) :
    node = .text (.ok value) := by
  cases node with
  | text text => rw [eq_ok_of_legible isText]
  | _ =>
      simp only [Json.format] at isText
      exact absurd isText (unexpected_ne_ok _ _ _)

theorem flag_eq_ok
    {value : Bool}
    (isFlag : Json.format.flag node = .ok value) :
    node = .flag value := by
  cases node with
  | flag flag =>
      cases isFlag
      rfl
  | _ =>
      simp only [Json.format] at isFlag
      exact absurd isFlag (unexpected_ne_ok _ _ _)

theorem sequence_eq_ok
    {sequence : Sequence Node}
    (isSequence : Json.format.sequence node = .ok sequence) :
    ∃ items ending, node = .array items ending ∧ sequence.items = items := by
  cases node with
  | array items ending =>
      cases isSequence
      exact ⟨items, ending, rfl, rfl⟩
  | _ =>
      simp only [Json.format] at isSequence
      exact absurd isSequence (unexpected_ne_ok _ _ _)

theorem record_eq_ok
    {byPosition : Bool}
    {name : String}
    {layout : Layout (Except Problem) Node}
    (isRecord : Json.format.record byPosition name node = .ok layout) :
    (∃ members ending, node = .object members ending ∧
      layout = .keyed (Node.memberContents members ending)) ∨
    (∃ items ending, node = .array items ending ∧ byPosition = true ∧
      layout = .positional (Node.contents items ending)) := by
  cases node with
  | object members ending =>
      cases isRecord
      exact .inl ⟨members, ending, rfl, rfl⟩
  | array items ending =>
      simp only [Json.format] at isRecord
      split at isRecord
      · rename_i allowed
        cases isRecord
        exact .inr ⟨items, ending, rfl, allowed, rfl⟩
      · exact absurd isRecord (unexpected_ne_ok _ _ _)
  | _ =>
      simp only [Json.format] at isRecord
      exact absurd isRecord (unexpected_ne_ok _ _ _)

/-- A list is read from an array item by item. -/
theorem readList_eq_ok
    {readPart : Nat → Node → Except Problem α}
    {values : List α}
    (read : readList Json.format readPart (levels + 1) node = .ok values) :
    ∃ items, node = .array items none ∧
      List.Forall₂ (fun item value => readPart levels item = .ok value) items values := by
  cases node with
  | array items ending =>
      simp only [readList, Json.format, enter, pure_eq_ok, ok_bind, bind_eq_ok, Except.ok.injEq,
        settled_eq_self] at read
      obtain ⟨parts, readItems, _, atEnd, rfl⟩ := read
      cases ending with
      | none => exact ⟨items, rfl, forall₂_of_mapM readItems⟩
      | some fault => cases atEnd
  | _ =>
      simp only [readList, Json.format, bind_eq_ok] at read
      obtain ⟨_, isSequence, -⟩ := read
      exact absurd isSequence (unexpected_ne_ok _ _ _)

/-- A dictionary of texts is read from an object whose values are strings. -/
theorem readTexts_eq_ok
    {texts : Dictionary String}
    (read : readTexts Json.format (levels + 1) node = .ok texts) :
    ∃ entries : List (String × String), texts = .ofList entries ∧
      node = .object (entries.map fun entry => (.ok entry.1, .text (.ok entry.2))) none := by
  cases node with
  | object members ending =>
      simp only [readTexts, Json.format, Node.memberContents, enter, pure_eq_ok, ok_bind, bind_eq_ok,
        Except.ok.injEq, settled_eq_self, List.mapM_map] at read
      obtain ⟨entries, readEntries, _, atEnd, rfl⟩ := read
      cases ending with
      | some breakage => cases atEnd
      | none =>
          refine ⟨entries, rfl, congrArg (Node.object · none) ?_⟩
          have same : List.Forall₂
              (fun member entry => member = (.ok entry.1, Node.text (.ok entry.2)))
              members entries := by
            refine (forall₂_of_mapM readEntries).imp fun member entry isEntry => ?_
            obtain ⟨key, isKey, isRest⟩ := bind_eq_ok.mp isEntry
            obtain ⟨value, isValue, isPair⟩ := bind_eq_ok.mp isRest
            cases isPair
            exact Prod.ext (eq_ok_of_legible isKey) (text_eq_ok isValue)
          rwa [← List.forall₂_map_right_iff, List.forall₂_eq_eq_eq] at same
  | _ =>
      simp only [readTexts, Json.format, bind_eq_ok] at read
      obtain ⟨_, isMapping, -⟩ := read
      exact absurd isMapping (unexpected_ne_ok _ _ _)

/-- Every part of a list that is read was read from a part of the node. -/
theorem exists_of_mem_readList
    {readPart : Nat → Node → Except Problem α}
    {values : List α}
    (read : readList Json.format readPart (levels + 1) node = .ok values)
    {value : α}
    (member : value ∈ values) :
    ∃ item ∈ node.parts, readPart levels item = .ok value := by
  simp only [readList, enter, pure_eq_ok, ok_bind, bind_eq_ok, Except.ok.injEq] at read
  obtain ⟨sequence, isSequence, parts, readItems, -, -, rfl⟩ := read
  obtain ⟨item, isItem, readItem⟩ := exists_of_mem_mapM readItems member
  obtain ⟨items, ending, rfl, rfl⟩ := sequence_eq_ok isSequence
  exact ⟨item, isItem, readItem⟩

/-! ## Records -/

namespace Schema

variable {schema : Schema (Except Problem) Node ρ}

/-- What every member preserves, reading members preserves. -/
theorem readMembers_preserves
    (holds : ρ → Prop)
    {members : List (Except Problem String × Node)}
    (preserves : ∀ member ∈ members, ∀ key, member.1 = .ok key → ∀ progress after,
      schema.readMember Json.format levels progress key member.2 = .ok after →
      holds progress.record → holds after.record)
    {progress after : Progress ρ}
    (start : holds progress.record)
    (read : schema.readMembers Json.format levels progress members = .ok after) :
    holds after.record := by
  induction members generalizing progress with
  | nil =>
      cases read
      exact start
  | cons member rest inductionHypothesis =>
      simp only [readMembers, bind_eq_ok] at read
      obtain ⟨key, isKey, next, readMember, readRest⟩ := read
      have kept := preserves member (by simp) key isKey progress next readMember start
      exact inductionHypothesis (fun other isMember => preserves other (by simp [isMember])) kept
        readRest

/-- What holds of the blank record and what every member preserves holds of a record given by
key. -/
theorem readKeyed_preserves
    (holds : ρ → Prop)
    (blank : holds schema.blank)
    {members : Members (Except Problem) Node}
    (preserves : ∀ member ∈ members.entries, ∀ key, member.1 = .ok key → ∀ progress after,
      schema.readMember Json.format levels progress key member.2 = .ok after →
      holds progress.record → holds after.record)
    {result : ρ}
    (read : schema.readKeyed Json.format levels members = .ok result) :
    holds result := by
  simp only [readKeyed, bind_eq_ok] at read
  obtain ⟨progress, readMembers, -, -, readEnd⟩ := read
  have kept := readMembers_preserves holds preserves blank readMembers
  split at readEnd
  · cases readEnd
  · cases readEnd
    exact kept

/-- What every value preserves, reading values by position preserves. -/
theorem readPositions_preserves
    (holds : ρ → Prop)
    {fields : List (Field (Except Problem) Node ρ)}
    {nodes : List Node}
    (preserves : ∀ field ∈ fields, ∀ node ∈ nodes, ∀ change,
      field.read levels node = .ok change → ∀ record, holds record → holds (change record))
    {record : ρ}
    {result : ρ × List (Field (Except Problem) Node ρ) × List Node}
    (start : holds record)
    (read : readPositions levels record fields nodes = .ok result) :
    holds result.1 := by
  induction fields generalizing record nodes with
  | nil =>
      cases read
      exact start
  | cons field fields inductionHypothesis =>
      cases nodes with
      | nil =>
          cases read
          exact start
      | cons node nodes =>
          simp only [readPositions, bind_eq_ok] at read
          obtain ⟨change, readField, readRest⟩ := read
          have kept := preserves field (by simp) node (by simp) change readField record start
          refine inductionHypothesis ?_ kept readRest
          intro other isField later isNode
          exact preserves other (by simp [isField]) later (by simp [isNode])

/-- What is left over when values are read into fields. -/
theorem left_of_readPositions
    {fields : List (Field (Except Problem) Node ρ)}
    {nodes : List Node}
    {record result : ρ}
    {unread : List (Field (Except Problem) Node ρ)}
    {surplus : List Node}
    (read : readPositions levels record fields nodes = .ok (result, unread, surplus)) :
    unread = fields.drop nodes.length ∧ surplus = nodes.drop fields.length := by
  induction fields generalizing nodes record with
  | nil =>
      simp only [readPositions, pure_eq_ok, Except.ok.injEq, Prod.mk.injEq] at read
      obtain ⟨-, rfl, rfl⟩ := read
      simp
  | cons field fields inductionHypothesis =>
      cases nodes with
      | nil =>
          simp only [readPositions, pure_eq_ok, Except.ok.injEq, Prod.mk.injEq] at read
          obtain ⟨-, rfl, rfl⟩ := read
          simp
      | cons node nodes =>
          obtain ⟨change, -, later⟩ := bind_eq_ok.mp read
          simpa using inductionHypothesis later

/-- Only the end of an array closes it. -/
theorem closed_eq_ok {ending : Option Fault} {surplus : List Node} :
    Node.closed ending surplus = .ok () ↔ surplus = [] ∧ ending = none := by
  constructor
  · intro isClosed
    unfold Node.closed at isClosed
    split at isClosed
    · exact ⟨rfl, rfl⟩
    all_goals cases isClosed
  · rintro ⟨rfl, rfl⟩
    rfl

/-- An array gives a record if its values do, it is whole, and no required field is left. -/
theorem readPositional_eq_ok
    {items : List Node}
    {ending : Option Fault}
    {result : ρ} :
    schema.readPositional levels (Node.contents items ending) = .ok result ↔
      ∃ unread, readPositions levels schema.blank schema.fields items = .ok (result, unread, []) ∧
        ending = none ∧ unread.any Field.required = false := by
  simp only [readPositional, bind_eq_ok, settled_eq_self]
  constructor
  · rintro ⟨⟨record, unread, surplus⟩, readAll, _, atEnd, checked⟩
    obtain ⟨isUnread, isSurplus⟩ := left_of_readPositions readAll
    have isWhole : surplus = [] ∧ ending = none := by
      split at atEnd
      · exact closed_eq_ok.mp atEnd
      · rename_i someUnread
        rw [isUnread, List.isEmpty_iff, List.drop_eq_nil_iff, not_le] at someUnread
        refine ⟨by rw [isSurplus, List.drop_eq_nil_iff]; exact someUnread.le, ?_⟩
        cases ending with
        | none => rfl
        | some fault => cases atEnd
    split at checked
    · cases checked
    · rename_i notMissing
      cases checked
      rw [isWhole.1] at readAll
      exact ⟨unread, readAll, isWhole.2, by simpa using notMissing⟩
  · rintro ⟨unread, readAll, rfl, notMissing⟩
    refine ⟨(result, unread, []), readAll, (), ?_, ?_⟩
    · split <;> rfl
    · simp only [notMissing]
      rfl

/-- A field with a name is one of the fields. -/
theorem mem_of_field?
    {name : String}
    {field : Field (Except Problem) Node ρ}
    (found : schema.field? name = some field) :
    field ∈ schema.fields ∧ field.name = name := by
  have sameName := List.find?_some found
  exact ⟨List.mem_of_find?_eq_some found, by simpa using sameName⟩

theorem field?_name
    {m : Type → Type}
    {ν : Type}
    {schema : Schema m ν ρ}
    (names : (schema.fields.map Field.name).Nodup)
    {field : Field m ν ρ}
    (member : field ∈ schema.fields) :
    schema.field? field.name = some field := by
  rw [field?]
  generalize schema.fields = fields at names member
  induction fields with
  | nil => cases member
  | cons head rest inductionHypothesis =>
      rw [List.map_cons, List.nodup_cons] at names
      rcases List.mem_cons.mp member with rfl | later
      · simp
      · have different : head.name ≠ field.name := by
          intro same
          exact names.1 (same ▸ List.mem_map_of_mem later)
        rw [List.find?_cons_of_neg (by simpa using different)]
        exact inductionHypothesis names.2 later

/-- What one member does: a field of its name changes the record and is seen for the first time, or
the record passes over it or keeps it. -/
theorem readMember_cases
    {progress after : Progress ρ}
    {key : String}
    (read : schema.readMember Json.format levels progress key node = .ok after) :
    (∃ field change, schema.field? key = some field ∧ key ∉ progress.seen ∧
      field.read levels node = .ok change ∧
      after = ⟨key :: progress.seen, change progress.record⟩) ∨
    (schema.field? key = none ∧ schema.others = .dropped ∧ node.skip = .ok () ∧ after = progress) ∨
    (∃ get put value, schema.field? key = none ∧ schema.others = .kept get put ∧
      node.value levels = .ok value ∧
      after = ⟨progress.seen,
        put ((get progress.record).insert key value.normal) progress.record⟩) := by
  rw [readMember] at read
  split at read
  · rename_i field found
    split at read
    · cases read
    · rename_i unseen
      simp only [bind_eq_ok, pure_eq_ok, Except.ok.injEq] at read
      obtain ⟨change, readField, rfl⟩ := read
      exact .inl ⟨field, change, found, by simpa using unseen, readField, rfl⟩
  · rename_i unknown
    split at read
    · rename_i isDropped
      simp only [bind_eq_ok, pure_eq_ok, Except.ok.injEq] at read
      obtain ⟨_, skips, rfl⟩ := read
      exact .inr (.inl ⟨unknown, isDropped, skips, rfl⟩)
    · rename_i get put isKept
      simp only [bind_eq_ok, pure_eq_ok, Except.ok.injEq] at read
      obtain ⟨value, readValue, rfl⟩ := read
      exact .inr (.inr ⟨get, put, value, unknown, isKept, readValue, rfl⟩)

/-- What is known of the members that a record keeps: it has no fields of their names, and their
values are kept as they are. -/
def Keeps (schema : Schema (Except Problem) Node ρ) (levels : Nat) (extra : Dictionary Json) : Prop :=
  ∀ entry ∈ extra.entries, schema.field? entry.1 = none ∧ Json.Opaque levels entry.2

theorem keeps_empty : schema.Keeps levels .empty := by
  simp [Keeps, Dictionary.empty]

theorem Keeps.insert
    {extra : Dictionary Json}
    (keeps : schema.Keeps levels extra)
    {key : String}
    {value : Json}
    (unknown : schema.field? key = none)
    (isOpaque : Json.Opaque levels value) :
    schema.Keeps levels (extra.insert key value) :=
  Entries.forall_mem_insert ⟨unknown, isOpaque⟩ keeps

/-- What holds of the blank record, and what the fields and the kept members that are there preserve,
holds of the record that is read. -/
theorem holds_of_read_parts
    (holds : ρ → Prop)
    (blank : holds schema.blank)
    (fields : ∀ field ∈ schema.fields, ∀ part ∈ node.parts, ∀ change,
      field.read levels part = .ok change → ∀ record, holds record → holds (change record))
    (others : ∀ get put, schema.others = .kept get put → ∀ key part,
      (.ok key, part) ∈ node.members → schema.field? key = none → ∀ value,
      part.value levels = .ok value → ∀ record, holds record →
      holds (put ((get record).insert key value.normal) record))
    {result : ρ}
    (read : schema.read Json.format (levels + 1) node = .ok result) :
    holds result := by
  simp only [Schema.read, enter, pure_eq_ok, ok_bind, bind_eq_ok] at read
  obtain ⟨layout, isRecord, readLayout⟩ := read
  -- A record may be written as an object or, by position, as an array.
  rcases record_eq_ok isRecord with ⟨members, ending, rfl, rfl⟩ | ⟨items, ending, rfl, -, rfl⟩
  · refine readKeyed_preserves holds blank ?_ readLayout
    intro member isMember key isKey earlier after readMember start
    obtain ⟨source, isSource, rfl⟩ := List.mem_map.mp isMember
    have isPart : source.2 ∈ (Node.object members ending).parts := List.mem_map_of_mem isSource
    rcases readMember_cases readMember with
      ⟨field, change, found, -, readField, rfl⟩ | ⟨-, -, -, rfl⟩
        | ⟨get, put, value, unknown, isKept, readValue, rfl⟩
    · exact fields field (mem_of_field? found).1 _ isPart change readField _ start
    · exact start
    · have sameKey : source.1 = .ok key := eq_ok_of_legible isKey
      refine others get put isKept key source.2 ?_ unknown value readValue _ start
      rw [← sameKey]
      exact isSource
  · obtain ⟨unread, readPositions, -, -⟩ := readPositional_eq_ok.mp readLayout
    refine readPositions_preserves holds ?_ blank readPositions
    intro field isField item isItem
    exact fields field isField item isItem

/-- What holds of the blank record, and what every field and every kept member preserves, holds of
every record that is read. -/
theorem holds_of_read
    (holds : ρ → Prop)
    (blank : holds schema.blank)
    (fields : ∀ field ∈ schema.fields, ∀ node : Node, node.InRange → ∀ change,
      field.read levels node = .ok change → ∀ record, holds record → holds (change record))
    (others : ∀ get put, schema.others = .kept get put → ∀ key value record,
      schema.field? key = none → Json.Opaque levels value → holds record →
      holds (put ((get record).insert key value) record))
    {result : ρ}
    (inRange : node.InRange)
    (read : schema.read Json.format (levels + 1) node = .ok result) :
    holds result := by
  refine holds_of_read_parts holds blank ?_ ?_ read
  · intro field isField part isPart
    exact fields field isField part (inRange_of_mem_parts inRange isPart)
  · intro get put isKept key part isMember unknown value readValue record
    have fits := Json.fits_of_value (inRange_of_mem_parts inRange (mem_parts_of_mem_members isMember))
      readValue
    exact others get put isKept key value.normal record unknown
      ⟨fits.normal, Json.normal_normal value⟩

/-- What holds of the blank record, and what every field that is written preserves, holds of the
record that is read from the document of one without other members, also after a change of its
strings that leaves the names of fields alone. -/
theorem holds_of_read_said
    (holds : ρ → Prop)
    (blank : holds schema.blank)
    {said : String → String}
    {source : ρ}
    (noOthers : schema.writtenOthers source = [])
    (names : (schema.fields.map Field.name).Nodup)
    (fixed : ∀ field ∈ schema.fields, said field.name = field.name)
    (fields : ∀ field ∈ schema.fields, ∀ document, field.write source = some document →
      ∀ change, field.read levels (Json.saidNode said document) = .ok change →
      ∀ record, holds record → holds (change record))
    {result : ρ}
    (read : schema.read Json.format (levels + 1) (Json.saidNode said (schema.write source)) =
      .ok result) :
    holds result := by
  rw [Schema.write, noOthers, List.append_nil, Json.saidNode_object] at read
  simp only [Schema.read, enter, pure_eq_ok, ok_bind, Json.format] at read
  refine readKeyed_preserves holds blank ?_ read
  intro member isMember key isKey earlier after readMember start
  simp only [Node.memberContents, List.map_map, List.mem_map] at isMember
  obtain ⟨entry, isEntry, rfl⟩ := isMember
  obtain ⟨field, isField, written⟩ := List.mem_filterMap.mp isEntry
  obtain ⟨document, isDocument, rfl⟩ := Option.map_eq_some_iff.mp written
  have isName : said field.name = key := Except.ok.inj isKey
  rw [fixed field isField] at isName
  have found : schema.field? key = some field := by
    rw [← isName]
    exact field?_name names isField
  rcases readMember_cases readMember with
    ⟨other, change, isOther, -, readField, rfl⟩ | ⟨unknown, -⟩ | ⟨get, put, value, unknown, -⟩
  · rw [found] at isOther
    cases isOther
    exact fields field isField document isDocument change readField _ start
  · rw [found] at unknown
    cases unknown
  · rw [found] at unknown
    cases unknown

end Schema

end Document

end RunManifest
