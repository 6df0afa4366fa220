import RunManifest.Proofs.Document.Reading
import RunManifest.Proofs.Text.Utf8

/-!
Contract: the order of members in written documents.

Owns:
- `Json.Ordered`, values in which the members of every object stand in the order of the UTF-8 bytes
  of their keys;
- `Arrangement`, the known members of the records in a document, and `Arranged`, documents in which
  they stand in their order, followed by the members that a record keeps;
- `Schema.arranged_write`, the law for records, and its cases for the kinds of fields.
-/

set_option autoImplicit false

namespace RunManifest

namespace Json

/-- Keys in strictly increasing order of their UTF-8 bytes. -/
def Ascending (members : List (String × Json)) : Prop :=
  members.Pairwise fun earlier later => Text.bytes earlier.1 < Text.bytes later.1

private theorem ascending_of_sorted
    {members : List (String × Json)}
    (sorted : Entries.Sorted members) :
    Ascending members :=
  List.Pairwise.imp Text.bytes_lt_bytes sorted

/-- A value in which the members of every object are ascending, at any depth. -/
inductive Ordered : Json → Prop where
  | null : Ordered .null
  | flag (value : Bool) : Ordered (.flag value)
  | number (value : Number) : Ordered (.number value)
  | text (value : String) : Ordered (.text value)
  | array {items : List Json} (each : ∀ item ∈ items, Ordered item) : Ordered (.array items)
  | object
      {members : List (String × Json)}
      (ascending : Ascending members)
      (each : ∀ member ∈ members, Ordered member.2) :
      Ordered (.object members)

private theorem ordered_normal (value : Json) : Ordered value.normal := by
  induction value using treeInduction with
  | null => exact .null
  | flag value => exact .flag value
  | number value => exact .number value
  | text value => exact .text value
  | array items inductionHypothesis =>
      rw [normal, normalItems_eq_map]
      exact .array (List.forall_mem_map.mpr inductionHypothesis)
  | object members inductionHypothesis =>
      rw [normal]
      refine .object (ascending_of_sorted (sorted_insertNormal members [] .nil)) ?_
      exact forall_mem_insertNormal Ordered members [] inductionHypothesis (by simp)

theorem Opaque.ordered {levels : Nat} {value : Json} (isOpaque : Opaque levels value) :
    Ordered value := by
  rw [← isOpaque.normal]
  exact ordered_normal value

end Json

namespace Document

open Json (Node Ordered Ascending)

variable {α ρ : Type}

/-- The known members of the records in a document, in order. -/
inductive Arrangement where
  /-- No records. -/
  | whole
  /-- A list. -/
  | list (item : Arrangement)
  /-- A record with these members, which may keep others. -/
  | record (fields : List (String × Arrangement))

/-- Documents with their members in order: those that a record knows in the order of its fields,
then those that it keeps, and all others, in the order of the bytes of their keys. -/
inductive Arranged : Arrangement → Json → Prop where
  | whole {value : Json} (ordered : Ordered value) : Arranged .whole value
  | list
      {arrangement : Arrangement}
      {items : List Json}
      (each : ∀ item ∈ items, Arranged arrangement item) :
      Arranged (.list arrangement) (.array items)
  | record
      {fields : List (String × Arrangement)}
      {known others : List (String × Json)}
      (inOrder : (known.map Prod.fst).Sublist (fields.map Prod.fst))
      (parts : ∀ name arrangement value, (name, arrangement) ∈ fields → (name, value) ∈ known →
        Arranged arrangement value)
      (unknown : ∀ member ∈ others, member.1 ∉ fields.map Prod.fst)
      (ascending : Ascending others)
      (each : ∀ member ∈ others, Ordered member.2) :
      Arranged (.record fields) (.object (known ++ others))

/-- The document of a dictionary of texts is arranged. -/
theorem arranged_texts (texts : Dictionary String) :
    Arranged .whole (.object (texts.map Json.text).entries) := by
  refine .whole (.object (Json.ascending_of_sorted (texts.map Json.text).sorted) ?_)
  exact List.forall_mem_map.mpr fun entry _ => .text entry.2

/-- What a field writes is arranged. -/
structure Field.Arranges
    (field : Field (Except Problem) Node ρ)
    (entry : String × Arrangement)
    (record : ρ) : Prop where
  name : entry.1 = field.name
  written : ∀ value, field.write record = some value → Arranged entry.2 value

section Fields

variable {record : ρ} {name : String} {arrangement : Arrangement}

theorem Field.arranges_text {get : ρ → String} {set : String → ρ → ρ} :
    (Field.text Json.format name get set).Arranges (name, .whole) record where
  name := rfl
  written value written := by
    simp only [Field.text, Option.ite_none_left_eq_some, Option.some.injEq] at written
    rw [← written.2]
    exact .whole (.text _)

theorem Field.arranges_writtenText {required : Bool} {get : ρ → String} {set : String → ρ → ρ} :
    (Field.writtenText Json.format name required get set).Arranges (name, .whole) record where
  name := rfl
  written value written := by
    cases written
    exact .whole (.text _)

theorem Field.arranges_optional
    {readPart : Nat → Node → Except Problem α}
    {writePart : α → Json}
    {get : ρ → Option α}
    {set : Option α → ρ → ρ}
    (part : ∀ value, get record = some value → Arranged arrangement (writePart value)) :
    (Field.optional Json.format name readPart writePart get set).Arranges (name, arrangement)
      record where
  name := rfl
  written document written := by
    obtain ⟨value, isValue, rfl⟩ := Option.map_eq_some_iff.mp written
    exact part value isValue

theorem Field.arranges_list
    {readPart : Nat → Node → Except Problem α}
    {writePart : α → Json}
    {get : ρ → List α}
    {set : List α → ρ → ρ}
    (part : ∀ value ∈ get record, Arranged arrangement (writePart value)) :
    (Field.list Json.format name readPart writePart get set).Arranges (name, .list arrangement)
      record where
  name := rfl
  written document written := by
    simp only [Field.list, Option.ite_none_left_eq_some, Option.some.injEq] at written
    rw [← written.2]
    exact .list (List.forall_mem_map.mpr part)

theorem Field.arranges_part
    {required : Bool}
    {readPart : Nat → Node → Except Problem α}
    {writePart : α → Json}
    {isEmpty : α → Bool}
    {get : ρ → α}
    {set : α → ρ → ρ}
    (part : Arranged arrangement (writePart (get record))) :
    (Field.part name required readPart writePart isEmpty get set).Arranges (name, arrangement)
      record where
  name := rfl
  written document written := by
    simp only [Field.part, Option.ite_none_left_eq_some, Option.some.injEq] at written
    rw [← written.2]
    exact part

end Fields

variable {schema : Schema (Except Problem) Node ρ}

private theorem names_of_arranges
    {fields : List (Field (Except Problem) Node ρ)}
    {entries : List (String × Arrangement)}
    {record : ρ}
    (arranges : List.Forall₂ (fun field entry => field.Arranges entry record) fields entries) :
    entries.map Prod.fst = fields.map Field.name := by
  induction arranges with
  | nil => rfl
  | cons arrangesField _ inductionHypothesis =>
      rw [List.map_cons, List.map_cons, arrangesField.name, inductionHypothesis]

/-- What is written for fields stands in their order. -/
theorem sublist_written (fields : List (Field (Except Problem) Node ρ)) (record : ρ) :
    ((fields.filterMap fun field =>
      (field.write record).map fun value => (field.name, value)).map Prod.fst).Sublist
        (fields.map Field.name) := by
  induction fields with
  | nil => exact .slnil
  | cons field fields inductionHypothesis =>
      cases written : field.write record with
      | none =>
          rw [List.filterMap_cons_none (by rw [written]; rfl)]
          exact inductionHypothesis.cons field.name
      | some value =>
          rw [List.filterMap_cons_some (by rw [written]; rfl), List.map_cons]
          exact inductionHypothesis.cons_cons field.name

/-- What is written for fields is arranged as the fields are. -/
theorem arranged_of_mem_written
    {fields : List (Field (Except Problem) Node ρ)}
    {entries : List (String × Arrangement)}
    {record : ρ}
    (arranges : List.Forall₂ (fun field entry => field.Arranges entry record) fields entries)
    (names : (entries.map Prod.fst).Nodup)
    {name : String}
    {arrangement : Arrangement}
    {value : Json}
    (isEntry : (name, arrangement) ∈ entries)
    (isWritten : (name, value) ∈ fields.filterMap fun field =>
      (field.write record).map fun value => (field.name, value)) :
    Arranged arrangement value := by
  obtain ⟨field, isField, isMember⟩ := List.mem_filterMap.mp isWritten
  obtain ⟨document, written, same⟩ := Option.map_eq_some_iff.mp isMember
  obtain ⟨rfl, rfl⟩ := Prod.mk.inj same
  obtain ⟨index, isIndex, rfl⟩ := List.getElem_of_mem isField
  have inEntries : index < entries.length := arranges.length_eq ▸ isIndex
  have arrangesField := arranges.get isIndex inEntries
  have sameEntry : entries[index] = (fields[index].name, arrangement) := by
    refine List.inj_on_of_nodup_map names (List.getElem_mem inEntries) isEntry ?_
    exact arrangesField.name
  have arranged := arrangesField.written document written
  rw [List.get_eq_getElem, sameEntry] at arranged
  exact arranged

/-- The document of a record is arranged if its fields and the members it keeps are. -/
theorem Schema.arranged_write
    {entries : List (String × Arrangement)}
    {record : ρ}
    (arranges : List.Forall₂ (fun field entry => field.Arranges entry record) schema.fields entries)
    (names : (entries.map Prod.fst).Nodup)
    (others : ∀ get put, schema.others = .kept get put → ∃ levels, schema.Keeps levels (get record)) :
    Arranged (.record entries) (schema.write record) := by
  have sameNames := names_of_arranges arranges
  have inOrder := sublist_written schema.fields record
  rw [← sameNames] at inOrder
  refine .record inOrder (fun name arrangement value => arranged_of_mem_written arranges names)
    ?_ ?_ ?_
  all_goals unfold Schema.writtenOthers
  · intro member isMember isKnown
    rw [sameNames] at isKnown
    split at isMember
    · cases isMember
    · rename_i get put isKept
      obtain ⟨levels, keeps⟩ := others get put isKept
      obtain ⟨unknown, -⟩ := keeps member isMember
      obtain ⟨field, isField, isName⟩ := List.mem_map.mp isKnown
      have differs := List.find?_eq_none.mp unknown field isField
      simp [isName] at differs
  · split
    · exact .nil
    · rename_i get put isKept
      exact Json.ascending_of_sorted (get record).sorted
  · intro member isMember
    split at isMember
    · cases isMember
    · rename_i get put isKept
      obtain ⟨levels, keeps⟩ := others get put isKept
      exact (keeps member isMember).2.ordered

end Document

end RunManifest
