import RunManifest.Proofs.Document.Reading
import RunManifest.Proofs.Instant
import RunManifest.Run.Metadata

/-!
Contract: reading a written document gives back what was written, also after a change of its texts.

Owns:
- `Tame`, the changes of texts for which this holds;
- `Restores`, the law for one kind of part, with its instances for flags, instants, dictionaries
  of texts and lists;
- `Rebuilds`, a walk along the fields of a record that rebuilds it from what is written for each
  field, with one step for each kind of field;
- `Schema.restores_of_rebuilds`, the law for records whose fields rebuild them.
-/

set_option autoImplicit false

namespace RunManifest.Document

open Json (Node)

/-- A change of texts that leaves the empty text and the texts of instants as they are. -/
structure Tame (onText : String → String) : Prop where
  empty : onText "" = ""
  instant : ∀ instant : Instant, onText instant.text = instant.text

variable {α ρ : Type} {onText : String → String} {levels : Nat}

/-! ## Parts -/

/-- What is written for a value fits, and is read, after a change of its texts, as the value so
changed. -/
structure Restores
    (onText : String → String)
    (levels : Nat)
    (read : Nat → Node → Except Problem α)
    (write : α → Json)
    (value changed : α) : Prop where
  fits : (write value).Fits levels
  reads : (write value).Recovered → read levels ((write value).retold onText) = .ok changed

theorem restores_flag (value : Bool) :
    Restores onText levels (fun _ => Json.format.flag) Json.flag value value :=
  ⟨.flag _ _, fun _ => rfl⟩

theorem restores_instant (tame : Tame onText) (instant : Instant) :
    Restores onText levels (readInstant Json.format) ObjectMeta.writeInstant instant instant := by
  refine ⟨.text _ _, fun _ => ?_⟩
  have isText : Json.format.text .time (.text (.ok instant.text)) = .ok instant.text := rfl
  simp only [readInstant, ObjectMeta.writeInstant, Json.retold_text, tame.instant, isText, ok_bind,
    Instant.read_text]
  rfl

theorem restores_texts (texts : Dictionary String) :
    Restores onText (levels + 1) (readTexts Json.format) ObjectMeta.writeTexts texts
      (texts.map onText) := by
  have fits : (ObjectMeta.writeTexts texts).Fits (levels + 1) := by
    refine .object fun member isMember => ?_
    obtain ⟨entry, -, rfl⟩ := List.mem_map.mp isMember
    exact .text _ _
  refine ⟨fits, fun _ => ?_⟩
  have mapping :
      Json.format.mapping ((ObjectMeta.writeTexts texts).retold onText) =
        .ok ⟨(texts.map onText).entries.map fun entry => (.ok entry.1, .text (.ok entry.2)),
          .ok ()⟩ := by
    simp [ObjectMeta.writeTexts, Json.format, Json.Node.memberContents, Json.Node.legible,
      Json.Node.ended, Function.comp_def]
  have entries :
      ((texts.map onText).entries.map fun entry =>
          ((.ok entry.1 : Except Problem String), Node.text (.ok entry.2))).mapM
        (fun member => do
          let key ← member.1
          let value ← Json.format.text .text member.2
          .ok (key, value)) =
        .ok (texts.map onText).entries := by
    rw [List.mapM_map]
    exact (mapM_eq_ok_map fun entry _ => rfl).trans (by simp)
  rw [readTexts, mapping]
  simp only [ok_bind, enter, pure_eq_ok, entries, settled_eq_self, Dictionary.ofList_entries]

theorem restores_list
    {read : Nat → Node → Except Problem α}
    {write : α → Json}
    {change : α → α}
    {values : List α}
    (restores : ∀ value ∈ values, Restores onText levels read write value (change value)) :
    Restores onText (levels + 1) (readList Json.format read) (fun values => .array (values.map write))
      values (values.map change) := by
  have fits : (Json.array (values.map write)).Fits (levels + 1) := by
    refine .array fun item isItem => ?_
    obtain ⟨value, member, rfl⟩ := List.mem_map.mp isItem
    exact (restores value member).fits
  refine ⟨fits, fun recovered => ?_⟩
  have sequence :
      Json.format.sequence ((Json.array (values.map write)).retold onText) =
        .ok (Node.contents (values.map fun value => (write value).retold onText) none) := by
    simp [Json.format, Function.comp_def]
  have items :
      (values.map fun value => (write value).retold onText).mapM (read levels) =
        .ok (values.map change) := by
    rw [List.mapM_map]
    refine mapM_eq_ok_map fun value member =>
      (restores value member).reads fun x occurs => recovered x ?_
    simp only [Json.floats, Json.itemFloats_eq_flatMap, List.mem_flatMap, List.mem_map]
    exact ⟨write value, ⟨value, member, rfl⟩, occurs⟩
  rw [readList, sequence]
  simp only [ok_bind, enter, pure_eq_ok, Node.contents, items, settled_eq_self, Node.ended]

/-! ## Fields -/

/-- A walk along fields, from a record to one with the parts of another. What is written for a field
is read as a change of the record on the way; where nothing is written, that change does nothing and
the field is not required. -/
inductive Rebuilds (onText : String → String) (levels : Nat) (source : ρ) :
    ρ → List (Field (Except Problem) Node ρ) → ρ → Prop where
  | done {record : ρ} : Rebuilds onText levels source record [] record
  | step
      {record final : ρ}
      {field : Field (Except Problem) Node ρ}
      {fields : List (Field (Except Problem) Node ρ)}
      (change : ρ → ρ)
      (written : ∀ value, field.write source = some value → value.Fits levels ∧
        (value.Recovered → field.read levels (value.retold onText) = .ok change))
      (omitted : field.write source = none → field.required = false ∧ change record = record)
      (rest : Rebuilds onText levels source (change record) fields final) :
      Rebuilds onText levels source record (field :: fields) final

namespace Rebuilds

variable
  {source record final : ρ}
  {fields : List (Field (Except Problem) Node ρ)}
  {name : String}

theorem text
    {get : ρ → String}
    {set : String → ρ → ρ}
    (tame : Tame onText)
    (fresh : set "" record = record)
    (rest : Rebuilds onText levels source (set (onText (get source)) record) fields final) :
    Rebuilds onText levels source record (Field.text Json.format name get set :: fields) final := by
  refine .step _ ?_ ?_ rest
  · intro value written
    simp only [Field.text, Option.ite_none_left_eq_some] at written
    rw [← Option.some.inj written.2]
    exact ⟨.text _ _, fun _ => rfl⟩
  · intro omitted
    have isEmpty : get source = "" := by simpa [Field.text] using omitted
    exact ⟨rfl, by rw [isEmpty, tame.empty, fresh]⟩

theorem writtenText
    {required : Bool}
    {get : ρ → String}
    {set : String → ρ → ρ}
    (rest : Rebuilds onText levels source (set (onText (get source)) record) fields final) :
    Rebuilds onText levels source record
      (Field.writtenText Json.format name required get set :: fields) final := by
  refine .step _ ?_ ?_ rest
  · intro value written
    rw [← Option.some.inj written]
    exact ⟨.text _ _, fun _ => rfl⟩
  · intro omitted
    cases omitted

theorem optional
    {readPart : Nat → Node → Except Problem α}
    {writePart : α → Json}
    {change : α → α}
    {get : ρ → Option α}
    {set : Option α → ρ → ρ}
    {changed : Option α}
    (restores : ∀ value, get source = some value →
      Restores onText levels readPart writePart value (change value))
    (present : ∀ value, ((writePart value).retold onText).isNull = false)
    (fresh : set none record = record)
    (isChanged : (get source).map change = changed)
    (rest : Rebuilds onText levels source (set changed record) fields final) :
    Rebuilds onText levels source record
      (Field.optional Json.format name readPart writePart get set :: fields) final := by
  refine .step _ ?_ ?_ rest
  · intro document written
    simp only [Field.optional, Option.map_eq_some_iff] at written
    obtain ⟨value, isValue, rfl⟩ := written
    refine ⟨(restores value isValue).fits, fun recovered => ?_⟩
    have isAbsent : Json.format.isAbsent ((writePart value).retold onText) = .ok false :=
      congrArg _ (present value)
    simp only [Field.optional, readOptional, isAbsent, ok_bind,
      (restores value isValue).reads recovered, ← isChanged, isValue]
    rfl
  · intro omitted
    have isNone : get source = none := by simpa [Field.optional] using omitted
    exact ⟨rfl, by rw [← isChanged, isNone, Option.map_none, fresh]⟩

theorem list
    {readPart : Nat → Node → Except Problem α}
    {writePart : α → Json}
    {change : α → α}
    {get : ρ → List α}
    {set : List α → ρ → ρ}
    (restores : ∀ value ∈ get source,
      Restores onText levels readPart writePart value (change value))
    (fresh : set [] record = record)
    (rest : Rebuilds onText (levels + 1) source (set ((get source).map change) record) fields
      final) :
    Rebuilds onText (levels + 1) source record
      (Field.list Json.format name readPart writePart get set :: fields) final := by
  refine .step _ ?_ ?_ rest
  · intro document written
    simp only [Field.list, Option.ite_none_left_eq_some] at written
    rw [← Option.some.inj written.2]
    have restoresAll := restores_list restores
    refine ⟨restoresAll.fits, fun recovered => ?_⟩
    simp only [Field.list]
    rw [restoresAll.reads recovered]
    rfl
  · intro omitted
    have isEmpty : get source = [] := by simpa [Field.list] using omitted
    exact ⟨rfl, by rw [isEmpty, List.map_nil, fresh]⟩

theorem part
    {required : Bool}
    {readPart : Nat → Node → Except Problem α}
    {writePart : α → Json}
    {isEmpty : α → Bool}
    {changed : α}
    {get : ρ → α}
    {set : α → ρ → ρ}
    (restores : Restores onText levels readPart writePart (get source) changed)
    (fresh : isEmpty (get source) = true → required = false ∧ set changed record = record)
    (rest : Rebuilds onText levels source (set changed record) fields final) :
    Rebuilds onText levels source record
      (Field.part name required readPart writePart isEmpty get set :: fields) final := by
  refine .step _ ?_ ?_ rest
  · intro document written
    simp only [Field.part, Option.ite_none_left_eq_some] at written
    rw [← Option.some.inj written.2]
    refine ⟨restores.fits, fun recovered => ?_⟩
    simp only [Field.part, restores.reads recovered]
    rfl
  · intro omitted
    exact fresh (by simpa [Field.part] using omitted)

end Rebuilds

/-! ## Records -/

namespace Schema

variable {schema : Schema (Except Problem) Node ρ}

/-- A member as it is read. -/
def entryOf (onText : String → String) (member : String × Json) : Except Problem String × Node :=
  (.ok member.1, member.2.retold onText)

/-- Reading what is written for fields goes along the walk that rebuilds the record, and leaves the
members behind them to be read. -/
theorem readMembers_of_rebuilds
    {source record final : ρ}
    {fields : List (Field (Except Problem) Node ρ)}
    (rebuilds : Rebuilds onText levels source record fields final)
    (known : ∀ field ∈ fields, schema.field? field.name = some field)
    (names : (fields.map Field.name).Nodup)
    (recovered : ∀ field ∈ fields, ∀ value, field.write source = some value → value.Recovered)
    {seen : List String}
    (unseen : ∀ field ∈ fields, field.name ∉ seen)
    (later : List (Except Problem String × Node)) :
    ∃ after, seen ⊆ after ∧ (∀ field ∈ fields, field.required → field.name ∈ after) ∧
      schema.readMembers Json.format levels ⟨seen, record⟩
        ((fields.filterMap fun field =>
          (field.write source).map fun value => (field.name, value)).map (entryOf onText) ++ later) =
      schema.readMembers Json.format levels ⟨after, final⟩ later := by
  -- Along the walk the names of the fields that were written have been seen, and no later field has
  -- one of them, so no member is read twice.
  induction rebuilds generalizing seen with
  | done => exact ⟨seen, List.Subset.refl _, by simp, by simp⟩
  | @step record final field fields change written omitted _ inductionHypothesis =>
      rw [List.map_cons, List.nodup_cons] at names
      have knownRest : ∀ other ∈ fields, schema.field? other.name = some other :=
        fun other member => known other (by simp [member])
      have recoveredRest :
          ∀ other ∈ fields, ∀ value, other.write source = some value → value.Recovered :=
        fun other member => recovered other (by simp [member])
      cases document : field.write source with
      | none =>
          obtain ⟨optional, unchanged⟩ := omitted document
          rw [unchanged] at inductionHypothesis
          have unseenRest : ∀ other ∈ fields, other.name ∉ seen :=
            fun other member => unseen other (by simp [member])
          obtain ⟨after, larger, required, same⟩ :=
            inductionHypothesis knownRest names.2 recoveredRest unseenRest
          refine ⟨after, larger, ?_, ?_⟩
          · intro other member isRequired
            rcases List.mem_cons.mp member with rfl | there
            · rw [optional] at isRequired
              cases isRequired
            · exact required other there isRequired
          · rw [List.filterMap_cons_none (by rw [document]; rfl)]
            exact same
      | some value =>
          have read := (written value document).2 (recovered field (by simp) value document)
          have unseenRest : ∀ other ∈ fields, other.name ∉ field.name :: seen := by
            intro other member
            rw [List.mem_cons, not_or]
            refine ⟨?_, unseen other (by simp [member])⟩
            intro sameName
            exact names.1 (sameName ▸ List.mem_map_of_mem member)
          obtain ⟨after, larger, required, same⟩ :=
            inductionHypothesis knownRest names.2 recoveredRest unseenRest
          refine ⟨after, fun name member => larger (by simp [member]), ?_, ?_⟩
          · intro other member isRequired
            rcases List.mem_cons.mp member with rfl | there
            · exact larger (by simp)
            · exact required other there isRequired
          · rw [List.filterMap_cons_some (by rw [document]; rfl)]
            have notSeen : seen.contains field.name = false := by
              simpa using unseen field (by simp)
            simp only [List.map_cons, List.cons_append, entryOf, readMembers, ok_bind, readMember,
              known field (by simp), notSeen, read, pure_eq_ok]
            exact same

/-- How a record gives the members that it keeps, and takes others. -/
structure Keeping (get : ρ → Dictionary Json) (put : Dictionary Json → ρ → ρ) : Prop where
  get_put : ∀ extra record, get (put extra record) = extra
  put_put : ∀ extra earlier record, put extra (put earlier record) = put extra record
  put_get : ∀ record, put (get record) record = record

/-- Members that a record keeps are read into it. -/
theorem readMembers_kept
    {get : ρ → Dictionary Json}
    {put : Dictionary Json → ρ → ρ}
    (isKept : schema.others = .kept get put)
    (keeping : Keeping get put)
    {entries : List (String × Json)}
    (unknown : ∀ entry ∈ entries, schema.field? entry.1 = none ∧ Json.Opaque levels entry.2)
    (recovered : ∀ entry ∈ entries, entry.2.Recovered)
    (seen : List String)
    (record : ρ) :
    schema.readMembers Json.format levels ⟨seen, record⟩ (entries.map (entryOf onText)) =
      .ok ⟨seen, put ((entries.map fun entry => (entry.1, entry.2.mapTexts onText)).foldl
        (fun dictionary entry => dictionary.insert entry.1 entry.2) (get record)) record⟩ := by
  induction entries generalizing record with
  | nil => simp [readMembers, keeping.put_get]
  | cons entry rest inductionHypothesis =>
      obtain ⟨isUnknown, isOpaque⟩ := unknown entry (by simp)
      have value : Json.format.value levels (entry.2.retold onText) =
          .ok (entry.2.mapTexts onText) :=
        Json.value_retold isOpaque.fits (recovered entry (by simp)) onText
      have normal : (entry.2.mapTexts onText).normal = entry.2.mapTexts onText := by
        rw [Json.normal_mapTexts, isOpaque.normal]
      simp only [List.map_cons, entryOf, readMembers, ok_bind, readMember, isUnknown, isKept, value,
        normal, pure_eq_ok]
      rw [inductionHypothesis (fun other member => unknown other (by simp [member]))
        fun other member => recovered other (by simp [member])]
      simp only [List.foldl_cons, keeping.get_put, keeping.put_put]

/-- The written form of a record is read by key. -/
theorem read_write
    (source : ρ) :
    schema.read Json.format (levels + 1) ((schema.write source).retold onText) =
      schema.readKeyed Json.format levels
        ⟨(schema.writtenFields source).map (entryOf onText)
          ++ (schema.writtenOthers source).map (entryOf onText), .ok ()⟩ := by
  have record : Json.format.record (!schema.others.areKept) schema.name
      ((schema.write source).retold onText) =
        .ok (.keyed ⟨(schema.writtenFields source ++ schema.writtenOthers source).map
          (entryOf onText), .ok ()⟩) := by
    rw [Schema.write, Json.retold_object]
    simp only [Json.format, Json.Node.memberContents, List.map_map]
    rfl
  rw [Schema.read, record, ← List.map_append]
  rfl

theorem missing?_eq_none
    {m : Type → Type}
    {ν : Type}
    {schema : Schema m ν ρ}
    {seen : List String}
    (required : ∀ field ∈ schema.fields, field.required → field.name ∈ seen) :
    schema.missing? seen = none := by
  simp only [missing?, Option.map_eq_none_iff, List.find?_eq_none, Bool.and_eq_true,
    Bool.not_eq_true', List.contains_eq_mem, decide_eq_false_iff_not, not_and, not_not]
  exact required

/-- What is written along a walk fits. -/
theorem fits_of_rebuilds
    {source record final : ρ}
    {fields : List (Field (Except Problem) Node ρ)}
    (rebuilds : Rebuilds onText levels source record fields final) :
    ∀ field ∈ fields, ∀ value, field.write source = some value → value.Fits levels := by
  induction rebuilds with
  | done => simp
  | step change written _ _ inductionHypothesis =>
      rw [List.forall_mem_cons]
      exact ⟨fun value document => (written value document).1, inductionHypothesis⟩

/-- A record whose fields rebuild it is given back. -/
theorem restores_of_rebuilds
    {source final changed : ρ}
    (names : (schema.fields.map Field.name).Nodup)
    (rebuilds : Rebuilds onText levels source schema.blank schema.fields final)
    (othersFit : ∀ entry ∈ schema.writtenOthers source, entry.2.Fits levels)
    (others : ∀ seen, ((∀ entry ∈ schema.writtenOthers source, entry.2.Recovered) →
      schema.readMembers Json.format levels ⟨seen, final⟩
        ((schema.writtenOthers source).map (entryOf onText)) = .ok ⟨seen, changed⟩)) :
    Restores onText (levels + 1) (schema.read Json.format) schema.write source changed := by
  have fits : (schema.write source).Fits (levels + 1) := by
    refine .object fun member isMember => ?_
    rcases List.mem_append.mp isMember with ofField | ofOthers
    · obtain ⟨field, isField, written⟩ := List.mem_filterMap.mp ofField
      obtain ⟨value, document, rfl⟩ := Option.map_eq_some_iff.mp written
      exact fits_of_rebuilds rebuilds field isField value document
    · exact othersFit member ofOthers
  refine ⟨fits, fun recovered => ?_⟩
  simp only [Json.Recovered, Schema.write, Json.floats, Json.memberFloats_eq_flatMap,
    List.flatMap_append, List.mem_append, List.mem_flatMap] at recovered
  have recoveredFields : ∀ field ∈ schema.fields, ∀ value, field.write source = some value →
      value.Recovered := by
    intro field member value written x occurs
    refine recovered x (.inl ⟨(field.name, value), ?_, occurs⟩)
    exact List.mem_filterMap.mpr ⟨field, member, by rw [written]; rfl⟩
  have recoveredOthers : ∀ entry ∈ schema.writtenOthers source, entry.2.Recovered :=
    fun entry member x occurs => recovered x (.inr ⟨entry, member, occurs⟩)
  obtain ⟨after, -, required, same⟩ := readMembers_of_rebuilds rebuilds
    (fun field member => field?_name names member) names recoveredFields
    (fun field _ => List.not_mem_nil) ((schema.writtenOthers source).map (entryOf onText))
  rw [read_write, readKeyed, writtenFields, same, others after recoveredOthers]
  simp only [ok_bind, settled_eq_self, missing?_eq_none required, pure_eq_ok]

/-- A record that drops other members is given back. -/
theorem restores_dropped
    {source final : ρ}
    (isDropped : schema.others = .dropped)
    (names : (schema.fields.map Field.name).Nodup)
    (rebuilds : Rebuilds onText levels source schema.blank schema.fields final) :
    Restores onText (levels + 1) (schema.read Json.format) schema.write source final := by
  have noOthers : schema.writtenOthers source = [] := by rw [writtenOthers, isDropped]
  refine restores_of_rebuilds names rebuilds (by simp [noOthers]) fun seen _ => ?_
  rw [noOthers]
  rfl

/-- A record that keeps other members is given back with them. -/
theorem restores_kept
    {get : ρ → Dictionary Json}
    {put : Dictionary Json → ρ → ρ}
    {source final changed : ρ}
    (isKept : schema.others = .kept get put)
    (keeping : Keeping get put)
    (names : (schema.fields.map Field.name).Nodup)
    (rebuilds : Rebuilds onText levels source schema.blank schema.fields final)
    (fresh : get final = .empty)
    (unknown : schema.Keeps levels (get source))
    (isChanged : put ((get source).map (Json.mapTexts onText)) final = changed) :
    Restores onText (levels + 1) (schema.read Json.format) schema.write source changed := by
  have areOthers : schema.writtenOthers source = (get source).entries := by
    rw [writtenOthers, isKept]
  refine restores_of_rebuilds names rebuilds ?_ fun seen recovered => ?_
  · rw [areOthers]
    exact fun entry member => (unknown entry member).2.fits
  · rw [areOthers] at recovered ⊢
    rw [readMembers_kept isKept keeping unknown recovered, fresh, ← Dictionary.entries_map,
      ← Dictionary.ofList, Dictionary.ofList_entries, isChanged]

end Schema

end RunManifest.Document
