import RunManifest.Proofs.Json.Replace
import RunManifest.Proofs.Run.Basic

/-!
Contract: documents all of whose keys are allowed and all of whose numbers are recovered.

Owns:
- `Json.Clean`, such documents, and `Dictionary.Clean`, such members of a record;
- `PipelineRunSpec.Clean`, the same for a specification, which depends on the keys of its maps and on
  the members it keeps, and is not touched by a change of texts;
- `PipelineRun.clean_toJson`, the document of a run is clean if its parts are.
-/

set_option autoImplicit false

namespace RunManifest

open Document

variable {allowed : String → Prop}

/-! ## Documents -/

namespace Json

/-- All keys of a document are allowed, and its numbers of double precision are recovered. -/
structure Clean (allowed : String → Prop) (value : Json) : Prop where
  keys : ∀ key ∈ value.keys, allowed key
  recovered : value.Recovered

@[simp] theorem clean_text (value : String) : Clean allowed (.text value) :=
  ⟨by simp, by simp [Recovered]⟩

@[simp] theorem clean_flag (value : Bool) : Clean allowed (.flag value) :=
  ⟨by simp, by simp [Recovered]⟩

private theorem clean_array {items : List Json} :
    Clean allowed (.array items) ↔ ∀ item ∈ items, Clean allowed item := by
  constructor
  · rintro ⟨areAllowed, recovered⟩ item member
    simp only [Recovered, floats, itemFloats_eq_flatMap, keys, itemKeys_eq_flatMap,
      List.mem_flatMap] at areAllowed recovered
    exact ⟨fun key isKey => areAllowed key ⟨item, member, isKey⟩,
      fun x occurs => recovered x ⟨item, member, occurs⟩⟩
  · intro clean
    refine ⟨?_, ?_⟩
    · simp only [keys, itemKeys_eq_flatMap, List.mem_flatMap]
      rintro key ⟨item, member, isKey⟩
      exact (clean item member).keys key isKey
    · simp only [Recovered, floats, itemFloats_eq_flatMap, List.mem_flatMap]
      rintro x ⟨item, member, occurs⟩
      exact (clean item member).recovered x occurs

private theorem clean_object {members : List (String × Json)} :
    Clean allowed (.object members) ↔
      ∀ member ∈ members, allowed member.1 ∧ Clean allowed member.2 := by
  constructor
  · rintro ⟨areAllowed, recovered⟩ member isMember
    simp only [Recovered, floats, memberFloats_eq_flatMap, keys, memberKeys_eq_flatMap,
      List.mem_flatMap] at areAllowed recovered
    exact ⟨areAllowed member.1 ⟨member, isMember, by simp⟩,
      fun key isKey => areAllowed key ⟨member, isMember, by simp [isKey]⟩,
      fun x occurs => recovered x ⟨member, isMember, occurs⟩⟩
  · intro clean
    refine ⟨?_, ?_⟩
    · simp only [keys, memberKeys_eq_flatMap, List.mem_flatMap, List.mem_cons]
      rintro key ⟨member, isMember, rfl | isKey⟩
      · exact (clean member isMember).1
      · exact (clean member isMember).2.keys key isKey
    · simp only [Recovered, floats, memberFloats_eq_flatMap, List.mem_flatMap]
      rintro x ⟨member, isMember, occurs⟩
      exact (clean member isMember).2.recovered x occurs

private theorem clean_mapTexts
    (onText : String → String)
    {value : Json}
    (clean : Clean allowed value) :
    Clean allowed (value.mapTexts onText) :=
  ⟨by simpa using clean.keys, by simpa [Recovered] using clean.recovered⟩

end Json

/-- All members have allowed keys and clean values. -/
def Dictionary.Clean (allowed : String → Prop) (extra : Dictionary Json) : Prop :=
  ∀ entry ∈ extra.entries, allowed entry.1 ∧ Json.Clean allowed entry.2

theorem Dictionary.Clean.mapTexts
    {extra : Dictionary Json}
    (clean : extra.Clean allowed)
    (onText : String → String) :
    (extra.map (Json.mapTexts onText)).Clean allowed := by
  intro entry member
  obtain ⟨source, isSource, rfl⟩ := List.mem_map.mp member
  exact ⟨(clean source isSource).1, Json.clean_mapTexts onText (clean source isSource).2⟩

/-- The document of a record is clean exactly if all it writes is. -/
theorem Document.Schema.clean_write
    {ρ : Type}
    {schema : Schema (Except Problem) Json.Node ρ}
    {source : ρ} :
    Json.Clean allowed (schema.write source) ↔
      (∀ field ∈ schema.fields, ∀ document, field.write source = some document →
        allowed field.name ∧ Json.Clean allowed document) ∧
      ∀ entry ∈ schema.writtenOthers source, allowed entry.1 ∧ Json.Clean allowed entry.2 := by
  rw [Schema.write, Json.clean_object, List.forall_mem_append]
  refine and_congr_left fun _ => ?_
  constructor
  · intro clean field isField document written
    exact clean (field.name, document)
      (List.mem_filterMap.mpr ⟨field, isField, by rw [written]; rfl⟩)
  · intro clean member isMember
    obtain ⟨field, isField, written⟩ := List.mem_filterMap.mp isMember
    obtain ⟨document, isDocument, rfl⟩ := Option.map_eq_some_iff.mp written
    exact clean field isField document isDocument

section Fields

variable {ρ α : Type} {name : String} {source : ρ} {document : Json}

private theorem Json.clean_of_write_text
    {get : ρ → String}
    {set : String → ρ → ρ}
    (written : (Field.text Json.format name get set).write source = some document) :
    Json.Clean allowed document := by
  simp only [Field.text, Option.ite_none_left_eq_some] at written
  rw [← Option.some.inj written.2]
  exact Json.clean_text _

private theorem Json.clean_of_write_optional
    {readPart : Nat → Json.Node → Except Problem α}
    {writePart : α → Json}
    {get : ρ → Option α}
    {set : Option α → ρ → ρ}
    (written : (Field.optional Json.format name readPart writePart get set).write source =
      some document)
    (parts : ∀ part, get source = some part → Json.Clean allowed (writePart part)) :
    Json.Clean allowed document := by
  simp only [Field.optional, Option.map_eq_some_iff] at written
  obtain ⟨part, isPart, rfl⟩ := written
  exact parts part isPart

end Fields

/-! ## Parameters and specifications -/

/-- The keys of a value that is a map are allowed. -/
def ParamValue.Clean (allowed : String → Prop) : ParamValue → Prop
  | .map values => ∀ entry ∈ values.entries, allowed entry.1
  | _ => True

namespace ParamValue

theorem clean_write {value : ParamValue} :
    Json.Clean allowed value.write ↔ value.Clean allowed := by
  cases value with
  | text value => simp [write, Clean]
  | list values => simp [write, Clean, Json.clean_array]
  | map values =>
      simp only [write, Clean, Json.clean_object, Dictionary.entries_map, List.forall_mem_map,
        Json.clean_text, and_true]

theorem Clean.mapTexts
    {value : ParamValue}
    (clean : value.Clean allowed)
    (onText : String → String) :
    (value.mapTexts onText).Clean allowed := by
  cases value with
  | text value => trivial
  | list values => trivial
  | map values =>
      simp only [ParamValue.mapTexts, Clean, Dictionary.entries_map, List.forall_mem_map]
      exact clean

end ParamValue

namespace PipelineRunSpec

/-- The keys of maps among the parameters are allowed, and the members that are kept are clean. -/
structure Clean (allowed : String → Prop) (spec : PipelineRunSpec) : Prop where
  params : ∀ param ∈ spec.params, param.value.Clean allowed
  template : spec.taskRunTemplate.extra.Clean allowed
  extra : spec.extra.Clean allowed

theorem Clean.mapTexts
    {spec : PipelineRunSpec}
    (clean : spec.Clean allowed)
    (onText : String → String) :
    (spec.mapTexts onText).Clean allowed := by
  refine ⟨fun param member => ?_, clean.template.mapTexts onText, clean.extra.mapTexts onText⟩
  obtain ⟨source, isSource, rfl⟩ := List.mem_map.mp member
  exact (clean.params source isSource).mapTexts onText

/-- A specification with a clean document is clean. -/
theorem clean_of_write
    {spec : PipelineRunSpec}
    (clean : Json.Clean allowed ((schema Json.format).write spec)) :
    spec.Clean allowed := by
  obtain ⟨fields, others⟩ := Schema.clean_write.mp clean
  obtain ⟨atParams, atRest⟩ := List.forall_mem_cons.mp fields
  obtain ⟨atTemplate, -⟩ := List.forall_mem_cons.mp atRest
  refine ⟨fun param member => ?_, fun entry member => ?_, others⟩
  · have notEmpty : ¬ spec.params.isEmpty = true := by
      rw [List.isEmpty_iff]
      exact List.ne_nil_of_mem member
    have list := (atParams _ (if_neg notEmpty)).2
    have document := Json.clean_array.mp list _ (List.mem_map_of_mem member)
    obtain ⟨-, atValue⟩ := List.forall_mem_cons.mp (Schema.clean_write.mp document).1
    exact ParamValue.clean_write.mp ((List.forall_mem_cons.mp atValue).1 _ rfl).2
  · have notEmpty : ¬ spec.taskRunTemplate.isEmpty = true := by
      simp only [TaskRunTemplate.isEmpty, Dictionary.isEmpty, Bool.and_eq_true, List.isEmpty_iff]
      exact fun isEmpty => List.ne_nil_of_mem member isEmpty.2
    have template := (atTemplate _ (if_neg notEmpty)).2
    exact (Schema.clean_write.mp template).2 entry member

/-- The document of a clean specification is clean, as the names of fields are allowed. -/
theorem Clean.write
    (names : ∀ name, Json.hasNoStart name = true → allowed name)
    {spec : PipelineRunSpec}
    (clean : spec.Clean allowed) :
    Json.Clean allowed ((schema Json.format).write spec) := by
  have params : ∀ param ∈ spec.params, Json.Clean allowed ((Param.schema Json.format).write param) := by
    intro param member
    refine Schema.clean_write.mpr ⟨fun field isField document written => ?_, by
      simp [Schema.writtenOthers, Param.schema]⟩
    simp only [Param.schema, List.mem_cons, List.not_mem_nil, or_false] at isField
    rcases isField with rfl | rfl
    · cases written
      exact ⟨names _ rfl, Json.clean_text _⟩
    · cases written
      exact ⟨names _ rfl, ParamValue.clean_write.mpr (clean.params param member)⟩
  have template :
      Json.Clean allowed ((TaskRunTemplate.schema Json.format).write spec.taskRunTemplate) := by
    refine Schema.clean_write.mpr ⟨fun field isField document written => ?_, clean.template⟩
    simp only [TaskRunTemplate.schema, List.mem_cons, List.not_mem_nil, or_false] at isField
    cases isField
    exact ⟨names _ rfl, Json.clean_of_write_text written⟩
  refine Schema.clean_write.mpr ⟨fun field isField document written => ?_, clean.extra⟩
  simp only [schema, List.mem_cons, List.not_mem_nil, or_false] at isField
  rcases isField with rfl | rfl
  · simp only [Field.list, Option.ite_none_left_eq_some] at written
    rw [← Option.some.inj written.2, Json.clean_array, List.forall_mem_map]
    exact ⟨names _ rfl, params⟩
  · simp only [Field.part, Option.ite_none_left_eq_some] at written
    rw [← Option.some.inj written.2]
    exact ⟨names _ rfl, template⟩

end PipelineRunSpec

/-! ## Metadata and runs -/

section Names

variable (names : ∀ name, Json.hasNoStart name = true → allowed name)

include names

theorem OwnerReference.clean_write (reference : OwnerReference) :
    Json.Clean allowed ((schema Json.format).write reference) := by
  refine Schema.clean_write.mpr ⟨fun field isField document written => ?_, by
    simp [Schema.writtenOthers, schema]⟩
  simp only [schema, List.mem_cons, List.not_mem_nil, or_false] at isField
  rcases isField with rfl | rfl | rfl | rfl | rfl | rfl
  case inr.inr.inr.inr.inl =>
    exact ⟨names _ rfl, Json.clean_of_write_optional written fun _ _ => Json.clean_flag _⟩
  case inr.inr.inr.inr.inr =>
    exact ⟨names _ rfl, Json.clean_of_write_optional written fun _ _ => Json.clean_flag _⟩
  all_goals
    cases written
    exact ⟨names _ rfl, Json.clean_text _⟩

/-- The document of metadata is clean if the keys of labels and annotations are allowed and the
members that it keeps are clean. -/
theorem ObjectMeta.clean_write
    {metadata : ObjectMeta}
    (labels : ∀ labels, metadata.labels = some labels → ∀ entry ∈ labels.entries, allowed entry.1)
    (annotations : ∀ annotations, metadata.annotations = some annotations →
      ∀ entry ∈ annotations.entries, allowed entry.1)
    (extra : metadata.extra.Clean allowed) :
    Json.Clean allowed ((schema Json.format).write metadata) := by
  have texts : ∀ texts : Dictionary String, (∀ entry ∈ texts.entries, allowed entry.1) →
      Json.Clean allowed (writeTexts texts) := by
    intro texts areAllowed
    simp only [writeTexts, Json.clean_object, Dictionary.entries_map, List.forall_mem_map,
      Json.clean_text, and_true]
    exact areAllowed
  refine Schema.clean_write.mpr ⟨fun field isField document written => ?_, extra⟩
  simp only [schema, List.mem_cons, List.not_mem_nil, or_false] at isField
  rcases isField with rfl | rfl | rfl | rfl | rfl | rfl | rfl | rfl | rfl
  iterate 5 exact ⟨names _ rfl, Json.clean_of_write_text written⟩
  · exact ⟨names _ rfl, Json.clean_of_write_optional written fun _ _ => Json.clean_text _⟩
  · exact ⟨names _ rfl, Json.clean_of_write_optional written
      fun part isPart => texts part (labels part isPart)⟩
  · exact ⟨names _ rfl, Json.clean_of_write_optional written
      fun part isPart => texts part (annotations part isPart)⟩
  · refine ⟨names _ rfl, Json.clean_of_write_optional written fun references _ => ?_⟩
    rw [Json.clean_array, List.forall_mem_map]
    exact fun reference _ => reference.clean_write names

/-- The document of a run without a status is clean if those of its metadata and its specification
are. -/
theorem PipelineRun.clean_toJson
    {run : PipelineRun}
    (metadata : Json.Clean allowed ((ObjectMeta.schema Json.format).write run.metadata))
    (spec : run.spec.Clean allowed)
    (status : run.status = .blank) :
    Json.Clean allowed run.toJson := by
  refine Schema.clean_write.mpr ⟨fun field isField document written => ?_, by
    simp [Schema.writtenOthers, schema]⟩
  simp only [schema, List.mem_cons, List.not_mem_nil, or_false] at isField
  rcases isField with rfl | rfl | rfl | rfl | rfl
  · exact ⟨names _ rfl, Json.clean_of_write_text written⟩
  · exact ⟨names _ rfl, Json.clean_of_write_text written⟩
  · cases written
    exact ⟨names _ rfl, metadata⟩
  · cases written
    exact ⟨names _ rfl, spec.write names⟩
  · simp only [Field.part, status] at written
    cases written

end Names

end RunManifest
