import RunManifest.Proofs.Document.Restore
import RunManifest.Proofs.Run.Separate

/-!
Contract: what a run is asked to do is restored from its documents.

Owns:
- `mapTexts` for parameters, templates and specifications, a change of texts throughout;
- `TaskRunTemplate.Sound` and `PipelineRunSpec.Sound`, what is known because they were read;
- the laws that what was read is sound, and that what is sound is restored.
-/

set_option autoImplicit false

namespace RunManifest

open Document

variable {onText : String → String} {levels : Nat}

/-! ## Parameters -/

namespace ParamValue

/-- The value with its texts changed. Keys of maps stay. -/
def mapTexts (onText : String → String) : ParamValue → ParamValue
  | .text value => .text (onText value)
  | .list values => .list (values.map onText)
  | .map values => .map (values.map onText)

@[simp] theorem mapTexts_id (value : ParamValue) : value.mapTexts id = value := by
  cases value <;> simp [mapTexts]

theorem mapTexts_mapTexts (first second : String → String) (value : ParamValue) :
    (value.mapTexts first).mapTexts second = value.mapTexts (second ∘ first) := by
  cases value <;> simp [mapTexts, Dictionary.map_map]

theorem fits_write (value : ParamValue) : Json.Fits (levels + 1) value.write := by
  cases value with
  | text value => exact .text _ value
  | list values =>
      refine .array fun item member => ?_
      obtain ⟨value, -, rfl⟩ := List.mem_map.mp member
      exact .text _ value
  | map values =>
      refine .object fun member isMember => ?_
      obtain ⟨entry, -, rfl⟩ := List.mem_map.mp isMember
      exact .text _ entry.2

private theorem mapM_text? (values : List String) :
    (values.map Json.text).mapM text? = some values := by
  induction values with
  | nil => rfl
  | cons value rest inductionHypothesis => simp [text?, inductionHypothesis]

theorem mapM_textMember? (entries : List (String × String)) :
    (entries.map fun entry => (entry.1, Json.text entry.2)).mapM textMember? = some entries := by
  induction entries with
  | nil => rfl
  | cons entry rest inductionHypothesis => simp [textMember?, text?, inductionHypothesis]

theorem eq_map_of_mapM_text?
    {items : List Json}
    {values : List String}
    (areTexts : items.mapM text? = some values) :
    items = values.map Json.text := by
  induction items generalizing values with
  | nil =>
      cases areTexts
      rfl
  | cons item rest inductionHypothesis =>
      simp only [List.mapM_cons, Option.bind_eq_bind, Option.bind_eq_some_iff, Option.pure_def,
        Option.some.injEq] at areTexts
      obtain ⟨value, isText, others, areOthers, rfl⟩ := areTexts
      cases item with
      | text text =>
          cases isText
          rw [List.map_cons, inductionHypothesis areOthers]
      | _ => cases isText

theorem eq_map_of_mapM_textMember?
    {members : List (String × Json)}
    {entries : List (String × String)}
    (areTexts : members.mapM textMember? = some entries) :
    members = entries.map fun entry => (entry.1, Json.text entry.2) := by
  induction members generalizing entries with
  | nil =>
      cases areTexts
      rfl
  | cons member rest inductionHypothesis =>
      simp only [List.mapM_cons, Option.bind_eq_bind, Option.bind_eq_some_iff, Option.pure_def,
        Option.some.injEq, textMember?, Option.map_eq_some_iff] at areTexts
      obtain ⟨entry, ⟨value, isText, rfl⟩, others, areOthers, rfl⟩ := areTexts
      obtain ⟨key, item⟩ := member
      cases item with
      | text text =>
          cases isText
          rw [List.map_cons, inductionHypothesis areOthers]
      | _ => cases isText

/-- The document of a value, with its texts changed, describes the value so changed. -/
theorem ofJson?_write (value : ParamValue) :
    ofJson? (value.write.mapTexts onText) = some (value.mapTexts onText) := by
  cases value with
  | text value => rfl
  | list values =>
      have items := mapM_text? (values.map onText)
      simp only [List.map_map] at items
      simp only [write, Json.mapStrings, Json.mapItemStrings_eq_map, ofJson?, List.map_map]
      exact congrArg (Option.map ParamValue.list) items
  | map values =>
      have members := mapM_textMember? (values.map onText).entries
      simp only [Dictionary.entries_map, List.map_map] at members
      simp only [write, Json.mapStrings, Json.mapMemberStrings_eq_map, ofJson?,
        Dictionary.entries_map, List.map_map]
      refine (congrArg (Option.map fun entries => ParamValue.map (.ofList entries)) members).trans ?_
      exact congrArg (fun map => some (ParamValue.map map)) (values.map onText).ofList_entries

theorem restores (value : ParamValue) :
    Restores onText (levels + 1) (ParamValue.read Json.format) write value
      (value.mapTexts onText) := by
  refine ⟨value.fits_write, fun recovered => ?_⟩
  have whole : Json.format.value (levels + 1) (value.write.retold onText) =
      .ok (value.write.mapTexts onText) := Json.value_retold value.fits_write recovered onText
  rw [ParamValue.read, whole, ok_bind, ofJson?_write]
  rfl

end ParamValue

namespace Param

/-- The parameter with its texts changed. -/
def mapTexts (onText : String → String) (param : Param) : Param :=
  ⟨onText param.name, param.value.mapTexts onText⟩

@[simp] theorem mapTexts_id : mapTexts id = id := by
  funext param
  simp [mapTexts]

theorem mapTexts_mapTexts (first second : String → String) (param : Param) :
    (param.mapTexts first).mapTexts second = param.mapTexts (second ∘ first) := by
  simp [mapTexts, ParamValue.mapTexts_mapTexts]

theorem restores (param : Param) :
    Restores onText (levels + 2) ((schema Json.format).read Json.format) (schema Json.format).write
      param (param.mapTexts onText) := by
  refine Schema.restores_dropped rfl (by decide) ?_
  apply Rebuilds.writtenText
  apply Rebuilds.part param.value.restores (by simp)
  exact .done

end Param

/-! ## Templates and specifications -/

namespace TaskRunTemplate

/-- The template with its texts changed. -/
def mapTexts (onText : String → String) (template : TaskRunTemplate) : TaskRunTemplate :=
  ⟨onText template.serviceAccountName, template.extra.map (Json.mapTexts onText)⟩

@[simp] theorem mapTexts_id (template : TaskRunTemplate) : template.mapTexts id = template := by
  simp [mapTexts, Json.mapTexts_id_eq_id]

theorem mapTexts_mapTexts (first second : String → String) (template : TaskRunTemplate) :
    (template.mapTexts first).mapTexts second = template.mapTexts (second ∘ first) := by
  simp [mapTexts, Dictionary.map_map, Function.comp_def, Json.mapTexts_mapTexts]

/-- What is known of a template because it was read. -/
def Sound (levels : Nat) (template : TaskRunTemplate) : Prop :=
  (schema Json.format).Keeps levels template.extra

theorem restores
    (tame : Tame onText)
    {template : TaskRunTemplate}
    (sound : template.Sound levels) :
    Restores onText (levels + 1) ((schema Json.format).read Json.format) (schema Json.format).write
      template (template.mapTexts onText) := by
  have rebuilds : Rebuilds onText levels template blank (schema Json.format).fields
      { template.mapTexts onText with extra := .empty } := by
    apply Rebuilds.text tame rfl
    exact .done
  exact Schema.restores_kept rfl (separate.keeping _ _ rfl) orderly.names rebuilds rfl sound rfl

/-- A template that was read is sound. -/
theorem sound_of_read
    {node : Json.Node}
    {template : TaskRunTemplate}
    (inRange : node.InRange)
    (read : (schema Json.format).read Json.format (levels + 1) node = .ok template) :
    template.Sound levels :=
  Schema.keeps_of_read rfl (orderly.aside _ _ rfl) inRange read

/-- A template without content stays without content. -/
theorem mapTexts_of_isEmpty
    (tame : Tame onText)
    {template : TaskRunTemplate}
    (isEmpty : template.isEmpty = true) :
    template.mapTexts onText = blank := by
  simp only [TaskRunTemplate.isEmpty, Bool.and_eq_true, String.isEmpty_iff] at isEmpty
  rw [mapTexts, isEmpty.1, tame.empty, Dictionary.map_of_isEmpty _ isEmpty.2]
  rfl

end TaskRunTemplate

namespace PipelineRunSpec

/-- The specification with its texts changed. -/
def mapTexts (onText : String → String) (spec : PipelineRunSpec) : PipelineRunSpec where
  params := spec.params.map (Param.mapTexts onText)
  taskRunTemplate := spec.taskRunTemplate.mapTexts onText
  extra := spec.extra.map (Json.mapTexts onText)

@[simp] theorem mapTexts_id (spec : PipelineRunSpec) : spec.mapTexts id = spec := by
  simp [mapTexts, Json.mapTexts_id_eq_id]

/-- Two changes of texts are one. -/
theorem mapTexts_mapTexts (first second : String → String) (spec : PipelineRunSpec) :
    (spec.mapTexts first).mapTexts second = spec.mapTexts (second ∘ first) := by
  simp [mapTexts, Dictionary.map_map, Function.comp_def, Json.mapTexts_mapTexts,
    Param.mapTexts_mapTexts, TaskRunTemplate.mapTexts_mapTexts]

/-- What is known of a specification because it was read. -/
structure Sound (levels : Nat) (spec : PipelineRunSpec) : Prop where
  template : spec.taskRunTemplate.Sound (levels + 2)
  extra : (schema Json.format).Keeps (levels + 3) spec.extra

theorem restores
    (tame : Tame onText)
    {spec : PipelineRunSpec}
    (sound : spec.Sound levels) :
    Restores onText (levels + 4) ((schema Json.format).read Json.format) (schema Json.format).write
      spec (spec.mapTexts onText) := by
  have rebuilds : Rebuilds onText (levels + 3) spec blank (schema Json.format).fields
      { spec.mapTexts onText with extra := .empty } := by
    apply Rebuilds.list (fun param _ => param.restores) rfl
    apply Rebuilds.part (TaskRunTemplate.restores tame sound.template)
      (fun isEmpty => ⟨rfl, by rw [TaskRunTemplate.mapTexts_of_isEmpty tame isEmpty]; rfl⟩)
    exact .done
  exact Schema.restores_kept rfl (separate.keeping _ _ rfl) orderly.names
    rebuilds rfl sound.extra rfl

/-- A specification that was read is sound. -/
theorem sound_of_read
    {node : Json.Node}
    {spec : PipelineRunSpec}
    (inRange : node.InRange)
    (read : (schema Json.format).read Json.format (levels + 4) node = .ok spec) :
    spec.Sound levels := by
  refine Schema.holds_of_read (Sound levels) ?_ ?_ ?_ inRange read
  · exact ⟨Schema.keeps_empty, Schema.keeps_empty⟩
  · intro field isField node inRange change readField record sound
    simp only [schema, List.mem_cons, List.not_mem_nil, or_false] at isField
    rcases isField with rfl | rfl
    · obtain ⟨params, -, rfl⟩ := map_eq_ok.mp readField
      exact ⟨sound.template, sound.extra⟩
    · obtain ⟨template, readTemplate, rfl⟩ := map_eq_ok.mp readField
      exact ⟨TaskRunTemplate.sound_of_read inRange readTemplate, sound.extra⟩
  · intro get put isKept key value record unknown isOpaque sound
    cases isKept
    exact ⟨sound.template, sound.extra.insert unknown isOpaque⟩

end PipelineRunSpec

end RunManifest
