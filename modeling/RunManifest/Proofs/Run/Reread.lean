import RunManifest.Proofs.Json.Reread
import RunManifest.Proofs.Run.Faithful

/-!
Contract: every stored run is read again.

Owns:
- `PipelineRun.reread`, the run with the numbers of its other members read again from their texts,
  and the same for each kind of record that keeps other members;
- `PipelineRun.ofJsonText_stored_reread`, a sound run is read from its stored text as that run.

Numbers of double precision may change in their last digits, so a run need not be read as itself.
Everything else in it is.
-/

set_option autoImplicit false

namespace RunManifest

open Document

/-- The document of a record whose fields and other members have their numbers changed. -/
theorem Document.Schema.mapNumbers_write
    {m : Type → Type}
    {ν ρ : Type}
    {schema : Schema m ν ρ}
    {onNumber : Number → Number}
    {record changed : ρ}
    (fields : ∀ field ∈ schema.fields,
      (field.write record).map (Json.mapNumbers onNumber) = field.write changed)
    (others : (schema.writtenOthers record).map (fun member =>
      (member.1, member.2.mapNumbers onNumber)) = schema.writtenOthers changed) :
    (schema.write record).mapNumbers onNumber = schema.write changed := by
  have written : (schema.writtenFields record).map (fun member =>
      (member.1, member.2.mapNumbers onNumber)) = schema.writtenFields changed := by
    rw [Schema.writtenFields, Schema.writtenFields, List.map_filterMap]
    refine List.filterMap_congr fun field isField => ?_
    rw [← fields field isField, Option.map_map, Option.map_map]
    rfl
  rw [Schema.write, Schema.write, Json.mapNumbers, Json.mapMemberNumbers_eq_map, List.map_append,
    written, others]

/-- Other members are kept with their numbers read again. -/
theorem Document.Schema.Keeps.reread
    {ρ : Type}
    {schema : Schema (Except Problem) Json.Node ρ}
    {levels : Nat}
    {extra : Dictionary Json}
    (keeps : schema.Keeps levels extra) :
    schema.Keeps levels (extra.map (Json.mapNumbers Number.reread)) := by
  intro entry isEntry
  obtain ⟨source, isSource, rfl⟩ := List.mem_map.mp isEntry
  obtain ⟨unknown, isOpaque⟩ := keeps source isSource
  exact ⟨unknown, isOpaque.mapNumbers fun _ => Number.inRange_reread⟩

variable {levels : Nat} {onNumber : Number → Number}

/-! ## Fields -/

section Fields

variable {m : Type → Type} [Monad m] {ν ρ α : Type} {format : Format m ν}
  {name : String} {record changed : ρ}

private theorem Document.Field.mapNumbers_text
    {get : ρ → String}
    {set : String → ρ → ρ}
    (same : get record = get changed) :
    ((Field.text format name get set).write record).map (Json.mapNumbers onNumber) =
      (Field.text format name get set).write changed := by
  simp only [Field.text, same]
  split <;> rfl

private theorem Document.Field.mapNumbers_optional
    {readPart : Nat → ν → m α}
    {writePart : α → Json}
    {get : ρ → Option α}
    {set : Option α → ρ → ρ}
    (same : get record = get changed)
    (noNumbers : ∀ part, (writePart part).mapNumbers onNumber = writePart part) :
    ((Field.optional format name readPart writePart get set).write record).map
        (Json.mapNumbers onNumber) =
      (Field.optional format name readPart writePart get set).write changed := by
  simp only [Field.optional, same, Option.map_map]
  cases get changed with
  | none => rfl
  | some part => exact congrArg some (noNumbers part)

private theorem Document.Field.mapNumbers_list
    [MonadExceptOf Problem m]
    {readPart : Nat → ν → m α}
    {writePart : α → Json}
    {get : ρ → List α}
    {set : List α → ρ → ρ}
    {change : α → α}
    (isChanged : (get record).map change = get changed)
    (commutes : ∀ part, (writePart part).mapNumbers onNumber = writePart (change part)) :
    ((Field.list format name readPart writePart get set).write record).map
        (Json.mapNumbers onNumber) =
      (Field.list format name readPart writePart get set).write changed := by
  simp only [Field.list, ← isChanged, List.isEmpty_map]
  split
  · rfl
  · simp [Function.comp_def, commutes]

private theorem Document.Field.mapNumbers_part
    {required : Bool}
    {readPart : Nat → ν → m α}
    {writePart : α → Json}
    {isEmpty : α → Bool}
    {get : ρ → α}
    {set : α → ρ → ρ}
    (sameContent : isEmpty (get record) = isEmpty (get changed))
    (commutes : (writePart (get record)).mapNumbers onNumber = writePart (get changed)) :
    ((Field.part name required readPart writePart isEmpty get set : Field m ν ρ).write record).map
        (Json.mapNumbers onNumber) =
      (Field.part name required readPart writePart isEmpty get set : Field m ν ρ).write changed := by
  simp only [Field.part, sameContent]
  split
  · rfl
  · exact congrArg some commutes

end Fields

/-! ## Parts without numbers -/

private theorem ObjectMeta.mapNumbers_writeTexts (texts : Dictionary String) :
    (writeTexts texts).mapNumbers onNumber = writeTexts texts := by
  simp [writeTexts, Function.comp_def]

private theorem OwnerReference.mapNumbers_write (reference : OwnerReference) :
    ((schema Json.format).write reference).mapNumbers onNumber =
      (schema Json.format).write reference := by
  refine Schema.mapNumbers_write ?_ rfl
  intro field isField
  simp only [schema, List.mem_cons, List.not_mem_nil, or_false] at isField
  rcases isField with rfl | rfl | rfl | rfl | rfl | rfl
  · rfl
  · rfl
  · rfl
  · rfl
  · exact Field.mapNumbers_optional rfl fun _ => rfl
  · exact Field.mapNumbers_optional rfl fun _ => rfl

private theorem ParamValue.mapNumbers_write (value : ParamValue) :
    value.write.mapNumbers onNumber = value.write := by
  cases value <;> simp [write, Function.comp_def]

private theorem Param.mapNumbers_write (param : Param) :
    ((schema Json.format).write param).mapNumbers onNumber = (schema Json.format).write param := by
  refine Schema.mapNumbers_write ?_ rfl
  intro field isField
  simp only [schema, List.mem_cons, List.not_mem_nil, or_false] at isField
  rcases isField with rfl | rfl
  · rfl
  · exact congrArg some param.value.mapNumbers_write

/-! ## Records that keep other members -/

namespace ObjectMeta

/-- The metadata with its numbers read again. -/
def reread (metadata : ObjectMeta) : ObjectMeta :=
  { metadata with extra := metadata.extra.map (Json.mapNumbers Number.reread) }

private theorem write_reread (metadata : ObjectMeta) :
    ((schema Json.format).write metadata).mapNumbers Number.reread =
      (schema Json.format).write metadata.reread := by
  refine Schema.mapNumbers_write ?_ rfl
  intro field isField
  simp only [schema, List.mem_cons, List.not_mem_nil, or_false] at isField
  rcases isField with rfl | rfl | rfl | rfl | rfl | rfl | rfl | rfl | rfl
  · exact Field.mapNumbers_text rfl
  · exact Field.mapNumbers_text rfl
  · exact Field.mapNumbers_text rfl
  · exact Field.mapNumbers_text rfl
  · exact Field.mapNumbers_text rfl
  · exact Field.mapNumbers_optional rfl fun _ => rfl
  · exact Field.mapNumbers_optional rfl mapNumbers_writeTexts
  · exact Field.mapNumbers_optional rfl mapNumbers_writeTexts
  · refine Field.mapNumbers_optional rfl fun references => ?_
    simp [Function.comp_def, OwnerReference.mapNumbers_write]

theorem Sound.reread {metadata : ObjectMeta} (sound : metadata.Sound levels) :
    metadata.reread.Sound levels :=
  Schema.Keeps.reread sound

end ObjectMeta

namespace TaskRunTemplate

/-- The template with its numbers read again. -/
def reread (template : TaskRunTemplate) : TaskRunTemplate :=
  { template with extra := template.extra.map (Json.mapNumbers Number.reread) }

private theorem write_reread (template : TaskRunTemplate) :
    ((schema Json.format).write template).mapNumbers Number.reread =
      (schema Json.format).write template.reread := by
  refine Schema.mapNumbers_write ?_ rfl
  intro field isField
  simp only [schema, List.mem_cons, List.not_mem_nil, or_false] at isField
  subst isField
  exact Field.mapNumbers_text rfl

private theorem isEmpty_reread (template : TaskRunTemplate) :
    template.reread.isEmpty = template.isEmpty := by
  simp [isEmpty, reread, Dictionary.isEmpty]

theorem Sound.reread {template : TaskRunTemplate} (sound : template.Sound levels) :
    template.reread.Sound levels :=
  Schema.Keeps.reread sound

end TaskRunTemplate

namespace PipelineRunSpec

/-- The specification with its numbers read again. -/
def reread (spec : PipelineRunSpec) : PipelineRunSpec :=
  { spec with
    taskRunTemplate := spec.taskRunTemplate.reread
    extra := spec.extra.map (Json.mapNumbers Number.reread) }

private theorem write_reread (spec : PipelineRunSpec) :
    ((schema Json.format).write spec).mapNumbers Number.reread =
      (schema Json.format).write spec.reread := by
  refine Schema.mapNumbers_write ?_ rfl
  intro field isField
  simp only [schema, List.mem_cons, List.not_mem_nil, or_false] at isField
  rcases isField with rfl | rfl
  · exact Field.mapNumbers_list (List.map_id _) Param.mapNumbers_write
  · exact Field.mapNumbers_part spec.taskRunTemplate.isEmpty_reread.symm
      spec.taskRunTemplate.write_reread

theorem Sound.reread {spec : PipelineRunSpec} (sound : spec.Sound levels) :
    spec.reread.Sound levels :=
  ⟨sound.template.reread, Schema.Keeps.reread sound.extra⟩

end PipelineRunSpec

namespace Condition

/-- The condition with its numbers read again. -/
def reread (condition : Condition) : Condition :=
  { condition with extra := condition.extra.map (Json.mapNumbers Number.reread) }

private theorem write_reread (condition : Condition) :
    ((schema Json.format).write condition).mapNumbers Number.reread =
      (schema Json.format).write condition.reread := by
  refine Schema.mapNumbers_write ?_ rfl
  intro field isField
  simp only [schema, List.mem_cons, List.not_mem_nil, or_false] at isField
  rcases isField with rfl | rfl | rfl | rfl | rfl
  · rfl
  · exact Field.mapNumbers_text rfl
  · exact Field.mapNumbers_text rfl
  · exact Field.mapNumbers_text rfl
  · exact Field.mapNumbers_optional rfl fun _ => rfl

theorem Sound.reread {condition : Condition} (sound : condition.Sound levels) :
    condition.reread.Sound levels :=
  Schema.Keeps.reread sound

end Condition

namespace ChildReference

/-- The reference with its numbers read again. -/
def reread (child : ChildReference) : ChildReference :=
  { child with extra := child.extra.map (Json.mapNumbers Number.reread) }

private theorem write_reread (child : ChildReference) :
    ((schema Json.format).write child).mapNumbers Number.reread =
      (schema Json.format).write child.reread := by
  refine Schema.mapNumbers_write ?_ rfl
  intro field isField
  simp only [schema, List.mem_cons, List.not_mem_nil, or_false] at isField
  rcases isField with rfl | rfl | rfl | rfl
  · rfl
  · exact Field.mapNumbers_text rfl
  · exact Field.mapNumbers_text rfl
  · exact Field.mapNumbers_text rfl

theorem Sound.reread {child : ChildReference} (sound : child.Sound levels) :
    child.reread.Sound levels :=
  Schema.Keeps.reread sound

end ChildReference

namespace PipelineRunStatus

/-- The status with its numbers read again. -/
def reread (status : PipelineRunStatus) : PipelineRunStatus :=
  { status with
    conditions := status.conditions.map Condition.reread
    childReferences := status.childReferences.map ChildReference.reread
    extra := status.extra.map (Json.mapNumbers Number.reread) }

private theorem write_reread (status : PipelineRunStatus) :
    ((schema Json.format).write status).mapNumbers Number.reread =
      (schema Json.format).write status.reread := by
  refine Schema.mapNumbers_write ?_ rfl
  intro field isField
  simp only [schema, List.mem_cons, List.not_mem_nil, or_false] at isField
  rcases isField with rfl | rfl | rfl | rfl
  · exact Field.mapNumbers_list rfl Condition.write_reread
  · exact Field.mapNumbers_optional rfl fun _ => rfl
  · exact Field.mapNumbers_optional rfl fun _ => rfl
  · exact Field.mapNumbers_list rfl ChildReference.write_reread

private theorem isEmpty_reread (status : PipelineRunStatus) :
    status.reread.isEmpty = status.isEmpty := by
  simp [isEmpty, reread, Dictionary.isEmpty]

theorem Sound.reread {status : PipelineRunStatus} (sound : status.Sound levels) :
    status.reread.Sound levels := by
  refine ⟨?_, ?_, Schema.Keeps.reread sound.extra⟩
  · intro condition isCondition
    obtain ⟨source, isSource, rfl⟩ := List.mem_map.mp isCondition
    exact (sound.conditions source isSource).reread
  · intro child isChild
    obtain ⟨source, isSource, rfl⟩ := List.mem_map.mp isChild
    exact (sound.children source isSource).reread

end PipelineRunStatus

/-! ## Runs -/

namespace PipelineRun

/-- The run with its numbers read again. -/
def reread (run : PipelineRun) : PipelineRun :=
  { run with
    metadata := run.metadata.reread
    spec := run.spec.reread
    status := run.status.reread }

private theorem toJson_reread (run : PipelineRun) :
    run.toJson.mapNumbers Number.reread = run.reread.toJson := by
  refine Schema.mapNumbers_write ?_ rfl
  intro field isField
  simp only [schema, List.mem_cons, List.not_mem_nil, or_false] at isField
  rcases isField with rfl | rfl | rfl | rfl | rfl
  · exact Field.mapNumbers_text rfl
  · exact Field.mapNumbers_text rfl
  · exact Field.mapNumbers_part rfl run.metadata.write_reread
  · exact Field.mapNumbers_part rfl run.spec.write_reread
  · exact Field.mapNumbers_part run.status.isEmpty_reread.symm run.status.write_reread

theorem Sound.reread {run : PipelineRun} (sound : run.Sound) : run.reread.Sound :=
  ⟨sound.metadata.reread, sound.spec.reread, sound.status.reread⟩

/-- A sound run is read from its stored text with its numbers read again. -/
theorem ofJsonText_stored_reread {run : PipelineRun} (sound : run.Sound) :
    ofJsonText run.stored = .ok run.reread := by
  have returned := PipelineRun.returns Json.faithful sound.reread (Nat.le_refl spareLevels)
    (fun _ _ => trivial)
  rw [ofJsonText, decode_stored, Json.retold, Json.mapTexts_id,
    Json.node_reading_eq (restores tame_id sound).fits, toJson_reread]
  exact returned

end PipelineRun

end RunManifest
