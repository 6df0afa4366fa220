import RunManifest.Proofs.Document.Restore
import RunManifest.Proofs.Run.Separate

/-!
Contract: the progress of a run is restored from its documents.

Owns:
- `mapTexts` for conditions, references to children and statuses, a change of texts throughout;
- `Sound` for the same, what is known because they were read;
- the laws that what was read is sound, and that what is sound is restored.
-/

set_option autoImplicit false

namespace RunManifest

open Document

variable {onText : String → String} {levels : Nat}

namespace Condition

/-- The condition with its texts changed. -/
def mapTexts (onText : String → String) (condition : Condition) : Condition :=
  { condition with
    type := onText condition.type
    status := onText condition.status
    reason := onText condition.reason
    message := onText condition.message
    extra := condition.extra.map (Json.mapTexts onText) }

@[simp] theorem mapTexts_id : mapTexts id = id := by
  funext condition
  simp [mapTexts, Json.mapTexts_id_eq_id]

theorem mapTexts_mapTexts (first second : String → String) (condition : Condition) :
    (condition.mapTexts first).mapTexts second = condition.mapTexts (second ∘ first) := by
  simp [mapTexts, Dictionary.map_map, Function.comp_def, Json.mapTexts_mapTexts]

/-- What is known of a condition because it was read. -/
def Sound (levels : Nat) (condition : Condition) : Prop :=
  (schema Json.format).Keeps levels condition.extra

theorem restores
    (tame : Tame onText)
    {condition : Condition}
    (sound : condition.Sound levels) :
    Restores onText (levels + 1) ((schema Json.format).read Json.format) (schema Json.format).write
      condition (condition.mapTexts onText) := by
  have rebuilds : Rebuilds onText levels condition blank (schema Json.format).fields
      { condition.mapTexts onText with extra := .empty } := by
    apply Rebuilds.writtenText
    apply Rebuilds.text tame rfl
    apply Rebuilds.text tame rfl
    apply Rebuilds.text tame rfl
    apply Rebuilds.optional (fun instant _ => restores_instant tame instant) (fun _ => rfl) rfl
      Option.map_id'
    exact .done
  exact Schema.restores_kept rfl (separate.keeping _ _ rfl) orderly.names rebuilds rfl sound rfl

/-- A condition that was read is sound. -/
theorem sound_of_read
    {node : Json.Node}
    {condition : Condition}
    (inRange : node.InRange)
    (read : (schema Json.format).read Json.format (levels + 1) node = .ok condition) :
    condition.Sound levels :=
  Schema.keeps_of_read rfl (orderly.aside _ _ rfl) inRange read

end Condition

namespace ChildReference

/-- The reference with its texts changed. -/
def mapTexts (onText : String → String) (child : ChildReference) : ChildReference where
  name := onText child.name
  pipelineTaskName := onText child.pipelineTaskName
  kind := onText child.kind
  apiVersion := onText child.apiVersion
  extra := child.extra.map (Json.mapTexts onText)

@[simp] theorem mapTexts_id : mapTexts id = id := by
  funext child
  simp [mapTexts, Json.mapTexts_id_eq_id]

theorem mapTexts_mapTexts (first second : String → String) (child : ChildReference) :
    (child.mapTexts first).mapTexts second = child.mapTexts (second ∘ first) := by
  simp [mapTexts, Dictionary.map_map, Function.comp_def, Json.mapTexts_mapTexts]

/-- What is known of a reference because it was read. -/
def Sound (levels : Nat) (child : ChildReference) : Prop :=
  (schema Json.format).Keeps levels child.extra

theorem restores
    (tame : Tame onText)
    {child : ChildReference}
    (sound : child.Sound levels) :
    Restores onText (levels + 1) ((schema Json.format).read Json.format) (schema Json.format).write
      child (child.mapTexts onText) := by
  have rebuilds : Rebuilds onText levels child blank (schema Json.format).fields
      { child.mapTexts onText with extra := .empty } := by
    apply Rebuilds.writtenText
    apply Rebuilds.text tame rfl
    apply Rebuilds.text tame rfl
    apply Rebuilds.text tame rfl
    exact .done
  exact Schema.restores_kept rfl (separate.keeping _ _ rfl) orderly.names rebuilds rfl sound rfl

/-- A reference that was read is sound. -/
theorem sound_of_read
    {node : Json.Node}
    {child : ChildReference}
    (inRange : node.InRange)
    (read : (schema Json.format).read Json.format (levels + 1) node = .ok child) :
    child.Sound levels :=
  Schema.keeps_of_read rfl (orderly.aside _ _ rfl) inRange read

end ChildReference

namespace PipelineRunStatus

/-- The status with its texts changed. Times stay. -/
def mapTexts (onText : String → String) (status : PipelineRunStatus) : PipelineRunStatus :=
  { status with
    conditions := status.conditions.map (Condition.mapTexts onText)
    childReferences := status.childReferences.map (ChildReference.mapTexts onText)
    extra := status.extra.map (Json.mapTexts onText) }

@[simp] theorem mapTexts_id (status : PipelineRunStatus) : status.mapTexts id = status := by
  simp [mapTexts, Json.mapTexts_id_eq_id]

theorem mapTexts_mapTexts (first second : String → String) (status : PipelineRunStatus) :
    (status.mapTexts first).mapTexts second = status.mapTexts (second ∘ first) := by
  simp [mapTexts, Dictionary.map_map, Function.comp_def, Json.mapTexts_mapTexts,
    Condition.mapTexts_mapTexts, ChildReference.mapTexts_mapTexts]

/-- What is known of a status because it was read. -/
structure Sound (levels : Nat) (status : PipelineRunStatus) : Prop where
  conditions : ∀ condition ∈ status.conditions, condition.Sound levels
  children : ∀ child ∈ status.childReferences, child.Sound levels
  extra : (schema Json.format).Keeps (levels + 2) status.extra

theorem sound_blank : blank.Sound levels :=
  ⟨by simp [blank], by simp [blank], Schema.keeps_empty⟩

theorem restores
    (tame : Tame onText)
    {status : PipelineRunStatus}
    (sound : status.Sound levels) :
    Restores onText (levels + 3) ((schema Json.format).read Json.format) (schema Json.format).write
      status (status.mapTexts onText) := by
  have rebuilds : Rebuilds onText (levels + 2) status blank (schema Json.format).fields
      { status.mapTexts onText with extra := .empty } := by
    apply Rebuilds.list
      (fun condition member => Condition.restores tame (sound.conditions condition member)) rfl
    apply Rebuilds.optional (fun instant _ => restores_instant tame instant) (fun _ => rfl) rfl
      Option.map_id'
    apply Rebuilds.optional (fun instant _ => restores_instant tame instant) (fun _ => rfl) rfl
      Option.map_id'
    apply Rebuilds.list
      (fun child member => ChildReference.restores tame (sound.children child member)) rfl
    exact .done
  exact Schema.restores_kept rfl (separate.keeping _ _ rfl) orderly.names
    rebuilds rfl sound.extra rfl

/-- A status that was read is sound. -/
theorem sound_of_read
    {node : Json.Node}
    {status : PipelineRunStatus}
    (inRange : node.InRange)
    (read : (schema Json.format).read Json.format (levels + 3) node = .ok status) :
    status.Sound levels := by
  refine Schema.holds_of_read (Sound levels) sound_blank ?_ ?_ inRange read
  · intro field isField node inRange change readField record sound
    simp only [schema, List.mem_cons, List.not_mem_nil, or_false] at isField
    rcases isField with rfl | rfl | rfl | rfl
    · obtain ⟨conditions, readConditions, rfl⟩ := map_eq_ok.mp readField
      refine ⟨fun condition member => ?_, sound.children, sound.extra⟩
      obtain ⟨item, isPart, readItem⟩ := exists_of_mem_readList readConditions member
      exact Condition.sound_of_read (inRange_of_mem_parts inRange isPart) readItem
    · obtain ⟨time, -, rfl⟩ := map_eq_ok.mp readField
      exact ⟨sound.conditions, sound.children, sound.extra⟩
    · obtain ⟨time, -, rfl⟩ := map_eq_ok.mp readField
      exact ⟨sound.conditions, sound.children, sound.extra⟩
    · obtain ⟨children, readChildren, rfl⟩ := map_eq_ok.mp readField
      refine ⟨sound.conditions, fun child member => ?_, sound.extra⟩
      obtain ⟨item, isPart, readItem⟩ := exists_of_mem_readList readChildren member
      exact ChildReference.sound_of_read (inRange_of_mem_parts inRange isPart) readItem
  · intro get put isKept key value record unknown isOpaque sound
    cases isKept
    exact ⟨sound.conditions, sound.children, sound.extra.insert unknown isOpaque⟩

/-- A status without content is the blank one. -/
theorem eq_blank_of_isEmpty
    {status : PipelineRunStatus}
    (isEmpty : status.isEmpty = true) :
    status = blank := by
  obtain ⟨conditions, startTime, completionTime, children, extra⟩ := status
  simp only [PipelineRunStatus.isEmpty, Bool.and_eq_true, List.isEmpty_iff,
    Option.isNone_iff_eq_none] at isEmpty
  obtain ⟨⟨⟨⟨rfl, rfl⟩, rfl⟩, rfl⟩, noExtra⟩ := isEmpty
  have isBlank : extra = .empty := Dictionary.ext (List.isEmpty_iff.mp noExtra)
  rw [isBlank]
  rfl

@[simp] theorem mapTexts_blank : blank.mapTexts onText = blank := rfl

end PipelineRunStatus

end RunManifest
