import RunManifest.Proofs.Run.Metadata
import RunManifest.Proofs.Run.Spec
import RunManifest.Proofs.Run.Status
import RunManifest.Run.Basic

/-!
Contract: runs are restored from their documents and from their stored texts.

Owns:
- `PipelineRun.mapTexts`, a change of texts throughout a run;
- `PipelineRun.Sound`, what is known of a run because it was read;
- `PipelineRun.sound_of_ofJsonText`, a run that was read from a text is sound;
- `PipelineRun.decode_stored`, reading a stored text is reading the tree of the document in it, and
  `PipelineRun.ofJsonText_stored`, a sound run is given back from its stored text.
-/

set_option autoImplicit false

namespace RunManifest.PipelineRun

open Document

variable {onText : String → String}

/-- The run with its texts changed. Keys, numbers, truth values and instants stay. -/
def mapTexts (onText : String → String) (run : PipelineRun) : PipelineRun where
  apiVersion := onText run.apiVersion
  kind := onText run.kind
  metadata := run.metadata.mapTexts onText
  spec := run.spec.mapTexts onText
  status := run.status.mapTexts onText

@[simp] theorem mapTexts_id (run : PipelineRun) : run.mapTexts id = run := by
  simp [mapTexts]

/-- Two changes of texts are one. -/
theorem mapTexts_mapTexts (first second : String → String) (run : PipelineRun) :
    (run.mapTexts first).mapTexts second = run.mapTexts (second ∘ first) := by
  simp [mapTexts, ObjectMeta.mapTexts_mapTexts, PipelineRunSpec.mapTexts_mapTexts,
    PipelineRunStatus.mapTexts_mapTexts]

/-- The containers that may be open inside the innermost part of a run that is no opaque value: the
value of a parameter. -/
def spareLevels : Nat := Json.levels - 5

/-- What is known of a run because it was read. -/
structure Sound (run : PipelineRun) : Prop where
  metadata : run.metadata.Sound (spareLevels + 1)
  spec : run.spec.Sound spareLevels
  status : run.status.Sound (spareLevels + 1)

/-- A sound run is given back with its texts changed. -/
theorem restores
    (tame : Tame onText)
    {run : PipelineRun}
    (sound : run.Sound) :
    Restores onText Json.levels ((schema Json.format).read Json.format) toJson run
      (run.mapTexts onText) := by
  have rebuilds : Rebuilds onText (spareLevels + 4) run blank (schema Json.format).fields
      (run.mapTexts onText) := by
    apply Rebuilds.text tame rfl
    apply Rebuilds.text tame rfl
    apply Rebuilds.part (ObjectMeta.restores tame sound.metadata) (by simp)
    apply Rebuilds.part (PipelineRunSpec.restores tame sound.spec) (by simp)
    apply Rebuilds.part (PipelineRunStatus.restores tame sound.status)
    · intro isEmpty
      rw [PipelineRunStatus.eq_blank_of_isEmpty isEmpty]
      exact ⟨rfl, rfl⟩
    exact .done
  exact Schema.restores_dropped rfl (by decide) rebuilds

/-- A run that was read is sound. -/
theorem sound_of_read
    {node : Json.Node}
    {run : PipelineRun}
    (inRange : node.InRange)
    (read : (schema Json.format).read Json.format Json.levels node = .ok run) :
    run.Sound := by
  refine Schema.holds_of_read Sound ?_ ?_ ?_ inRange read
  · exact ⟨Schema.keeps_empty, ⟨Schema.keeps_empty, Schema.keeps_empty⟩,
      PipelineRunStatus.sound_blank⟩
  · intro field isField node inRange change readField record sound
    simp only [schema, List.mem_cons, List.not_mem_nil, or_false] at isField
    rcases isField with rfl | rfl | rfl | rfl | rfl
    · obtain ⟨apiVersion, -, rfl⟩ := map_eq_ok.mp readField
      exact ⟨sound.metadata, sound.spec, sound.status⟩
    · obtain ⟨kind, -, rfl⟩ := map_eq_ok.mp readField
      exact ⟨sound.metadata, sound.spec, sound.status⟩
    · obtain ⟨metadata, readMetadata, rfl⟩ := map_eq_ok.mp readField
      exact ⟨ObjectMeta.sound_of_read inRange readMetadata, sound.spec, sound.status⟩
    · obtain ⟨spec, readSpec, rfl⟩ := map_eq_ok.mp readField
      exact ⟨sound.metadata, PipelineRunSpec.sound_of_read inRange readSpec, sound.status⟩
    · obtain ⟨status, readStatus, rfl⟩ := map_eq_ok.mp readField
      exact ⟨sound.metadata, sound.spec, PipelineRunStatus.sound_of_read inRange readStatus⟩
  · intro get put isKept
    cases isKept

/-- A run that was read from a text is sound. -/
theorem sound_of_ofJsonText
    {text : String}
    {run : PipelineRun}
    (read : ofJsonText text = .ok run) :
    run.Sound := by
  obtain ⟨node, inRange, readNode⟩ := Json.exists_of_decode read
  exact sound_of_read inRange readNode

theorem tame_id : Tame id :=
  ⟨rfl, fun _ => rfl⟩

/-- Reading a stored text is reading the tree of the document in it. -/
theorem decode_stored
    {α : Type}
    (read : Nat → Json.Node → Except Problem α)
    (run : PipelineRun) :
    Json.decode read run.stored = read Json.levels (run.toJson.retold id) := by
  have scans : ∀ string ∈ run.toJson.strings, Json.Scans Json.written string (id string) := by
    intro string _ rest
    simpa [Json.written] using Json.scanString_escaped string.toList rest
  rw [stored, Json.compact_eq_spelled, Json.decode_spelled _ _ scans]
  rfl

/-- A sound run is given back from its stored text. -/
theorem ofJsonText_stored
    {run : PipelineRun}
    (sound : run.Sound)
    (recovered : run.toJson.Recovered) :
    ofJsonText run.stored = .ok run := by
  have restored := (restores tame_id sound).reads recovered
  rw [mapTexts_id] at restored
  rw [ofJsonText, decode_stored, restored]

end RunManifest.PipelineRun
