import RunManifest.Proofs.Document.Restore
import RunManifest.Proofs.Run.Separate

/-!
Contract: the metadata of objects is restored from its documents.

Owns:
- `OwnerReference.mapTexts` and `ObjectMeta.mapTexts`, a change of texts throughout;
- `ObjectMeta.Sound`, what is known of metadata because it was read;
- the laws that what was read is sound, and that what is sound is restored.
-/

set_option autoImplicit false

namespace RunManifest

open Document

variable {onText : String → String} {levels : Nat}

namespace OwnerReference

/-- The reference with its texts changed. -/
def mapTexts (onText : String → String) (reference : OwnerReference) : OwnerReference :=
  { reference with
    apiVersion := onText reference.apiVersion
    kind := onText reference.kind
    name := onText reference.name
    uid := onText reference.uid }

@[simp] theorem mapTexts_id : mapTexts id = id := rfl

theorem mapTexts_mapTexts (first second : String → String) (reference : OwnerReference) :
    (reference.mapTexts first).mapTexts second = reference.mapTexts (second ∘ first) := rfl

/-- A reference is given back with its texts changed. -/
theorem restores (reference : OwnerReference) :
    Restores onText (levels + 1) ((schema Json.format).read Json.format) (schema Json.format).write
      reference (reference.mapTexts onText) := by
  refine Schema.restores_dropped rfl (by decide) ?_
  apply Rebuilds.writtenText
  apply Rebuilds.writtenText
  apply Rebuilds.writtenText
  apply Rebuilds.writtenText
  apply Rebuilds.optional (fun flag _ => restores_flag flag) (fun _ => rfl) rfl Option.map_id'
  apply Rebuilds.optional (fun flag _ => restores_flag flag) (fun _ => rfl) rfl Option.map_id'
  exact .done

end OwnerReference

namespace ObjectMeta

/-- The metadata with its texts changed. Keys and instants stay. -/
def mapTexts (onText : String → String) (metadata : ObjectMeta) : ObjectMeta :=
  { metadata with
    name := onText metadata.name
    generateName := onText metadata.generateName
    «namespace» := onText metadata.namespace
    uid := onText metadata.uid
    resourceVersion := onText metadata.resourceVersion
    labels := metadata.labels.map (Dictionary.map onText)
    annotations := metadata.annotations.map (Dictionary.map onText)
    ownerReferences := metadata.ownerReferences.map (List.map (OwnerReference.mapTexts onText))
    extra := metadata.extra.map (Json.mapTexts onText) }

@[simp] theorem mapTexts_id (metadata : ObjectMeta) : metadata.mapTexts id = metadata := by
  have texts : Dictionary.map (id : String → String) = id := funext Dictionary.map_id
  simp [mapTexts, texts, Json.mapTexts_id_eq_id]

theorem mapTexts_mapTexts (first second : String → String) (metadata : ObjectMeta) :
    (metadata.mapTexts first).mapTexts second = metadata.mapTexts (second ∘ first) := by
  simp [mapTexts, Dictionary.map_map, Function.comp_def, Json.mapTexts_mapTexts,
    OwnerReference.mapTexts_mapTexts]

/-- What is known of metadata because it was read. -/
def Sound (levels : Nat) (metadata : ObjectMeta) : Prop :=
  (schema Json.format).Keeps (levels + 2) metadata.extra

theorem restores
    (tame : Tame onText)
    {metadata : ObjectMeta}
    (sound : metadata.Sound levels) :
    Restores onText (levels + 3) ((schema Json.format).read Json.format) (schema Json.format).write
      metadata (metadata.mapTexts onText) := by
  have rebuilds : Rebuilds onText (levels + 2) metadata blank (schema Json.format).fields
      { metadata.mapTexts onText with extra := .empty } := by
    apply Rebuilds.text tame rfl
    apply Rebuilds.text tame rfl
    apply Rebuilds.text tame rfl
    apply Rebuilds.text tame rfl
    apply Rebuilds.text tame rfl
    apply Rebuilds.optional (fun instant _ => restores_instant tame instant) (fun _ => rfl) rfl
      Option.map_id'
    apply Rebuilds.optional (fun texts _ => restores_texts texts) (fun _ => rfl) rfl rfl
    apply Rebuilds.optional (fun texts _ => restores_texts texts) (fun _ => rfl) rfl rfl
    apply Rebuilds.optional
      (fun references _ => restores_list fun reference _ => reference.restores) (fun _ => rfl) rfl
      rfl
    exact .done
  exact Schema.restores_kept rfl (separate.keeping _ _ rfl) orderly.names rebuilds rfl sound rfl

/-- Metadata that was read is sound. -/
theorem sound_of_read
    {node : Json.Node}
    {metadata : ObjectMeta}
    (inRange : node.InRange)
    (read : (schema Json.format).read Json.format (levels + 3) node = .ok metadata) :
    metadata.Sound levels :=
  Schema.keeps_of_read rfl (orderly.aside _ _ rfl) inRange read

end ObjectMeta

end RunManifest
