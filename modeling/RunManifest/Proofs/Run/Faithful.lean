import RunManifest.Proofs.Document.Faithful
import RunManifest.Proofs.Run.Basic

/-!
Contract: runs are read back from the nodes of their documents in every faithful format.

Owns `returns` for each kind of record in a run. What is known of a record because it was read from
one format is enough to read it back in another.
-/

set_option autoImplicit false

namespace RunManifest

open Document

variable {m : Type → Type} [Monad m] [LawfulMonad m] [MonadExceptOf Problem m] {ν : Type}
  {format : Format m ν} {node : Json → ν} {told : Binary64 → Prop} {levels depth : Nat}

/-! ## Metadata -/

theorem OwnerReference.returns
    (faithful : Faithful format node told)
    (reference : OwnerReference) :
    Returns node told (depth + 1) ((schema format).read format) (schema format).write
      reference := by
  refine Schema.returns_dropped faithful rfl orderly.names ?_
  apply Retraces.writtenText faithful
  apply Retraces.writtenText faithful
  apply Retraces.writtenText faithful
  apply Retraces.writtenText faithful
  apply Retraces.optional faithful (fun flag => returns_flag faithful flag) (by simp) rfl
  apply Retraces.optional faithful (fun flag => returns_flag faithful flag) (by simp) rfl
  exact .done

theorem ObjectMeta.returns
    (faithful : Faithful format node told)
    {metadata : ObjectMeta}
    (sound : metadata.Sound levels)
    (enough : levels ≤ depth) :
    Returns node told (depth + 3) ((schema format).read format) (schema format).write metadata := by
  have retraces : Retraces node told (depth + 2) metadata blank (schema format).fields
      { metadata with extra := .empty } := by
    apply Retraces.text faithful rfl
    apply Retraces.text faithful rfl
    apply Retraces.text faithful rfl
    apply Retraces.text faithful rfl
    apply Retraces.text faithful rfl
    apply Retraces.optional faithful (fun instant => returns_instant faithful instant)
      (by simp [writeInstant]) rfl
    apply Retraces.optional faithful (fun texts => returns_texts faithful texts)
      (by simp [writeTexts]) rfl
    apply Retraces.optional faithful (fun texts => returns_texts faithful texts)
      (by simp [writeTexts]) rfl
    apply Retraces.optional faithful
      (fun references => returns_list faithful fun reference _ => reference.returns faithful)
      (by simp) rfl
    exact .done
  exact Schema.returns_kept faithful rfl (separate.keeping _ _ rfl) orderly.names retraces
    rfl rfl rfl (Nat.add_le_add_right enough 2) sound

/-! ## Parameters, templates and specifications -/

theorem ParamValue.returns (faithful : Faithful format node told) (value : ParamValue) :
    Returns node told (depth + 1) (ParamValue.read format) write value := by
  intro allTold
  have described : ofJson? (value.write.mapTexts id) = some (value.mapTexts id) :=
    ofJson?_write value
  rw [Json.mapTexts_id, mapTexts_id] at described
  rw [ParamValue.read, faithful.value value.fits_write (Nat.le_refl _) allTold, pure_bind,
    described]

theorem Param.returns (faithful : Faithful format node told) (param : Param) :
    Returns node told (depth + 2) ((schema format).read format) (schema format).write param := by
  refine Schema.returns_dropped faithful rfl orderly.names ?_
  apply Retraces.writtenText faithful
  apply Retraces.part (param.value.returns faithful) (by simp)
  exact .done

theorem TaskRunTemplate.returns
    (faithful : Faithful format node told)
    {template : TaskRunTemplate}
    (sound : template.Sound levels)
    (enough : levels ≤ depth) :
    Returns node told (depth + 1) ((schema format).read format) (schema format).write template := by
  have retraces : Retraces node told depth template blank (schema format).fields
      { template with extra := .empty } := by
    apply Retraces.text faithful rfl
    exact .done
  exact Schema.returns_kept faithful rfl (separate.keeping _ _ rfl) orderly.names retraces
    rfl rfl rfl enough sound

theorem PipelineRunSpec.returns
    (faithful : Faithful format node told)
    {spec : PipelineRunSpec}
    (sound : spec.Sound levels)
    (enough : levels ≤ depth) :
    Returns node told (depth + 4) ((schema format).read format) (schema format).write spec := by
  have retraces : Retraces node told (depth + 3) spec blank (schema format).fields
      { spec with extra := .empty } := by
    apply Retraces.list faithful (fun param _ => param.returns faithful) rfl
    apply Retraces.part (TaskRunTemplate.returns faithful sound.template
      (Nat.add_le_add_right enough 2))
    · intro isEmpty
      have isBlank := TaskRunTemplate.mapTexts_of_isEmpty PipelineRun.tame_id isEmpty
      rw [TaskRunTemplate.mapTexts_id] at isBlank
      exact ⟨rfl, by rw [isBlank]; rfl⟩
    exact .done
  exact Schema.returns_kept faithful rfl (separate.keeping _ _ rfl) orderly.names retraces
    rfl rfl rfl (Nat.add_le_add_right enough 3) sound.extra

/-! ## Statuses -/

theorem Condition.returns
    (faithful : Faithful format node told)
    {condition : Condition}
    (sound : condition.Sound levels)
    (enough : levels ≤ depth) :
    Returns node told (depth + 1) ((schema format).read format) (schema format).write
      condition := by
  have retraces : Retraces node told depth condition blank (schema format).fields
      { condition with extra := .empty } := by
    apply Retraces.writtenText faithful
    apply Retraces.text faithful rfl
    apply Retraces.text faithful rfl
    apply Retraces.text faithful rfl
    apply Retraces.optional faithful (fun instant => returns_instant faithful instant)
      (by simp [ObjectMeta.writeInstant]) rfl
    exact .done
  exact Schema.returns_kept faithful rfl (separate.keeping _ _ rfl) orderly.names retraces
    rfl rfl rfl enough sound

theorem ChildReference.returns
    (faithful : Faithful format node told)
    {child : ChildReference}
    (sound : child.Sound levels)
    (enough : levels ≤ depth) :
    Returns node told (depth + 1) ((schema format).read format) (schema format).write child := by
  have retraces : Retraces node told depth child blank (schema format).fields
      { child with extra := .empty } := by
    apply Retraces.writtenText faithful
    apply Retraces.text faithful rfl
    apply Retraces.text faithful rfl
    apply Retraces.text faithful rfl
    exact .done
  exact Schema.returns_kept faithful rfl (separate.keeping _ _ rfl) orderly.names retraces
    rfl rfl rfl enough sound

theorem PipelineRunStatus.returns
    (faithful : Faithful format node told)
    {status : PipelineRunStatus}
    (sound : status.Sound levels)
    (enough : levels ≤ depth) :
    Returns node told (depth + 3) ((schema format).read format) (schema format).write status := by
  have retraces : Retraces node told (depth + 2) status blank (schema format).fields
      { status with extra := .empty } := by
    apply Retraces.list faithful
      (fun condition isCondition => Condition.returns faithful
        (sound.conditions condition isCondition) enough) rfl
    apply Retraces.optional faithful (fun instant => returns_instant faithful instant)
      (by simp [ObjectMeta.writeInstant]) rfl
    apply Retraces.optional faithful (fun instant => returns_instant faithful instant)
      (by simp [ObjectMeta.writeInstant]) rfl
    apply Retraces.list faithful
      (fun child isChild => ChildReference.returns faithful (sound.children child isChild) enough)
      rfl
    exact .done
  exact Schema.returns_kept faithful rfl (separate.keeping _ _ rfl) orderly.names retraces
    rfl rfl rfl (Nat.add_le_add_right enough 2) sound.extra

/-! ## Runs -/

/-- A run whose parts may be as deep as the format allows is read back from the node of its
document. -/
theorem PipelineRun.returns_of_parts
    (faithful : Faithful format node told)
    {run : PipelineRun}
    (metadata : run.metadata.Sound (levels + 1))
    (spec : run.spec.Sound levels)
    (status : run.status.Sound (levels + 1))
    (enough : levels ≤ depth) :
    Returns node told (depth + 5) ((schema format).read format) (schema format).write run := by
  have retraces : Retraces node told (depth + 4) run blank (schema format).fields run := by
    apply Retraces.text faithful rfl
    apply Retraces.text faithful rfl
    apply Retraces.part (ObjectMeta.returns faithful metadata (Nat.add_le_add_right enough 1))
      (by simp)
    apply Retraces.part (PipelineRunSpec.returns faithful spec enough) (by simp)
    apply Retraces.part (PipelineRunStatus.returns faithful status (Nat.add_le_add_right enough 1))
    · intro isEmpty
      rw [PipelineRunStatus.eq_blank_of_isEmpty isEmpty]
      exact ⟨rfl, rfl⟩
    exact .done
  exact Schema.returns_dropped faithful rfl orderly.names retraces

/-- A run that was read is read back from the node of its document. -/
theorem PipelineRun.returns
    (faithful : Faithful format node told)
    {run : PipelineRun}
    (sound : run.Sound)
    (enough : spareLevels ≤ depth) :
    Returns node told (depth + 5) ((schema format).read format) (schema format).write run :=
  returns_of_parts faithful sound.metadata sound.spec sound.status enough

end RunManifest
