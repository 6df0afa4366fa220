import RunManifest.Proofs.Document.Vocabulary
import RunManifest.Proofs.Run.Basic

/-!
Contract: reading a run invents no strings and no numbers.

Owns `keepsTo` for each of the eight kinds of records in a run: the document of what was read stays
within the vocabulary of the tree it was read from.
-/

set_option autoImplicit false

namespace RunManifest

open Document

variable {vocabulary : Vocabulary} {levels : Nat}

private theorem Json.within_empty : (Json.object []).Within vocabulary :=
  Json.within_object.mpr (by simp)

/-! ## Metadata -/

theorem OwnerReference.keepsTo :
    KeepsTo vocabulary (levels + 1) ((schema Json.format).read Json.format)
      (schema Json.format).write := by
  refine Schema.keepsTo orderly ?_
  refine List.forall_mem_cons.mpr ⟨Field.keepsTo_writtenText rfl rfl fun _ _ => rfl, ?_⟩
  refine List.forall_mem_cons.mpr ⟨Field.keepsTo_writtenText rfl rfl fun _ _ => rfl, ?_⟩
  refine List.forall_mem_cons.mpr ⟨Field.keepsTo_writtenText rfl rfl fun _ _ => rfl, ?_⟩
  refine List.forall_mem_cons.mpr ⟨Field.keepsTo_writtenText rfl rfl fun _ _ => rfl, ?_⟩
  refine List.forall_mem_cons.mpr
    ⟨Field.keepsTo_optional rfl rfl (fun _ _ => rfl) keepsTo_flag, ?_⟩
  refine List.forall_mem_cons.mpr
    ⟨Field.keepsTo_optional rfl rfl (fun _ _ => rfl) keepsTo_flag, ?_⟩
  exact List.forall_mem_nil _

theorem ObjectMeta.keepsTo :
    KeepsTo vocabulary (levels + 3) ((schema Json.format).read Json.format)
      (schema Json.format).write := by
  refine Schema.keepsTo orderly ?_
  refine List.forall_mem_cons.mpr ⟨Field.keepsTo_text rfl rfl fun _ _ => rfl, ?_⟩
  refine List.forall_mem_cons.mpr ⟨Field.keepsTo_text rfl rfl fun _ _ => rfl, ?_⟩
  refine List.forall_mem_cons.mpr ⟨Field.keepsTo_text rfl rfl fun _ _ => rfl, ?_⟩
  refine List.forall_mem_cons.mpr ⟨Field.keepsTo_text rfl rfl fun _ _ => rfl, ?_⟩
  refine List.forall_mem_cons.mpr ⟨Field.keepsTo_text rfl rfl fun _ _ => rfl, ?_⟩
  refine List.forall_mem_cons.mpr
    ⟨Field.keepsTo_optional rfl rfl (fun _ _ => rfl) keepsTo_instant, ?_⟩
  refine List.forall_mem_cons.mpr
    ⟨Field.keepsTo_optional rfl rfl (fun _ _ => rfl) keepsTo_texts, ?_⟩
  refine List.forall_mem_cons.mpr
    ⟨Field.keepsTo_optional rfl rfl (fun _ _ => rfl) keepsTo_texts, ?_⟩
  refine List.forall_mem_cons.mpr
    ⟨Field.keepsTo_optional rfl rfl (fun _ _ => rfl) (keepsTo_list OwnerReference.keepsTo), ?_⟩
  exact List.forall_mem_nil _

/-! ## Parameters, templates and specifications -/

/-- A parameter value is read whole, and has the texts of the document value that describes it. -/
theorem ParamValue.keepsTo :
    KeepsTo vocabulary levels (ParamValue.read Json.format) ParamValue.write := by
  intro node value within read
  simp only [ParamValue.read, bind_eq_ok] at read
  obtain ⟨document, isDocument, isValue⟩ := read
  have documentWithin : document.Within vocabulary := Json.within_of_value within isDocument
  split at isValue
  · rename_i described describes
    cases isValue
    cases document with
    | text text =>
        cases describes
        exact documentWithin
    | array items =>
        obtain ⟨values, areTexts, rfl⟩ := Option.map_eq_some_iff.mp describes
        rw [eq_map_of_mapM_text? areTexts] at documentWithin
        exact documentWithin
    | object members =>
        obtain ⟨entries, areTexts, rfl⟩ := Option.map_eq_some_iff.mp describes
        rw [eq_map_of_mapM_textMember? areTexts, Json.within_object, List.forall_mem_map]
          at documentWithin
        refine within_writeTexts fun entry isEntry => ⟨(documentWithin entry isEntry).1, ?_⟩
        cases (documentWithin entry isEntry).2 with
        | text allowed => exact allowed
    | _ => cases describes
  · cases isValue

theorem Param.keepsTo :
    KeepsTo vocabulary (levels + 1) ((schema Json.format).read Json.format)
      (schema Json.format).write := by
  refine Schema.keepsTo orderly ?_
  refine List.forall_mem_cons.mpr ⟨Field.keepsTo_writtenText rfl rfl fun _ _ => rfl, ?_⟩
  refine List.forall_mem_cons.mpr
    ⟨Field.keepsTo_part rfl (.text (vocabulary.text_of_hasNoStart _ rfl)) (fun _ _ => rfl)
      ParamValue.keepsTo, ?_⟩
  exact List.forall_mem_nil _

theorem TaskRunTemplate.keepsTo :
    KeepsTo vocabulary (levels + 1) ((schema Json.format).read Json.format)
      (schema Json.format).write := by
  refine Schema.keepsTo orderly ?_
  refine List.forall_mem_cons.mpr ⟨Field.keepsTo_text rfl rfl fun _ _ => rfl, ?_⟩
  exact List.forall_mem_nil _

theorem PipelineRunSpec.keepsTo :
    KeepsTo vocabulary (levels + 4) ((schema Json.format).read Json.format)
      (schema Json.format).write := by
  refine Schema.keepsTo orderly ?_
  refine List.forall_mem_cons.mpr
    ⟨Field.keepsTo_list rfl rfl (fun _ _ => rfl) Param.keepsTo, ?_⟩
  refine List.forall_mem_cons.mpr
    ⟨Field.keepsTo_part rfl Json.within_empty (fun _ _ => rfl) TaskRunTemplate.keepsTo, ?_⟩
  exact List.forall_mem_nil _

/-! ## Statuses -/

theorem Condition.keepsTo :
    KeepsTo vocabulary (levels + 1) ((schema Json.format).read Json.format)
      (schema Json.format).write := by
  refine Schema.keepsTo orderly ?_
  refine List.forall_mem_cons.mpr ⟨Field.keepsTo_writtenText rfl rfl fun _ _ => rfl, ?_⟩
  refine List.forall_mem_cons.mpr ⟨Field.keepsTo_text rfl rfl fun _ _ => rfl, ?_⟩
  refine List.forall_mem_cons.mpr ⟨Field.keepsTo_text rfl rfl fun _ _ => rfl, ?_⟩
  refine List.forall_mem_cons.mpr ⟨Field.keepsTo_text rfl rfl fun _ _ => rfl, ?_⟩
  refine List.forall_mem_cons.mpr
    ⟨Field.keepsTo_optional rfl rfl (fun _ _ => rfl) keepsTo_instant, ?_⟩
  exact List.forall_mem_nil _

theorem ChildReference.keepsTo :
    KeepsTo vocabulary (levels + 1) ((schema Json.format).read Json.format)
      (schema Json.format).write := by
  refine Schema.keepsTo orderly ?_
  refine List.forall_mem_cons.mpr ⟨Field.keepsTo_writtenText rfl rfl fun _ _ => rfl, ?_⟩
  refine List.forall_mem_cons.mpr ⟨Field.keepsTo_text rfl rfl fun _ _ => rfl, ?_⟩
  refine List.forall_mem_cons.mpr ⟨Field.keepsTo_text rfl rfl fun _ _ => rfl, ?_⟩
  refine List.forall_mem_cons.mpr ⟨Field.keepsTo_text rfl rfl fun _ _ => rfl, ?_⟩
  exact List.forall_mem_nil _

theorem PipelineRunStatus.keepsTo :
    KeepsTo vocabulary (levels + 3) ((schema Json.format).read Json.format)
      (schema Json.format).write := by
  refine Schema.keepsTo orderly ?_
  refine List.forall_mem_cons.mpr
    ⟨Field.keepsTo_list rfl rfl (fun _ _ => rfl) Condition.keepsTo, ?_⟩
  refine List.forall_mem_cons.mpr
    ⟨Field.keepsTo_optional rfl rfl (fun _ _ => rfl) keepsTo_instant, ?_⟩
  refine List.forall_mem_cons.mpr
    ⟨Field.keepsTo_optional rfl rfl (fun _ _ => rfl) keepsTo_instant, ?_⟩
  refine List.forall_mem_cons.mpr
    ⟨Field.keepsTo_list rfl rfl (fun _ _ => rfl) ChildReference.keepsTo, ?_⟩
  exact List.forall_mem_nil _

/-! ## Runs -/

/-- The document of a run stays within the vocabulary of the tree that the run was read from. -/
theorem PipelineRun.keepsTo :
    KeepsTo vocabulary Json.levels ((schema Json.format).read Json.format) toJson := by
  change KeepsTo vocabulary (spareLevels + 4 + 1) _ _
  refine Schema.keepsTo orderly ?_
  refine List.forall_mem_cons.mpr ⟨Field.keepsTo_text rfl rfl fun _ _ => rfl, ?_⟩
  refine List.forall_mem_cons.mpr ⟨Field.keepsTo_text rfl rfl fun _ _ => rfl, ?_⟩
  refine List.forall_mem_cons.mpr
    ⟨Field.keepsTo_part rfl Json.within_empty (fun _ _ => rfl) ObjectMeta.keepsTo, ?_⟩
  refine List.forall_mem_cons.mpr
    ⟨Field.keepsTo_part rfl Json.within_empty (fun _ _ => rfl) PipelineRunSpec.keepsTo, ?_⟩
  refine List.forall_mem_cons.mpr
    ⟨Field.keepsTo_part rfl Json.within_empty (fun _ _ => rfl) PipelineRunStatus.keepsTo, ?_⟩
  exact List.forall_mem_nil _

end RunManifest
