import RunManifest.Proofs.Document.Revision
import RunManifest.Proofs.Run.Basic

/-!
Contract: what reading a run and writing it again does to its document.

Owns:
- `revision` for each of the eight kinds of records in a run, the table of what becomes of its
  members;
- `follows_revision` for each of them, the law that reading and writing follow the table;
- `PipelineRun.stored_revised`, the same for the texts of runs.
-/

set_option autoImplicit false

namespace RunManifest

open Document

variable {levels : Nat}

/-! ## Metadata -/

namespace OwnerReference

/-- References to owners. Other members are removed. -/
def revision : Revision :=
  .record
    [ .always "apiVersion" .whole none,
      .always "kind" .whole none,
      .always "name" .whole none,
      .always "uid" .whole none,
      .optional "controller" .whole,
      .optional "blockOwnerDeletion" .whole ]
    false

theorem follows_revision :
    revision.Follows (levels + 1) ((schema Json.format).read Json.format)
      (schema Json.format).write := by
  refine Revision.follows_record orderly ?_ rfl
  refine .cons (Rule.governs_writtenText (fun _ _ => rfl) (.inl rfl)) ?_
  refine .cons (Rule.governs_writtenText (fun _ _ => rfl) (.inl rfl)) ?_
  refine .cons (Rule.governs_writtenText (fun _ _ => rfl) (.inl rfl)) ?_
  refine .cons (Rule.governs_writtenText (fun _ _ => rfl) (.inl rfl)) ?_
  refine .cons (Rule.governs_optional Revision.follows_flag rfl (fun _ => rfl) (fun _ _ => rfl)
    rfl) ?_
  refine .cons (Rule.governs_optional Revision.follows_flag rfl (fun _ => rfl) (fun _ _ => rfl)
    rfl) ?_
  exact .nil

end OwnerReference

namespace ObjectMeta

/-- Metadata. Other members are kept. -/
def revision : Revision :=
  .record
    [ .text "name",
      .text "generateName",
      .text "namespace",
      .text "uid",
      .text "resourceVersion",
      .optional "creationTimestamp" .time,
      .optional "labels" .whole,
      .optional "annotations" .whole,
      .optional "ownerReferences" (.list OwnerReference.revision) ]
    true

theorem follows_revision :
    revision.Follows (levels + 3) ((schema Json.format).read Json.format)
      (schema Json.format).write := by
  refine Revision.follows_record orderly ?_ rfl
  refine .cons (Rule.governs_text (fun _ _ => rfl) rfl) ?_
  refine .cons (Rule.governs_text (fun _ _ => rfl) rfl) ?_
  refine .cons (Rule.governs_text (fun _ _ => rfl) rfl) ?_
  refine .cons (Rule.governs_text (fun _ _ => rfl) rfl) ?_
  refine .cons (Rule.governs_text (fun _ _ => rfl) rfl) ?_
  refine .cons (Rule.governs_optional Revision.follows_instant rfl Revision.isNull_time
    (fun _ _ => rfl) rfl) ?_
  refine .cons (Rule.governs_optional Revision.follows_texts rfl (fun _ => rfl) (fun _ _ => rfl)
    rfl) ?_
  refine .cons (Rule.governs_optional Revision.follows_texts rfl (fun _ => rfl) (fun _ _ => rfl)
    rfl) ?_
  refine .cons (Rule.governs_optional (Revision.follows_list OwnerReference.follows_revision) rfl
    (Revision.isNull_list _) (fun _ _ => rfl) rfl) ?_
  exact .nil

end ObjectMeta

/-! ## Parameters, templates and specifications -/

namespace ParamValue

/-- The document value that describes a parameter value says the same as what is written for it. -/
theorem normal_eq_of_ofJson?
    {document : Json}
    {value : ParamValue}
    (describes : ofJson? document = some value) :
    document.normal = value.write.normal := by
  cases document with
  | text text =>
      cases describes
      rfl
  | array items =>
      obtain ⟨values, areTexts, rfl⟩ := Option.map_eq_some_iff.mp describes
      rw [eq_map_of_mapM_text? areTexts]
      rfl
  | object members =>
      obtain ⟨entries, areTexts, rfl⟩ := Option.map_eq_some_iff.mp describes
      rw [eq_map_of_mapM_textMember? areTexts]
      exact Revision.normal_texts entries
  | _ => cases describes

private theorem follows_whole :
    Revision.whole.Follows levels (ParamValue.read Json.format) write := by
  intro node value _ read
  simp only [ParamValue.read, bind_eq_ok] at read
  obtain ⟨document, isDocument, isValue⟩ := read
  split at isValue
  · rename_i describes
    cases isValue
    exact ⟨rfl, document, isDocument, normal_eq_of_ofJson? describes⟩
  · cases isValue

end ParamValue

namespace Param

/-- Parameters. Other members are removed. -/
def revision : Revision :=
  .record
    [ .always "name" .whole none,
      .always "value" .whole none ]
    false

theorem follows_revision :
    revision.Follows (levels + 1) ((schema Json.format).read Json.format)
      (schema Json.format).write := by
  refine Revision.follows_record orderly ?_ rfl
  refine .cons (Rule.governs_writtenText (fun _ _ => rfl) (.inl rfl)) ?_
  refine .cons (Rule.governs_part ParamValue.follows_whole (fun _ _ => rfl) (.inl rfl)) ?_
  exact .nil

end Param

namespace TaskRunTemplate

/-- What becomes of the members of templates. -/
def rules : List Rule :=
  [ .text "serviceAccountName" ]

/-- Templates. Other members are kept. -/
def revision : Revision :=
  .record rules true

theorem follows_revision :
    revision.Follows (levels + 1) ((schema Json.format).read Json.format)
      (schema Json.format).write := by
  refine Revision.follows_record orderly ?_ rfl
  refine .cons (Rule.governs_text (fun _ _ => rfl) rfl) ?_
  exact .nil

theorem isEmpty_eq (template : TaskRunTemplate) :
    template.isEmpty =
      ((schema Json.format).writtenFields template ++
        (schema Json.format).writtenOthers template).isEmpty := by
  have fields : (schema Json.format).writtenFields template =
      if template.serviceAccountName.isEmpty then []
      else [("serviceAccountName", .text template.serviceAccountName)] := by
    by_cases isEmpty : template.serviceAccountName = "" <;>
      simp [Schema.writtenFields, schema, Field.text, isEmpty]
  rw [fields, TaskRunTemplate.isEmpty]
  cases template.serviceAccountName.isEmpty <;> rfl

end TaskRunTemplate

namespace PipelineRunSpec

/-- Specifications. Other members are kept. -/
def revision : Revision :=
  .record
    [ .list "params" Param.revision,
      .content "taskRunTemplate" TaskRunTemplate.revision ]
    true

theorem follows_revision :
    revision.Follows (levels + 4) ((schema Json.format).read Json.format)
      (schema Json.format).write := by
  refine Revision.follows_record orderly ?_ rfl
  refine .cons (Rule.governs_list Param.follows_revision (fun _ _ => rfl) rfl) ?_
  refine .cons (Rule.governs_content TaskRunTemplate.follows_revision (fun _ => rfl)
    TaskRunTemplate.isEmpty_eq (fun _ _ => rfl) rfl) ?_
  exact .nil

end PipelineRunSpec

/-! ## Statuses -/

namespace Condition

/-- Conditions. Other members are kept, and what a condition is about is always there. -/
def revision : Revision :=
  .record
    [ .always "type" .whole (some (.text (.ok ""))),
      .text "status",
      .text "reason",
      .text "message",
      .optional "lastTransitionTime" .time ]
    true

theorem follows_revision :
    revision.Follows (levels + 1) ((schema Json.format).read Json.format)
      (schema Json.format).write := by
  refine Revision.follows_record orderly ?_ rfl
  refine .cons (Rule.governs_writtenText (fun _ _ => rfl) (.inr rfl)) ?_
  refine .cons (Rule.governs_text (fun _ _ => rfl) rfl) ?_
  refine .cons (Rule.governs_text (fun _ _ => rfl) rfl) ?_
  refine .cons (Rule.governs_text (fun _ _ => rfl) rfl) ?_
  refine .cons (Rule.governs_optional Revision.follows_instant rfl Revision.isNull_time
    (fun _ _ => rfl) rfl) ?_
  exact .nil

end Condition

namespace ChildReference

/-- References to children. Other members are kept. -/
def revision : Revision :=
  .record
    [ .always "name" .whole none,
      .text "pipelineTaskName",
      .text "kind",
      .text "apiVersion" ]
    true

theorem follows_revision :
    revision.Follows (levels + 1) ((schema Json.format).read Json.format)
      (schema Json.format).write := by
  refine Revision.follows_record orderly ?_ rfl
  refine .cons (Rule.governs_writtenText (fun _ _ => rfl) (.inl rfl)) ?_
  refine .cons (Rule.governs_text (fun _ _ => rfl) rfl) ?_
  refine .cons (Rule.governs_text (fun _ _ => rfl) rfl) ?_
  refine .cons (Rule.governs_text (fun _ _ => rfl) rfl) ?_
  exact .nil

end ChildReference

namespace PipelineRunStatus

/-- What becomes of the members of statuses. -/
def rules : List Rule :=
  [ .list "conditions" Condition.revision,
    .optional "startTime" .time,
    .optional "completionTime" .time,
    .list "childReferences" ChildReference.revision ]

/-- Statuses. Other members are kept. -/
def revision : Revision :=
  .record rules true

theorem follows_revision :
    revision.Follows (levels + 3) ((schema Json.format).read Json.format)
      (schema Json.format).write := by
  refine Revision.follows_record orderly ?_ rfl
  refine .cons (Rule.governs_list Condition.follows_revision (fun _ _ => rfl) rfl) ?_
  refine .cons (Rule.governs_optional Revision.follows_instant rfl Revision.isNull_time
    (fun _ _ => rfl) rfl) ?_
  refine .cons (Rule.governs_optional Revision.follows_instant rfl Revision.isNull_time
    (fun _ _ => rfl) rfl) ?_
  refine .cons (Rule.governs_list ChildReference.follows_revision (fun _ _ => rfl) rfl) ?_
  exact .nil

theorem isEmpty_eq (status : PipelineRunStatus) :
    status.isEmpty =
      ((schema Json.format).writtenFields status ++
        (schema Json.format).writtenOthers status).isEmpty := by
  obtain ⟨conditions, startTime, completionTime, children, extra⟩ := status
  cases conditions <;> cases startTime <;> cases completionTime <;> cases children <;> rfl

end PipelineRunStatus

/-! ## Runs -/

namespace PipelineRun

/-- Runs. Other members are removed, and metadata and specification are always there. -/
def revision : Revision :=
  .record
    [ .text "apiVersion",
      .text "kind",
      .always "metadata" ObjectMeta.revision (some (.object [] none)),
      .always "spec" PipelineRunSpec.revision (some (.object [] none)),
      .content "status" PipelineRunStatus.revision ]
    false

theorem follows_revision :
    revision.Follows Json.levels ((schema Json.format).read Json.format) toJson := by
  change revision.Follows (spareLevels + 4 + 1) _ _
  refine Revision.follows_record orderly ?_ rfl
  refine .cons (Rule.governs_text (fun _ _ => rfl) rfl) ?_
  refine .cons (Rule.governs_text (fun _ _ => rfl) rfl) ?_
  refine .cons (Rule.governs_part ObjectMeta.follows_revision (fun _ _ => rfl)
    (.inr ⟨_, rfl, Revision.agrees_empty⟩)) ?_
  refine .cons (Rule.governs_part PipelineRunSpec.follows_revision (fun _ _ => rfl)
    (.inr ⟨_, rfl, Revision.agrees_empty⟩)) ?_
  refine .cons (Rule.governs_content PipelineRunStatus.follows_revision (fun _ => rfl)
    PipelineRunStatus.isEmpty_eq (fun _ _ => rfl) rfl) ?_
  exact .nil

/-- A stored text says what was written into it, if its numbers of double precision are
recovered. -/
theorem value_stored
    {run : PipelineRun}
    (sound : run.Sound)
    (recovered : run.toJson.Recovered) :
    Json.decode Json.Node.value run.stored = .ok run.toJson := by
  have read := Json.value_retold (restores tame_id sound).fits recovered id
  rw [Json.mapTexts_id_eq_id] at read
  rw [decode_stored, read]
  rfl

/-- The document of a run whose records are given by key has no two members for one field. What is
written for the run says the same as the document revised by the table, and so does the stored text
where the numbers of double precision are recovered. -/
theorem stored_revised
    {text : String}
    {run : PipelineRun}
    (read : ofJsonText text = .ok run)
    (keyed : revision.keyed (Json.nodeOf text.toList).1 = true) :
    revision.unrepeated (Json.nodeOf text.toList).1 = true ∧
      ∃ document, (revision.revise (Json.nodeOf text.toList).1).value Json.levels = .ok document ∧
        run.toJson.normal = document.normal ∧
        (run.toJson.Recovered → ∃ rewritten,
          Json.decode Json.Node.value run.stored = .ok rewritten ∧
            rewritten.normal = document.normal) := by
  obtain ⟨unrepeated, document, isDocument, same⟩ :=
    follows_revision _ run keyed (Json.read_of_decode read)
  refine ⟨unrepeated, document, isDocument, same.symm, fun recovered => ?_⟩
  exact ⟨run.toJson, value_stored (sound_of_ofJsonText read) recovered, same.symm⟩

/-- A document with members to remove, to add and to rewrite. The first member is a string that
cannot be read. -/
def weeklyText : String :=
  Json.braced
    [("junk", "\"\\ud800\""), ("metadata", Json.braced [("a", "null"), ("labels", "null")]),
      ("status", Json.braced
        [("startTime", "\"24-5-1 0:0:0+01:00\""), ("conditions", "[" ++ Json.braced [] ++ "]")])]

/-- The text in which the run of the document is kept. -/
def weeklyStored : String :=
  Json.braced
    [("metadata", Json.braced [("a", "null")]), ("spec", Json.braced []),
      ("status", Json.braced
        [("conditions", "[" ++ Json.braced [("type", "\"\"")] ++ "]"),
          ("startTime", "\"0024-04-30T23:00:00Z\"")])]

theorem stored_revised_weekly :
    ∃ run, ofJsonText weeklyText = .ok run ∧ run.stored = weeklyStored ∧
      revision.keyed (Json.nodeOf weeklyText.toList).1 = true ∧
      revision.unrepeated (Json.nodeOf weeklyText.toList).1 = true ∧
      ∃ document, (revision.revise (Json.nodeOf weeklyText.toList).1).value Json.levels =
          .ok document ∧
        run.toJson.normal = document.normal ∧
        (run.toJson.Recovered → ∃ rewritten,
          Json.decode Json.Node.value run.stored = .ok rewritten ∧
            rewritten.normal = document.normal) := by
  have isStored : stored <$> ofJsonText weeklyText = .ok weeklyStored := by
    decide +kernel
  obtain ⟨run, read, same⟩ := map_eq_ok.mp isStored
  have keyed : revision.keyed (Json.nodeOf weeklyText.toList).1 = true := by
    decide +kernel
  exact ⟨run, read, same, keyed, stored_revised read keyed⟩

/-- A document with a number that is not read as the closest of double precision. -/
def tinyText : String :=
  Json.braced [("spec", Json.braced [("x", "1e-24")])]

/-- The text in which the run of the document is kept. -/
def tinyStored : String :=
  Json.braced [("metadata", Json.braced []), ("spec", Json.braced [("x", "1.0000000000000001e-24")])]

/-- The document with a number of the given significand in place of its own. -/
def tinyDocument (significand : Nat) : Json :=
  .object
    [("spec", .object [("x", .number (.float ⟨false, significand, -132⟩))]),
      ("metadata", .object [])]

/-- A number that is not recovered is read from the stored text as another than the one that was
read from the document. -/
theorem stored_not_revised_tiny :
    ∃ run rewritten, ofJsonText tinyText = .ok run ∧
      revision.keyed (Json.nodeOf tinyText.toList).1 = true ∧
      (revision.revise (Json.nodeOf tinyText.toList).1).value Json.levels =
        .ok (tinyDocument 5444517870735016) ∧
      run.stored = tinyStored ∧
      Json.decode Json.Node.value run.stored = .ok rewritten ∧
      rewritten.normal = (tinyDocument 5444517870735015).normal ∧
      rewritten.normal ≠ (tinyDocument 5444517870735016).normal := by
  have isStored : stored <$> ofJsonText tinyText = .ok tinyStored := by
    decide +kernel
  have isRead : Json.normal <$> Json.decode Json.Node.value tinyStored =
      .ok (tinyDocument 5444517870735015).normal := by
    decide +kernel
  obtain ⟨run, read, same⟩ := map_eq_ok.mp isStored
  obtain ⟨rewritten, readAgain, isNormal⟩ := map_eq_ok.mp isRead
  refine ⟨run, rewritten, read, ?_, ?_, same, ?_, isNormal, ?_⟩
  · decide +kernel
  · decide +kernel
  · rw [same]
    exact readAgain
  · rw [isNormal]
    decide

end PipelineRun

end RunManifest
