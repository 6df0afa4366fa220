import RunManifest.Proofs.Command.Names
import RunManifest.Proofs.Text.Occurrences
import RunManifest.Proofs.Text.Truncate
import RunManifest.Proofs.Workflow.Placeholders

/-!
Contract: how long the beginning of a name is that a prepared run has.

Owns:
- `length_putTokens_uidTokens`, what a hyphenated identifier does to the length of a string with
  placeholders;
- `Preparation.length_generateName_prepare`, the length of the beginning of a name in a prepared
  run, and `Preparation.not_length_generateName_prepare`, it may be beyond the limit that holds for
  copies.

The name of the template is truncated before the identifier takes the places of its placeholders,
and an identifier is longer than each of them.
-/

set_option autoImplicit false

namespace RunManifest

open Text

/-! ## Strings -/

private theorem solid_workflowUid : Solid Placeholder.workflowUid.toList :=
  ⟨isToken_workflowUid.ne_nil, by decide +kernel⟩

private theorem solid_pipelineRunUid : Solid Placeholder.pipelineRunUid.toList :=
  ⟨isToken_pipelineRunUid.ne_nil, by decide +kernel⟩

private theorem clear_workflowUid :
    Clear Placeholder.workflowUid.toList Placeholder.pipelineRunUid.toList :=
  clear_of_ne _ (by simp [uidTokens]) _ (by simp [uidTokens]) (by decide)

private theorem clear_pipelineRunUid :
    Clear Placeholder.pipelineRunUid.toList Placeholder.workflowUid.toList :=
  clear_of_ne _ (by simp [uidTokens]) _ (by simp [uidTokens]) (by decide)

private theorem length_workflowUid : Placeholder.workflowUid.toList.length = 16 := by
  decide

private theorem length_pipelineRunUid : Placeholder.pipelineRunUid.toList.length = 26 := by
  decide

/-- An identifier is longer than the older placeholder by 20 characters and than the newer one by
10. -/
theorem length_putTokens_uidTokens
    {id : String}
    (hyphenated : Command.Identifier.isHyphenated id = true)
    (string : String) :
    (putTokens uidTokens id string).length =
      string.length + 20 * occurrences Placeholder.workflowUid.toList string.toList
        + 10 * occurrences Placeholder.pipelineRunUid.toList string.toList := by
  have lengthId := Command.Identifier.length_of_isHyphenated hyphenated
  have older := length_replaceFrom solid_workflowUid id.toList string.toList
  have newer := length_replaceFrom solid_pipelineRunUid id.toList
    (replaceFrom Placeholder.workflowUid.toList id.toList 0 string.toList)
  have apart : Apart id.toList Placeholder.pipelineRunUid.toList :=
    apart_of_isHyphenated_of_mem hyphenated _ (by simp [uidTokens])
  rw [occurrences_replaceFrom isToken_workflowUid.ne_nil clear_workflowUid clear_pipelineRunUid
    apart] at newer
  have both : (putTokens uidTokens id string).toList =
      replaceFrom Placeholder.pipelineRunUid.toList id.toList 0
        (replaceFrom Placeholder.workflowUid.toList id.toList 0 string.toList) := by
    rw [← toList_replaceAll isToken_workflowUid.ne_nil,
      ← toList_replaceAll isToken_pipelineRunUid.ne_nil]
    rfl
  rw [← String.length_toList, ← String.length_toList, both]
  rw [lengthId, length_workflowUid] at older
  rw [lengthId, length_pipelineRunUid] at newer
  omega

/-! ## Prepared runs -/

namespace Command.Preparation

variable {preparation : Preparation} {config : Config} {fresh : String} {template : PipelineRun}

/-- The beginning of a name that a prepared run has is that of a copy with the identifier put for
its placeholders. It has 20 characters more than the copy's for each older placeholder and 10 for
each newer one, so there are never more than 440 characters, and no more than 200 if no placeholder
is there. -/
theorem length_generateName_prepare
    (unnamed : preparation.name = none)
    (underived : preparation.earlierName = none)
    (hyphenated : Identifier.isHyphenated (preparation.runId.getD fresh) = true)
    {result : PipelineRun}
    (prepared : (preparation.prepare config fresh template).result = .ok result) :
    result.metadata.generateName =
        putTokens uidTokens (preparation.runId.getD fresh) template.cloneName ∧
      result.metadata.generateName.length =
        min 200 template.metadata.name.length
          + 20 * occurrences Placeholder.workflowUid.toList template.cloneName.toList
          + 10 * occurrences Placeholder.pipelineRunUid.toList template.cloneName.toList ∧
      result.metadata.generateName.length ≤ 440 ∧
      (TokenFree uidTokens template.cloneName → result.metadata.generateName.length ≤ 200) := by
  have derived : result.metadata = _ :=
    metadata_of_prepare rfl (Identifier.unquoted_of_isHyphenated hyphenated)
      (fun name isName => by simp [underived] at isName) prepared
  have generateName : result.metadata.generateName =
      putTokens uidTokens (preparation.runId.getD fresh) template.cloneName := by
    rw [derived]
    simp only [derivedMetadata, unnamed, put, putName, underived]
    rfl
  have lengthCopy : template.cloneName.length = min 200 template.metadata.name.length := by
    rw [PipelineRun.cloneName, ← String.length_toList, toList_truncate, List.length_take,
      String.length_toList]
    rfl
  have length := length_putTokens_uidTokens hyphenated template.cloneName
  rw [← generateName] at length
  refine ⟨generateName, lengthCopy ▸ length, ?_, fun absent => ?_⟩
  · have room := length_occurrences_le solid_workflowUid solid_pipelineRunUid clear_workflowUid
      clear_pipelineRunUid template.cloneName.toList
    rw [length_workflowUid, length_pipelineRunUid, String.length_toList] at room
    omega
  · rw [generateName, putTokens_eq_self areTokens_uidTokens _ absent]
    omega

/-! ## Templates with nothing but a name -/

/-- A template with nothing but a name. -/
def nameOnly (name : String) : PipelineRun :=
  { PipelineRun.blank with metadata := { ObjectMeta.blank with name := name } }

/-- Nothing is asked for but an identifier. -/
def identify (id : String) : Preparation := ⟨none, [], none, some id, none, none⟩

private theorem sound_nameOnly (name : String) : (nameOnly name).Sound :=
  ⟨Document.Schema.keeps_empty, ⟨Document.Schema.keeps_empty, Document.Schema.keeps_empty⟩,
    PipelineRunStatus.sound_blank⟩

private theorem clean_spec_nameOnly (allowed : String → Prop) (name : String) :
    (nameOnly name).spec.Clean allowed := by
  refine ⟨?_, ?_, ?_⟩
  all_goals
    intro part member
    cases member

private theorem read_nameOnly (name : String) :
    PipelineRun.ofJsonText (nameOnly name).stored = .ok (nameOnly name) := by
  refine PipelineRun.ofJsonText_stored (sound_nameOnly name) ?_
  have names : ∀ name, Json.hasNoStart name = true → True := fun _ _ => trivial
  have clean : Json.Clean (fun _ => True) (nameOnly name).toJson := by
    refine PipelineRun.clean_toJson names (ObjectMeta.clean_write names ?_ ?_ ?_)
      (clean_spec_nameOnly _ name) rfl
    all_goals
      intro part member
      cases member
  exact clean.recovered

/-- Putting an identifier into such a template succeeds. -/
theorem prepare_nameOnly
    {id : String}
    (plain : ∀ c ∈ id.toList, Json.Plain c)
    (config : Config)
    (fresh name : String) :
    ((identify id).prepare config fresh (nameOnly name)).result =
      .ok ((identify id).identified config id (nameOnly name)) := by
  have names : ∀ name, Json.hasNoStart name = true → TokenFree placeholders name :=
    fun _ => tokenFree_of_hasNoStart areTokens_placeholders
  have substituted : (((identify id).arranged config (nameOnly name)).replaceUid id).result =
      .ok (((identify id).arranged config (nameOnly name)).mapTexts (putTokens uidTokens id)) := by
    rw [Operation.result_replaceUid]
    exact PipelineRun.substituteText_of_clean (sound_arranged (sound_nameOnly name))
      (clean_arranged names (clean_spec_nameOnly _ name)) (List.subset_append_left _ _)
      areTokens_uidTokens plain _
  have isId : (identify id).runId.getD fresh = id := rfl
  simp only [prepare, Logged.result_bind, result_arrange, isId, substituted]
  rfl

/-- A name with both placeholders of the identifier. -/
def markedName : String :=
  Placeholder.workflowUid ++ "-" ++ Placeholder.pipelineRunUid

private theorem isHyphenated_sampleId : Identifier.isHyphenated sampleId = true := by
  decide +kernel

private theorem plain_sampleId : ∀ c ∈ sampleId.toList, Json.Plain c :=
  Json.plain_of_all rfl

theorem length_generateName_prepare_marked :
    (identify sampleId).name = none ∧
      (identify sampleId).earlierName = none ∧
      Identifier.isHyphenated ((identify sampleId).runId.getD "") = true ∧
      ∃ result, ((identify sampleId).prepare ⟨.json, none⟩ "" (nameOnly markedName)).result =
          .ok result ∧
        result.metadata.generateName.length = 43 + 20 * 1 + 10 * 1 := by
  have hyphenated : Identifier.isHyphenated ((identify sampleId).runId.getD "") = true :=
    isHyphenated_sampleId
  have prepared := prepare_nameOnly plain_sampleId ⟨.json, none⟩ "" markedName
  have lengths := (length_generateName_prepare rfl rfl hyphenated prepared).2.1
  have counts :
      occurrences Placeholder.workflowUid.toList (nameOnly markedName).cloneName.toList = 1 ∧
        occurrences Placeholder.pipelineRunUid.toList (nameOnly markedName).cloneName.toList =
          1 := by
    decide +kernel
  rw [counts.1, counts.2] at lengths
  exact ⟨rfl, rfl, hyphenated, _, prepared, lengths⟩

/-- A name of as many characters as a copy keeps, with a placeholder at its beginning. -/
def longName : String :=
  Placeholder.workflowUid ++ String.ofList (List.replicate 184 'a')

private theorem length_longName : longName.length = 200 := by
  rw [longName, String.length_append, ← String.length_toList, length_workflowUid,
    String.length_ofList, List.length_replicate]

/-- The beginning of a name may have more characters in a prepared run than in a copy. -/
theorem not_length_generateName_prepare :
    PipelineRun.ofJsonText (nameOnly longName).stored = .ok (nameOnly longName) ∧
      Identifier.isHyphenated sampleId = true ∧
      ∃ result, ((identify sampleId).prepare ⟨.json, none⟩ "" (nameOnly longName)).result =
          .ok result ∧
        ¬ result.metadata.generateName.length ≤ 200 := by
  have prepared := prepare_nameOnly plain_sampleId ⟨.json, none⟩ "" longName
  refine ⟨read_nameOnly longName, isHyphenated_sampleId, _, prepared, ?_⟩
  have kept : (nameOnly longName).cloneName = longName :=
    (truncate_eq_self 200 longName).mpr length_longName.le
  have generateName : ((identify sampleId).identified ⟨.json, none⟩ sampleId
      (nameOnly longName)).metadata.generateName =
        putTokens uidTokens sampleId (nameOnly longName).cloneName := rfl
  have counted := solid_workflowUid.occurrences_append (List.replicate 184 'a')
  have length := length_putTokens_uidTokens isHyphenated_sampleId longName
  rw [length_longName, longName, String.toList_append, String.toList_ofList, counted, ← longName]
    at length
  rw [generateName, kept]
  omega

end Command.Preparation

end RunManifest
