import RunManifest.Proofs.Command.Identifier
import RunManifest.Proofs.Command.Prepare

/-!
Contract: which names a prepared run has.

Owns:
- `ObjectMeta.HasOneName`, metadata with exactly one of a name and the beginning of one;
- `PipelineRun.metadata_of_substituteText`, a substitution that succeeds changes the texts of the
  metadata, whatever becomes of the rest of the run;
- `Preparation.metadata_of_prepare`, the metadata of a prepared run, whatever the template asks for;
- `Preparation.hasOneName_prepare_iff`, a prepared run has exactly one name if one is asked for or the
  template has one, and `Preparation.not_hasOneName_prepare`, it has none if the template has only
  the beginning of a name.
-/

set_option autoImplicit false

namespace RunManifest

open Document Text

/-! ## Metadata after a substitution -/

/-- Exactly one of the name and the beginning of a name is there. -/
def ObjectMeta.HasOneName (metadata : ObjectMeta) : Prop :=
  (metadata.name ≠ "" ∧ metadata.generateName = "") ∨
    (metadata.name = "" ∧ metadata.generateName ≠ "")

instance (metadata : ObjectMeta) : Decidable metadata.HasOneName :=
  inferInstanceAs (Decidable (_ ∨ _))

/-- A substitution that succeeds changes the texts of the metadata and leaves the rest of it, if the
keys there have no placeholders. Nothing is asked of the rest of the run. -/
theorem PipelineRun.metadata_of_substituteText
    {run result : PipelineRun}
    (sound : run.metadata.Sound (spareLevels + 1))
    {tokens placeholders : List String}
    (clean : Json.Clean (TokenFree placeholders)
      ((ObjectMeta.schema Json.format).write run.metadata))
    (among : tokens ⊆ placeholders)
    (areTokens : ∀ token ∈ tokens, Json.IsToken token.toList)
    {operation value : String}
    (unquoted : ∀ c ∈ value.toList, c ≠ '\"' ∧ c ≠ '\\')
    (substituted :
      run.substituteText ⟨operation, tokens.map fun token => (token, value)⟩ = .ok result) :
    result.metadata = run.metadata.mapTexts (putTokens tokens value) := by
  have readText := ofJsonText_of_substituteText substituted
  have read := read_said_of_ofJsonText areTokens unquoted readText
  change (schema Json.format).read Json.format (spareLevels + 4 + 1) _ = _ at read
  have untouched : ∀ other ∈ (schema Json.format).fields, other.name ≠ "metadata" →
      ∀ node change, other.read (spareLevels + 4) node = .ok change →
      ∀ record, (change record).metadata = record.metadata := by
    intro other isOther different node change readOther record
    simp only [schema, List.mem_cons, List.not_mem_nil, or_false] at isOther
    rcases isOther with rfl | rfl | rfl | rfl | rfl
    all_goals
      obtain ⟨part, -, rfl⟩ := map_eq_ok.mp readOther
      first | rfl | exact absurd rfl different
  -- The metadata is always written, so what was read is what its document says.
  obtain ⟨change, record, readField, now⟩ := Schema.told_of_read_said PipelineRun.metadata
    (List.mem_cons_of_mem _ (List.mem_cons_of_mem _ List.mem_cons_self)) untouched
    (fun get put isKept => by cases isKept) rfl (by decide) (putTokens_name areTokens value rfl) rfl
    read
  obtain ⟨metadata, readMetadata, rfl⟩ := map_eq_ok.mp readField
  have restored := (ObjectMeta.restores (tame_putTokens areTokens value) sound).reads clean.recovered
  have fixed : ∀ key ∈ ((ObjectMeta.schema Json.format).write run.metadata).keys,
      putTokens tokens value key = key := fun key isKey =>
    putTokens_eq_self areTokens value fun token isToken => clean.keys key isKey token (among isToken)
  rw [Json.retold, ← Json.mapStrings_eq_mapTexts _ _ _ fixed] at restored
  rw [now]
  exact Except.ok.inj (readMetadata.symm.trans restored)

/-- A string that is not empty does not become empty. -/
theorem putTokens_ne_empty
    {tokens : List String}
    (areTokens : ∀ token ∈ tokens, Json.IsToken token.toList)
    {value : String}
    (nonempty : value ≠ "")
    {string : String}
    (notEmpty : string ≠ "") :
    putTokens tokens value string ≠ "" := by
  induction tokens generalizing string with
  | nil => exact notEmpty
  | cons token rest inductionHypothesis =>
      refine inductionHypothesis (fun other member => areTokens other (by simp [member])) ?_
      rw [ne_eq, ← String.toList_eq_nil_iff] at nonempty notEmpty ⊢
      rw [toList_replaceAll (areTokens token (by simp)).ne_nil]
      exact replaceFrom_ne_nil _ nonempty notEmpty

/-! ## Prepared runs -/

namespace Command.Preparation

variable {preparation : Preparation} {config : Config} {fresh : String} {template : PipelineRun}

/-- The values put for placeholders leave no string empty. -/
theorem put_eq_empty_iff
    {id : String}
    (givenId : id ≠ "")
    (givenName : preparation.earlierName ≠ some "")
    {string : String} :
    preparation.put id string = "" ↔ string = "" := by
  constructor
  · intro isEmpty
    by_contra notEmpty
    have withId := putTokens_ne_empty areTokens_uidTokens givenId notEmpty
    rw [put, putName] at isEmpty
    split at isEmpty
    · exact withId isEmpty
    · rename_i name isName
      refine putTokens_ne_empty areTokens_nameTokens ?_ withId isEmpty
      rintro rfl
      exact givenName isName
  · rintro rfl
    exact put_of_hasNoStart preparation id rfl

/-- Putting the earlier name, if there is one, changes the texts of the metadata. -/
theorem metadata_of_derive
    {run result : PipelineRun}
    (sound : run.metadata.Sound (PipelineRun.spareLevels + 1))
    (clean : Json.Clean (TokenFree placeholders)
      ((ObjectMeta.schema Json.format).write run.metadata))
    (unquotedName : ∀ name, preparation.earlierName = some name →
      ∀ c ∈ name.toList, c ≠ '\"' ∧ c ≠ '\\')
    (derived : (derive preparation.earlierName run).result = .ok result) :
    result.metadata = run.metadata.mapTexts preparation.putName := by
  unfold putName
  cases isName : preparation.earlierName with
  | none =>
      rw [isName] at derived
      cases derived
      exact run.metadata.mapTexts_id.symm
  | some name =>
      rw [isName, derive, Logged.result_bind, Operation.result_replaceEarlierRunName] at derived
      cases substituted : run.substituteText (.earlierRunName name) with
      | error corruption =>
          rw [substituted] at derived
          cases derived
      | ok named =>
          rw [substituted] at derived
          cases derived
          exact PipelineRun.metadata_of_substituteText sound clean (List.subset_append_right _ _)
            areTokens_nameTokens (unquotedName name isName) substituted

/-- The metadata of a prepared run is as it is written out, whatever the template asks for. -/
theorem metadata_of_prepare
    {id : String}
    (isId : preparation.runId.getD fresh = id)
    (unquotedId : ∀ c ∈ id.toList, c ≠ '\"' ∧ c ≠ '\\')
    (unquotedName : ∀ name, preparation.earlierName = some name →
      ∀ c ∈ name.toList, c ≠ '\"' ∧ c ≠ '\\')
    {result : PipelineRun}
    (prepared : (preparation.prepare config fresh template).result = .ok result) :
    result.metadata = preparation.derivedMetadata id template := by
  have names : ∀ name, Json.hasNoStart name = true → TokenFree placeholders name :=
    fun _ => tokenFree_of_hasNoStart areTokens_placeholders
  simp only [prepare, Logged.result_bind, result_arrange, isId, Operation.result_replaceUid]
    at prepared
  cases substituted : (preparation.arranged config template).substituteText (.runUid id) with
  | error corruption =>
      rw [substituted] at prepared
      cases prepared
  | ok run =>
      rw [substituted] at prepared
      have sound : (preparation.arranged config template).metadata.Sound
          (PipelineRun.spareLevels + 1) := Schema.keeps_empty
      have withId : run.metadata =
          (preparation.arranged config template).metadata.mapTexts (putTokens uidTokens id) :=
        PipelineRun.metadata_of_substituteText sound (clean_arrangedMetadata names)
          (List.subset_append_left _ _) areTokens_uidTokens unquotedId substituted
      -- The label with the identifier comes between the two substitutions.
      have labelled : (run.setRunIdLabel id).metadata =
          (preparation.identified config id template).metadata := by
        simp only [PipelineRun.setRunIdLabel, PipelineRun.setLabel, withId, identified, arranged,
          PipelineRun.mapTexts]
      cases derived : (derive preparation.earlierName (run.setRunIdLabel id)).result with
      | error failure => simp [Logged.result_bind, derived] at prepared
      | ok named =>
          have same : named = result := by
            simpa [Logged.result_bind, derived] using prepared
          rw [← same, ← mapTexts_metadata_identified preparation config, ← labelled]
          refine metadata_of_derive ?_ ?_ unquotedName derived
          · rw [labelled]
            exact Schema.keeps_empty
          · rw [labelled]
            exact clean_metadata_identified names

/-- A prepared run has exactly one of a name and the beginning of one if a name is asked for or the
template has a name. The beginning of a name that a template has does not count. -/
theorem hasOneName_prepare_iff
    (named : preparation.name ≠ some "")
    (hyphenated : Identifier.isHyphenated (preparation.runId.getD fresh) = true)
    (earlierName : ∀ name, preparation.earlierName = some name →
      name ≠ "" ∧ ∀ c ∈ name.toList, c ≠ '\"' ∧ c ≠ '\\')
    {result : PipelineRun}
    (prepared : (preparation.prepare config fresh template).result = .ok result) :
    result.metadata.HasOneName ↔ preparation.name.isSome = true ∨ template.metadata.name ≠ "" := by
  have givenId := Identifier.ne_empty_of_isHyphenated hyphenated
  have givenName : preparation.earlierName ≠ some "" := fun isName => (earlierName "" isName).1 rfl
  rw [metadata_of_prepare rfl (Identifier.unquoted_of_isHyphenated hyphenated)
    (fun name isName => (earlierName name isName).2) prepared]
  cases isName : preparation.name with
  | some name =>
      -- The given name is not empty and takes the place of the beginning of a name.
      have notEmpty : name ≠ "" := by
        rintro rfl
        exact named isName
      simp [ObjectMeta.HasOneName, derivedMetadata, isName, put_eq_empty_iff givenId givenName,
        notEmpty]
  | none =>
      have truncated : String.ofList (template.metadata.name.toList.take 200) = "" ↔
          template.metadata.name = "" := by
        rw [← String.toList_eq_nil_iff, ← String.toList_eq_nil_iff, String.toList_ofList,
          List.take_eq_nil_iff]
        simp
      simp [ObjectMeta.HasOneName, derivedMetadata, isName, put_eq_empty_iff givenId givenName,
        truncated]

/-- The identifier of the prepared runs below. -/
def sampleId : String := "0a1b2c3d-4e5f-4a6b-8c7d-9e0f1a2b3c4d"

/-- A template with the placeholder of the earlier name in its name and in a key. -/
def rerunTemplate : PipelineRun :=
  { PipelineRun.blank with
    metadata := { ObjectMeta.blank with name := "$ORIG_PR_NAME" }
    spec := { PipelineRunSpec.blank with extra := .ofList [("$ORIG_PR_NAME", .null)] } }

/-- The run prepared from it. -/
def rerunResult : PipelineRun :=
  { PipelineRun.blank with
    metadata :=
      { ObjectMeta.blank with
        generateName := "night-6"
        labels := some (.ofList [(LabelKey.runId, sampleId)]) }
    spec := { PipelineRunSpec.blank with extra := .ofList [("night-6", .null)] } }

/-- Nothing is asked for but an identifier and an earlier name. -/
def rerun : Preparation := ⟨none, [], none, some sampleId, none, some "night-6"⟩

theorem hasOneName_prepare_iff_rerun :
    rerun.name ≠ some "" ∧
      Identifier.isHyphenated (rerun.runId.getD "") = true ∧
      (∀ name, rerun.earlierName = some name →
        name ≠ "" ∧ ∀ c ∈ name.toList, c ≠ '\"' ∧ c ≠ '\\') ∧
      (rerun.prepare ⟨.json, none⟩ "" rerunTemplate).result = .ok rerunResult ∧
      (rerunResult.metadata.HasOneName ↔
        rerun.name.isSome = true ∨ rerunTemplate.metadata.name ≠ "") := by
  have named : rerun.name ≠ some "" := by decide
  have hyphenated : Identifier.isHyphenated (rerun.runId.getD "") = true := by decide +kernel
  have earlierName : ∀ name, rerun.earlierName = some name →
      name ≠ "" ∧ ∀ c ∈ name.toList, c ≠ '\"' ∧ c ≠ '\\' := by
    intro name isName
    cases isName
    simp
  have prepared :
      (rerun.prepare ⟨.json, none⟩ "" rerunTemplate).result = .ok rerunResult := by
    decide +kernel
  exact ⟨named, hyphenated, earlierName, prepared,
    hasOneName_prepare_iff named hyphenated earlierName prepared⟩

/-- A template with the beginning of a name only. -/
def generatedTemplate : PipelineRun :=
  { PipelineRun.blank with metadata := { ObjectMeta.blank with generateName := "nightly-" } }

/-- The run prepared from it. -/
def namelessRun : PipelineRun :=
  { PipelineRun.blank with
    metadata :=
      { ObjectMeta.blank with labels := some (.ofList [(LabelKey.runId, sampleId)]) } }

/-- A run that is prepared from a template with the beginning of a name only has neither a name nor
the beginning of one. -/
theorem not_hasOneName_prepare :
    PipelineRun.ofJsonText
        (Json.braced [("metadata", Json.braced [("generateName", "\"nightly-\"")])]) =
        .ok generatedTemplate ∧
      generatedTemplate.metadata.HasOneName ∧
      Identifier.isHyphenated sampleId = true ∧
      (Preparation.prepare ⟨none, [], none, some sampleId, none, none⟩ ⟨.json, none⟩ ""
        generatedTemplate).result = .ok namelessRun ∧
      ¬ namelessRun.metadata.HasOneName := by
  decide +kernel

end Command.Preparation

end RunManifest
