import RunManifest.Command.Prepare
import RunManifest.Proofs.Label
import RunManifest.Proofs.Run.Clean
import RunManifest.Proofs.Table
import RunManifest.Proofs.Workflow.Substitution

/-!
Contract: what a prepared run is, part by part.

Owns:
- `Preparation.put`, the substitution that preparing amounts to on a single string;
- `Preparation.derived`, the prepared run, written out;
- `Preparation.result_arrange`, the run before any placeholder is replaced;
- `Preparation.prepare_derives`, preparing succeeds and gives the run as it is written out.

The identifier is recorded in a label between the two substitutions, so that label is touched by the
second of them only.
-/

set_option autoImplicit false

namespace RunManifest.Command.Preparation

open Document Text

variable (preparation : Preparation) (config : Config) (id : String) (template : PipelineRun)

/-! ## The prepared run -/

/-- The string with the earlier name put for its placeholder, if a name is given. -/
def putName (string : String) : String :=
  match preparation.earlierName with
  | none => string
  | some name => putTokens nameTokens name string

/-- The string with the identifier put for its placeholders, and then the earlier name. -/
def put (string : String) : String :=
  preparation.putName (putTokens uidTokens id string)

/-- A string becomes another as the identifier and then, if it is given, the earlier name take the
places of all their placeholders. -/
def Puts (string result : String) : Prop :=
  ∃ next, ReplacedEach id uidTokens string next ∧
    match preparation.earlierName with
    | none => result = next
    | some name => ReplacedEach name nameTokens next result

/-- The decimal digits of an integer that is not negative, and otherwise of 0. -/
def labelText (value : Int) : String :=
  String.ofList (decimal (max value 0).toNat)

/-- The labels of the prepared run. -/
def derivedLabels : Dictionary String :=
  match preparation.occasion with
  | none => .ofList [(LabelKey.runId, preparation.putName id)]
  | some occasion =>
      .ofList
        [ (LabelKey.scheduledWorkflowName, preparation.put id occasion.schedule.name),
          (LabelKey.workflowEpoch, labelText occasion.epoch),
          (LabelKey.workflowIndex, labelText occasion.index),
          (LabelKey.isOwnedBySchedule, "true"),
          (LabelKey.runId, preparation.putName id) ]

/-- The metadata of the prepared run: one of two kinds of name, labels, and the schedule as the only
owner if there is one. -/
def derivedMetadata : ObjectMeta :=
  { ObjectMeta.blank with
    name := (preparation.name.map (preparation.put id)).getD ""
    generateName :=
      if preparation.name.isSome then ""
      else preparation.put id (String.ofList (template.metadata.name.toList.take 200))
    labels := some (preparation.derivedLabels id)
    ownerReferences := preparation.occasion.map fun occasion =>
      [OwnerReference.managing .scheduledWorkflow (preparation.put id occasion.schedule.name)
        (preparation.put id occasion.schedule.uid)] }

/-- A parameter of the prepared run. Of several new values for it the last counts. -/
def derivedParam (param : Param) : Param where
  name := preparation.put id param.name
  value :=
    match preparation.params.reverse.lookup param.name with
    | some value => .text (preparation.put id value)
    | none => param.value.mapTexts (preparation.put id)

/-- What the prepared run is asked to do. -/
def derivedSpec : PipelineRunSpec where
  params := template.spec.params.map (preparation.derivedParam id)
  taskRunTemplate :=
    { serviceAccountName :=
        preparation.put id ((preparation.serviceAccount.or config.serviceAccount).getD
          template.spec.taskRunTemplate.serviceAccountName)
      extra := template.spec.taskRunTemplate.extra.map (Json.mapTexts (preparation.put id)) }
  extra := template.spec.extra.map (Json.mapTexts (preparation.put id))

/-- The prepared run. -/
def derived : PipelineRun where
  apiVersion := preparation.put id template.apiVersion
  kind := preparation.put id template.kind
  metadata := preparation.derivedMetadata id template
  spec := preparation.derivedSpec config id template
  status := .blank

/-! ## Before any placeholder is replaced -/

/-- The labels of a run with a place in a schedule. -/
def canonicalLabels (occasion : Occasion) : List (String × String) :=
  [ (LabelKey.scheduledWorkflowName, occasion.schedule.name),
    (LabelKey.workflowEpoch, labelText occasion.epoch),
    (LabelKey.workflowIndex, labelText occasion.index),
    (LabelKey.isOwnedBySchedule, "true") ]

/-- The metadata before any placeholder is replaced. -/
def arrangedMetadata : ObjectMeta :=
  { ObjectMeta.blank with
    name := preparation.name.getD ""
    generateName := if preparation.name.isSome then "" else template.cloneName
    labels := preparation.occasion.map fun occasion => .ofList (canonicalLabels occasion)
    ownerReferences := preparation.occasion.map fun occasion =>
      [OwnerReference.managing .scheduledWorkflow occasion.schedule.name occasion.schedule.uid] }

/-- What the run is asked to do before any placeholder is replaced. -/
def arrangedSpec : PipelineRunSpec :=
  { template.spec with
    params := template.spec.params.map (PipelineRun.overrideParameter preparation.desired)
    taskRunTemplate :=
      { template.spec.taskRunTemplate with
        serviceAccountName := (preparation.serviceAccount.or config.serviceAccount).getD
          template.spec.taskRunTemplate.serviceAccountName } }

/-- The run before any placeholder is replaced. -/
def arranged : PipelineRun :=
  { template with
    metadata := preparation.arrangedMetadata template
    spec := preparation.arrangedSpec config template
    status := .blank }

theorem result_format (value : Int) : (Label.format value).result = labelText value := by
  have noSign : (max value 0).toNat = value.toNat := by omega
  rw [Label.result_format, labelText, noSign]

/-- The labels and the owner that a place in a schedule gives a run without any. -/
theorem result_schedule
    (run : PipelineRun)
    (unlabelled : run.metadata.labels = none)
    (unowned : run.metadata.ownerReferences = none) :
    (schedule preparation.occasion run).result =
      { run with
        metadata :=
          { run.metadata with
            labels := preparation.occasion.map fun occasion => .ofList (canonicalLabels occasion)
            ownerReferences := preparation.occasion.map fun occasion =>
              [OwnerReference.managing .scheduledWorkflow occasion.schedule.name
                occasion.schedule.uid] } } := by
  cases preparation.occasion with
  | none =>
      obtain ⟨apiVersion, kind, metadata, spec, status⟩ := run
      obtain ⟨name, generateName, «namespace», uid, resourceVersion, time, labels, annotations,
        owners, extra⟩ := metadata
      cases unlabelled
      cases unowned
      rfl
  | some occasion =>
      simp only [schedule, PipelineRun.setOwnerReference, PipelineRun.setCanonicalLabels,
        Logged.result_bind, Logged.result_pure, result_format, PipelineRun.setLabel,
        ObjectMeta.setLabel, PipelineRun.withOwner, unlabelled, Option.getD_none, Option.getD_some,
        Option.map_some]
      rfl

theorem result_arrange :
    (preparation.arrange config template).result = preparation.arranged config template := by
  simp only [arrange, PipelineRun.specOnlyClone, Logged.result_bind, Logged.result_pure]
  rw [result_schedule]
  · simp only [arranged, arrangedMetadata, arrangedSpec, account]
    cases preparation.name <;> cases preparation.serviceAccount.or config.serviceAccount <;> rfl
  · cases preparation.name <;> cases preparation.account config <;> rfl
  · cases preparation.name <;> cases preparation.account config <;> rfl

/-- The run between the two substitutions: the identifier is put for its placeholders, and recorded
in a label. -/
def identified : PipelineRun :=
  ((preparation.arranged config template).mapTexts (putTokens uidTokens id)).setRunIdLabel id

/-- The labels between the two substitutions. -/
theorem labels_identified :
    (preparation.identified config id template).metadata.labels =
      some (.ofList (((preparation.occasion.map canonicalLabels).getD []).map
        (fun entry => (entry.1, putTokens uidTokens id entry.2)) ++ [(LabelKey.runId, id)])) := by
  rw [← Dictionary.insert_ofList, ← Dictionary.map_ofList]
  simp only [identified, arranged, arrangedMetadata, PipelineRun.setRunIdLabel,
    PipelineRun.setLabel, ObjectMeta.setLabel, PipelineRun.mapTexts, ObjectMeta.mapTexts]
  cases preparation.occasion <;> rfl

/-! ## No placeholder in any key -/

section Clean

variable {preparation config id template}

theorem sound_arranged (sound : template.Sound) : (preparation.arranged config template).Sound :=
  ⟨Schema.keeps_empty, ⟨sound.spec.template, sound.spec.extra⟩, PipelineRunStatus.sound_blank⟩

variable {allowed : String → Prop}

/-- Desired values have no keys. -/
theorem clean_arrangedSpec (clean : template.spec.Clean allowed) :
    (preparation.arrangedSpec config template).Clean allowed := by
  refine ⟨fun param member => ?_, clean.template, clean.extra⟩
  obtain ⟨source, isSource, rfl⟩ := List.mem_map.mp member
  rw [PipelineRun.overrideParameter]
  split
  · trivial
  · exact clean.params source isSource

variable (names : ∀ name, Json.hasNoStart name = true → allowed name)

include names

private theorem allowed_canonicalLabels (occasion : Option Occasion) :
    ∀ entry ∈ (occasion.map canonicalLabels).getD [], allowed entry.1 := by
  cases occasion with
  | none => simp
  | some occasion =>
      simp only [Option.map_some, Option.getD_some, canonicalLabels, List.forall_mem_cons]
      exact ⟨names _ rfl, names _ rfl, names _ rfl, names _ rfl, by simp⟩

theorem clean_arrangedMetadata :
    Json.Clean allowed
      ((ObjectMeta.schema Json.format).write (preparation.arrangedMetadata template)) := by
  refine ObjectMeta.clean_write names ?_ ?_ ?_
  · intro labels isLabels
    obtain ⟨occasion, isOccasion, rfl⟩ := Option.map_eq_some_iff.mp isLabels
    have allowedLabels := allowed_canonicalLabels names preparation.occasion
    rw [isOccasion] at allowedLabels
    exact Dictionary.forall_mem_ofList allowedLabels
  · intro annotations isAnnotations
    cases isAnnotations
  · intro entry member
    cases member

theorem clean_arranged (clean : template.spec.Clean allowed) :
    Json.Clean allowed (preparation.arranged config template).toJson :=
  PipelineRun.clean_toJson names (clean_arrangedMetadata names) (clean_arrangedSpec clean) rfl

theorem clean_metadata_identified :
    Json.Clean allowed ((ObjectMeta.schema Json.format).write
      (preparation.identified config id template).metadata) := by
  refine ObjectMeta.clean_write names ?_ ?_ ?_
  · intro labels isLabels
    rw [labels_identified] at isLabels
    cases isLabels
    refine Dictionary.forall_mem_ofList ?_
    rw [List.forall_mem_append, List.forall_mem_map]
    exact ⟨allowed_canonicalLabels names preparation.occasion, by simpa using names _ rfl⟩
  · intro annotations isAnnotations
    cases isAnnotations
  · intro entry member
    cases member

private theorem clean_identified (clean : template.spec.Clean allowed) :
    Json.Clean allowed (preparation.identified config id template).toJson :=
  PipelineRun.clean_toJson names (clean_metadata_identified names)
    ((clean_arrangedSpec clean).mapTexts _) PipelineRunStatus.mapTexts_blank

end Clean

/-! ## After both substitutions -/

/-- The placeholders that preparing replaces. -/
def placeholders : List String := uidTokens ++ nameTokens

theorem areTokens_placeholders : ∀ token ∈ placeholders, Json.IsToken token.toList :=
  List.forall_mem_append.mpr ⟨areTokens_uidTokens, areTokens_nameTokens⟩

private theorem puts_put (string : String) :
    preparation.Puts id string (preparation.put id string) := by
  refine ⟨_, replacedEach_putTokens areTokens_uidTokens id string, ?_⟩
  rw [put, putName]
  cases preparation.earlierName with
  | none => rfl
  | some name => exact replacedEach_putTokens areTokens_nameTokens name _

/-- A string without the beginning of a placeholder stays as it is. -/
theorem put_of_hasNoStart
    {string : String}
    (noStart : Json.hasNoStart string = true) :
    preparation.put id string = string := by
  have withId : putTokens uidTokens id string = string :=
    putTokens_eq_self areTokens_uidTokens id (tokenFree_of_hasNoStart areTokens_uidTokens noStart)
  rw [put, withId, putName]
  split
  · rfl
  · exact putTokens_eq_self areTokens_nameTokens _
      (tokenFree_of_hasNoStart areTokens_nameTokens noStart)

private theorem put_labelText (value : Int) :
    preparation.put id (labelText value) = labelText value := by
  refine put_of_hasNoStart preparation id (hasNoStart_of_digits_or_marks fun c member => ?_)
  rw [labelText, String.toList_ofList] at member
  exact .inl (isDigit_of_mem_decimal member)

private theorem mapTexts_overrideParameter (param : Param) :
    (PipelineRun.overrideParameter preparation.desired param).mapTexts (preparation.put id) =
      preparation.derivedParam id param := by
  rw [PipelineRun.overrideParameter, derivedParam, desired, Table.find?_ofList]
  cases preparation.params.reverse.lookup param.name <;> rfl

private theorem mapTexts_arrangedSpec :
    ((preparation.arrangedSpec config template).mapTexts (putTokens uidTokens id)).mapTexts
        preparation.putName =
      preparation.derivedSpec config id template := by
  have params : template.spec.params.map (Param.mapTexts (preparation.put id) ∘
      PipelineRun.overrideParameter preparation.desired) =
        template.spec.params.map (preparation.derivedParam id) :=
    List.map_congr_left fun param _ => preparation.mapTexts_overrideParameter id param
  rw [PipelineRunSpec.mapTexts_mapTexts, derivedSpec, ← params, ← List.map_map]
  rfl

/-- The labels after both substitutions. Numbers and the mark of a schedule have no placeholders. -/
theorem map_labels_identified :
    (preparation.identified config id template).metadata.labels.map
        (Dictionary.map preparation.putName) =
      some (preparation.derivedLabels id) := by
  rw [labels_identified, Option.map_some, Dictionary.map_ofList, derivedLabels]
  cases preparation.occasion with
  | none => rfl
  | some occasion =>
      have epoch : preparation.putName (putTokens uidTokens id (labelText occasion.epoch)) =
          labelText occasion.epoch := preparation.put_labelText id occasion.epoch
      have index : preparation.putName (putTokens uidTokens id (labelText occasion.index)) =
          labelText occasion.index := preparation.put_labelText id occasion.index
      have mark : preparation.putName (putTokens uidTokens id "true") = "true" :=
        put_of_hasNoStart preparation id rfl
      simp only [Option.map_some, Option.getD_some, canonicalLabels, List.map_cons, List.map_nil,
        List.cons_append, List.nil_append, epoch, index, mark]
      rfl

/-- The owner after both substitutions. The kind of a schedule has no placeholders. -/
theorem mapTexts_managing (name uid : String) :
    (OwnerReference.managing .scheduledWorkflow name uid).mapTexts (preparation.put id) =
      OwnerReference.managing .scheduledWorkflow (preparation.put id name)
        (preparation.put id uid) := by
  have apiVersion : preparation.put id Kind.scheduledWorkflow.apiVersion =
      Kind.scheduledWorkflow.apiVersion := put_of_hasNoStart preparation id rfl
  have kind : preparation.put id Kind.scheduledWorkflow.name = Kind.scheduledWorkflow.name :=
    put_of_hasNoStart preparation id rfl
  simp only [OwnerReference.mapTexts, OwnerReference.managing, apiVersion, kind]

private theorem map_owners_identified :
    (preparation.identified config id template).metadata.ownerReferences.map
        (List.map (OwnerReference.mapTexts preparation.putName)) =
      preparation.occasion.map fun occasion =>
        [OwnerReference.managing .scheduledWorkflow (preparation.put id occasion.schedule.name)
          (preparation.put id occasion.schedule.uid)] := by
  simp only [← mapTexts_managing]
  rw [identified, arranged, arrangedMetadata]
  cases preparation.occasion <;> rfl

theorem mapTexts_metadata_identified :
    (preparation.identified config id template).metadata.mapTexts preparation.putName =
      preparation.derivedMetadata id template := by
  have empty : preparation.put id "" = "" := put_of_hasNoStart preparation id rfl
  have name : preparation.put id (preparation.name.getD "") =
      (preparation.name.map (preparation.put id)).getD "" := by
    cases preparation.name with
    | none => exact empty
    | some name => rfl
  have generateName : preparation.put id
      (if preparation.name.isSome then "" else template.cloneName) =
        if preparation.name.isSome then ""
        else preparation.put id (String.ofList (template.metadata.name.toList.take 200)) := by
    cases preparation.name with
    | none => rfl
    | some name => exact empty
  have labels := preparation.map_labels_identified config id template
  have owners := preparation.map_owners_identified config id template
  rw [ObjectMeta.mapTexts, derivedMetadata, ObjectMeta.mk.injEq]
  exact ⟨name, generateName, empty, empty, empty, rfl, labels, rfl, owners, rfl⟩

/-- After the second substitution the run is the one that is written out. -/
theorem mapTexts_identified :
    (preparation.identified config id template).mapTexts preparation.putName =
      preparation.derived config id template := by
  rw [PipelineRun.mapTexts, derived, ← mapTexts_metadata_identified, ← mapTexts_arrangedSpec]
  rfl

/-- Putting the earlier name, if there is one, succeeds. -/
theorem result_derive
    {run : PipelineRun}
    (sound : run.Sound)
    (clean : Json.Clean (TokenFree placeholders) run.toJson)
    (plainName : ∀ name, preparation.earlierName = some name → ∀ c ∈ name.toList, Json.Plain c) :
    (derive preparation.earlierName run).result = .ok (run.mapTexts preparation.putName) := by
  unfold putName
  cases isName : preparation.earlierName with
  | none => exact congrArg Except.ok run.mapTexts_id.symm
  | some name =>
      have substituted : run.substituteText (.earlierRunName name) =
          .ok (run.mapTexts (putTokens nameTokens name)) :=
        PipelineRun.substituteText_of_clean sound clean (List.subset_append_right _ _)
          areTokens_nameTokens (plainName name isName) _
      rw [derive, Logged.result_bind, Operation.result_replaceEarlierRunName, substituted]
      rfl

variable {preparation id template}

/-- If no key of what the template asks for has a placeholder, preparing succeeds, and gives the run
as it is written out. -/
theorem prepare_derives
    {text : String}
    (read : PipelineRun.ofJsonText text = .ok template)
    (keys : ∀ key ∈ ((PipelineRunSpec.schema Json.format).write template.spec).keys,
      TokenFree placeholders key)
    (recovered : ((PipelineRunSpec.schema Json.format).write template.spec).Recovered)
    (isId : preparation.runId = some id)
    (plainId : ∀ c ∈ id.toList, Json.Plain c)
    (plainName : ∀ name, preparation.earlierName = some name → ∀ c ∈ name.toList, Json.Plain c)
    (fresh : String) :
    (∀ string, preparation.Puts id string (preparation.put id string)) ∧
      (preparation.prepare config fresh template).result =
        .ok (preparation.derived config id template) := by
  have names : ∀ name, Json.hasNoStart name = true → TokenFree placeholders name :=
    fun _ => tokenFree_of_hasNoStart areTokens_placeholders
  have clean : template.spec.Clean (TokenFree placeholders) :=
    PipelineRunSpec.clean_of_write ⟨keys, recovered⟩
  have sound : (preparation.arranged config template).Sound :=
    sound_arranged (PipelineRun.sound_of_ofJsonText read)
  have substituted : ((preparation.arranged config template).replaceUid id).result =
      .ok ((preparation.arranged config template).mapTexts (putTokens uidTokens id)) := by
    rw [Operation.result_replaceUid]
    exact PipelineRun.substituteText_of_clean sound (clean_arranged names clean)
      (List.subset_append_left _ _) areTokens_uidTokens plainId _
  -- The second substitution starts from a run that was read from a text as well.
  have soundAfter : (preparation.identified config id template).Sound := by
    have after := Operation.sound_apply sound (.replaceUid id)
    rw [Operation.apply, substituted] at after
    exact Operation.sound_apply after (.setRunIdLabel id)
  have derived := result_derive preparation soundAfter (clean_identified names clean) plainName
  rw [mapTexts_identified, identified] at derived
  refine ⟨preparation.puts_put id, ?_⟩
  simp only [prepare, Logged.result_bind, result_arrange, isId, Option.getD_some, substituted,
    derived, Logged.result_pure]

/-- A schedule whose name is the placeholder of the earlier name, before the start of its count. -/
def nightly : Preparation where
  name := none
  params := [("lr", "\"")]
  serviceAccount := some "runner"
  runId := some "42"
  occasion := some ⟨⟨"$ORIG_PR_NAME", "\\"⟩, -5, 7⟩
  earlierName := some "nightly-6"

theorem prepare_derives_nightly :
    PipelineRun.ofJsonText PipelineRun.nightlyText = .ok PipelineRun.nightly ∧
      (∀ key ∈ ((PipelineRunSpec.schema Json.format).write PipelineRun.nightly.spec).keys,
        TokenFree placeholders key) ∧
      ((PipelineRunSpec.schema Json.format).write PipelineRun.nightly.spec).Recovered ∧
      nightly.runId = some "42" ∧
      (∀ c ∈ "42".toList, Json.Plain c) ∧
      (∀ name, nightly.earlierName = some name → ∀ c ∈ name.toList, Json.Plain c) ∧
      (∀ string, nightly.Puts "42" string (nightly.put "42" string)) ∧
      (nightly.prepare ⟨.json, none⟩ "" PipelineRun.nightly).result =
        .ok (nightly.derived ⟨.json, none⟩ "42" PipelineRun.nightly) := by
  have keys : ∀ key ∈ ((PipelineRunSpec.schema Json.format).write PipelineRun.nightly.spec).keys,
      TokenFree placeholders key := by
    decide +kernel
  have recovered :
      ((PipelineRunSpec.schema Json.format).write PipelineRun.nightly.spec).Recovered := by
    decide +kernel
  have plainId : ∀ c ∈ "42".toList, Json.Plain c := Json.plain_of_all rfl
  have plainName : ∀ name, nightly.earlierName = some name → ∀ c ∈ name.toList, Json.Plain c := by
    intro name isName
    cases isName
    exact Json.plain_of_all rfl
  exact ⟨PipelineRun.read_nightly, keys, recovered, rfl, plainId, plainName,
    prepare_derives _ PipelineRun.read_nightly keys recovered rfl plainId plainName _⟩

end RunManifest.Command.Preparation
