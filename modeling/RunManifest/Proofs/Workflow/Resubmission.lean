import RunManifest.Proofs.Workflow.Substitution

/-!
Contract: a copy that is ready to be submitted stays so.

Owns:
- `PipelineRun.Submittable`, a run that says nothing about an earlier submission and has at most one
  of a name and the beginning of one;
- `ObjectMeta.BlankWhere`, metadata that is blank wherever other metadata is, which holds of what is
  read from a changed document;
- `Operation.Unquoted`, the operations whose substitutions do not end strings;
- `Operation.submittable_apply`, such operations keep a run submittable, and
  `Operation.submittable_states`, every run on the way from a copy is submittable.
-/

set_option autoImplicit false

namespace RunManifest

open Document

/-! ## Metadata from a changed document -/

namespace ObjectMeta

/-- Metadata that keeps no other members, and has no name, no time and so on where other metadata
has none. -/
structure BlankWhere (source metadata : ObjectMeta) : Prop where
  name : source.name = "" → metadata.name = ""
  generateName : source.generateName = "" → metadata.generateName = ""
  noNamespace : source.namespace = "" → metadata.namespace = ""
  uid : source.uid = "" → metadata.uid = ""
  resourceVersion : source.resourceVersion = "" → metadata.resourceVersion = ""
  creationTimestamp : source.creationTimestamp = none → metadata.creationTimestamp = none
  extra : metadata.extra = .empty

private theorem blankWhere_blank (source : ObjectMeta) : source.BlankWhere blank := by
  constructor <;> intros <;> rfl

/-- A text that is written is not empty. -/
theorem ne_empty_of_write_text
    {ρ : Type}
    {name : String}
    {get : ρ → String}
    {set : String → ρ → ρ}
    {source : ρ}
    {document : Json}
    (written : (Field.text Json.format name get set).write source = some document) :
    get source ≠ "" := by
  intro isEmpty
  simp [Field.text, isEmpty] at written

/-- What is read from a changed document of metadata without other members is blank where the
metadata is: nothing is written there, and no key becomes the name of another field. -/
theorem blankWhere_of_read_said
    {said : String → String}
    {levels : Nat}
    {source metadata : ObjectMeta}
    (extra : source.extra = .empty)
    (fixed : ∀ field ∈ (schema Json.format).fields, said field.name = field.name)
    (read : (schema Json.format).read Json.format (levels + 1)
      (Json.saidNode said ((schema Json.format).write source)) = .ok metadata) :
    source.BlankWhere metadata := by
  refine Schema.holds_of_read_said source.BlankWhere source.blankWhere_blank ?_ (by decide) fixed ?_
    read
  · simp [schema, Schema.writtenOthers, extra, Dictionary.empty]
  · intro field isField document written change readField record kept
    simp only [schema, List.mem_cons, List.not_mem_nil, or_false] at isField
    rcases isField with rfl | rfl | rfl | rfl | rfl | rfl | rfl | rfl | rfl
    all_goals obtain ⟨value, -, rfl⟩ := map_eq_ok.mp readField
    · exact { kept with name := fun isEmpty => absurd isEmpty (ne_empty_of_write_text written) }
    · exact { kept with
        generateName := fun isEmpty => absurd isEmpty (ne_empty_of_write_text written) }
    · exact { kept with
        noNamespace := fun isEmpty => absurd isEmpty (ne_empty_of_write_text written) }
    · exact { kept with uid := fun isEmpty => absurd isEmpty (ne_empty_of_write_text written) }
    · exact { kept with
        resourceVersion := fun isEmpty => absurd isEmpty (ne_empty_of_write_text written) }
    · refine { kept with creationTimestamp := fun isNone => ?_ }
      simp [Field.optional, isNone] at written
    all_goals exact { kept with }

end ObjectMeta

/-! ## Runs -/

namespace PipelineRun

/-- The run says nothing about an earlier submission, and does not have both a name and the
beginning of one. -/
structure Submittable (run : PipelineRun) : Prop where
  status : run.status = .blank
  noNamespace : run.metadata.namespace = ""
  uid : run.metadata.uid = ""
  resourceVersion : run.metadata.resourceVersion = ""
  creationTimestamp : run.metadata.creationTimestamp = none
  extra : run.metadata.extra = .empty
  oneName : run.metadata.name = "" ∨ run.metadata.generateName = ""

private theorem submittable_clone (run : PipelineRun) : run.clone.Submittable :=
  ⟨rfl, rfl, rfl, rfl, rfl, rfl, .inl rfl⟩

/-- A submittable run stays submittable if a value is put for placeholders in its document. -/
theorem Submittable.of_read_said
    {source run : PipelineRun}
    (submittable : source.Submittable)
    {tokens : List String}
    (areTokens : ∀ token ∈ tokens, Json.IsToken token.toList)
    {value : String}
    (read : (schema Json.format).read Json.format Json.levels
      (Json.saidNode (putTokens tokens value) source.toJson) = .ok run) :
    run.Submittable := by
  have parts : run.status = .blank ∧ source.metadata.BlankWhere run.metadata := by
    refine Schema.holds_of_read_said
      (fun run => run.status = .blank ∧ source.metadata.BlankWhere run.metadata)
      ⟨rfl, source.metadata.blankWhere_blank⟩ rfl (by decide) (putTokens_name areTokens value rfl) ?_
      read
    intro field isField document written change readField record kept
    simp only [schema, List.mem_cons, List.not_mem_nil, or_false] at isField
    rcases isField with rfl | rfl | rfl | rfl | rfl
    all_goals obtain ⟨part, readPart, rfl⟩ := map_eq_ok.mp readField
    · exact kept
    · exact kept
    · -- The metadata is always written, and read by its own schema.
      cases written
      exact ⟨kept.1, ObjectMeta.blankWhere_of_read_said submittable.extra
        (putTokens_name areTokens value rfl) readPart⟩
    · exact kept
    · -- A status without content is not written.
      simp only [Field.part, submittable.status] at written
      cases written
  obtain ⟨status, blank⟩ := parts
  exact
    { status
      noNamespace := blank.noNamespace submittable.noNamespace
      uid := blank.uid submittable.uid
      resourceVersion := blank.resourceVersion submittable.resourceVersion
      creationTimestamp := blank.creationTimestamp submittable.creationTimestamp
      extra := blank.extra
      oneName := submittable.oneName.imp blank.name blank.generateName }

end PipelineRun

/-! ## Operations -/

namespace Operation

/-- The operation puts no quote and no backslash into a stored text. -/
def Unquoted : Operation → Prop
  | .replaceUid value => ∀ c ∈ value.toList, c ≠ '\"' ∧ c ≠ '\\'
  | .replaceEarlierRunName value => ∀ c ∈ value.toList, c ≠ '\"' ∧ c ≠ '\\'
  | _ => True

/-- A substitution keeps a run submittable. Where a control character was put into the stored text,
the substitution may fail, and the run stays as it was. -/
theorem submittable_settle
    {run : PipelineRun}
    (submittable : run.Submittable)
    {tokens : List String}
    (areTokens : ∀ token ∈ tokens, Json.IsToken token.toList)
    {value : String}
    (unquoted : ∀ c ∈ value.toList, c ≠ '\"' ∧ c ≠ '\\')
    (operation : String) :
    (settle run (run.substituteText
      ⟨operation, tokens.map fun token => (token, value)⟩)).Submittable := by
  refine settle_substituteText PipelineRun.Submittable submittable fun result read => ?_
  exact submittable.of_read_said areTokens
    (PipelineRun.read_said_of_ofJsonText areTokens unquoted read)

/-- Operations that end no string keep a run submittable. -/
theorem submittable_apply
    {run : PipelineRun}
    (submittable : run.Submittable)
    {operation : Operation}
    (unquoted : operation.Unquoted) :
    (operation.apply run).Submittable := by
  cases operation with
  | overrideParameters desired => exact { submittable with }
  | setServiceAccount account => exact { submittable with }
  | specOnlyClone => exact run.submittable_clone
  | overrideName name => exact { submittable with oneName := .inr rfl }
  | setOwnerReference schedule => exact { submittable with }
  | setCanonicalLabels name epoch index => exact { submittable with }
  | setLabel key value => exact { submittable with }
  | setAnnotation key value => exact { submittable with }
  | setRunIdLabel id => exact { submittable with }
  | replaceUid id =>
      rw [apply, result_replaceUid]
      exact submittable_settle submittable areTokens_uidTokens unquoted _
  | replaceEarlierRunName name =>
      rw [apply, result_replaceEarlierRunName]
      exact submittable_settle submittable areTokens_nameTokens unquoted _

/-- Every run on the way from a copy that is ready to be submitted is ready to be submitted. -/
theorem submittable_states
    (run : PipelineRun)
    {operations : List Operation}
    (unquoted : ∀ operation ∈ operations, operation.Unquoted) :
    ∀ state ∈ states run.specOnlyClone.result operations, state.Submittable :=
  holds_states PipelineRun.Submittable
    (fun operation member _ submittable => submittable_apply submittable (unquoted operation member))
    run.submittable_clone

/-- A placeholder in the key of a label, a substitution that fails and one that does not. -/
def nightlyEdits : List Operation :=
  [ .setLabel Placeholder.workflowUid "\"", .replaceUid "\n", .overrideName "\\",
    .replaceUid "namespace", .specOnlyClone ]

theorem submittable_states_nightly :
    (∀ operation ∈ nightlyEdits, operation.Unquoted) ∧
      ∀ state ∈ states PipelineRun.nightly.specOnlyClone.result nightlyEdits,
        state.Submittable := by
  have unquoted : ∀ operation ∈ nightlyEdits, operation.Unquoted := by
    simp [nightlyEdits, Unquoted]
  exact ⟨unquoted, submittable_states PipelineRun.nightly unquoted⟩

end Operation

end RunManifest
