import RunManifest.Proofs.Run.Basic
import RunManifest.Workflow.Operation

/-!
Contract: what operations keep.

Owns:
- `Operation.holds_states`, what every operation preserves holds along the way;
- `Operation.sound_apply`, every operation keeps a run sound;
- `PipelineRun.stored_runAll`, the store gives back whatever operations make of a run.
-/

set_option autoImplicit false

namespace RunManifest

namespace Operation

private theorem runAll_mem_states (run : PipelineRun) (operations : List Operation) :
    runAll run operations ∈ states run operations := by
  induction operations generalizing run with
  | nil => simp [runAll, states]
  | cons operation rest inductionHypothesis =>
      exact List.mem_cons_of_mem _ (inductionHypothesis (operation.apply run))

/-- What every operation preserves holds along the way. -/
theorem holds_states
    (holds : PipelineRun → Prop)
    {operations : List Operation}
    (preserves : ∀ operation ∈ operations, ∀ run, holds run → holds (operation.apply run))
    {run : PipelineRun}
    (start : holds run) :
    ∀ state ∈ states run operations, holds state := by
  induction operations generalizing run with
  | nil => simpa [states] using start
  | cons operation rest inductionHypothesis =>
      rw [states, List.forall_mem_cons]
      refine ⟨start, inductionHypothesis ?_ (preserves operation (by simp) run start)⟩
      intro other member
      exact preserves other (by simp [member])

/-! ## Soundness -/

/-- What holds of a run and of every run that is read from its stored text after replacements holds
after a substitution. -/
theorem settle_substituteText
    (holds : PipelineRun → Prop)
    {run : PipelineRun}
    {substitution : Substitution}
    (start : holds run)
    (read : ∀ result,
      PipelineRun.ofJsonText (Text.replaceEach substitution.replacements run.stored) = .ok result →
      holds result) :
    holds (settle run (PipelineRun.substituteText substitution run)) := by
  rw [PipelineRun.substituteText]
  split
  · rename_i result isRead
    exact read result isRead
  · exact start

private theorem result_substituteWith
    (strategy : Substitution.Strategy)
    (substitution : Substitution)
    (announcement : String)
    (run : PipelineRun) :
    (run.substituteWith strategy substitution announcement).result = strategy substitution run := by
  rw [PipelineRun.substituteWith]
  split
  · rename_i result same
    rw [same]
    rfl
  · rename_i corruption same
    rw [same]
    rfl

theorem result_replaceUid (id : String) (run : PipelineRun) :
    (run.replaceUid id).result = run.substituteText (.runUid id) :=
  result_substituteWith _ _ _ run

theorem result_replaceEarlierRunName (name : String) (run : PipelineRun) :
    (run.replaceEarlierRunName name).result = run.substituteText (.earlierRunName name) :=
  result_substituteWith _ _ _ run

/-- Every operation keeps a run sound. -/
theorem sound_apply
    {run : PipelineRun}
    (sound : run.Sound)
    (operation : Operation) :
    (operation.apply run).Sound := by
  obtain ⟨metadata, spec, status⟩ := sound
  cases operation with
  | overrideParameters desired => exact ⟨metadata, ⟨spec.template, spec.extra⟩, status⟩
  | setServiceAccount account => exact ⟨metadata, ⟨spec.template, spec.extra⟩, status⟩
  | specOnlyClone =>
      -- Blank metadata and a blank status keep no members.
      exact ⟨Document.Schema.keeps_empty, spec, PipelineRunStatus.sound_blank⟩
  | overrideName name => exact ⟨metadata, spec, status⟩
  | setOwnerReference schedule => exact ⟨metadata, spec, status⟩
  | setCanonicalLabels name epoch index => exact ⟨metadata, spec, status⟩
  | setLabel key value => exact ⟨metadata, spec, status⟩
  | setAnnotation key value => exact ⟨metadata, spec, status⟩
  | setRunIdLabel id => exact ⟨metadata, spec, status⟩
  | replaceUid id =>
      rw [apply, result_replaceUid]
      exact settle_substituteText PipelineRun.Sound ⟨metadata, spec, status⟩
        fun result read => PipelineRun.sound_of_ofJsonText read
  | replaceEarlierRunName name =>
      rw [apply, result_replaceEarlierRunName]
      exact settle_substituteText PipelineRun.Sound ⟨metadata, spec, status⟩
        fun result read => PipelineRun.sound_of_ofJsonText read

theorem sound_runAll
    {run : PipelineRun}
    (sound : run.Sound)
    (operations : List Operation) :
    (runAll run operations).Sound :=
  holds_states PipelineRun.Sound (fun operation _ _ sound => sound_apply sound operation) sound _
    (runAll_mem_states run operations)

end Operation

/-! ## The store -/

/-- The store gives back whatever operations make of a run that was read. -/
theorem PipelineRun.stored_runAll
    {text : String}
    {run : PipelineRun}
    (read : ofJsonText text = .ok run)
    (operations : List Operation)
    (recovered : (Operation.runAll run operations).toJson.Recovered) :
    ofJsonText (Operation.runAll run operations).stored = .ok (Operation.runAll run operations) :=
  ofJsonText_stored (Operation.sound_runAll (sound_of_ofJsonText read) operations) recovered

/-- A document with a quote in a key, a number of double precision and placeholders. -/
def PipelineRun.nightlyText : String :=
  Json.braced
    [("metadata", Json.braced [("name", "\"$ORIG_PR_NAME\""), ("uid", "\"7\"")]),
      ("spec", Json.braced [("\\\"", "[1.5,\"" ++ Placeholder.workflowUid ++ "\"]")])]

/-- The run that the document describes. -/
def PipelineRun.nightly : PipelineRun :=
  { blank with
    metadata := { ObjectMeta.blank with name := "$ORIG_PR_NAME", uid := "7" }
    spec :=
      { PipelineRunSpec.blank with
        extra := .ofList
          [("\"", .array [.number (.float ⟨false, 6755399441055744, -52⟩),
            .text Placeholder.workflowUid])] } }

theorem PipelineRun.read_nightly : ofJsonText nightlyText = .ok nightly := by
  decide +kernel

/-- A control character in a label, and a substitution. -/
def Operation.nightlyChanges : List Operation :=
  [.setLabel "a\\b" "\x07", .replaceUid "42"]

theorem PipelineRun.stored_runAll_nightly :
    ofJsonText nightlyText = .ok nightly ∧
      (Operation.runAll nightly Operation.nightlyChanges).toJson.Recovered ∧
      ofJsonText (Operation.runAll nightly Operation.nightlyChanges).stored =
        .ok (Operation.runAll nightly Operation.nightlyChanges) := by
  have recovered : (Operation.runAll nightly Operation.nightlyChanges).toJson.Recovered := by
    decide +kernel
  exact ⟨read_nightly, recovered, stored_runAll read_nightly _ recovered⟩

end RunManifest
