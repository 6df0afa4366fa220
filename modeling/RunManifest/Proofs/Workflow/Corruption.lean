import RunManifest.Proofs.Workflow.Placeholders

/-!
Contract: when substitutions fail, and what a failure leaves behind.

Owns:
- `PipelineRun.substituteText_of_control`, a value with a control character does not get into a run;
- `PipelineRun.eq_of_substituteText_error`, what a failed substitution tells;
- `PipelineRun.Settles` and `PipelineRun.substitutions_settle`, a substitution without placeholders
  changes nothing, one that puts a control character into a string fails, and one that fails tells
  what it was for and which text the run is stored as, and leaves the run as it was.

The conditions are about the strings of a document, while replacing works on its text. No
placeholder is made up of what stands between strings, of escapes or of numbers.
-/

set_option autoImplicit false

namespace RunManifest

open Document

namespace PipelineRun

section Failures

variable {run : PipelineRun} {tokens : List String} {operation value : String}

private theorem exists_infix_of_not_tokenFree
    {string : String}
    (occurs : ¬ TokenFree tokens string) :
    ∃ token ∈ tokens, token.toList <:+: string.toList := by
  simpa [TokenFree] using occurs

/-- A control character that is put into a string makes a substitution fail. -/
theorem substituteText_of_control
    (areTokens : ∀ token ∈ tokens, Json.IsToken token.toList)
    (unquoted : ∀ c ∈ value.toList, c ≠ '\"' ∧ c ≠ '\\')
    (control : ∃ c ∈ value.toList, c.toNat < 0x20)
    (occurs : ∃ string ∈ run.toJson.strings, ¬ TokenFree tokens string)
    (operation : String) :
    ∃ corruption, run.substituteText ⟨operation, tokens.map fun token => (token, value)⟩ =
      .error corruption := by
  obtain ⟨string, isString, inString⟩ := occurs
  obtain ⟨problem, refused⟩ := Json.decode_replaceEach_of_control
    ((schema Json.format).read Json.format) (areUnquoted_putTokens areTokens unquoted) control
    ⟨string, isString, exists_infix_of_not_tokenFree inString⟩
  refine ⟨⟨operation, run.stored, problem⟩, ?_⟩
  rw [substituteText, ofJsonText, stored, refused]

/-- A failed substitution tells what it was for and which text it was tried on. -/
theorem eq_of_substituteText_error
    {substitution : Substitution}
    {corruption : Corruption}
    (failed : run.substituteText substitution = .error corruption) :
    corruption.operation = substitution.operation ∧ corruption.manifest = run.stored := by
  rw [substituteText] at failed
  split at failed
  · cases failed
  · cases failed
    exact ⟨rfl, rfl⟩

end Failures

/-- What becomes of a substitution and of the run it is tried on. -/
structure Settles
    (run : PipelineRun)
    (tokens : List String)
    (operation value : String)
    (outcome : Except Corruption PipelineRun)
    (after : PipelineRun) : Prop where
  /-- Without a placeholder in any key or text, nothing changes, whatever the value. -/
  unchanged : (∀ string ∈ run.toJson.strings, TokenFree tokens string) → outcome = .ok run
  /-- A control character in a value without quotes and backslashes cannot be put anywhere. -/
  refused : (∃ string ∈ run.toJson.strings, ¬ TokenFree tokens string) →
    (∃ c ∈ value.toList, c.toNat < 0x20) → (∀ c ∈ value.toList, c ≠ '\"' ∧ c ≠ '\\') →
    ∃ corruption, outcome = .error corruption
  /-- A failure tells what was tried on which text, and leaves the run as it was. -/
  failed : ∀ corruption, outcome = .error corruption →
    corruption.operation = operation ∧ corruption.manifest = run.stored ∧ after = run

private theorem settles_substituteText
    {run : PipelineRun}
    (sound : run.Sound)
    (recovered : run.toJson.Recovered)
    {tokens : List String}
    (areTokens : ∀ token ∈ tokens, Json.IsToken token.toList)
    (operation value : String) :
    run.Settles tokens operation value
      (run.substituteText ⟨operation, tokens.map fun token => (token, value)⟩)
      (Operation.settle run
        (run.substituteText ⟨operation, tokens.map fun token => (token, value)⟩)) where
  unchanged absent :=
    substituteText_of_tokenFree areTokens sound recovered (tokenFree_stored areTokens absent)
      operation value
  refused occurs control unquoted :=
    substituteText_of_control areTokens unquoted control occurs operation
  failed corruption isError := by
    obtain ⟨sameOperation, sameManifest⟩ := eq_of_substituteText_error isError
    exact ⟨sameOperation, sameManifest, by rw [isError, Operation.settle]⟩

/-- Both substitutions, on whatever operations made of a run that was read. -/
theorem substitutions_settle
    {text : String}
    {initial : PipelineRun}
    (read : ofJsonText text = .ok initial)
    (operations : List Operation)
    (recovered : (Operation.runAll initial operations).toJson.Recovered)
    (value : String) :
    (Operation.runAll initial operations).Settles uidTokens "replace run uid" value
        ((Operation.runAll initial operations).replaceUid value).result
        ((Operation.replaceUid value).apply (Operation.runAll initial operations)) ∧
      (Operation.runAll initial operations).Settles nameTokens "replace original run name" value
        ((Operation.runAll initial operations).replaceEarlierRunName value).result
        ((Operation.replaceEarlierRunName value).apply (Operation.runAll initial operations)) := by
  have sound := Operation.sound_runAll (sound_of_ofJsonText read) operations
  rw [Operation.apply, Operation.apply, Operation.result_replaceUid,
    Operation.result_replaceEarlierRunName]
  exact ⟨settles_substituteText sound recovered areTokens_uidTokens _ value,
    settles_substituteText sound recovered areTokens_nameTokens _ value⟩

/-- A run with a placeholder of the identifier and none of the earlier name. -/
def renamedNightly : PipelineRun :=
  Operation.runAll nightly [.overrideName "night-7"]

/-- A line break fails where there is a placeholder, a quote does no harm where there is none. -/
theorem substitutions_settle_nightly :
    ofJsonText nightlyText = .ok nightly ∧
      renamedNightly.toJson.Recovered ∧
      (∃ corruption, (renamedNightly.replaceUid "4\n2").result = .error corruption ∧
        corruption.operation = "replace run uid" ∧ corruption.manifest = renamedNightly.stored ∧
        (Operation.replaceUid "4\n2").apply renamedNightly = renamedNightly) ∧
      (renamedNightly.replaceEarlierRunName "4\"2").result = .ok renamedNightly := by
  have recovered : renamedNightly.toJson.Recovered := by
    decide +kernel
  have settles := substitutions_settle read_nightly [.overrideName "night-7"] recovered
  obtain ⟨corruption, isError⟩ := (settles "4\n2").1.refused (by decide +kernel)
    ⟨'\n', by simp, by decide⟩ (by simp)
  refine ⟨read_nightly, recovered, ⟨corruption, isError, (settles "4\n2").1.failed _ isError⟩, ?_⟩
  exact (settles "4\"2").2.unchanged (by decide +kernel)

end PipelineRun

end RunManifest
