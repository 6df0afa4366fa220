import RunManifest.Proofs.Document.Vocabulary
import RunManifest.Proofs.Run.Clean
import RunManifest.Proofs.Workflow.Operation

/-!
Contract: substitutions in the stored text of a run are substitutions in the strings of its
document.

Owns:
- `uidTokens` and `nameTokens`, the placeholders of templates, which can be told from the structure
  of a document;
- `putTokens`, a substitution on a single string;
- `PipelineRun.ofJson`, the run that a document describes;
- `PipelineRun.read_said_of_ofJsonText`, a run that is read after a substitution is what is read from
  the document with its strings changed;
- `PipelineRun.Refines` and `PipelineRun.substitutions_refine`, the two substitutions on stored texts
  come to the same as substitutions in documents.
-/

set_option autoImplicit false

namespace RunManifest

open Document Text

/-! ## Placeholders -/

theorem isToken_workflowUid : Json.IsToken Placeholder.workflowUid.toList :=
  ⟨Json.plain_of_all rfl, .inr ⟨_, rfl⟩⟩

theorem isToken_pipelineRunUid : Json.IsToken Placeholder.pipelineRunUid.toList :=
  ⟨Json.plain_of_all rfl, .inl ⟨_, rfl⟩⟩

theorem isToken_earlierRunName : Json.IsToken Placeholder.earlierRunName.toList :=
  ⟨Json.plain_of_all rfl, .inl ⟨_, rfl⟩⟩

/-- A change of strings by replacing placeholders leaves the empty string and instants alone. -/
theorem tame_replaceEach
    {replacements : List (String × String)}
    (areTokens : ∀ replacement ∈ replacements, Json.IsToken replacement.1.toList) :
    Tame (replaceEach replacements) where
  empty := by
    refine replaceEach_eq_self fun replacement member => ?_
    have nonempty := (areTokens replacement member).ne_nil
    exact ⟨nonempty, fun occurs => nonempty (List.infix_nil.mp occurs)⟩
  instant instant := by
    refine replaceEach_eq_self fun replacement member => ?_
    have isToken := areTokens replacement member
    exact ⟨isToken.ne_nil, isToken.not_infix_of_hasNoStart instant.hasNoStart_text⟩

/-- The placeholders of the identifier of a run, the older one first. -/
def uidTokens : List String := [Placeholder.workflowUid, Placeholder.pipelineRunUid]

/-- The placeholder of the name of the run that another was derived from. -/
def nameTokens : List String := [Placeholder.earlierRunName]

theorem areTokens_uidTokens : ∀ token ∈ uidTokens, Json.IsToken token.toList := by
  simp [uidTokens, isToken_workflowUid, isToken_pipelineRunUid]

theorem areTokens_nameTokens : ∀ token ∈ nameTokens, Json.IsToken token.toList := by
  simp [nameTokens, isToken_earlierRunName]

/-- None of the placeholders occurs in a string. -/
def TokenFree (tokens : List String) (string : String) : Prop :=
  ∀ token ∈ tokens, ¬ token.toList <:+: string.toList

instance (tokens : List String) (string : String) : Decidable (TokenFree tokens string) :=
  inferInstanceAs (Decidable (∀ token ∈ tokens, _))

/-- The string with a value put for placeholders, one placeholder after the other. -/
def putTokens (tokens : List String) (value string : String) : String :=
  replaceEach (tokens.map fun token => (token, value)) string

/-- Every occurrence of each placeholder, one placeholder after the other, is replaced by a value. -/
def ReplacedEach (value : String) : List String → String → String → Prop
  | [], string, result => result = string
  | token :: rest, string, result => ∃ next : String,
      Replaced token.toList value.toList string.toList next.toList ∧
        ReplacedEach value rest next result

section Tokens

variable
  {tokens : List String}
  (areTokens : ∀ token ∈ tokens, Json.IsToken token.toList)

include areTokens

theorem replacedEach_putTokens (value string : String) :
    ReplacedEach value tokens string (putTokens tokens value string) := by
  induction tokens generalizing string with
  | nil => rfl
  | cons token rest inductionHypothesis =>
      have nonempty := (areTokens token (by simp)).ne_nil
      refine ⟨replaceAll token value string, replaced_replaceAll nonempty value string, ?_⟩
      exact inductionHypothesis (fun other member => areTokens other (by simp [member])) _

theorem tame_putTokens (value : String) : Tame (putTokens tokens value) := by
  refine tame_replaceEach fun replacement member => ?_
  obtain ⟨token, isToken, rfl⟩ := List.mem_map.mp member
  exact areTokens token isToken

theorem areUnquoted_putTokens
    {value : String}
    (unquoted : ∀ c ∈ value.toList, c ≠ '\"' ∧ c ≠ '\\') :
    Json.AreUnquoted (tokens.map fun token => (token, value)) := by
  intro replacement member
  obtain ⟨token, isToken, rfl⟩ := List.mem_map.mp member
  exact ⟨areTokens token isToken, unquoted⟩

private theorem arePlain_putTokens
    {value : String}
    (plain : ∀ c ∈ value.toList, Json.Plain c) :
    Json.ArePlain (tokens.map fun token => (token, value)) := by
  intro replacement member
  obtain ⟨token, isToken, rfl⟩ := List.mem_map.mp member
  exact ⟨areTokens token isToken, plain⟩

theorem putTokens_eq_self
    (value : String)
    {string : String}
    (absent : TokenFree tokens string) :
    putTokens tokens value string = string := by
  refine replaceEach_eq_self fun replacement member => ?_
  obtain ⟨token, isToken, rfl⟩ := List.mem_map.mp member
  exact ⟨(areTokens token isToken).ne_nil, absent token isToken⟩

theorem tokenFree_of_hasNoStart
    {string : String}
    (noStart : Json.hasNoStart string = true) :
    TokenFree tokens string :=
  fun token isToken => (areTokens token isToken).not_infix_of_hasNoStart noStart

/-- The names of fields have no placeholders. -/
theorem putTokens_name
    {ρ : Type}
    {schema : Schema (Except Problem) Json.Node ρ}
    (value : String)
    (noStarts : (schema.fields.all fun field => Json.hasNoStart field.name) = true) :
    ∀ field ∈ schema.fields, putTokens tokens value field.name = field.name := by
  intro field isField
  exact putTokens_eq_self areTokens value
    (tokenFree_of_hasNoStart areTokens (List.all_eq_true.mp noStarts field isField))

end Tokens

/-! ## Documents -/

namespace PipelineRun

/-- The run that a document describes. -/
def ofJson (document : Json) : Except Problem PipelineRun :=
  (schema Json.format).read Json.format Json.levels (document.node some)

theorem ofJsonText_of_substituteText
    {run result : PipelineRun}
    {substitution : Substitution}
    (substituted : run.substituteText substitution = .ok result) :
    ofJsonText (replaceEach substitution.replacements run.stored) = .ok result := by
  rw [substituteText] at substituted
  split at substituted
  · rename_i read
    cases substituted
    exact read
  · cases substituted

/-- A run that is read from a stored text after values without quotes were put into it is what is
read from the document with its strings changed. -/
theorem read_said_of_ofJsonText
    {run result : PipelineRun}
    {tokens : List String}
    (areTokens : ∀ token ∈ tokens, Json.IsToken token.toList)
    {value : String}
    (unquoted : ∀ c ∈ value.toList, c ≠ '\"' ∧ c ≠ '\\')
    (read : ofJsonText (replaceEach (tokens.map fun token => (token, value)) run.stored) =
      .ok result) :
    (schema Json.format).read Json.format Json.levels
      (Json.saidNode (putTokens tokens value) run.toJson) = .ok result := by
  -- A control character among the values may make the text unreadable, but this one was read.
  rcases Json.decode_replaceEach_or_error ((schema Json.format).read Json.format)
    (areUnquoted_putTokens areTokens unquoted) run.toJson with decoded | ⟨problem, failed⟩
  · exact decoded.symm.trans read
  · exact absurd (failed.symm.trans read) (by simp)

/-- A substitution in the stored text of a run is a change of all strings of its document. -/
theorem substituteText_eq_ofJson
    {run : PipelineRun}
    (sound : run.Sound)
    (recovered : run.toJson.Recovered)
    {substitution : Substitution}
    (plain : Json.ArePlain substitution.replacements) :
    substituteText substitution run =
      (ofJson (run.toJson.mapStrings (replaceEach substitution.replacements)
        (replaceEach substitution.replacements))).mapError
          fun cause => ⟨substitution.operation, run.stored, cause⟩ := by
  have fits : run.toJson.Fits Json.levels := (restores tame_id sound).fits
  have decoded : ofJsonText (replaceEach substitution.replacements run.stored) =
      ofJson (run.toJson.mapStrings (replaceEach substitution.replacements)
        (replaceEach substitution.replacements)) := by
    rw [ofJsonText, stored, Json.decode_replaceEach _ plain, Json.saidNode,
      Json.node_reading fits recovered, ofJson]
  rw [substituteText, decoded]
  cases ofJson (run.toJson.mapStrings (replaceEach substitution.replacements)
    (replaceEach substitution.replacements)) <;> rfl

/-- If no key has a placeholder, the run that is described is the run with its texts changed. -/
theorem ofJson_mapStrings
    {run : PipelineRun}
    (sound : run.Sound)
    (recovered : run.toJson.Recovered)
    {onString : String → String}
    (tame : Tame onString)
    (fixed : ∀ key ∈ run.toJson.keys, onString key = key) :
    ofJson (run.toJson.mapStrings onString onString) = .ok (run.mapTexts onString) := by
  have restored := restores tame sound
  rw [Json.mapStrings_eq_mapTexts onString onString run.toJson fixed, ofJson,
    ← Json.node_reading restored.fits recovered]
  exact restored.reads recovered

/-- An outcome is that of putting a value for placeholders in the strings of the document of a run:
the same run, or a failure for the same cause. Where no key has a placeholder it is a success, and
the run has its texts changed and all else unchanged. -/
structure Refines
    (run : PipelineRun)
    (tokens : List String)
    (value : String)
    (outcome : Except Corruption PipelineRun) : Prop where
  replaces : ∀ string, ReplacedEach value tokens string (putTokens tokens value string)
  same : outcome.mapError Corruption.cause =
    ofJson (run.toJson.mapStrings (putTokens tokens value) (putTokens tokens value))
  succeeds : (∀ key ∈ run.toJson.keys, TokenFree tokens key) →
    outcome = .ok (run.mapTexts (putTokens tokens value))

theorem refines_substituteText
    {run : PipelineRun}
    (sound : run.Sound)
    (recovered : run.toJson.Recovered)
    {tokens : List String}
    (areTokens : ∀ token ∈ tokens, Json.IsToken token.toList)
    {value : String}
    (plain : ∀ c ∈ value.toList, Json.Plain c)
    (operation : String) :
    run.Refines tokens value
      (run.substituteText ⟨operation, tokens.map fun token => (token, value)⟩) := by
  have outcome : run.substituteText ⟨operation, tokens.map fun token => (token, value)⟩ =
      (ofJson (run.toJson.mapStrings (putTokens tokens value) (putTokens tokens value))).mapError
        fun cause => ⟨operation, run.stored, cause⟩ :=
    substituteText_eq_ofJson sound recovered (arePlain_putTokens areTokens plain)
  refine ⟨replacedEach_putTokens areTokens value, ?_, fun absent => ?_⟩
  · rw [outcome]
    cases ofJson (run.toJson.mapStrings (putTokens tokens value) (putTokens tokens value)) <;> rfl
  · rw [outcome, ofJson_mapStrings sound recovered (tame_putTokens areTokens value)
      fun key isKey => putTokens_eq_self areTokens value (absent key isKey)]
    rfl

/-- A run whose keys have no placeholders is given back by a substitution with its texts changed. -/
theorem substituteText_of_clean
    {run : PipelineRun}
    (sound : run.Sound)
    {tokens placeholders : List String}
    (clean : Json.Clean (TokenFree placeholders) run.toJson)
    (among : tokens ⊆ placeholders)
    (areTokens : ∀ token ∈ tokens, Json.IsToken token.toList)
    {value : String}
    (plain : ∀ c ∈ value.toList, Json.Plain c)
    (operation : String) :
    run.substituteText ⟨operation, tokens.map fun token => (token, value)⟩ =
      .ok (run.mapTexts (putTokens tokens value)) :=
  (refines_substituteText sound clean.recovered areTokens plain operation).succeeds
    fun key isKey token isToken => clean.keys key isKey token (among isToken)

/-- The two substitutions on the stored text of a run come to the same as substitutions in the
strings of its document, whatever operations made of the run. -/
theorem substitutions_refine
    {text : String}
    {initial : PipelineRun}
    (read : ofJsonText text = .ok initial)
    (operations : List Operation)
    (recovered : (Operation.runAll initial operations).toJson.Recovered)
    {value : String}
    (plain : ∀ c ∈ value.toList, Json.Plain c) :
    (Operation.runAll initial operations).Refines uidTokens value
        ((Operation.runAll initial operations).replaceUid value).result ∧
      (Operation.runAll initial operations).Refines nameTokens value
        ((Operation.runAll initial operations).replaceEarlierRunName value).result := by
  have sound := Operation.sound_runAll (sound_of_ofJsonText read) operations
  rw [Operation.result_replaceUid, Operation.result_replaceEarlierRunName]
  exact ⟨refines_substituteText sound recovered areTokens_uidTokens plain _,
    refines_substituteText sound recovered areTokens_nameTokens plain _⟩

/-- The run with a placeholder in the key of a label. -/
def labelledNightly : PipelineRun :=
  Operation.runAll nightly [.setLabel "$ORIG_PR_NAME" "\\"]

/-- The value that is put holds a placeholder twice. -/
theorem substitutions_refine_nightly :
    ofJsonText nightlyText = .ok nightly ∧
      labelledNightly.toJson.Recovered ∧
      (∀ c ∈ "$ORIG_PR_NAME$ORIG_PR_NAME".toList, Json.Plain c) ∧
      labelledNightly.Refines uidTokens "$ORIG_PR_NAME$ORIG_PR_NAME"
        (labelledNightly.replaceUid "$ORIG_PR_NAME$ORIG_PR_NAME").result ∧
      labelledNightly.Refines nameTokens "$ORIG_PR_NAME$ORIG_PR_NAME"
        (labelledNightly.replaceEarlierRunName "$ORIG_PR_NAME$ORIG_PR_NAME").result := by
  have recovered : labelledNightly.toJson.Recovered := by
    decide +kernel
  have plain : ∀ c ∈ "$ORIG_PR_NAME$ORIG_PR_NAME".toList, Json.Plain c := Json.plain_of_all rfl
  exact ⟨read_nightly, recovered, plain, substitutions_refine read_nightly _ recovered plain⟩

end PipelineRun

end RunManifest
