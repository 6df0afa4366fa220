import RunManifest.Proofs.Command.Identifier
import RunManifest.Proofs.Run.Vocabulary
import RunManifest.Proofs.Text.Apart
import RunManifest.Proofs.Workflow.Substitution

/-!
Contract: substitutions leave no placeholders behind and do not get in each other's way.

Owns:
- `tokenFree_putTokens`, a value that is apart from placeholders leaves none of them in a string;
- `putTokens_comm`, values for different placeholders can be put in either order;
- `PipelineRun.within_of_substituteText`, the strings of a run after a substitution are those that
  the substitution makes;
- `PipelineRun.tokenFree_replaceUid`, the placeholders of the identifier are gone from the stored
  text, so a second identifier changes nothing;
- `PipelineRun.substitutions_comm`, the identifier and the earlier name can be put in either order.
-/

set_option autoImplicit false

namespace RunManifest

open Document Text

/-! ## Strings -/

section Strings

variable
  {tokens others : List String}
  (areTokens : ∀ token ∈ tokens, Json.IsToken token.toList)
  {value second : String}

include areTokens

/-- Placeholders from which the value is apart do not come up. -/
theorem TokenFree.putTokens
    (apart : ∀ other ∈ others, Apart value.toList other.toList)
    {string : String}
    (absent : TokenFree others string) :
    TokenFree others (putTokens tokens value string) := by
  induction tokens generalizing string with
  | nil => exact absent
  | cons token rest inductionHypothesis =>
      refine inductionHypothesis (fun other member => areTokens other (by simp [member])) ?_
      intro other isOther
      have nonempty := (areTokens token (by simp)).ne_nil
      rw [toList_replaceAll nonempty]
      refine (apart other isOther).not_infix_replaceFrom nonempty fun part isSuffix occurs => ?_
      exact absurd (occurs.isInfix.trans isSuffix.isInfix) (absent other isOther)

/-- A value that is apart from the placeholders it is put for leaves none of them. -/
theorem tokenFree_putTokens
    (apart : ∀ token ∈ tokens, Apart value.toList token.toList)
    (string : String) :
    TokenFree tokens (putTokens tokens value string) := by
  induction tokens generalizing string with
  | nil => simp [TokenFree]
  | cons token rest inductionHypothesis =>
      have restAreTokens : ∀ other ∈ rest, Json.IsToken other.toList :=
        fun other member => areTokens other (by simp [member])
      have restApart : ∀ other ∈ rest, Apart value.toList other.toList :=
        fun other member => apart other (by simp [member])
      -- The first placeholder is gone after its own replacement and does not come up later.
      have gone : TokenFree [token] (replaceAll token value string) := by
        have nonempty := (areTokens token (by simp)).ne_nil
        simp only [TokenFree, List.mem_singleton, forall_eq]
        rw [toList_replaceAll nonempty]
        exact (apart token (by simp)).not_infix_replaceFrom nonempty fun _ _ occurs => occurs
      have stillGone := TokenFree.putTokens restAreTokens (by simpa using apart token (by simp)) gone
      rw [TokenFree, List.forall_mem_cons]
      exact ⟨stillGone token (by simp), inductionHypothesis restAreTokens restApart _⟩

/-- One placeholder changes places with all of another kind, if none of them begins in the other and
each value is apart from the placeholders that the other is put for. -/
theorem putTokens_replaceAll
    {token : String}
    (nonempty : token.toList ≠ [])
    {first : String}
    (clear : ∀ other ∈ tokens,
      Clear token.toList other.toList ∧ Clear other.toList token.toList)
    (firstApart : ∀ other ∈ tokens, Apart first.toList other.toList)
    (valueApart : Apart value.toList token.toList)
    (string : String) :
    putTokens tokens value (replaceAll token first string) =
      replaceAll token first (putTokens tokens value string) := by
  induction tokens generalizing string with
  | nil => rfl
  | cons other rest inductionHypothesis =>
      obtain ⟨isOther, areRest⟩ := List.forall_mem_cons.mp areTokens
      obtain ⟨⟨tokenClear, otherClear⟩, restClear⟩ := List.forall_mem_cons.mp clear
      obtain ⟨otherApart, restApart⟩ := List.forall_mem_cons.mp firstApart
      have passesOne := replaceAll_comm nonempty isOther.ne_nil tokenClear otherClear otherApart
        valueApart string
      have passesRest := inductionHypothesis areRest restClear restApart
        (replaceAll other value string)
      rw [← passesOne] at passesRest
      exact passesRest

/-- Values can be put for placeholders of two kinds in either order. -/
theorem putTokens_comm
    (areOthers : ∀ other ∈ others, Json.IsToken other.toList)
    (clear : ∀ token ∈ tokens, ∀ other ∈ others,
      Clear token.toList other.toList ∧ Clear other.toList token.toList)
    (valueApart : ∀ other ∈ others, Apart value.toList other.toList)
    (secondApart : ∀ token ∈ tokens, Apart second.toList token.toList)
    (string : String) :
    putTokens others second (putTokens tokens value string) =
      putTokens tokens value (putTokens others second string) := by
  induction tokens generalizing string with
  | nil => rfl
  | cons token rest inductionHypothesis =>
      obtain ⟨isToken, areRest⟩ := List.forall_mem_cons.mp areTokens
      obtain ⟨tokenClear, restClear⟩ := List.forall_mem_cons.mp clear
      obtain ⟨tokenApart, restApart⟩ := List.forall_mem_cons.mp secondApart
      have later := inductionHypothesis areRest restClear restApart (replaceAll token value string)
      rw [putTokens_replaceAll areOthers isToken.ne_nil tokenClear valueApart tokenApart] at later
      exact later

end Strings

/-- No placeholder begins in another. -/
theorem clear_of_ne :
    ∀ token ∈ uidTokens ++ nameTokens, ∀ other ∈ uidTokens ++ nameTokens, token ≠ other →
      Clear token.toList other.toList := by
  decide +kernel

/-- The identifier and the earlier name can be put in either order. -/
theorem putTokens_nameTokens_uidTokens
    {id name : String}
    (apartId : ∀ token ∈ nameTokens, Apart id.toList token.toList)
    (apartName : ∀ token ∈ uidTokens, Apart name.toList token.toList)
    (string : String) :
    putTokens nameTokens name (putTokens uidTokens id string) =
      putTokens uidTokens id (putTokens nameTokens name string) := by
  refine putTokens_comm areTokens_uidTokens areTokens_nameTokens ?_ apartId apartName string
  intro token isToken other isOther
  have different : token ≠ other := by
    rintro rfl
    revert token
    decide
  exact ⟨clear_of_ne token (List.mem_append_left _ isToken) other (List.mem_append_right _ isOther)
      different,
    clear_of_ne other (List.mem_append_right _ isOther) token (List.mem_append_left _ isToken)
      different.symm⟩

/-- The identifier can be put for its two placeholders in either order. -/
theorem putTokens_reverse_uidTokens
    {id : String}
    (apart : ∀ token ∈ uidTokens, Apart id.toList token.toList)
    (string : String) :
    putTokens uidTokens.reverse id string = putTokens uidTokens id string :=
  replaceAll_comm isToken_pipelineRunUid.ne_nil isToken_workflowUid.ne_nil
    (clear_of_ne _ (by decide) _ (by decide) (by decide))
    (clear_of_ne _ (by decide) _ (by decide) (by decide))
    (apart _ (by decide)) (apart _ (by decide)) string

/-- Hyphenated identifiers are apart from all placeholders. -/
theorem apart_of_isHyphenated_of_mem
    {id : String}
    (hyphenated : Command.Identifier.isHyphenated id = true) :
    ∀ token ∈ uidTokens ++ nameTokens, Apart id.toList token.toList := by
  simp only [uidTokens, nameTokens, List.cons_append, List.nil_append, List.forall_mem_cons]
  refine ⟨?_, ?_, ?_, by simp⟩
  · exact Command.Identifier.apart_of_isHyphenated hyphenated isToken_workflowUid.ne_nil (by decide)
      (by decide) (by decide)
  · exact Command.Identifier.apart_of_isHyphenated hyphenated isToken_pipelineRunUid.ne_nil
      (by decide) (by decide) (by decide)
  · exact Command.Identifier.apart_of_isHyphenated hyphenated isToken_earlierRunName.ne_nil
      (by decide) (by decide) (by decide)

/-! ## Runs -/

/-- Keys and texts without certain placeholders, and numbers that are recovered. -/
def Vocabulary.without
    {keyTokens textTokens : List String}
    (areKeyTokens : ∀ token ∈ keyTokens, Json.IsToken token.toList)
    (areTextTokens : ∀ token ∈ textTokens, Json.IsToken token.toList) : Vocabulary where
  key := TokenFree keyTokens
  text := TokenFree textTokens
  float := Binary64.Recovered
  key_of_hasNoStart _ := tokenFree_of_hasNoStart areKeyTokens
  text_of_hasNoStart _ := tokenFree_of_hasNoStart areTextTokens

namespace PipelineRun

section Substituted

variable
  {run result : PipelineRun}
  {tokens : List String}
  (areTokens : ∀ token ∈ tokens, Json.IsToken token.toList)
  {operation value : String}

private theorem sound_of_substituteText
    {substitution : Substitution}
    (substituted : run.substituteText substitution = .ok result) :
    result.Sound :=
  sound_of_ofJsonText (ofJsonText_of_substituteText substituted)

include areTokens

/-- The document of a run after a substitution has only keys and texts that the substitution makes,
and only numbers that the run had. -/
theorem within_of_substituteText
    (sound : run.Sound)
    (recovered : run.toJson.Recovered)
    (plain : ∀ c ∈ value.toList, Json.Plain c)
    (substituted :
      run.substituteText ⟨operation, tokens.map fun token => (token, value)⟩ = .ok result)
    {vocabulary : Vocabulary}
    (keys : ∀ key ∈ run.toJson.keys, vocabulary.key (putTokens tokens value key))
    (texts : ∀ string, vocabulary.text (putTokens tokens value string))
    (floats : ∀ x ∈ run.toJson.floats, vocabulary.float x) :
    result.toJson.Within vocabulary := by
  have read := (refines_substituteText sound recovered areTokens plain operation).same
  rw [substituted] at read
  exact keepsTo _ _ (Json.within_mapStrings keys texts floats).node read.symm

/-- Placeholders that no string of a document has are not in the stored text. -/
theorem tokenFree_stored (absent : ∀ string ∈ run.toJson.strings, TokenFree tokens string) :
    TokenFree tokens run.stored := by
  intro token isToken
  rw [stored, String.toList_ofList]
  exact Json.not_infix_compact (areTokens token isToken) fun string occurs =>
    absent string occurs token isToken

/-- A substitution for placeholders that are not in the stored text changes nothing. -/
theorem substituteText_of_tokenFree
    (sound : run.Sound)
    (recovered : run.toJson.Recovered)
    (absent : TokenFree tokens run.stored)
    (operation value : String) :
    run.substituteText ⟨operation, tokens.map fun token => (token, value)⟩ = .ok run := by
  have unchanged : replaceEach (tokens.map fun token => (token, value)) run.stored = run.stored :=
    putTokens_eq_self areTokens value absent
  rw [substituteText, unchanged, ofJsonText_stored sound recovered]

/-- A value that is apart from the placeholders it is put for leaves none of them in a run. -/
theorem tokenFree_of_substituteText
    (sound : run.Sound)
    (recovered : run.toJson.Recovered)
    (plain : ∀ c ∈ value.toList, Json.Plain c)
    (apart : ∀ token ∈ tokens, Apart value.toList token.toList)
    (substituted :
      run.substituteText ⟨operation, tokens.map fun token => (token, value)⟩ = .ok result) :
    result.toJson.Recovered ∧ TokenFree tokens result.stored := by
  have free := tokenFree_putTokens areTokens apart
  have within : result.toJson.Within (.without areTokens areTokens) :=
    within_of_substituteText areTokens sound recovered plain substituted (fun key _ => free key) free
      recovered
  refine ⟨within.float_of_mem_floats, tokenFree_stored areTokens fun string occurs => ?_⟩
  exact (within.of_mem_strings string occurs).elim id id

end Substituted

/-- A substitution brings no placeholders into keys that have none. -/
theorem clean_of_substituteText
    {run result : PipelineRun}
    (sound : run.Sound)
    {tokens placeholders : List String}
    (arePlaceholders : ∀ token ∈ placeholders, Json.IsToken token.toList)
    (clean : Json.Clean (TokenFree placeholders) run.toJson)
    (among : tokens ⊆ placeholders)
    {operation value : String}
    (plain : ∀ c ∈ value.toList, Json.Plain c)
    (substituted :
      run.substituteText ⟨operation, tokens.map fun token => (token, value)⟩ = .ok result) :
    Json.Clean (TokenFree placeholders) result.toJson := by
  have areTokens : ∀ token ∈ tokens, Json.IsToken token.toList :=
    fun token isToken => arePlaceholders token (among isToken)
  have within : result.toJson.Within (.without arePlaceholders (List.forall_mem_nil _)) := by
    refine within_of_substituteText areTokens sound clean.recovered plain substituted
      (fun key isKey => ?_) (fun _ => List.forall_mem_nil _) clean.recovered
    have absent := clean.keys key isKey
    rw [putTokens_eq_self areTokens value fun token isToken => absent token (among isToken)]
    exact absent
  exact ⟨within.key_of_mem_keys, within.float_of_mem_floats⟩

/-- Two substitutions one after the other succeed on a run whose keys have no placeholders. -/
theorem substituteText_twice_of_clean
    {run : PipelineRun}
    (sound : run.Sound)
    {first second placeholders : List String}
    (arePlaceholders : ∀ token ∈ placeholders, Json.IsToken token.toList)
    (clean : Json.Clean (TokenFree placeholders) run.toJson)
    (firstAmong : first ⊆ placeholders)
    (secondAmong : second ⊆ placeholders)
    {value other : String}
    (plainValue : ∀ c ∈ value.toList, Json.Plain c)
    (plainOther : ∀ c ∈ other.toList, Json.Plain c)
    (operation later : String) :
    run.substituteText ⟨operation, first.map fun token => (token, value)⟩ =
        .ok (run.mapTexts (putTokens first value)) ∧
      (run.mapTexts (putTokens first value)).substituteText
          ⟨later, second.map fun token => (token, other)⟩ =
        .ok (run.mapTexts (putTokens second other ∘ putTokens first value)) := by
  have substituted := substituteText_of_clean sound clean firstAmong
    (fun token isToken => arePlaceholders token (firstAmong isToken)) plainValue operation
  have cleanAfter := clean_of_substituteText sound arePlaceholders clean firstAmong plainValue
    substituted
  have substitutedAgain := substituteText_of_clean (sound_of_substituteText substituted) cleanAfter
    secondAmong (fun token isToken => arePlaceholders token (secondAmong isToken)) plainOther later
  rw [mapTexts_mapTexts] at substitutedAgain
  exact ⟨substituted, substitutedAgain⟩

/-- Once an identifier that is apart from its placeholders was put for them, whatever operations had
made of the run, they are gone from the stored text and any further identifier changes nothing. All
hyphenated identifiers are apart from the placeholders, and those made of random bits are
hyphenated. -/
theorem tokenFree_replaceUid
    {text : String}
    {initial : PipelineRun}
    (read : ofJsonText text = .ok initial)
    (operations : List Operation)
    (recovered : (Operation.runAll initial operations).toJson.Recovered)
    {id : String}
    (plain : ∀ c ∈ id.toList, Json.Plain c)
    (apart : ∀ token ∈ uidTokens, Apart id.toList token.toList)
    {result : PipelineRun}
    (replaced : ((Operation.runAll initial operations).replaceUid id).result = .ok result) :
    TokenFree uidTokens result.stored ∧
      (∀ other : String, (result.replaceUid other).result = .ok result) ∧
      (∀ hyphenated : String, Command.Identifier.isHyphenated hyphenated = true →
        ∀ token ∈ uidTokens, Apart hyphenated.toList token.toList) ∧
      ∀ bits : Nat, Command.Identifier.isHyphenated (Command.Identifier.ofBits bits) = true := by
  have sound := Operation.sound_runAll (sound_of_ofJsonText read) operations
  rw [Operation.result_replaceUid] at replaced
  obtain ⟨stillRecovered, absent⟩ :=
    tokenFree_of_substituteText areTokens_uidTokens sound recovered plain apart replaced
  refine ⟨absent, fun other => ?_, fun hyphenated isHyphenated token isToken => ?_,
    Command.Identifier.isHyphenated_ofBits⟩
  · rw [Operation.result_replaceUid]
    exact substituteText_of_tokenFree areTokens_uidTokens (sound_of_substituteText replaced)
      stillRecovered absent _ other
  · exact apart_of_isHyphenated_of_mem isHyphenated token (List.mem_append_left _ isToken)

/-- A label with one placeholder of the identifier in its key and the other in its text. -/
def nightlyLabel : List Operation :=
  [.setLabel Placeholder.workflowUid Placeholder.pipelineRunUid]

/-- The run with that label after the identifier was put for its placeholders. -/
def numberedNightly : PipelineRun :=
  { nightly with
    metadata := { nightly.metadata with labels := some (.ofList [("42", "42")]) }
    spec :=
      { PipelineRunSpec.blank with
        extra := .ofList
          [("\"", .array [.number (.float ⟨false, 6755399441055744, -52⟩), .text "42"])] } }

theorem tokenFree_replaceUid_nightly :
    ofJsonText nightlyText = .ok nightly ∧
      (Operation.runAll nightly nightlyLabel).toJson.Recovered ∧
      (∀ c ∈ "42".toList, Json.Plain c) ∧
      (∀ token ∈ uidTokens, Apart "42".toList token.toList) ∧
      ((Operation.runAll nightly nightlyLabel).replaceUid "42").result = .ok numberedNightly ∧
      TokenFree uidTokens numberedNightly.stored ∧
      ∀ other : String, (numberedNightly.replaceUid other).result = .ok numberedNightly := by
  have recovered : (Operation.runAll nightly nightlyLabel).toJson.Recovered := by
    decide +kernel
  have plain : ∀ c ∈ "42".toList, Json.Plain c := Json.plain_of_all rfl
  have apart : ∀ token ∈ uidTokens, Apart "42".toList token.toList := by
    decide +kernel
  have replaced :
      ((Operation.runAll nightly nightlyLabel).replaceUid "42").result = .ok numberedNightly := by
    decide +kernel
  obtain ⟨absent, unchanged, -⟩ :=
    tokenFree_replaceUid read_nightly nightlyLabel recovered plain apart replaced
  exact ⟨read_nightly, recovered, plain, apart, replaced, absent, unchanged⟩

/-- The identifier and the earlier name can be put in either order, and so can the identifier for its
two placeholders, if no key has a placeholder and both values are apart from all placeholders. -/
theorem substitutions_comm
    {text : String}
    {initial : PipelineRun}
    (read : ofJsonText text = .ok initial)
    (operations : List Operation)
    (recovered : (Operation.runAll initial operations).toJson.Recovered)
    (keys : ∀ key ∈ (Operation.runAll initial operations).toJson.keys,
      TokenFree (uidTokens ++ nameTokens) key)
    {id name : String}
    (plainId : ∀ c ∈ id.toList, Json.Plain c)
    (plainName : ∀ c ∈ name.toList, Json.Plain c)
    (apartId : ∀ token ∈ uidTokens ++ nameTokens, Apart id.toList token.toList)
    (apartName : ∀ token ∈ uidTokens ++ nameTokens, Apart name.toList token.toList) :
    ∃ identified named result : PipelineRun,
      ((Operation.runAll initial operations).replaceUid id).result = .ok identified ∧
      (identified.replaceEarlierRunName name).result = .ok result ∧
      ((Operation.runAll initial operations).replaceEarlierRunName name).result = .ok named ∧
      (named.replaceUid id).result = .ok result ∧
      (Operation.runAll initial operations).substituteText
          ⟨(Substitution.runUid id).operation, (Substitution.runUid id).replacements.reverse⟩ =
        .ok identified := by
  have sound := Operation.sound_runAll (sound_of_ofJsonText read) operations
  have arePlaceholders : ∀ token ∈ uidTokens ++ nameTokens, Json.IsToken token.toList :=
    List.forall_mem_append.mpr ⟨areTokens_uidTokens, areTokens_nameTokens⟩
  have uidAmong : uidTokens ⊆ uidTokens ++ nameTokens := List.subset_append_left _ _
  have nameAmong : nameTokens ⊆ uidTokens ++ nameTokens := List.subset_append_right _ _
  have sameTexts : putTokens nameTokens name ∘ putTokens uidTokens id =
      putTokens uidTokens id ∘ putTokens nameTokens name :=
    funext (putTokens_nameTokens_uidTokens (fun token isToken => apartId token (nameAmong isToken))
      fun token isToken => apartName token (uidAmong isToken))
  have reversedTexts : putTokens uidTokens.reverse id = putTokens uidTokens id :=
    funext (putTokens_reverse_uidTokens fun token isToken => apartId token (uidAmong isToken))
  obtain ⟨identified, identifiedNamed⟩ := substituteText_twice_of_clean sound arePlaceholders
    ⟨keys, recovered⟩ uidAmong nameAmong plainId plainName "replace run uid"
    "replace original run name"
  obtain ⟨named, namedIdentified⟩ := substituteText_twice_of_clean sound arePlaceholders
    ⟨keys, recovered⟩ nameAmong uidAmong plainName plainId "replace original run name"
    "replace run uid"
  rw [← sameTexts] at namedIdentified
  have reversed := substituteText_of_clean sound ⟨keys, recovered⟩
    (List.reverse_subset.mpr uidAmong)
    (fun token isToken => areTokens_uidTokens token (List.mem_reverse.mp isToken)) plainId
    "replace run uid"
  rw [reversedTexts] at reversed
  simp only [Operation.result_replaceUid, Operation.result_replaceEarlierRunName]
  exact ⟨_, _, _, identified, identifiedNamed, named, namedIdentified, reversed⟩

/-- A label with the placeholder of the earlier name between the two of the identifier. -/
def nightlyMixture : List Operation :=
  [.setLabel "x"
    (Placeholder.workflowUid ++ Placeholder.earlierRunName ++ Placeholder.pipelineRunUid)]

theorem substitutions_comm_nightly :
    ofJsonText nightlyText = .ok nightly ∧
      (Operation.runAll nightly nightlyMixture).toJson.Recovered ∧
      (∀ key ∈ (Operation.runAll nightly nightlyMixture).toJson.keys,
        TokenFree (uidTokens ++ nameTokens) key) ∧
      (∀ c ∈ "42".toList, Json.Plain c) ∧
      (∀ c ∈ "night-6".toList, Json.Plain c) ∧
      (∀ token ∈ uidTokens ++ nameTokens, Apart "42".toList token.toList) ∧
      (∀ token ∈ uidTokens ++ nameTokens, Apart "night-6".toList token.toList) ∧
      ∃ identified named result : PipelineRun,
        ((Operation.runAll nightly nightlyMixture).replaceUid "42").result = .ok identified ∧
        (identified.replaceEarlierRunName "night-6").result = .ok result ∧
        ((Operation.runAll nightly nightlyMixture).replaceEarlierRunName "night-6").result =
          .ok named ∧
        (named.replaceUid "42").result = .ok result ∧
        (Operation.runAll nightly nightlyMixture).substituteText
            ⟨(Substitution.runUid "42").operation,
              (Substitution.runUid "42").replacements.reverse⟩ =
          .ok identified := by
  have recovered : (Operation.runAll nightly nightlyMixture).toJson.Recovered := by
    decide +kernel
  have keys : ∀ key ∈ (Operation.runAll nightly nightlyMixture).toJson.keys,
      TokenFree (uidTokens ++ nameTokens) key := by
    decide +kernel
  have plainId : ∀ c ∈ "42".toList, Json.Plain c := Json.plain_of_all rfl
  have plainName : ∀ c ∈ "night-6".toList, Json.Plain c := Json.plain_of_all rfl
  have apartId : ∀ token ∈ uidTokens ++ nameTokens, Apart "42".toList token.toList := by
    decide +kernel
  have apartName : ∀ token ∈ uidTokens ++ nameTokens, Apart "night-6".toList token.toList := by
    decide +kernel
  exact ⟨read_nightly, recovered, keys, plainId, plainName, apartId, apartName,
    substitutions_comm read_nightly nightlyMixture recovered keys plainId plainName apartId
      apartName⟩

end PipelineRun

end RunManifest
