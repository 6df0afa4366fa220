import RunManifest.Manifest
import RunManifest.Proofs.Json.Pretty
import RunManifest.Proofs.Run.Faithful
import RunManifest.Proofs.Yaml.Reading

/-!
Contract: what is printed for a run is read back as the run, in both forms and without being told
the form.

Owns:
- `ofJsonText_render` and `ofYamlText_render`, the two forms;
- `refusesJson_render_yaml`, that the YAML form is never taken for JSON;
- `parse_render` and `parse_render_yaml`, the laws of manifests.
-/

set_option autoImplicit false

namespace RunManifest.Manifest

open Document PipelineRun

variable {run : PipelineRun}

/-! ## JSON -/

/-- A sound run is given back from its text over several lines. -/
theorem ofJsonText_render (sound : run.Sound) (recovered : run.toJson.Recovered) :
    ofJsonText (render .json run) = .ok run := by
  have restores := PipelineRun.restores tame_id sound
  have reads := restores.reads recovered
  have same := Json.node_reading restores.fits recovered id id
  have unchanged : run.toJson.mapStrings id id = run.toJson := run.toJson.mapTexts_id
  rw [mapTexts_id, Json.retold, same, unchanged] at reads
  rw [ofJsonText, render, Json.decode_pretty _ restores.fits recovered]
  exact reads

/-! ## YAML -/

/-- The keys that the document of a run can start with. -/
def firstKeys : List String := ["apiVersion", "kind", "metadata"]

/-- The document of a run is a mapping, and starts with a known key. -/
theorem exists_first_member (run : PipelineRun) :
    ∃ key value rest, key ∈ firstKeys ∧ run.toJson = .object ((key, value) :: rest) := by
  by_cases noVersion : run.apiVersion = ""
  · by_cases noKind : run.kind = ""
    · simp [toJson, Schema.write, Schema.writtenFields, schema, Field.text, Field.part, firstKeys,
        noVersion, noKind]
    · simp [toJson, Schema.write, Schema.writtenFields, schema, Field.text, firstKeys, noVersion,
        noKind]
  · simp [toJson, Schema.write, Schema.writtenFields, schema, Field.text, firstKeys, noVersion]

/-- Known keys are written plain. -/
theorem keyForm_firstKeys {key : String} (isFirst : key ∈ firstKeys) :
    (Yaml.keyForm 0 key).1 = key.toList ++ [':'] := by
  have table : firstKeys.all (fun key => (Yaml.keyForm 0 key).1 = key.toList ++ [':']) = true := by
    decide +kernel
  simpa using List.all_eq_true.mp table key isFirst

/-- The YAML text of a run is a block mapping that starts with its first key as a plain scalar. -/
theorem exists_render_yaml (run : PipelineRun) :
    ∃ key rest, key ∈ firstKeys ∧ (render .yaml run).toList = key.toList ++ ':' :: rest := by
  obtain ⟨key, value, rest, isFirst, isDocument⟩ := exists_first_member run
  have isPlain := keyForm_firstKeys isFirst
  rw [render, isDocument, String.toList_ofList, Json.yaml, Json.yamlMembers]
  dsimp only
  rw [isPlain]
  simp only [Yaml.blanks, List.replicate_zero, List.nil_append, List.append_assoc, List.cons_append]
  exact ⟨key, _, isFirst, rfl⟩

/-- A text that starts with a known key is no JSON text. -/
theorem refusesJson {key : String} (isFirst : key ∈ firstKeys) (rest : List Char) :
    ∃ cause, ofJsonText (String.ofList (key.toList ++ rest)) = .error cause := by
  have broken : Json.nodeOf (key.toList ++ rest) = (.broken (.both (.malformed .noValue)), none) := by
    simp only [firstKeys, List.mem_cons, List.not_mem_nil, or_false] at isFirst
    rcases isFirst with rfl | rfl | rfl <;> rfl
  rw [ofJsonText, Json.decode, String.toList_ofList, broken]
  exact ⟨_, rfl⟩

/-- The YAML text of a run is never taken for JSON. -/
theorem refusesJson_render_yaml (run : PipelineRun) :
    ∃ cause, ofJsonText (render .yaml run) = .error cause := by
  obtain ⟨key, rest, isFirst, isText⟩ := exists_render_yaml run
  rw [← (render .yaml run).ofList_toList, isText]
  exact refusesJson isFirst _

/-- A run that is read back from the tree of its document is given back from its YAML text. -/
theorem ofYamlText_render_of_reads
    (reads : ∀ anchors, (schema (Yaml.format anchors)).read (Yaml.format anchors) Yaml.levels
      run.toJson.tree = pure run) :
    ofYamlText (render .yaml run) = .ok run := by
  obtain ⟨key, value, rest, -, isDocument⟩ := exists_first_member run
  rw [isDocument] at reads
  rw [ofYamlText, render, isDocument]
  exact Yaml.decode_yaml reads

/-- A sound run is given back from its YAML text. -/
theorem ofYamlText_render (sound : run.Sound) (exactly : run.toJson.AllFloats Yaml.Exact) :
    ofYamlText (render .yaml run) = .ok run := by
  have enough : spareLevels ≤ spareLevels + 1 := Nat.le_succ _
  exact ofYamlText_render_of_reads fun anchors =>
    PipelineRun.returns (Yaml.faithful anchors) sound enough exactly

/-! ## Manifests -/

private theorem parse_none_of_refused
    {text : String}
    {cause : Problem}
    (refused : ofJsonText text = .error cause) :
    parse none text = (ofYamlText text).mapError fun _ => .unrecognized := by
  rw [parse, refused]

/-- Printing, reading and telling forms apart agree. Both JSON texts of a run that was read give the
run back, and its YAML text is not taken for JSON, so that the form need not be told. -/
theorem parse_render
    {text : String}
    (read : ofJsonText text = .ok run) :
    (run.toJson.Recovered →
      parse (some .json) (render .json run) = .ok run ∧ parse none (render .json run) = .ok run ∧
        ofJsonText run.stored = .ok run) ∧
    (∃ cause, ofJsonText (render .yaml run) = .error cause) ∧
    (∀ other, parse none (render .yaml run) = .ok other ↔
      parse (some .yaml) (render .yaml run) = .ok other) ∧
    (run.toJson.AllFloats Yaml.Exact →
      parse none (render .yaml run) = parse (some .yaml) (render .yaml run)) := by
  have sound := sound_of_ofJsonText read
  obtain ⟨cause, refused⟩ := refusesJson_render_yaml run
  have asYaml := parse_none_of_refused refused
  refine ⟨fun recovered => ?_, ⟨cause, refused⟩, fun other => ?_, fun exactly => ?_⟩
  · have readBack := ofJsonText_render sound recovered
    refine ⟨?_, ?_, ofJsonText_stored sound recovered⟩
    · rw [parse, readBack]
      rfl
    · rw [parse, readBack]
  · rw [asYaml, parse]
    cases ofYamlText (render .yaml run) with
    | ok result => rfl
    | error problem =>
        constructor
        · intro outcome
          cases outcome
        · intro outcome
          cases outcome
  · rw [asYaml, parse, ofYamlText_render sound exactly]
    rfl

/-- A document whose texts look like other things: nothing, numbers, a date, a truth value, marks of
structure, lines and blanks. -/
def oddText : String :=
  Json.braced
    [("apiVersion", "\"1.0\""), ("kind", "\"null\""),
      ("metadata", Json.braced
        [("name", "\" - x\""),
          ("labels", Json.braced [("#", "\"a: b\\n  c\\n\""), ("", "\"\\u0007é\"")])]),
      ("spec", Json.braced
        [("params", "[[\"p\",[\"true\",\"~\",\"0x1F\",\"2024-01-01\"]]]"),
          ("? x", Json.braced [("y", "[]"), ("z", "[1.5,-2," ++ Json.braced [] ++ "]")])])]

/-- The run that the document describes. -/
def odd : PipelineRun where
  apiVersion := "1.0"
  kind := "null"
  metadata :=
    { ObjectMeta.blank with
      name := " - x"
      labels := some (.ofList [("", "\x07é"), ("#", "a: b\n  c\n")]) }
  spec :=
    { PipelineRunSpec.blank with
      params := [⟨"p", .list ["true", "~", "0x1F", "2024-01-01"]⟩]
      extra := .ofList
        [("? x", .object [("y", .array []), ("z", .array
          [.number (.float ⟨false, 6755399441055744, -52⟩), .number (.integer (-2)),
            .object []])])] }
  status := .blank

private theorem read_odd : ofJsonText oddText = .ok odd := by
  decide +kernel

private theorem recovered_odd : odd.toJson.Recovered ∧ odd.toJson.AllFloats Yaml.Exact := by
  decide +kernel

theorem parse_render_odd :
    ofJsonText oddText = .ok odd ∧ odd.toJson.Recovered ∧ odd.toJson.AllFloats Yaml.Exact ∧
      parse (some .json) (render .json odd) = .ok odd ∧ parse none (render .json odd) = .ok odd ∧
      parse none (render .yaml odd) = parse (some .yaml) (render .yaml odd) := by
  obtain ⟨recovered, exactly⟩ := recovered_odd
  obtain ⟨asJson, -, -, asYaml⟩ := parse_render read_odd
  obtain ⟨told, untold, -⟩ := asJson recovered
  exact ⟨read_odd, recovered, exactly, told, untold, asYaml exactly⟩

/-- The YAML text of a run that was read gives exactly the run back. Keys and texts of any
characters come back as what they are. -/
theorem parse_render_yaml
    {text : String}
    (read : ofJsonText text = .ok run)
    (exactly : run.toJson.AllFloats Yaml.Exact) :
    parse (some .yaml) (render .yaml run) = .ok run ∧
      ∀ key string : String,
        Yaml.decode (fun format => format.value)
          (String.ofList (Json.object [(key, .text string)]).yaml) =
            .ok (.object [(key, .text string)]) := by
  refine ⟨?_, fun key string => ?_⟩
  · rw [parse, ofYamlText_render (sound_of_ofJsonText read) exactly]
    rfl
  · refine Yaml.decode_value (.object (List.forall_mem_singleton.mpr (.text 127 string))) ?_
    exact Json.allFloats_object.mpr (List.forall_mem_singleton.mpr fun x occurs => by cases occurs)

theorem parse_render_yaml_odd :
    ofJsonText oddText = .ok odd ∧ odd.toJson.AllFloats Yaml.Exact ∧
      parse (some .yaml) (render .yaml odd) = .ok odd :=
  ⟨read_odd, recovered_odd.2, (parse_render_yaml read_odd recovered_odd.2).1⟩

end RunManifest.Manifest
