import RunManifest.Proofs.Document.Positional
import RunManifest.Proofs.Run.Basic

/-!
Contract: runs, owners and parameters are the same by position and by key.

Owns `decode_positional`, reading an array of values has the outcome of reading the object that gives
the values to the first fields, for all records that can be given by position. The outcome is the
record or the problem. A problem has its kind and its wording and not its place in the text, so the
two also fail alike.
-/

set_option autoImplicit false

namespace RunManifest

open Document Json

/-- Values in brackets are read as the object that gives them to the first fields of a run, of an
owner or of a parameter, with the same record or the same problem. -/
theorem decode_positional :
    (∀ texts : List String, texts.length ≤ 5 → (∀ text ∈ texts, IsValueText text.toList) →
      PipelineRun.ofJsonText (arrayText texts) =
        PipelineRun.ofJsonText
          (objectText ["apiVersion", "kind", "metadata", "spec", "status"] texts)) ∧
    (∀ texts : List String, 4 ≤ texts.length → texts.length ≤ 6 →
      (∀ text ∈ texts, IsValueText text.toList) →
      decode ((OwnerReference.schema Json.format).read Json.format) (arrayText texts) =
        decode ((OwnerReference.schema Json.format).read Json.format)
          (objectText ["apiVersion", "kind", "name", "uid", "controller", "blockOwnerDeletion"]
            texts)) ∧
    (∀ texts : List String, texts.length = 2 → (∀ text ∈ texts, IsValueText text.toList) →
      decode ((Param.schema Json.format).read Json.format) (arrayText texts) =
        decode ((Param.schema Json.format).read Json.format)
          (objectText ["name", "value"] texts)) := by
  refine ⟨fun texts fits values => ?_, fun texts enough fits values => ?_,
    fun texts both values => ?_⟩
  · refine Schema.decode_arrayText rfl PipelineRun.orderly.names
      (by simp [PipelineRun.schema, Field.text, Field.part, Plain]) fits (fun field isField => ?_)
      values
    have noneRequired : ∀ field ∈ (PipelineRun.schema Json.format).fields,
        field.required = false := by
      simp [PipelineRun.schema, Field.text, Field.part]
    exact noneRequired field (List.mem_of_mem_drop isField)
  · refine Schema.decode_arrayText rfl OwnerReference.orderly.names
      (by simp [OwnerReference.schema, Field.writtenText, Field.optional, Plain]) fits
      (fun field isField => ?_) values
    have lateOptional : ∀ field ∈ (OwnerReference.schema Json.format).fields.drop 4,
        field.required = false := by
      simp [OwnerReference.schema, Field.optional]
    exact lateOptional field (List.drop_subset_drop_left _ enough isField)
  · refine Schema.decode_arrayText rfl Param.orderly.names
      (by simp [Param.schema, Field.writtenText, Field.part, Plain]) both.le
      (fun field isField => ?_) values
    rw [both] at isField
    cases isField

/-- A number that is too large stands where a text is expected, and a surrogate without a partner
where a text is. Both are breaches of the grammar, and each has its own wording. -/
theorem decode_positional_illegible :
    (∀ text ∈ ["\"v1\"", " 1e400"], IsValueText text.toList) ∧
      (∀ text ∈ ["\"v1\"", "\"v1\"", "\"v1\"", "\"\\ud800\""], IsValueText text.toList) ∧
      (∃ problem, PipelineRun.ofJsonText (arrayText ["\"v1\"", " 1e400"]) = .error problem ∧
        problem.message? = some "number out of range") ∧
      (∃ problem, decode ((OwnerReference.schema Json.format).read Json.format)
          (arrayText ["\"v1\"", "\"v1\"", "\"v1\"", "\"\\ud800\""]) = .error problem ∧
        problem.message? = some "unexpected end of hex escape") ∧
      PipelineRun.ofJsonText (arrayText ["\"v1\"", " 1e400"]) =
        PipelineRun.ofJsonText
          (objectText ["apiVersion", "kind", "metadata", "spec", "status"] ["\"v1\"", " 1e400"]) ∧
      decode ((OwnerReference.schema Json.format).read Json.format)
          (arrayText ["\"v1\"", "\"v1\"", "\"v1\"", "\"\\ud800\""]) =
        decode ((OwnerReference.schema Json.format).read Json.format)
          (objectText ["apiVersion", "kind", "name", "uid", "controller", "blockOwnerDeletion"]
            ["\"v1\"", "\"v1\"", "\"v1\"", "\"\\ud800\""]) ∧
      decode ((Param.schema Json.format).read Json.format) (arrayText ["\"v1\"", "\"v1\""]) =
        decode ((Param.schema Json.format).read Json.format)
          (objectText ["name", "value"] ["\"v1\"", "\"v1\""]) := by
  have plain : IsValueText "\"v1\"".toList :=
    ⟨⟨[], _, []⟩, rfl, ⟨blanks_nil, blanks_nil⟩, .string
      ⟨_, _, rfl, .plain (by decide) (.plain (by decide) (.quote []))⟩⟩
  have spells : SpellsNumber ⟨false, ['1'], none, some (false, ['4', '0', '0'])⟩ "1e400".toList :=
    .mk ⟨by simp [AreDigits], by simp, by simp, by simp [AreDigits]⟩ (.unsigned (.inl rfl) _)
  have large : IsValueText " 1e400".toList :=
    ⟨⟨[' '], _, []⟩, rfl, ⟨by simp [Blanks, isBlank], blanks_nil⟩, .number spells⟩
  have scanned : Scanned "\\ud800\"".toList [.unit 0xD800] [] := .unit (by decide) (.quote [])
  have lone : IsValueText "\"\\ud800\"".toList :=
    ⟨⟨[], _, []⟩, rfl, ⟨blanks_nil, blanks_nil⟩, .string ⟨_, _, rfl, scanned⟩⟩
  have runTexts : ∀ text ∈ ["\"v1\"", " 1e400"], IsValueText text.toList := by
    simpa using ⟨plain, large⟩
  have ownerTexts : ∀ text ∈ ["\"v1\"", "\"v1\"", "\"v1\"", "\"\\ud800\""],
      IsValueText text.toList := by
    simpa using ⟨plain, lone⟩
  have paramTexts : ∀ text ∈ ["\"v1\"", "\"v1\""], IsValueText text.toList := by
    simpa using plain
  obtain ⟨runs, owners, params⟩ := decode_positional
  refine ⟨runTexts, ownerTexts, ⟨.malformed .outOfRange, by decide +kernel, rfl⟩,
    ⟨.malformed .openPair, by decide +kernel, rfl⟩, runs _ (by decide) runTexts,
    owners _ (by decide) (by decide) ownerTexts, params _ rfl paramTexts⟩

end RunManifest
