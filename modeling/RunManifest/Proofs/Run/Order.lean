import RunManifest.Proofs.Document.Arrangement
import RunManifest.Proofs.Document.RecordOrder
import RunManifest.Proofs.Json.Recognition
import RunManifest.Proofs.Run.Basic
import RunManifest.Proofs.Run.Composition

/-!
Contract: the spelling of a text does not matter to the run in it, and stored texts have one order.

Owns:
- `arrangement` for each of the nine kinds of records in a run, the order of its known members;
- `PipelineRun.arranged_toJson`, the documents of runs that were read keep to it;
- `PipelineRun.stored_of_spelled`: texts of one document are read alike, and the runs in them are
  stored as one text, with all members in order.
-/

set_option autoImplicit false

namespace RunManifest

open Document

variable {levels : Nat}

/-! ## Metadata -/

namespace OwnerReference

def arrangement : Arrangement :=
  .record
    [ ("apiVersion", .whole),
      ("kind", .whole),
      ("name", .whole),
      ("uid", .whole),
      ("controller", .whole),
      ("blockOwnerDeletion", .whole) ]

theorem arranged_write (reference : OwnerReference) :
    Arranged arrangement ((schema Json.format).write reference) := by
  refine Schema.arranged_write ?_ (by decide) fun _ _ isKept => by cases isKept
  refine .cons Field.arranges_writtenText ?_
  refine .cons Field.arranges_writtenText ?_
  refine .cons Field.arranges_writtenText ?_
  refine .cons Field.arranges_writtenText ?_
  refine .cons (Field.arranges_optional fun value _ => .whole (.flag value)) ?_
  refine .cons (Field.arranges_optional fun value _ => .whole (.flag value)) ?_
  exact .nil

end OwnerReference

namespace ObjectMeta

def arrangement : Arrangement :=
  .record
    [ ("name", .whole),
      ("generateName", .whole),
      ("namespace", .whole),
      ("uid", .whole),
      ("resourceVersion", .whole),
      ("creationTimestamp", .whole),
      ("labels", .whole),
      ("annotations", .whole),
      ("ownerReferences", .list OwnerReference.arrangement) ]

theorem arranged_write {metadata : ObjectMeta} (sound : metadata.Sound levels) :
    Arranged arrangement ((schema Json.format).write metadata) := by
  refine Schema.arranged_write ?_ (by decide) fun _ _ isKept => by cases isKept; exact ⟨_, sound⟩
  refine .cons Field.arranges_text ?_
  refine .cons Field.arranges_text ?_
  refine .cons Field.arranges_text ?_
  refine .cons Field.arranges_text ?_
  refine .cons Field.arranges_text ?_
  refine .cons (Field.arranges_optional fun instant _ => .whole (.text instant.text)) ?_
  refine .cons (Field.arranges_optional fun texts _ => arranged_texts texts) ?_
  refine .cons (Field.arranges_optional fun texts _ => arranged_texts texts) ?_
  refine .cons (Field.arranges_optional fun references _ => .list ?_) ?_
  · exact List.forall_mem_map.mpr fun reference _ => OwnerReference.arranged_write reference
  exact .nil

end ObjectMeta

/-! ## Parameters, templates and specifications -/

theorem ParamValue.arranged_write (value : ParamValue) : Arranged .whole value.write := by
  cases value with
  | text value => exact .whole (.text value)
  | list values => exact .whole (.array (List.forall_mem_map.mpr fun value _ => .text value))
  | map values => exact arranged_texts values

namespace Param

def arrangement : Arrangement :=
  .record
    [ ("name", .whole),
      ("value", .whole) ]

theorem arranged_write (param : Param) :
    Arranged arrangement ((schema Json.format).write param) := by
  refine Schema.arranged_write ?_ (by decide) fun _ _ isKept => by cases isKept
  refine .cons Field.arranges_writtenText ?_
  refine .cons (Field.arranges_part (ParamValue.arranged_write param.value)) ?_
  exact .nil

end Param

namespace TaskRunTemplate

def arrangement : Arrangement :=
  .record
    [ ("serviceAccountName", .whole) ]

theorem arranged_write {template : TaskRunTemplate} (sound : template.Sound levels) :
    Arranged arrangement ((schema Json.format).write template) := by
  refine Schema.arranged_write ?_ (by decide) fun _ _ isKept => by cases isKept; exact ⟨_, sound⟩
  refine .cons Field.arranges_text ?_
  exact .nil

end TaskRunTemplate

namespace PipelineRunSpec

def arrangement : Arrangement :=
  .record
    [ ("params", .list Param.arrangement),
      ("taskRunTemplate", TaskRunTemplate.arrangement) ]

theorem arranged_write {spec : PipelineRunSpec} (sound : spec.Sound levels) :
    Arranged arrangement ((schema Json.format).write spec) := by
  refine Schema.arranged_write ?_ (by decide)
    fun _ _ isKept => by cases isKept; exact ⟨_, sound.extra⟩
  refine .cons (Field.arranges_list fun param _ => Param.arranged_write param) ?_
  refine .cons (Field.arranges_part (TaskRunTemplate.arranged_write sound.template)) ?_
  exact .nil

end PipelineRunSpec

/-! ## Statuses -/

namespace Condition

def arrangement : Arrangement :=
  .record
    [ ("type", .whole),
      ("status", .whole),
      ("reason", .whole),
      ("message", .whole),
      ("lastTransitionTime", .whole) ]

theorem arranged_write {condition : Condition} (sound : condition.Sound levels) :
    Arranged arrangement ((schema Json.format).write condition) := by
  refine Schema.arranged_write ?_ (by decide) fun _ _ isKept => by cases isKept; exact ⟨_, sound⟩
  refine .cons Field.arranges_writtenText ?_
  refine .cons Field.arranges_text ?_
  refine .cons Field.arranges_text ?_
  refine .cons Field.arranges_text ?_
  refine .cons (Field.arranges_optional fun instant _ => .whole (.text instant.text)) ?_
  exact .nil

end Condition

namespace ChildReference

def arrangement : Arrangement :=
  .record
    [ ("name", .whole),
      ("pipelineTaskName", .whole),
      ("kind", .whole),
      ("apiVersion", .whole) ]

theorem arranged_write {child : ChildReference} (sound : child.Sound levels) :
    Arranged arrangement ((schema Json.format).write child) := by
  refine Schema.arranged_write ?_ (by decide) fun _ _ isKept => by cases isKept; exact ⟨_, sound⟩
  refine .cons Field.arranges_writtenText ?_
  refine .cons Field.arranges_text ?_
  refine .cons Field.arranges_text ?_
  refine .cons Field.arranges_text ?_
  exact .nil

end ChildReference

namespace PipelineRunStatus

def arrangement : Arrangement :=
  .record
    [ ("conditions", .list Condition.arrangement),
      ("startTime", .whole),
      ("completionTime", .whole),
      ("childReferences", .list ChildReference.arrangement) ]

theorem arranged_write {status : PipelineRunStatus} (sound : status.Sound levels) :
    Arranged arrangement ((schema Json.format).write status) := by
  refine Schema.arranged_write ?_ (by decide)
    fun _ _ isKept => by cases isKept; exact ⟨_, sound.extra⟩
  refine .cons (Field.arranges_list fun condition isCondition =>
    Condition.arranged_write (sound.conditions condition isCondition)) ?_
  refine .cons (Field.arranges_optional fun instant _ => .whole (.text instant.text)) ?_
  refine .cons (Field.arranges_optional fun instant _ => .whole (.text instant.text)) ?_
  refine .cons (Field.arranges_list fun child isChild =>
    ChildReference.arranged_write (sound.children child isChild)) ?_
  exact .nil

end PipelineRunStatus

/-! ## Runs -/

namespace PipelineRun

def arrangement : Arrangement :=
  .record
    [ ("apiVersion", .whole),
      ("kind", .whole),
      ("metadata", ObjectMeta.arrangement),
      ("spec", PipelineRunSpec.arrangement),
      ("status", PipelineRunStatus.arrangement) ]

theorem arranged_toJson {run : PipelineRun} (sound : run.Sound) :
    Arranged arrangement run.toJson := by
  refine Schema.arranged_write ?_ (by decide) fun _ _ isKept => by cases isKept
  refine .cons Field.arranges_text ?_
  refine .cons Field.arranges_text ?_
  refine .cons (Field.arranges_part (ObjectMeta.arranged_write sound.metadata)) ?_
  refine .cons (Field.arranges_part (PipelineRunSpec.arranged_write sound.spec)) ?_
  refine .cons (Field.arranges_part (PipelineRunStatus.arranged_write sound.status)) ?_
  exact .nil

/-- The tree of a stored text is that of the document in it. -/
theorem nodeOf_stored (run : PipelineRun) :
    Json.nodeOf run.stored.toList = (run.toJson.node Number.reading, some []) := by
  have scans : ∀ string ∈ run.toJson.strings, Json.Scans Json.written string (id string) := by
    intro string _ rest
    simpa [Json.written] using Json.scanString_escaped string.toList rest
  have readsBack := Json.readsBack_of_scans run.toJson scans
    (2 * (run.toJson.spelled Json.written).length + 2) [] (by omega) Json.endsNumber_nil
  have same : Json.saidNode id run.toJson = run.toJson.node Number.reading :=
    congrArg (Json.node Number.reading) (congrFun Json.mapTexts_id_eq_id run.toJson)
  rw [List.append_nil, same] at readsBack
  rw [stored, String.toList_ofList, Json.compact_eq_spelled, Json.nodeOf, readsBack]

/-- Texts without repeated keys that spell the same document, up to the order of members, are
refused alike or hold the same run, so that one text is stored for both. In its document the known
members of every record come first, and all others in the order of the bytes of their keys. -/
theorem stored_of_spelled
    {document other : Json}
    {text otherText : String}
    (spells : document.SpellsText text.toList)
    (otherSpells : other.SpellsText otherText.toList)
    (reordered : document.Reordered other)
    (distinct : document.Distinct) :
    ((∃ problem, ofJsonText text = .error problem) ∧
      ∃ problem, ofJsonText otherText = .error problem) ∨
    ∃ run stored, ofJsonText text = .ok run ∧ ofJsonText otherText = .ok run ∧
      Json.nodeOf run.stored.toList = (stored.node Number.reading, some []) ∧
      Arranged arrangement stored := by
  have alike := composed.decode_of_reordered spells otherSpells reordered distinct
  rw [String.ofList_toList, String.ofList_toList] at alike
  cases reads : ofJsonText text with
  | ok run =>
      exact .inr ⟨run, run.toJson, rfl, (alike run).mp reads, nodeOf_stored run,
        arranged_toJson (sound_of_ofJsonText reads)⟩
  | error problem =>
      refine .inl ⟨⟨problem, rfl⟩, ?_⟩
      cases readsOther : ofJsonText otherText with
      | ok run =>
          have both := (alike run).mpr readsOther
          unfold ofJsonText at reads
          rw [reads] at both
          cases both
      | error problem => exact ⟨problem, rfl⟩

/-- A document with members that no record knows. -/
def accented : Json :=
  .object [("spec", .object [("b", .text "\u00e9"), ("a", .array [.number (.integer 1)])])]

/-- The same with members in another order. -/
def accentedReordered : Json :=
  .object [("spec", .object [("a", .array [.number (.integer 1)]), ("b", .text "\u00e9")])]

/-- A text in which letters are escaped. -/
def accentedText : String :=
  Json.braced [("spec", Json.braced [("b", "\"\\u00E9\""), ("\\u0061", "[1]")])]

/-- A text with blanks and without escapes. -/
def accentedReorderedText : String :=
  " " ++ Json.braced [("spec", "\t" ++ Json.braced [("a", "[ 1 ]\n"), ("b", "\"\u00e9\"")])]

theorem stored_of_spelled_accented :
    accented.SpellsText accentedText.toList ∧
      accentedReordered.SpellsText accentedReorderedText.toList ∧
      accented.Reordered accentedReordered ∧ accented.Distinct ∧
      ∃ run stored, ofJsonText accentedText = .ok run ∧ ofJsonText accentedReorderedText = .ok run ∧
        Json.nodeOf run.stored.toList = (stored.node Number.reading, some []) ∧
        Arranged arrangement stored := by
  have spells : accented.SpellsText accentedText.toList :=
    Json.spellsText_of_decode (by decide +kernel)
  have otherSpells : accentedReordered.SpellsText accentedReorderedText.toList :=
    Json.spellsText_of_decode (by decide +kernel)
  have reordered : accented.Reordered accentedReordered :=
    .member [] [] "spec" (.members (.swap _ _ _))
  have distinct : accented.Distinct := by
    refine .object (by decide) (List.forall_mem_singleton.mpr (.object (by decide) ?_))
    refine List.forall_mem_cons.mpr ⟨.text _, List.forall_mem_singleton.mpr (.array ?_)⟩
    exact List.forall_mem_singleton.mpr (.number _)
  refine ⟨spells, otherSpells, reordered, distinct, ?_⟩
  rcases stored_of_spelled spells otherSpells reordered distinct with ⟨⟨problem, refused⟩, -⟩ | read
  · have isRead : (ofJsonText accentedText).isOk = true := by decide +kernel
    rw [refused] at isRead
    cases isRead
  · exact read

end PipelineRun

end RunManifest
