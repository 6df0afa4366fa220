import RunManifest.Proofs.Document.Cut
import RunManifest.Proofs.Manifest

/-!
Contract: runs that are too deep for the store.

Owns:
- `PipelineRun.value_of_stored`, what the specification of a run keeps was read whole when the run is
  read from its stored text;
- `Json.nested` and `PipelineRun.buried`, a run that keeps lists inside one another;
- `PipelineRun.ofJsonText_stored_buried` and `PipelineRun.parse_render_buried`, such a run is given by
  its YAML manifest and not by its stored text.

A YAML text may have one container more open at once than a JSON text. So there are runs that are not
sound although they were read, and the store loses them.
-/

set_option autoImplicit false

namespace RunManifest

open Document

/-! ## What the store gives back -/

/-- Every member of a record that was read was read by itself. -/
theorem Document.Schema.readMember_of_mem
    {ρ : Type}
    {schema : Schema (Except Problem) Json.Node ρ}
    {levels : Nat}
    {members : List (Json.Readable String × Json.Node)}
    {ending : Option Json.Breakage}
    {result : ρ}
    (read : schema.read Json.format (levels + 1) (.object members ending) = .ok result)
    {key : String}
    {node : Json.Node}
    (member : (.ok key, node) ∈ members) :
    ∃ before after, schema.readMember Json.format levels before key node = .ok after := by
  obtain ⟨layout, isLayout, read⟩ := bind_eq_ok.mp read
  cases isLayout
  obtain ⟨inner, entered, read⟩ := bind_eq_ok.mp read
  cases entered
  obtain ⟨after, readsMembers, -⟩ := bind_eq_ok.mp read
  obtain ⟨first, last, rfl⟩ := List.append_of_mem member
  obtain ⟨sameKey, middle, next, same, -, readsMember⟩ := readMember_of_readMembers readsMembers
  cases same
  exact ⟨middle, next, readsMember⟩

namespace PipelineRun

/-- What the specification of a run keeps was read whole when the run is read from the store. -/
theorem value_of_stored
    {run again : PipelineRun}
    (read : ofJsonText run.stored = .ok again)
    {key : String}
    {kept : Json}
    (isKept : (key, kept) ∈ run.spec.extra.entries)
    (unknown : (PipelineRunSpec.schema Json.format).field? key = none) :
    ∃ value, (kept.retold id).value (spareLevels + 3) = .ok value := by
  have specWritten : ("spec", (PipelineRunSpec.schema Json.format).write run.spec) ∈
      (schema Json.format).writtenFields run ++ (schema Json.format).writtenOthers run := by
    refine List.mem_append_left _ ?_
    simp [Schema.writtenFields, schema, Field.text, Field.part]
  have keptWritten : (key, kept) ∈ (PipelineRunSpec.schema Json.format).writtenFields run.spec ++
      (PipelineRunSpec.schema Json.format).writtenOthers run.spec :=
    List.mem_append_right _ isKept
  rw [ofJsonText, decode_stored, toJson, Schema.write, Json.retold_object] at read
  obtain ⟨before, after, readsSpec⟩ := Schema.readMember_of_mem read
    (List.mem_map.mpr ⟨_, specWritten, rfl⟩)
  rcases Schema.readMember_cases readsSpec with
    ⟨field, change, found, -, readsField, -⟩ | ⟨absent, -⟩ | ⟨_, _, _, absent, -⟩
  · cases found
    obtain ⟨spec, readsSpec, -⟩ := map_eq_ok.mp readsField
    rw [Schema.write, Json.retold_object] at readsSpec
    obtain ⟨before, after, readsKept⟩ := Schema.readMember_of_mem readsSpec
      (List.mem_map.mpr ⟨_, keptWritten, rfl⟩)
    rcases Schema.readMember_cases readsKept with
      ⟨field, _, isField, -⟩ | ⟨-, isDropped, -⟩ | ⟨_, _, value, -, -, readsValue, -⟩
    · rw [unknown] at isField
      cases isField
    · cases isDropped
    · exact ⟨value, readsValue⟩
  · cases absent
  · cases absent

end PipelineRun

/-! ## Lists inside one another -/

namespace Json

/-- What fits fits where more containers may be open. -/
theorem Fits.mono
    {levels more : Nat}
    {value : Json}
    (fits : Fits levels value)
    (enough : levels ≤ more) :
    Fits more value := by
  induction fits generalizing more with
  | null levels => exact .null more
  | flag levels value => exact .flag more value
  | number levels inRange => exact .number more inRange
  | text levels value => exact .text more value
  | array _ inductionHypothesis =>
      obtain ⟨more, rfl⟩ : ∃ smaller, more = smaller + 1 := ⟨more - 1, by omega⟩
      exact .array fun item isItem => inductionHypothesis item isItem (Nat.le_of_succ_le_succ enough)
  | object _ inductionHypothesis =>
      obtain ⟨more, rfl⟩ : ∃ smaller, more = smaller + 1 := ⟨more - 1, by omega⟩
      exact .object fun member isMember =>
        inductionHypothesis member isMember (Nat.le_of_succ_le_succ enough)

/-- Lists inside one another, one more than the given number of them. -/
def nested : Nat → Json
  | 0 => .array []
  | depth + 1 => .array [nested depth]

private theorem opaque_nested {levels depth : Nat} (room : depth < levels) :
    Opaque levels (nested depth) := by
  induction depth generalizing levels with
  | zero =>
      obtain ⟨levels, rfl⟩ := Nat.exists_eq_add_of_lt room
      exact ⟨.array (by simp), rfl⟩
  | succ depth inductionHypothesis =>
      obtain ⟨levels, rfl⟩ : ∃ smaller, levels = smaller + 1 := ⟨levels - 1, by omega⟩
      obtain ⟨fits, isNormal⟩ := inductionHypothesis (Nat.lt_of_succ_lt_succ room)
      refine ⟨.array (List.forall_mem_singleton.mpr fits), ?_⟩
      simp [nested, normal, normalItems, isNormal]

/-- Who reads more lists inside one another than there may be refuses them. -/
theorem value_nested {levels depth : Nat} (tooDeep : levels ≤ depth) :
    ((nested depth).retold id).value levels = .error (.malformed .tooDeep) := by
  induction levels generalizing depth with
  | zero => cases depth <;> simp [nested, Node.value]
  | succ levels inductionHypothesis =>
      obtain ⟨depth, rfl⟩ : ∃ smaller, depth = smaller + 1 := ⟨depth - 1, by omega⟩
      have inside := inductionHypothesis (Nat.le_of_succ_le_succ tooDeep)
      simp [nested, value_array, inside]

end Json

/-! ## Runs -/

private theorem Document.Schema.Keeps.mono
    {ρ : Type}
    {schema : Schema (Except Problem) Json.Node ρ}
    {levels more : Nat}
    {extra : Dictionary Json}
    (keeps : schema.Keeps levels extra)
    (enough : levels ≤ more) :
    schema.Keeps more extra := by
  intro entry isEntry
  obtain ⟨unknown, fits, isNormal⟩ := keeps entry isEntry
  exact ⟨unknown, fits.mono enough, isNormal⟩

namespace PipelineRun

/-- The run with lists inside one another kept in its specification, as many as make 128 containers
that are open at once. -/
def buried (run : PipelineRun) : PipelineRun :=
  { run with
    spec := { run.spec with extra := .ofList [("x", .nested (spareLevels + 3))] } }

/-- No such run is read from its stored text. -/
theorem ofJsonText_stored_buried (run again : PipelineRun) :
    ofJsonText run.buried.stored ≠ .ok again := by
  intro read
  obtain ⟨value, isRead⟩ := value_of_stored read (List.mem_singleton_self _) (by decide)
  rw [Json.value_nested (Nat.le_refl _)] at isRead
  cases isRead

/-- Such a run is read from its YAML manifest, if it is sound apart from what it keeps there. -/
theorem parse_render_buried
    {run : PipelineRun}
    (sound : run.Sound)
    (exactly : run.buried.toJson.AllFloats Yaml.Exact) :
    Manifest.parse (some .yaml) (Manifest.render .yaml run.buried) = .ok run.buried := by
  have metadata : run.buried.metadata.Sound (spareLevels + 1 + 1) :=
    Schema.Keeps.mono sound.metadata (by omega)
  have spec : run.buried.spec.Sound (spareLevels + 1) := by
    refine ⟨Schema.Keeps.mono sound.spec.template (by omega), ?_⟩
    exact List.forall_mem_singleton.mpr ⟨by decide, Json.opaque_nested (Nat.lt_succ_self _)⟩
  have status : run.buried.status.Sound (spareLevels + 1 + 1) := by
    refine ⟨fun condition isCondition => ?_, fun child isChild => ?_, ?_⟩
    · exact Schema.Keeps.mono (sound.status.conditions condition isCondition) (by omega)
    · exact Schema.Keeps.mono (sound.status.children child isChild) (by omega)
    · exact Schema.Keeps.mono sound.status.extra (by omega)
  have given := Manifest.ofYamlText_render_of_reads fun anchors =>
    returns_of_parts (Yaml.faithful anchors) metadata spec status (Nat.le_refl (spareLevels + 1))
      exactly
  rw [Manifest.parse, given]
  rfl

end PipelineRun

end RunManifest
