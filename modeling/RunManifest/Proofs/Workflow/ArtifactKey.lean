import RunManifest.Proofs.Run.Depth
import RunManifest.Proofs.Run.Reread
import RunManifest.Proofs.Text.Joined
import RunManifest.Proofs.Workflow.Operation
import RunManifest.Workflow.State

/-!
Contract: artifacts are stored under different keys.

Owns:
- `PipelineRun.artifactKey_inj`, the key of an artifact tells the run, the node and the artifact;
- `PipelineRun.artifactKey_eq_empty`, only a run without children has no key;
- `PipelineRun.artifactKey_stored`, the store keeps the keys of a sound run;
- `PipelineRun.artifactKey_distinct`, the law of artifact keys;
- `PipelineRun.artifactKey_not_stored`, a run that is not sound and that the store loses.
-/

set_option autoImplicit false

namespace RunManifest.PipelineRun

variable {run first second : PipelineRun}

private theorem artifactKey_of_childless
    (childless : run.status.childReferences = [])
    (nodeId artifactName : String) :
    run.artifactKey nodeId artifactName = "" := by
  simp [artifactKey, childless]

private theorem toList_artifactKey
    (children : run.status.childReferences ≠ [])
    (nodeId artifactName : String) :
    (run.artifactKey nodeId artifactName).toList =
      "artifacts/".toList ++ (run.metadata.name.toList ++
        '/' :: (nodeId.toList ++ '/' :: (artifactName.toList ++ ".tgz".toList))) := by
  simp [artifactKey, children, name]

/-- The key of an artifact tells the run, the node and the artifact. An artifact may have slashes and
the ending of keys in its name, since it stands behind the last separator that counts. -/
theorem artifactKey_inj
    (firstChildren : first.status.childReferences ≠ [])
    (secondChildren : second.status.childReferences ≠ [])
    (firstName : '/' ∉ first.metadata.name.toList)
    (secondName : '/' ∉ second.metadata.name.toList)
    {firstNode secondNode : String}
    (firstPlain : '/' ∉ firstNode.toList)
    (secondPlain : '/' ∉ secondNode.toList)
    (firstArtifact secondArtifact : String) :
    first.artifactKey firstNode firstArtifact = second.artifactKey secondNode secondArtifact ↔
      first.metadata.name = second.metadata.name ∧ firstNode = secondNode ∧
        firstArtifact = secondArtifact := by
  rw [← String.toList_inj, toList_artifactKey firstChildren, toList_artifactKey secondChildren,
    List.append_cancel_left_eq, Text.append_separator_inj firstName secondName,
    Text.append_separator_inj firstPlain secondPlain, List.append_cancel_right_eq,
    String.toList_inj, String.toList_inj, String.toList_inj]

theorem artifactKey_eq_empty (nodeId artifactName : String) :
    run.artifactKey nodeId artifactName = "" ↔ run.status.childReferences = [] := by
  refine ⟨fun isEmpty => ?_, fun childless => artifactKey_of_childless childless _ _⟩
  by_contra children
  have shape := toList_artifactKey children nodeId artifactName
  simp [isEmpty] at shape

/-- Reading numbers again changes neither the name of a run nor whether it has children. -/
theorem artifactKey_reread (run : PipelineRun) (nodeId artifactName : String) :
    run.reread.artifactKey nodeId artifactName = run.artifactKey nodeId artifactName := by
  have sameName : run.reread.name = run.name := rfl
  have sameChildren : run.reread.status.childReferences.isEmpty =
      run.status.childReferences.isEmpty := List.isEmpty_map
  rw [artifactKey, artifactKey, sameName, sameChildren]

/-- The store keeps the keys of every run that operations make of a sound one. -/
theorem artifactKey_stored
    (sound : run.Sound)
    (operations : List Operation) :
    ∃ again, ofJsonText (Operation.runAll run operations).stored = .ok again ∧
      ∀ nodeId artifactName, again.artifactKey nodeId artifactName =
        (Operation.runAll run operations).artifactKey nodeId artifactName :=
  ⟨_, ofJsonText_stored_reread (Operation.sound_runAll sound operations), artifactKey_reread _⟩

/-- For runs and nodes without slashes in their names, artifacts have the same key just when they
are of the same name and of the same node of runs of the same name. There is no key just when the run
has no children. The store keeps the keys of a sound run, and of whatever operations make of it. -/
theorem artifactKey_distinct :
    (∀ first second : PipelineRun,
      first.status.childReferences ≠ [] → second.status.childReferences ≠ [] →
      '/' ∉ first.metadata.name.toList → '/' ∉ second.metadata.name.toList →
      ∀ firstNode secondNode : String, '/' ∉ firstNode.toList → '/' ∉ secondNode.toList →
      ∀ firstArtifact secondArtifact : String,
        first.artifactKey firstNode firstArtifact = second.artifactKey secondNode secondArtifact ↔
          first.metadata.name = second.metadata.name ∧ firstNode = secondNode ∧
            firstArtifact = secondArtifact) ∧
    (∀ (run : PipelineRun) (nodeId artifactName : String),
      run.artifactKey nodeId artifactName = "" ↔ run.status.childReferences = []) ∧
    (∀ run : PipelineRun, run.Sound → ∀ operations : List Operation,
      ∃ again, ofJsonText (Operation.runAll run operations).stored = .ok again ∧
        ∀ nodeId artifactName, again.artifactKey nodeId artifactName =
          (Operation.runAll run operations).artifactKey nodeId artifactName) :=
  ⟨fun _ _ firstChildren secondChildren firstName secondName _ _ firstPlain secondPlain =>
      artifactKey_inj firstChildren secondChildren firstName secondName firstPlain secondPlain,
    fun _ => artifactKey_eq_empty,
    fun _ => artifactKey_stored⟩

/-- A document with a child, and a number that reading changes in its last digit. -/
def steppedText : String :=
  Json.braced
    [("metadata", Json.braced [("name", "\"run\"")]),
      ("status", Json.braced
        [("childReferences", "[" ++ Json.braced [("name", "\"step\""), ("x", "1e-24")] ++ "]")])]

/-- The run that the document describes. -/
def stepped : PipelineRun :=
  { blank with
    metadata := { ObjectMeta.blank with name := "run" }
    status :=
      { PipelineRunStatus.blank with
        childReferences :=
          [{ ChildReference.blank with
              name := "step"
              extra := .ofList [("x", .number (.float ⟨false, 5444517870735016, -132⟩))] }] } }

private theorem read_stepped : ofJsonText steppedText = .ok stepped := by
  decide +kernel

/-- One artifact is named after the key of another. -/
theorem artifactKey_distinct_stepped :
    stepped.status.childReferences ≠ [] ∧
      '/' ∉ stepped.metadata.name.toList ∧
      '/' ∉ "node-1".toList ∧
      stepped.artifactKey "node-1" "a/b" ≠ stepped.artifactKey "node-1" "a/b.tgz" ∧
      stepped.artifactKey "" "" ≠ "" ∧
      ofJsonText steppedText = .ok stepped ∧
      ∃ again, ofJsonText (Operation.runAll stepped [.overrideName "again"]).stored = .ok again ∧
        ∀ nodeId artifactName, again.artifactKey nodeId artifactName =
          (Operation.runAll stepped [.overrideName "again"]).artifactKey nodeId artifactName := by
  have children : stepped.status.childReferences ≠ [] := List.cons_ne_nil _ _
  have plainName : '/' ∉ stepped.metadata.name.toList := by decide
  have plainNode : '/' ∉ "node-1".toList := by decide
  obtain ⟨tells, empty, stores⟩ := artifactKey_distinct
  have keys := tells stepped stepped children children plainName plainName _ _ plainNode plainNode
    "a/b" "a/b.tgz"
  exact ⟨children, plainName, plainNode, keys.not.mpr (by decide),
    (empty stepped "" "").not.mpr children, read_stepped,
    stores _ (sound_of_ofJsonText read_stepped) [.overrideName "again"]⟩

/-- The store does not keep the keys of every run: this one is read from its manifest and refused when
its stored text is read. -/
theorem artifactKey_not_stored :
    Manifest.parse (some .yaml) (Manifest.render .yaml stepped.buried) = .ok stepped.buried ∧
      stepped.buried.artifactKey "node-1" "a" = "artifacts/run/node-1/a.tgz" ∧
      ¬ ∃ again, ofJsonText stepped.buried.stored = .ok again ∧
        again.artifactKey "node-1" "a" = stepped.buried.artifactKey "node-1" "a" := by
  have sound : stepped.Sound := sound_of_ofJsonText read_stepped
  refine ⟨parse_render_buried sound (by decide +kernel), by decide, ?_⟩
  rintro ⟨again, isRead, -⟩
  exact ofJsonText_stored_buried stepped again isRead

end RunManifest.PipelineRun
