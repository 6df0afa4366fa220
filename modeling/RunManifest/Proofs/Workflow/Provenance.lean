import RunManifest.Proofs.Label
import RunManifest.Proofs.Run.Depth
import RunManifest.Proofs.Run.Reread
import RunManifest.Proofs.Workflow.Operation

/-!
Contract: where a run comes from, and when it was scheduled.

Owns:
- `OwnerReference.Schedules`, the owners that count, and `OwnerReference.Overlooked`, one change to a
  list of owners that the scan overlooks;
- `PipelineRun.find?_overlooked_all`, any number of such changes keeps the owner that is found;
- `PipelineRun.TellsProvenance` and `PipelineRun.scheduledWorkflowUid_earliest`, the identifier of the
  owning schedule for every list of owners, after a schedule was made the owner, and after the store;
- `PipelineRun.scheduledWorkflowUid_not_stored`, a run that is not sound and that the store loses;
- `PipelineRun.scheduledAt_canonical`, the scheduled time through the labels that tell it.
-/

set_option autoImplicit false

namespace RunManifest

/-! ## Owners -/

namespace OwnerReference

/-- An owner that is a schedule with an identifier. -/
structure Schedules (reference : OwnerReference) : Prop where
  apiVersion : reference.apiVersion = "kubeflow.org/v1beta1"
  kind : reference.kind = "ScheduledWorkflow"
  uid : reference.uid ≠ ""

instance (reference : OwnerReference) : Decidable reference.Schedules :=
  decidable_of_iff (reference.apiVersion = "kubeflow.org/v1beta1" ∧
      reference.kind = "ScheduledWorkflow" ∧ reference.uid ≠ "")
    ⟨fun same => ⟨same.1, same.2.1, same.2.2⟩, fun same => ⟨same.apiVersion, same.kind, same.uid⟩⟩

/-- An owner that counts, with only such before it that do not. -/
def Earliest (reference : OwnerReference) (references : List OwnerReference) : Prop :=
  reference.Schedules ∧ ∃ front back, references = front ++ reference :: back ∧
    ∀ earlier ∈ front, ¬ earlier.Schedules

/-- One change to a list of owners: an owner that does not count is put in, taken out or moved in
either direction, or what follows an owner that counts becomes something else. -/
inductive Overlooked : List OwnerReference → List OwnerReference → Prop where
  | insert (front back : List OwnerReference) {reference : OwnerReference}
      (noSchedule : ¬ reference.Schedules) :
      Overlooked (front ++ back) (front ++ reference :: back)
  | remove (front back : List OwnerReference) {reference : OwnerReference}
      (noSchedule : ¬ reference.Schedules) :
      Overlooked (front ++ reference :: back) (front ++ back)
  | later (front middle back : List OwnerReference) {reference : OwnerReference}
      (noSchedule : ¬ reference.Schedules) :
      Overlooked (front ++ reference :: (middle ++ back)) (front ++ (middle ++ reference :: back))
  | earlier (front middle back : List OwnerReference) {reference : OwnerReference}
      (noSchedule : ¬ reference.Schedules) :
      Overlooked (front ++ (middle ++ reference :: back)) (front ++ reference :: (middle ++ back))
  | behind (front back other : List OwnerReference) {reference : OwnerReference}
      (isSchedule : reference.Schedules) :
      Overlooked (front ++ reference :: back) (front ++ reference :: other)

end OwnerReference

namespace PipelineRun

open OwnerReference

private theorem isSchedulingParent_iff (reference : OwnerReference) :
    isSchedulingParent reference = true ↔ reference.Schedules := by
  have version : Kind.scheduledWorkflow.apiVersion = "kubeflow.org/v1beta1" := by decide
  simp only [isSchedulingParent, isKind, version, Bool.and_eq_true, beq_iff_eq,
    Bool.not_eq_true', String.isEmpty_eq_false_iff]
  exact ⟨fun same => ⟨same.1.1, same.1.2, same.2⟩, fun isSchedule =>
    ⟨⟨isSchedule.apiVersion, isSchedule.kind⟩, isSchedule.uid⟩⟩

private theorem isSchedulingParent_eq_false
    {reference : OwnerReference}
    (noSchedule : ¬ reference.Schedules) :
    isSchedulingParent reference = false := by
  rwa [← isSchedulingParent_iff, Bool.not_eq_true] at noSchedule

/-- The scan finds the earliest owner that counts. -/
theorem find?_isSchedulingParent_eq_some
    {references : List OwnerReference}
    {reference : OwnerReference} :
    references.find? isSchedulingParent = some reference ↔ reference.Earliest references := by
  rw [List.find?_eq_some_iff_append, isSchedulingParent_iff, Earliest]
  simp only [Bool.not_eq_true', ← Bool.not_eq_true, isSchedulingParent_iff]

/-- The scan does not see a change that it should overlook. -/
theorem find?_overlooked
    {before after : List OwnerReference}
    (change : Overlooked before after) :
    before.find? isSchedulingParent = after.find? isSchedulingParent := by
  cases change with
  | insert front back noSchedule =>
      simp [List.find?_append, isSchedulingParent_eq_false noSchedule]
  | remove front back noSchedule =>
      simp [List.find?_append, isSchedulingParent_eq_false noSchedule]
  | later front middle back noSchedule =>
      simp [List.find?_append, isSchedulingParent_eq_false noSchedule]
  | earlier front middle back noSchedule =>
      simp [List.find?_append, isSchedulingParent_eq_false noSchedule]
  | behind front back other isSchedule =>
      simp [List.find?_append, (isSchedulingParent_iff _).mpr isSchedule]

/-- Any number of changes that the scan overlooks keeps the owner that is found. -/
theorem find?_overlooked_all
    {before after : List OwnerReference}
    (changes : Relation.ReflTransGen Overlooked before after) :
    before.find? isSchedulingParent = after.find? isSchedulingParent := by
  induction changes with
  | refl => rfl
  | tail _ change inductionHypothesis => rw [inductionHypothesis, find?_overlooked change]

private theorem scheduledWorkflowUid_ne_empty (run : PipelineRun) :
    run.scheduledWorkflowUid ≠ "" ↔ run.hasScheduledWorkflowParent = true := by
  rw [scheduledWorkflowUid, hasScheduledWorkflowParent]
  cases found : run.schedulingParent? with
  | none => simp
  | some reference =>
      have isSchedule := (find?_isSchedulingParent_eq_some.mp found).1
      simpa using isSchedule.uid

private theorem owners_setOwnerReference (schedule : Schedule) (run : PipelineRun) :
    (run.setOwnerReference schedule).result.metadata.ownerReferences =
      some [⟨"kubeflow.org/v1beta1", "ScheduledWorkflow", schedule.name, schedule.uid, some true,
        some true⟩] := rfl

private theorem scheduledWorkflowUid_setOwnerReference (schedule : Schedule) (run : PipelineRun) :
    (run.setOwnerReference schedule).result.scheduledWorkflowUid = schedule.uid := by
  rw [scheduledWorkflowUid, schedulingParent?, ObjectMeta.owners, owners_setOwnerReference,
    Option.getD_some, List.find?_singleton]
  split
  · rfl
  · rename_i noSchedule
    by_contra nonempty
    refine noSchedule ((isSchedulingParent_iff _).mpr ⟨rfl, rfl, fun isEmpty => nonempty ?_⟩)
    exact isEmpty.symm

/-- The store keeps the owners of every run that operations make of a sound one. -/
theorem owners_stored
    {run : PipelineRun}
    (sound : run.Sound)
    (operations : List Operation) :
    ∃ again, ofJsonText (Operation.runAll run operations).stored = .ok again ∧
      again.metadata.owners = (Operation.runAll run operations).metadata.owners :=
  ⟨_, ofJsonText_stored_reread (Operation.sound_runAll sound operations), rfl⟩

private theorem hasScheduledWorkflowParent_eq (run : PipelineRun) :
    run.hasScheduledWorkflowParent = decide (run.scheduledWorkflowUid ≠ "") := by
  rw [Bool.eq_iff_iff, decide_eq_true_eq]
  exact run.scheduledWorkflowUid_ne_empty.symm

private theorem scheduledWorkflowUid_congr
    {left right : PipelineRun}
    (same : left.metadata.owners.find? isSchedulingParent =
      right.metadata.owners.find? isSchedulingParent) :
    left.scheduledWorkflowUid = right.scheduledWorkflowUid := by
  rw [scheduledWorkflowUid, scheduledWorkflowUid, schedulingParent?, schedulingParent?, same]

/-- What the owners of a run tell about where it comes from. -/
structure TellsProvenance (run : PipelineRun) : Prop where
  /-- The identifier is that of the earliest owner that counts. -/
  earliest : ∀ reference : OwnerReference, reference.Earliest run.metadata.owners →
    run.scheduledWorkflowUid = reference.uid
  unscheduled : (∀ reference ∈ run.metadata.owners, ¬ reference.Schedules) →
    run.scheduledWorkflowUid = ""
  /-- There is an identifier just when a schedule owns the run. -/
  parent : run.scheduledWorkflowUid ≠ "" ↔ run.hasScheduledWorkflowParent = true
  /-- Changes that should be overlooked change neither answer. -/
  overlooked : ∀ other : PipelineRun,
    Relation.ReflTransGen Overlooked run.metadata.owners other.metadata.owners →
    other.scheduledWorkflowUid = run.scheduledWorkflowUid ∧
      other.hasScheduledWorkflowParent = run.hasScheduledWorkflowParent
  /-- A schedule that is made the owner is the only one, and manages the run. -/
  onlyOwner : ∀ schedule : Schedule,
    (run.setOwnerReference schedule).result.metadata.ownerReferences =
      some [⟨"kubeflow.org/v1beta1", "ScheduledWorkflow", schedule.name, schedule.uid, some true,
        some true⟩]
  ownerUid : ∀ schedule : Schedule,
    (run.setOwnerReference schedule).result.scheduledWorkflowUid = schedule.uid
  ownerParent : ∀ schedule : Schedule,
    (run.setOwnerReference schedule).result.hasScheduledWorkflowParent = true ↔ schedule.uid ≠ ""
  /-- The store keeps both answers of a sound run, and of whatever operations make of it. -/
  stored : run.Sound → ∀ operations : List Operation,
    ∃ again, ofJsonText (Operation.runAll run operations).stored = .ok again ∧
      again.scheduledWorkflowUid = (Operation.runAll run operations).scheduledWorkflowUid ∧
      again.hasScheduledWorkflowParent =
        (Operation.runAll run operations).hasScheduledWorkflowParent

/-- Every run tells its provenance by the earliest owner that counts. -/
theorem scheduledWorkflowUid_earliest (run : PipelineRun) : run.TellsProvenance where
  earliest reference earliest := by
    rw [scheduledWorkflowUid, schedulingParent?, find?_isSchedulingParent_eq_some.mpr earliest]
    rfl
  unscheduled noSchedule := by
    have notFound : run.schedulingParent? = none :=
      List.find?_eq_none.mpr fun reference isOwner =>
        (isSchedulingParent_iff reference).not.mpr (noSchedule reference isOwner)
    rw [scheduledWorkflowUid, notFound]
    rfl
  parent := run.scheduledWorkflowUid_ne_empty
  overlooked other changes := by
    have sameUid := scheduledWorkflowUid_congr (find?_overlooked_all changes)
    rw [hasScheduledWorkflowParent_eq, hasScheduledWorkflowParent_eq, sameUid]
    exact ⟨rfl, rfl⟩
  onlyOwner schedule := rfl
  ownerUid schedule := scheduledWorkflowUid_setOwnerReference schedule run
  ownerParent schedule := by
    rw [← scheduledWorkflowUid_ne_empty, scheduledWorkflowUid_setOwnerReference]
  stored sound operations := by
    obtain ⟨again, isRead, owners⟩ := owners_stored sound operations
    have sameUid : again.scheduledWorkflowUid =
        (Operation.runAll run operations).scheduledWorkflowUid :=
      scheduledWorkflowUid_congr (by rw [owners])
    refine ⟨again, isRead, sameUid, ?_⟩
    rw [hasScheduledWorkflowParent_eq, hasScheduledWorkflowParent_eq, sameUid]

/-- A schedule among owners. -/
def crowdedOwner (name uid : String) : OwnerReference :=
  ⟨"kubeflow.org/v1beta1", "ScheduledWorkflow", name, uid, none, none⟩

/-- The run with some owners and nothing else. -/
def ownedBy (references : List OwnerReference) : PipelineRun :=
  { blank with metadata := { ObjectMeta.blank with ownerReferences := some references } }

/-- A run whose owners are an object of another kind, a schedule without an identifier and two
schedules. -/
def crowded : PipelineRun :=
  ownedBy [⟨"v1", "Pod", "p", "1", none, none⟩, crowdedOwner "a" "", crowdedOwner "b" "2",
    crowdedOwner "c" "3"]

private theorem sound_crowded : crowded.Sound :=
  ⟨Document.Schema.keeps_empty, ⟨Document.Schema.keeps_empty, Document.Schema.keeps_empty⟩,
    PipelineRunStatus.sound_blank⟩

theorem scheduledWorkflowUid_earliest_crowded :
    (crowdedOwner "b" "2").Earliest crowded.metadata.owners ∧
      crowded.scheduledWorkflowUid = "2" ∧
      Relation.ReflTransGen Overlooked crowded.metadata.owners
        (ownedBy [crowdedOwner "a" "", crowdedOwner "b" "2"]).metadata.owners ∧
      (ownedBy [crowdedOwner "a" "", crowdedOwner "b" "2"]).scheduledWorkflowUid =
        crowded.scheduledWorkflowUid ∧
      (∀ reference ∈ (ownedBy [crowdedOwner "a" ""]).metadata.owners, ¬ reference.Schedules) ∧
      (ownedBy [crowdedOwner "a" ""]).scheduledWorkflowUid = "" ∧
      crowded.Sound ∧
      ∃ again, ofJsonText
          (Operation.runAll crowded [.setOwnerReference ⟨"d", "4"⟩]).stored = .ok again ∧
        again.scheduledWorkflowUid =
          (Operation.runAll crowded [.setOwnerReference ⟨"d", "4"⟩]).scheduledWorkflowUid := by
  have earliest : (crowdedOwner "b" "2").Earliest crowded.metadata.owners :=
    ⟨by decide, [_, _], [_], rfl, by decide⟩
  have changes : Relation.ReflTransGen Overlooked crowded.metadata.owners
      (ownedBy [crowdedOwner "a" "", crowdedOwner "b" "2"]).metadata.owners :=
    .tail (.single (.remove [] [_, _, _] (by decide))) (.behind [_] [_] [] (by decide))
  have noSchedule : ∀ reference ∈ (ownedBy [crowdedOwner "a" ""]).metadata.owners,
      ¬ reference.Schedules := by decide
  have tells := scheduledWorkflowUid_earliest crowded
  obtain ⟨again, isRead, sameUid, -⟩ :=
    tells.stored sound_crowded [.setOwnerReference ⟨"d", "4"⟩]
  exact ⟨earliest, tells.earliest _ earliest, changes, (tells.overlooked _ changes).1, noSchedule,
    (scheduledWorkflowUid_earliest (ownedBy [crowdedOwner "a" ""])).unscheduled noSchedule,
    sound_crowded, again, isRead, sameUid⟩

/-- The store does not keep the provenance of every run: this one is read from its manifest and
refused when its stored text is read. -/
theorem scheduledWorkflowUid_not_stored :
    Manifest.parse (some .yaml) (Manifest.render .yaml crowded.buried) = .ok crowded.buried ∧
      crowded.buried.scheduledWorkflowUid = "2" ∧
      crowded.buried.hasScheduledWorkflowParent = true ∧
      ¬ ∃ again, ofJsonText crowded.buried.stored = .ok again ∧
        again.scheduledWorkflowUid = crowded.buried.scheduledWorkflowUid ∧
        again.hasScheduledWorkflowParent = crowded.buried.hasScheduledWorkflowParent := by
  refine ⟨parse_render_buried sound_crowded (by decide +kernel), by decide, by decide, ?_⟩
  rintro ⟨again, isRead, -⟩
  exact ofJsonText_stored_buried crowded again isRead

/-! ## Scheduled times -/

private theorem label?_setLabel (key value : String) (metadata : ObjectMeta) :
    (metadata.setLabel key value).label? key = some value := by
  simp [ObjectMeta.label?, ObjectMeta.setLabel]

private theorem label?_setLabel_of_ne
    {key other : String}
    (different : other ≠ key)
    (value : String)
    (metadata : ObjectMeta) :
    (metadata.setLabel key value).label? other = metadata.label? other := by
  rw [ObjectMeta.label?, ObjectMeta.setLabel, Option.bind_some,
    Dictionary.find?_insert_of_ne _ _ _ _ different, ObjectMeta.label?]
  cases metadata.labels <;> rfl

/-- The label of the scheduled time is the one that was written for it. -/
theorem label?_setCanonicalLabels (run : PipelineRun) (name : String) (epoch index : Int) :
    (run.setCanonicalLabels name epoch index).result.metadata.label? LabelKey.workflowEpoch =
      some (Label.format epoch).result := by
  simp only [setCanonicalLabels, Logged.result_bind, Logged.result_pure, setLabel]
  rw [label?_setLabel_of_ne (by decide), label?_setLabel_of_ne (by decide), label?_setLabel]

private theorem scheduledAt_of_denotes
    {run : PipelineRun}
    {text : String}
    {value : Int}
    (present : run.metadata.label? LabelKey.workflowEpoch = some text)
    (denotes : Label.Denotes text value) :
    run.scheduledAt = ⟨[], value⟩ := by
  rw [scheduledAt, present]
  dsimp only
  rw [Label.retrieve_eq_ok.mpr denotes]
  rfl

private theorem scheduledAt_of_not_denotes
    {run : PipelineRun}
    {text : String}
    (present : run.metadata.label? LabelKey.workflowEpoch = some text)
    (denotesNothing : ∀ value, ¬ Label.Denotes text value) :
    ∃ message, run.scheduledAt = ⟨[⟨.error, .provenance, message⟩], 0⟩ := by
  rw [scheduledAt, present]
  dsimp only
  cases retrieved : Label.retrieve text with
  | ok value => exact absurd (Label.retrieve_eq_ok.mp retrieved) (denotesNothing value)
  | error error => exact ⟨_, rfl⟩

/-- Integers of 64 bits are written as labels and retrieved from them, label values are accepted and
refused by what they stand for, and the scheduled time of a run is what its label stands for. -/
theorem scheduledAt_canonical :
    (∀ value : Int64,
      (Label.format value.toInt).result ≠ "" ∧
      (Label.format value.toInt).result.length ≤ 19 ∧
      (∀ c ∈ (Label.format value.toInt).result.toList, c.isDigit) ∧
      ((Label.format value.toInt).result = "0" ∨
        (Label.format value.toInt).result.toList.head? ≠ some '0') ∧
      Label.retrieve (Label.format value.toInt).result = .ok (max value.toInt 0)) ∧
    (∀ text : String,
      (∀ value, Label.retrieve text = .ok value ↔ Label.Denotes text value) ∧
      (∀ value, Label.retrieve text = .ok value →
        ((Label.format value).result = text ↔ text = "0" ∨ text.toList.head? ≠ some '0')) ∧
      (∀ error, Label.retrieve text = .error error ↔
        error.value = text ∧ Label.Refused text error.reason)) ∧
    (∀ (run : PipelineRun) (name : String) (epoch index : Int64),
      (run.setCanonicalLabels name epoch.toInt index.toInt).result.scheduledAt =
        ⟨[], max epoch.toInt 0⟩) ∧
    (∀ (run : PipelineRun) (text : String),
      run.metadata.label? LabelKey.workflowEpoch = some text →
      (∀ value, ¬ Label.Denotes text value) →
      ∃ message, run.scheduledAt = ⟨[⟨.error, .provenance, message⟩], 0⟩) := by
  refine ⟨fun value => ?_, fun text => ?_, fun run name epoch index => ?_,
    fun run text present denotesNothing => scheduledAt_of_not_denotes present denotesNothing⟩
  · obtain ⟨denotes, short⟩ := Label.denotes_format value
    exact ⟨denotes.nonempty, short, denotes.digits, Label.noZero_format _,
      Label.retrieve_eq_ok.mpr denotes⟩
  · exact ⟨fun value => Label.retrieve_eq_ok,
      fun value retrieved => Label.format_of_denotes (Label.retrieve_eq_ok.mp retrieved),
      fun error => Label.retrieve_eq_error⟩
  · exact scheduledAt_of_denotes (label?_setCanonicalLabels run name _ _)
      (Label.denotes_format epoch).1

/-- Thirty zeros in front are accepted, and one more than the greatest integer is not. -/
theorem scheduledAt_canonical_limits :
    Label.retrieve "0000000000000000000000000000009223372036854775807" =
        .ok 9223372036854775807 ∧
      (Label.format 9223372036854775807).result ≠
        "0000000000000000000000000000009223372036854775807" ∧
      (blank.setLabel LabelKey.workflowEpoch "9223372036854775808").metadata.label?
        LabelKey.workflowEpoch = some "9223372036854775808" ∧
      ∃ message,
        (blank.setLabel LabelKey.workflowEpoch "9223372036854775808").scheduledAt =
          ⟨[⟨.error, .provenance, message⟩], 0⟩ := by
  obtain ⟨-, codec, -, refuses⟩ := scheduledAt_canonical
  have retrieved : Label.retrieve "0000000000000000000000000000009223372036854775807" =
      .ok 9223372036854775807 := by decide +kernel
  have tooLarge : Label.retrieve "9223372036854775808" =
      .error ⟨"9223372036854775808", .tooLarge⟩ := by decide +kernel
  have present : (blank.setLabel LabelKey.workflowEpoch "9223372036854775808").metadata.label?
      LabelKey.workflowEpoch = some "9223372036854775808" := label?_setLabel _ _ _
  refine ⟨retrieved, fun same => ?_, present, refuses _ _ present fun value denotes => ?_⟩
  · exact absurd (((codec _).2.1 _ retrieved).mp same) (by decide +kernel)
  · rw [((codec _).1 value).mpr denotes] at tooLarge
    cases tooLarge

end PipelineRun

end RunManifest
