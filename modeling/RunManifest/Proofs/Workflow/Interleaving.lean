import RunManifest.Proofs.Dictionary
import RunManifest.Proofs.Workflow.Operation

/-!
Contract: operations that write different components of a run can be carried out in any order.

Owns:
- `Component`, the parts of a run that an operation writes or leaves alone, with their values in
  `PipelineRun.component`, and `PipelineRun.ext_component`, a run is known by them;
- `Operation.writes`, the components that an operation may change;
- `Operation.component_apply_of_not_writes` and `Operation.component_apply_congr`, the step: an
  operation leaves all other components alone, and what it makes of a component depends on that
  component only;
- `Operation.component_runAll`, the run: operations make of a component what those of them that
  write it do;
- `Operation.Rearranged`, lists of the same operations in which any two that write a common
  component are in the same order, and `Operation.runAll_of_rearranged`, such lists lead to the same
  run.

Copies and substitutions make a new document of the whole run. They are not local, and count as
writing everything.
-/

set_option autoImplicit false

namespace RunManifest

/-! ## Components -/

/-- A map of texts in metadata. -/
inductive TextMap where
  | labels
  | annotations
deriving DecidableEq

/-- The labels or the annotations, none when there is no map for them. -/
def ObjectMeta.texts (metadata : ObjectMeta) : TextMap → Option (Dictionary String)
  | .labels => metadata.labels
  | .annotations => metadata.annotations

/-- A part of a run that is written or left alone. -/
inductive Component where
  | apiVersion
  | kind
  /-- The name, and what the control plane completes to one. -/
  | names
  | «namespace»
  | uid
  | resourceVersion
  | creationTimestamp
  /-- One label, or one annotation. -/
  | entry (map : TextMap) (key : String)
  | owners
  /-- The other members of the metadata. -/
  | metadataExtra
  | parameters
  | serviceAccount
  /-- The other members of the template for tasks. -/
  | templateExtra
  /-- The other members of the specification. -/
  | specExtra
  | status
deriving DecidableEq

namespace Component

/-- The values that a component can have. -/
def Value : Component → Type
  | .names => String × String
  | .creationTimestamp => Option Instant
  | .entry _ _ => Option String
  | .owners => Option (List OwnerReference)
  | .metadataExtra => Dictionary Json
  | .parameters => List Param
  | .templateExtra => Dictionary Json
  | .specExtra => Dictionary Json
  | .status => PipelineRunStatus
  | _ => String

/-- The components that no local operation writes. -/
def fixed : List Component :=
  [ .apiVersion, .kind, .namespace, .uid, .resourceVersion, .creationTimestamp, .metadataExtra,
    .templateExtra, .specExtra, .status ]

end Component

namespace PipelineRun

/-- The value of a component of a run. -/
def component (run : PipelineRun) : (component : Component) → component.Value
  | .apiVersion => run.apiVersion
  | .kind => run.kind
  | .names => (run.metadata.name, run.metadata.generateName)
  | .namespace => run.metadata.namespace
  | .uid => run.metadata.uid
  | .resourceVersion => run.metadata.resourceVersion
  | .creationTimestamp => run.metadata.creationTimestamp
  | .entry map key => (run.metadata.texts map).bind (Dictionary.find? key)
  | .owners => run.metadata.ownerReferences
  | .metadataExtra => run.metadata.extra
  | .parameters => run.spec.params
  | .serviceAccount => run.spec.taskRunTemplate.serviceAccountName
  | .templateExtra => run.spec.taskRunTemplate.extra
  | .specExtra => run.spec.extra
  | .status => run.status

section Extensionality

variable {left right : PipelineRun}

/-- A map is known by its entries and by whether it is there. -/
theorem texts_eq_of_component
    {map : TextMap}
    (entries : ∀ key, left.component (.entry map key) = right.component (.entry map key))
    (present : (left.metadata.texts map).isSome = (right.metadata.texts map).isSome) :
    left.metadata.texts map = right.metadata.texts map := by
  simp only [component] at entries
  cases isLeft : left.metadata.texts map with
  | none =>
      rw [isLeft] at present
      exact (Option.isNone_iff_eq_none.mp (by simpa using present.symm)).symm
  | some leftTexts =>
      rw [isLeft] at present entries
      obtain ⟨rightTexts, isRight⟩ := Option.isSome_iff_exists.mp present.symm
      rw [isRight] at entries ⊢
      exact congrArg some (Dictionary.ext_find? entries)

/-- A run is known by its components and by whether it has maps of labels and of annotations. -/
theorem ext_component
    (same : ∀ component, left.component component = right.component component)
    (present : ∀ map, (left.metadata.texts map).isSome = (right.metadata.texts map).isSome) :
    left = right := by
  have texts : ∀ map, left.metadata.texts map = right.metadata.texts map := fun map =>
    texts_eq_of_component (fun key => same (.entry map key)) (present map)
  obtain ⟨name, generateName⟩ := Prod.mk.inj (same .names)
  have metadata : left.metadata = right.metadata := by
    rw [ObjectMeta.mk.injEq]
    exact ⟨name, generateName, same .namespace, same .uid, same .resourceVersion,
      same .creationTimestamp, texts .labels, texts .annotations, same .owners,
      same .metadataExtra⟩
  have template : left.spec.taskRunTemplate = right.spec.taskRunTemplate := by
    rw [TaskRunTemplate.mk.injEq]
    exact ⟨same .serviceAccount, same .templateExtra⟩
  have spec : left.spec = right.spec := by
    rw [PipelineRunSpec.mk.injEq]
    exact ⟨same .parameters, template, same .specExtra⟩
  rw [PipelineRun.mk.injEq]
  exact ⟨same .apiVersion, same .kind, metadata, spec, same .status⟩

end Extensionality

/-! ## Labels and annotations -/

/-- The run with a label or an annotation set. -/
def setText (map : TextMap) (key value : String) (run : PipelineRun) : PipelineRun :=
  match map with
  | .labels => run.setLabel key value
  | .annotations => run.setAnnotation key value

/-- The run with several labels or annotations set, one after the other. -/
def setTexts (map : TextMap) (entries : List (String × String)) (run : PipelineRun) : PipelineRun :=
  entries.foldl (fun run entry => run.setText map entry.1 entry.2) run

@[simp] theorem setTexts_cons
    (map : TextMap)
    (entry : String × String)
    (rest : List (String × String))
    (run : PipelineRun) :
    run.setTexts map (entry :: rest) = (run.setText map entry.1 entry.2).setTexts map rest := rfl

section Texts

variable {map other : TextMap} {component : Component}

private theorem texts_setText_self (map : TextMap) (key value : String) (run : PipelineRun) :
    (run.setText map key value).metadata.texts map =
      some (((run.metadata.texts map).getD .empty).insert key value) := by
  cases map <;> rfl

private theorem texts_setText_of_ne
    (different : other ≠ map)
    (key value : String)
    (run : PipelineRun) :
    (run.setText map key value).metadata.texts other = run.metadata.texts other := by
  cases map with
  | labels =>
      cases other with
      | labels => exact absurd rfl different
      | annotations => rfl
  | annotations =>
      cases other with
      | labels => rfl
      | annotations => exact absurd rfl different

private theorem component_setText_self (map : TextMap) (key value : String) (run : PipelineRun) :
    (run.setText map key value).component (.entry map key) = some value := by
  rw [component, texts_setText_self]
  exact Dictionary.find?_insert_self key value _

private theorem component_setText_of_ne
    {key : String}
    (different : component ≠ .entry map key)
    (value : String)
    (run : PipelineRun) :
    (run.setText map key value).component component = run.component component := by
  cases component with
  | entry otherMap otherKey =>
      simp only [PipelineRun.component]
      by_cases sameMap : otherMap = map
      · subst sameMap
        have otherwise : otherKey ≠ key := by
          rintro rfl
          exact different rfl
        rw [texts_setText_self, Option.bind_some, Dictionary.find?_insert_of_ne _ _ _ _ otherwise]
        cases run.metadata.texts otherMap <;> rfl
      · rw [texts_setText_of_ne sameMap]
  | _ => cases map <;> rfl

private theorem component_setTexts_of_not_mem
    {entries : List (String × String)}
    (absent : ∀ entry ∈ entries, component ≠ .entry map entry.1)
    (run : PipelineRun) :
    (run.setTexts map entries).component component = run.component component := by
  induction entries generalizing run with
  | nil => rfl
  | cons entry rest inductionHypothesis =>
      have later := inductionHypothesis (fun other member => absent other (by simp [member]))
        (run.setText map entry.1 entry.2)
      exact later.trans (component_setText_of_ne (absent entry (by simp)) entry.2 run)

private theorem component_setTexts_congr
    (map : TextMap)
    (entries : List (String × String))
    {left right : PipelineRun}
    (same : left.component component = right.component component) :
    (left.setTexts map entries).component component =
      (right.setTexts map entries).component component := by
  induction entries generalizing left right with
  | nil => exact same
  | cons entry rest inductionHypothesis =>
      apply inductionHypothesis
      by_cases written : component = .entry map entry.1
      · subst written
        rw [component_setText_self, component_setText_self]
      · rw [component_setText_of_ne written, component_setText_of_ne written, same]

/-- Setting a text makes sure that its map is there. -/
theorem isSome_texts_setTexts
    (map other : TextMap)
    (entries : List (String × String))
    (run : PipelineRun) :
    ((run.setTexts map entries).metadata.texts other).isSome = true ↔
      (run.metadata.texts other).isSome = true ∨ other = map ∧ entries ≠ [] := by
  induction entries generalizing run with
  | nil => simp [setTexts]
  | cons entry rest inductionHypothesis =>
      have later := inductionHypothesis (run.setText map entry.1 entry.2)
      by_cases same : other = map
      · subst same
        simpa [texts_setText_self] using later
      · simpa [texts_setText_of_ne same, same] using later

end Texts

end PipelineRun

/-! ## Operations -/

/-- The labels of a scheduled run. -/
def canonicalLabels (name : String) (epoch index : Int) : List (String × String) :=
  [ (LabelKey.scheduledWorkflowName, name),
    (LabelKey.workflowEpoch, (Label.format epoch).result),
    (LabelKey.workflowIndex, (Label.format index).result),
    (LabelKey.isOwnedBySchedule, "true") ]

namespace Operation

/-- Whether an operation writes single components of a run. -/
def isLocal : Operation → Bool
  | .specOnlyClone => false
  | .replaceUid _ => false
  | .replaceEarlierRunName _ => false
  | _ => true

/-- Whether an operation may change a component. -/
def writes : Operation → Component → Bool
  | .overrideParameters _, component => component = .parameters
  | .setServiceAccount _, component => component = .serviceAccount
  | .overrideName _, component => component = .names
  | .setOwnerReference _, component => component = .owners
  | .setCanonicalLabels _ _ _, component =>
      component ∈
        [ .entry .labels LabelKey.scheduledWorkflowName, .entry .labels LabelKey.workflowEpoch,
          .entry .labels LabelKey.workflowIndex, .entry .labels LabelKey.isOwnedBySchedule ]
  | .setLabel key _, component => component = .entry .labels key
  | Operation.setAnnotation key _, component => component = .entry .annotations key
  | .setRunIdLabel _, component => component = .entry .labels LabelKey.runId
  | _, _ => true

/-- Two operations write a common component. -/
def Conflicts (first second : Operation) : Prop :=
  ∃ component, first.writes component = true ∧ second.writes component = true

/-! ### Operations on labels and annotations -/

/-- The operation sets entries of one map and does nothing else. -/
structure Sets
    (operation : Operation)
    (map : TextMap)
    (entries : List (String × String)) : Prop where
  apply : ∀ run, operation.apply run = run.setTexts map entries
  writes : ∀ component, operation.writes component = true ↔
    ∃ entry ∈ entries, component = .entry map entry.1

private theorem setLabel_sets (key value : String) :
    Sets (.setLabel key value) .labels [(key, value)] :=
  ⟨fun _ => rfl, by simp [Operation.writes]⟩

private theorem setAnnotation_sets (key value : String) :
    Operation.setAnnotation key value |>.Sets .annotations [(key, value)] :=
  ⟨fun _ => rfl, by simp [Operation.writes]⟩

private theorem setRunIdLabel_sets (id : String) :
    Sets (.setRunIdLabel id) .labels [(LabelKey.runId, id)] :=
  ⟨fun _ => rfl, by simp [Operation.writes]⟩

private theorem setCanonicalLabels_sets (name : String) (epoch index : Int) :
    Sets (.setCanonicalLabels name epoch index) .labels (canonicalLabels name epoch index) :=
  ⟨fun _ => rfl, by simp [Operation.writes, canonicalLabels]⟩

namespace Sets

variable
  {operation : Operation}
  {map : TextMap}
  {entries : List (String × String)}
  (sets : Sets operation map entries)

include sets

private theorem component_of_not_writes
    {component : Component}
    (notWritten : ¬ operation.writes component = true)
    (run : PipelineRun) :
    (operation.apply run).component component = run.component component := by
  rw [sets.writes] at notWritten
  rw [sets.apply]
  refine PipelineRun.component_setTexts_of_not_mem (fun entry member same => ?_) run
  exact notWritten ⟨entry, member, same⟩

private theorem component_congr
    {component : Component}
    {left right : PipelineRun}
    (same : left.component component = right.component component) :
    (operation.apply left).component component = (operation.apply right).component component := by
  rw [sets.apply, sets.apply]
  exact PipelineRun.component_setTexts_congr map entries same

private theorem isSome_texts (other : TextMap) (run : PipelineRun) :
    ((operation.apply run).metadata.texts other).isSome = true ↔
      (run.metadata.texts other).isSome = true ∨
        ∃ key, operation.writes (.entry other key) = true := by
  rw [sets.apply, PipelineRun.isSome_texts_setTexts]
  simp only [sets.writes, Component.entry.injEq]
  refine or_congr_right ?_
  constructor
  · rintro ⟨rfl, nonempty⟩
    obtain ⟨entry, member⟩ := List.exists_mem_of_ne_nil entries nonempty
    exact ⟨entry.1, entry, member, rfl, rfl⟩
  · rintro ⟨key, entry, member, sameMap, -⟩
    exact ⟨sameMap, List.ne_nil_of_mem member⟩

end Sets

/-! ### Steps -/

section Steps

variable {operation : Operation} {component : Component}

/-- An operation leaves the components alone that it does not write. -/
theorem component_apply_of_not_writes
    (notWritten : ¬ operation.writes component = true)
    (run : PipelineRun) :
    (operation.apply run).component component = run.component component := by
  cases operation with
  | overrideParameters desired =>
      cases component with
      | parameters => exact absurd rfl notWritten
      | _ => rfl
  | setServiceAccount account =>
      cases component with
      | serviceAccount => exact absurd rfl notWritten
      | _ => rfl
  | specOnlyClone => exact absurd rfl notWritten
  | overrideName name =>
      cases component with
      | names => exact absurd rfl notWritten
      | _ => rfl
  | setOwnerReference schedule =>
      cases component with
      | owners => exact absurd rfl notWritten
      | _ => rfl
  | setCanonicalLabels name epoch index =>
      exact (setCanonicalLabels_sets name epoch index).component_of_not_writes notWritten run
  | setLabel key value => exact (setLabel_sets key value).component_of_not_writes notWritten run
  | setAnnotation key value =>
      exact (setAnnotation_sets key value).component_of_not_writes notWritten run
  | setRunIdLabel id => exact (setRunIdLabel_sets id).component_of_not_writes notWritten run
  | replaceUid id => exact absurd rfl notWritten
  | replaceEarlierRunName name => exact absurd rfl notWritten

private theorem isSome_texts_of_not_writes
    {map : TextMap}
    {run : PipelineRun}
    (same : (operation.apply run).metadata.texts map = run.metadata.texts map)
    (notWritten : ∀ key, ¬ operation.writes (.entry map key) = true) :
    ((operation.apply run).metadata.texts map).isSome = true ↔
      (run.metadata.texts map).isSome = true ∨ ∃ key, operation.writes (.entry map key) = true := by
  rw [same]
  exact (or_iff_left fun ⟨key, written⟩ => notWritten key written).symm

variable (isLocal : operation.isLocal = true)

include isLocal

private theorem not_writes_of_mem_fixed (isFixed : component ∈ Component.fixed) :
    ¬ operation.writes component = true := by
  have none : (Component.fixed.all fun component => !operation.writes component) = true := by
    cases operation with
    | specOnlyClone => cases isLocal
    | replaceUid id => cases isLocal
    | replaceEarlierRunName name => cases isLocal
    | _ => rfl
  simpa using List.all_eq_true.mp none component isFixed

/-- What a local operation makes of a component depends on that component only. -/
theorem component_apply_congr
    {left right : PipelineRun}
    (same : left.component component = right.component component) :
    (operation.apply left).component component = (operation.apply right).component component := by
  cases operation with
  | overrideParameters desired =>
      cases component with
      | parameters => exact congrArg (List.map (PipelineRun.overrideParameter desired)) same
      | _ => exact same
  | setServiceAccount account =>
      cases component with
      | serviceAccount => rfl
      | _ => exact same
  | specOnlyClone => cases isLocal
  | overrideName name =>
      cases component with
      | names => rfl
      | _ => exact same
  | setOwnerReference schedule =>
      cases component with
      | owners => rfl
      | _ => exact same
  | setCanonicalLabels name epoch index =>
      exact (setCanonicalLabels_sets name epoch index).component_congr same
  | setLabel key value => exact (setLabel_sets key value).component_congr same
  | setAnnotation key value => exact (setAnnotation_sets key value).component_congr same
  | setRunIdLabel id => exact (setRunIdLabel_sets id).component_congr same
  | replaceUid id => cases isLocal
  | replaceEarlierRunName name => cases isLocal

/-- A map of texts is there if it was, or if one of its entries is written. -/
theorem isSome_texts_apply (map : TextMap) (run : PipelineRun) :
    ((operation.apply run).metadata.texts map).isSome = true ↔
      (run.metadata.texts map).isSome = true ∨ ∃ key, operation.writes (.entry map key) = true := by
  cases operation with
  | overrideParameters desired => exact isSome_texts_of_not_writes rfl (by simp [writes])
  | setServiceAccount account => exact isSome_texts_of_not_writes rfl (by simp [writes])
  | specOnlyClone => cases isLocal
  | overrideName name =>
      exact isSome_texts_of_not_writes (by cases map <;> rfl) (by simp [writes])
  | setOwnerReference schedule =>
      exact isSome_texts_of_not_writes (by cases map <;> rfl) (by simp [writes])
  | setCanonicalLabels name epoch index =>
      exact (setCanonicalLabels_sets name epoch index).isSome_texts map run
  | setLabel key value => exact (setLabel_sets key value).isSome_texts map run
  | setAnnotation key value => exact (setAnnotation_sets key value).isSome_texts map run
  | setRunIdLabel id => exact (setRunIdLabel_sets id).isSome_texts map run
  | replaceUid id => cases isLocal
  | replaceEarlierRunName name => cases isLocal

end Steps

/-! ### Runs -/

section Runs

variable
  {operations : List Operation}
  (areLocal : ∀ operation ∈ operations, operation.isLocal = true)

include areLocal

/-- Operations make of a component what those of them that write it do. -/
theorem component_runAll
    {component : Component}
    {left right : PipelineRun}
    (same : left.component component = right.component component) :
    (runAll left operations).component component =
      (runAll right (operations.filter (·.writes component))).component component := by
  induction operations generalizing left right with
  | nil => exact same
  | cons operation rest inductionHypothesis =>
      obtain ⟨isLocal, restLocal⟩ := List.forall_mem_cons.mp areLocal
      by_cases written : operation.writes component = true
      · rw [List.filter_cons, if_pos written]
        exact inductionHypothesis restLocal (component_apply_congr isLocal same)
      · rw [List.filter_cons, if_neg written]
        exact inductionHypothesis restLocal
          ((component_apply_of_not_writes written left).trans same)

private theorem component_runAll_of_not_writes
    {component : Component}
    (notWritten : ∀ operation ∈ operations, ¬ operation.writes component = true)
    (run : PipelineRun) :
    (runAll run operations).component component = run.component component := by
  have only := component_runAll areLocal (Eq.refl (run.component component))
  rwa [List.filter_eq_nil_iff.mpr notWritten] at only

private theorem isSome_texts_runAll (map : TextMap) (run : PipelineRun) :
    ((runAll run operations).metadata.texts map).isSome = true ↔
      (run.metadata.texts map).isSome = true ∨
        ∃ operation ∈ operations, ∃ key, operation.writes (.entry map key) = true := by
  induction operations generalizing run with
  | nil => simp [runAll]
  | cons operation rest inductionHypothesis =>
      obtain ⟨isLocal, restLocal⟩ := List.forall_mem_cons.mp areLocal
      have later := inductionHypothesis restLocal (operation.apply run)
      rw [isSome_texts_apply isLocal, or_assoc] at later
      rw [List.exists_mem_cons_iff]
      exact later

/-- A map of which nothing is written stays as it is, and is not put there. -/
theorem texts_runAll_of_not_writes
    {map : TextMap}
    (notWritten : ∀ operation ∈ operations, ∀ key, ¬ operation.writes (.entry map key) = true)
    (run : PipelineRun) :
    (runAll run operations).metadata.texts map = run.metadata.texts map := by
  refine PipelineRun.texts_eq_of_component (fun key => ?_) ?_
  · exact component_runAll_of_not_writes areLocal
      (fun operation member => notWritten operation member key) run
  · rw [Bool.eq_iff_iff, isSome_texts_runAll areLocal]
    refine or_iff_left ?_
    rintro ⟨operation, member, key, written⟩
    exact notWritten operation member key written

end Runs

/-! ### Rearrangements -/

/-- Lists of the same operations, in which any two that write a common component are in the same
order. -/
def Rearranged (first second : List Operation) : Prop :=
  ∃ place : Fin first.length ≃ Fin second.length,
    (∀ position, second.get (place position) = first.get position) ∧
      ∀ earlier later, earlier < later → (first.get earlier).Conflicts (first.get later) →
        place earlier < place later

/-- The positions of the operations that write a component, from left to right. -/
def writers (component : Component) (operations : List Operation) : List (Fin operations.length) :=
  (List.finRange operations.length).filter fun position =>
    (operations.get position).writes component

private theorem mem_writers
    {component : Component}
    {operations : List Operation}
    {position : Fin operations.length} :
    position ∈ writers component operations ↔
      (operations.get position).writes component = true := by
  simp [writers]

private theorem pairwise_writers (component : Component) (operations : List Operation) :
    (writers component operations).Pairwise (· < ·) :=
  (List.pairwise_lt_finRange operations.length).filter _

private theorem map_get_writers (component : Component) (operations : List Operation) :
    (writers component operations).map operations.get =
      operations.filter (·.writes component) := by
  have whole := List.map_get_finRange operations
  conv_rhs => rw [← whole, List.filter_map]
  rfl

namespace Rearranged

variable {first second : List Operation} (rearranged : Rearranged first second)

include rearranged

/-- The operations that write one component are the same in the same order. -/
theorem filter_writes (component : Component) :
    first.filter (·.writes component) = second.filter (·.writes component) := by
  obtain ⟨place, same, ordered⟩ := rearranged
  -- Any two of them write the component, so their places are increasing as they are themselves.
  have increasing : ((writers component first).map place).Pairwise (· < ·) := by
    rw [List.pairwise_map]
    refine (pairwise_writers component first).imp_of_mem fun isEarlier isLater before => ?_
    exact ordered _ _ before ⟨component, mem_writers.mp isEarlier, mem_writers.mp isLater⟩
  have places : (writers component first).map place = writers component second := by
    refine increasing.eq_of_mem_iff (pairwise_writers component second) fun position => ?_
    rw [mem_writers, List.mem_map]
    constructor
    · rintro ⟨source, isWriter, rfl⟩
      rw [same]
      exact mem_writers.mp isWriter
    · intro written
      refine ⟨place.symm position, mem_writers.mpr ?_, place.apply_symm_apply position⟩
      rwa [← same, place.apply_symm_apply]
  rw [← map_get_writers, ← map_get_writers, ← places, List.map_map]
  exact List.map_congr_left fun position _ => (same position).symm

theorem mem_iff (operation : Operation) : operation ∈ first ↔ operation ∈ second := by
  obtain ⟨place, same, -⟩ := rearranged
  rw [List.mem_iff_get, List.mem_iff_get]
  constructor
  · rintro ⟨position, rfl⟩
    exact ⟨place position, same position⟩
  · rintro ⟨position, rfl⟩
    exact ⟨place.symm position, by rw [← same, place.apply_symm_apply]⟩

/-- Rearranged local operations lead to the same run. -/
theorem runAll_eq
    (areLocal : ∀ operation ∈ first, operation.isLocal = true)
    (run : PipelineRun) :
    runAll run first = runAll run second := by
  have secondLocal : ∀ operation ∈ second, operation.isLocal = true := fun operation member =>
    areLocal operation ((rearranged.mem_iff operation).mpr member)
  refine PipelineRun.ext_component (fun component => ?_) fun map => ?_
  · rw [component_runAll areLocal rfl, component_runAll secondLocal rfl,
      rearranged.filter_writes component]
  · rw [Bool.eq_iff_iff, isSome_texts_runAll areLocal, isSome_texts_runAll secondLocal]
    simp only [rearranged.mem_iff]

end Rearranged

/-- Local operations lead to the same run, stored as the same text, in any order that keeps the
order of those that write a common component. All that none of them writes stays as it was. -/
theorem runAll_of_rearranged
    {first second : List Operation}
    (areLocal : ∀ operation ∈ first, operation.isLocal = true)
    (rearranged : Rearranged first second)
    (run : PipelineRun) :
    runAll run first = runAll run second ∧
      (runAll run first).stored = (runAll run second).stored ∧
      (∀ component, (∀ operation ∈ first, ¬ operation.writes component = true) →
        (runAll run first).component component = run.component component) ∧
      (∀ component ∈ Component.fixed,
        (runAll run first).component component = run.component component) ∧
      ∀ map, (∀ operation ∈ first, ∀ key, ¬ operation.writes (.entry map key) = true) →
        (runAll run first).metadata.texts map = run.metadata.texts map := by
  have same := rearranged.runAll_eq areLocal run
  refine ⟨same, congrArg PipelineRun.stored same, fun component notWritten => ?_,
    fun component isFixed => ?_, fun map notWritten => ?_⟩
  · exact component_runAll_of_not_writes areLocal notWritten run
  · exact component_runAll_of_not_writes areLocal
      (fun operation member => not_writes_of_mem_fixed (areLocal operation member) isFixed) run
  · exact texts_runAll_of_not_writes areLocal notWritten run

/-- A label with one of the keys of a scheduled run, before they are set. -/
def nightlySchedule : List Operation :=
  [ .setLabel LabelKey.workflowEpoch "late", .overrideName "second",
    .setCanonicalLabels "nightly" (-5) 3, Operation.setAnnotation LabelKey.workflowEpoch "late" ]

/-- The same operations, with the label still before the labels of a scheduled run. -/
def nightlyReschedule : List Operation :=
  [ Operation.setAnnotation LabelKey.workflowEpoch "late", .setLabel LabelKey.workflowEpoch "late",
    .setCanonicalLabels "nightly" (-5) 3, .overrideName "second" ]

private theorem rearranged_nightlySchedule : Rearranged nightlySchedule nightlyReschedule := by
  let place : Fin 4 ≃ Fin 4 := ⟨![1, 3, 2, 0], ![3, 0, 2, 1], by decide, by decide⟩
  refine ⟨place, by decide, ?_⟩
  rintro earlier later before ⟨component, isWritten, isWrittenAgain⟩
  fin_cases earlier <;> fin_cases later
  -- Of the pairs in order only the label and the labels of a scheduled run have a common key.
  case «0».«2» => exact show (1 : Fin 4) < 2 by decide
  all_goals simp_all [nightlySchedule, writes]

theorem runAll_of_rearranged_nightly :
    (∀ operation ∈ nightlySchedule, operation.isLocal = true) ∧
      Rearranged nightlySchedule nightlyReschedule ∧
      runAll .nightly nightlySchedule = runAll .nightly nightlyReschedule ∧
      (runAll .nightly nightlySchedule).stored = (runAll .nightly nightlyReschedule).stored ∧
      (runAll .nightly nightlySchedule).metadata.uid = "7" := by
  have areLocal : ∀ operation ∈ nightlySchedule, operation.isLocal = true := by
    decide
  obtain ⟨same, stored, -, unwritten, -⟩ :=
    runAll_of_rearranged areLocal rearranged_nightlySchedule .nightly
  exact ⟨areLocal, rearranged_nightlySchedule, same, stored, unwritten .uid (by decide)⟩

end Operation

end RunManifest
