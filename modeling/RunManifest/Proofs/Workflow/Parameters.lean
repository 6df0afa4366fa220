import RunManifest.Proofs.Table
import RunManifest.Proofs.Text.Utf8
import RunManifest.Proofs.Workflow.Operation

/-!
Contract: what overriding makes of parameters, and what it ignores.

Owns:
- `PipelineRun.overrideParameters_overrideParameters`, the step: overriding twice is overriding with
  both tables, of which the second counts;
- `PipelineRun.runAll_overrideParameters`, the run: so is overriding any number of times;
- `PipelineRun.find?_parameters_overrideParameters`, the values by name after overriding;
- `PipelineRun.Overridden` and `PipelineRun.overrideParameters_all`, position by position and name
  by name;
- `PipelineRun.Ineffective`, a desired name whose value makes no difference, and
  `PipelineRun.unrecognizedParameters_exact`, those are the names that are reported, in one order
  whatever the order in which the desired names are met.

A parameter stands at a position, and several may have one name. Overriding looks at each of them by
its name, so it gives all of them one value, and it never adds a parameter or takes one away.
-/

set_option autoImplicit false

namespace RunManifest

namespace PipelineRun

/-! ## One parameter -/

section Parameter

variable (desired : Table String) (param : Param)

@[simp] theorem name_overrideParameter : (overrideParameter desired param).name = param.name := by
  rw [overrideParameter]
  split <;> rfl

/-- A desired value is put as a text, else the value keeps its shape. -/
theorem value_overrideParameter :
    (overrideParameter desired param).value =
      ((desired.find? param.name).map ParamValue.text).getD param.value := by
  rw [overrideParameter]
  split <;> simp_all

private theorem asText_overrideParameter :
    (overrideParameter desired param).value.asText =
      (desired.find? param.name).getD param.value.asText := by
  rw [value_overrideParameter]
  cases desired.find? param.name <;> rfl

variable {desired param}

private theorem overrideParameter_congr
    {other : Table String}
    (same : desired.find? param.name = other.find? param.name) :
    overrideParameter desired param = overrideParameter other param := by
  rw [overrideParameter, overrideParameter, same]

private theorem overrideParameter_eq_self (absent : desired.find? param.name = none) :
    overrideParameter desired param = param := by
  rw [overrideParameter, absent]

private theorem overrideParameter_overrideParameter (first second : Table String) (param : Param) :
    overrideParameter second (overrideParameter first param) =
      overrideParameter (first.union second) param := by
  rw [Param.mk.injEq]
  simp only [name_overrideParameter, value_overrideParameter, Table.find?_union, true_and]
  cases second.find? param.name <;> rfl

end Parameter

/-! ## All parameters -/

private theorem overrideParameters_congr
    {desired other : Table String}
    {run : PipelineRun}
    (same : ∀ param ∈ run.spec.params, desired.find? param.name = other.find? param.name) :
    run.overrideParameters desired = run.overrideParameters other := by
  rw [overrideParameters, overrideParameters,
    List.map_congr_left fun param member => overrideParameter_congr (same param member)]

private theorem overrideParameters_empty (run : PipelineRun) :
    run.overrideParameters .empty = run := by
  have unchanged : run.spec.params.map (overrideParameter .empty) = run.spec.params :=
    List.map_id'' (fun _ => overrideParameter_eq_self rfl) _
  rw [overrideParameters, unchanged]

/-- Overriding twice is overriding with both tables, of which the second counts. -/
theorem overrideParameters_overrideParameters
    (first second : Table String)
    (run : PipelineRun) :
    (run.overrideParameters first).overrideParameters second =
      run.overrideParameters (first.union second) := by
  simp only [overrideParameters, List.map_map]
  congr 2
  exact List.map_congr_left fun param _ => overrideParameter_overrideParameter first second param

private theorem runAll_overrideParameters_from
    (desired : List (Table String))
    (start : Table String)
    (run : PipelineRun) :
    Operation.runAll (run.overrideParameters start) (desired.map .overrideParameters) =
      run.overrideParameters (desired.foldl .union start) := by
  induction desired generalizing start with
  | nil => rfl
  | cons next rest inductionHypothesis =>
      have later := inductionHypothesis (start.union next)
      rw [← overrideParameters_overrideParameters] at later
      exact later

/-- Overriding any number of times is overriding once with all tables, of which the last with
a name counts. -/
theorem runAll_overrideParameters (desired : List (Table String)) (run : PipelineRun) :
    Operation.runAll run (desired.map .overrideParameters) =
      run.overrideParameters (.unionAll desired) := by
  have fromNothing := runAll_overrideParameters_from desired .empty run
  rwa [overrideParameters_empty] at fromNothing

/-! ## Values by name -/

private theorem lookup_map_params (view : Param → String) (name : String) (params : List Param) :
    (params.map fun param => (param.name, view param)).lookup name =
      (params.find? fun param => param.name == name).map view := by
  induction params with
  | nil => rfl
  | cons param rest inductionHypothesis =>
      rw [List.map_cons, List.lookup_cons, List.find?_cons, inductionHypothesis, Bool.beq_comm]
      cases param.name == name <;> rfl

/-- The value of a parameter by name after overriding: the desired one, or that of the last
parameter with the name. -/
theorem find?_parameters_overrideParameters
    (desired : Table String)
    (run : PipelineRun)
    (name : String) :
    (run.overrideParameters desired).parameters.find? name =
      (run.spec.params.reverse.find? fun param => param.name == name).map fun param =>
        (desired.find? name).getD param.value.asText := by
  have entries : (run.overrideParameters desired).spec.params.map
        (fun param => (param.name, param.value.asText)) =
      run.spec.params.map
        fun param => (param.name, (desired.find? param.name).getD param.value.asText) := by
    rw [overrideParameters, List.map_map]
    refine List.map_congr_left fun param _ => ?_
    rw [Function.comp_apply, name_overrideParameter, asText_overrideParameter]
  rw [parameters, Dictionary.find?_ofList, entries, ← List.map_reverse, lookup_map_params]
  refine Option.map_congr fun param found => ?_
  have isNamed : param.name = name := by simpa using List.find?_some found
  rw [isNamed]

private theorem mem_keys_parameters_overrideParameters
    {desired : Table String}
    {run : PipelineRun}
    {name : String} :
    name ∈ (run.overrideParameters desired).parameters.keys ↔
      ∃ param ∈ run.spec.params, param.name = name := by
  rw [Dictionary.mem_keys, find?_parameters_overrideParameters, ← Option.isSome_iff_exists,
    Option.isSome_map, List.find?_isSome]
  simp

private theorem find?_parameters_of_desired
    {desired : Table String}
    {run : PipelineRun}
    {name value : String}
    (isDesired : desired.find? name = some value)
    (declared : ∃ param ∈ run.spec.params, param.name = name) :
    (run.overrideParameters desired).parameters.find? name = some value := by
  obtain ⟨found, isFound⟩ :=
    Dictionary.mem_keys.mp (mem_keys_parameters_overrideParameters.mpr declared)
  rw [find?_parameters_overrideParameters, isDesired] at isFound ⊢
  obtain ⟨param, isLast, -⟩ := Option.map_eq_some_iff.mp isFound
  rw [isLast]
  rfl

/-- What overriding with one table after the other makes of a run. -/
structure Overridden (desired : List (Table String)) (before after : PipelineRun) : Prop where
  length : after.spec.params.length = before.spec.params.length
  /-- A parameter keeps its name and has the text that the last table with the name has for it, or
  else its own value in its own shape. -/
  position : ∀ position : Nat,
    after.spec.params[position]? =
      before.spec.params[position]?.map fun param =>
        ⟨param.name, ((Table.lastOf? param.name desired).map ParamValue.text).getD param.value⟩
  /-- It is overriding once with all tables. -/
  once : after = before.overrideParameters (.unionAll desired)
  /-- Nothing but the parameters differs. -/
  frame : after = { before with spec := { before.spec with params := after.spec.params } }
  /-- By name, exactly the parameters that were there have a value. -/
  names : ∀ name, name ∈ after.parameters.keys ↔ ∃ param ∈ before.spec.params, param.name = name
  /-- Where no table has the name, it is the value of the last parameter with the name. -/
  values : ∀ name,
    after.parameters.find? name =
      (before.spec.params.reverse.find? fun param => param.name == name).map fun param =>
        (Table.lastOf? name desired).getD param.value.asText

/-- Overriding any number of times neither adds a parameter nor takes one away, and the last table
with a name counts. -/
theorem overrideParameters_all (desired : List (Table String)) (run : PipelineRun) :
    Overridden desired run (Operation.runAll run (desired.map .overrideParameters)) := by
  rw [runAll_overrideParameters]
  exact
    { length := List.length_map _
      position := fun position => by
        rw [overrideParameters, List.getElem?_map]
        refine Option.map_congr fun param _ => ?_
        rw [Param.mk.injEq, name_overrideParameter, value_overrideParameter, Table.find?_unionAll]
        exact ⟨rfl, rfl⟩
      once := rfl
      frame := rfl
      names := fun name => mem_keys_parameters_overrideParameters
      values := fun name => by
        rw [find?_parameters_overrideParameters, Table.find?_unionAll] }

/-! ## Names that are ignored -/

private theorem mem_unrecognizedParameters
    {desired : Table String}
    {run : PipelineRun}
    {name : String} :
    name ∈ run.unrecognizedParameters desired ↔
      name ∈ desired.keys ∧ ∀ param ∈ run.spec.params, param.name ≠ name := by
  simp [unrecognizedParameters, declares]

/-- The names are put in order, whatever the order of the entries. -/
theorem pairwise_unrecognizedParameters (desired : Table String) (run : PipelineRun) :
    (run.unrecognizedParameters desired).Pairwise (· < ·) := by
  have sorted : (run.unrecognizedParameters desired).Pairwise (· ≤ ·) :=
    List.pairwise_mergeSort' (· ≤ ·) _
  have distinct : (run.unrecognizedParameters desired).Nodup :=
    (List.mergeSort_perm _ _).nodup_iff.mpr (desired.distinct.filter _)
  exact (sorted.and distinct).imp fun both => lt_of_le_of_ne both.1 both.2

private theorem unrecognizedParameters_congr
    {desired other : Table String}
    (same : other.entries.Perm desired.entries)
    (run : PipelineRun) :
    run.unrecognizedParameters other = run.unrecognizedParameters desired := by
  refine (pairwise_unrecognizedParameters other run).eq_of_mem_iff
    (pairwise_unrecognizedParameters desired run) fun name => ?_
  have sameKeys : name ∈ other.keys ↔ name ∈ desired.keys := (same.map Prod.fst).mem_iff
  rw [mem_unrecognizedParameters, mem_unrecognizedParameters, sameKeys]

private theorem not_mem_unrecognizedParameters
    {desired : Table String}
    {run : PipelineRun}
    {name : String}
    (isDesired : name ∈ desired.keys) :
    name ∉ run.unrecognizedParameters desired ↔ ∃ param ∈ run.spec.params, param.name = name := by
  simp [mem_unrecognizedParameters, isDesired]

/-- Overriding keeps the declared names. -/
theorem declares_overrideParameters (desired : Table String) (run : PipelineRun) :
    (run.overrideParameters desired).declares = run.declares := by
  funext name
  simp [declares, overrideParameters, Function.comp_def]

private theorem entries_warnUnrecognized (names : List String) :
    (warnUnrecognized names).entries =
      names.map fun name => ⟨.warn, .parameters, "Unrecognized input parameter: " ++ name⟩ := by
  induction names with
  | nil => rfl
  | cons name rest inductionHypothesis =>
      rw [warnUnrecognized, Logged.entries_bind, inductionHypothesis]
      rfl

/-- Whatever value is desired for a name, overriding is as if none were. -/
def Ineffective (desired : Table String) (run : PipelineRun) (name : String) : Prop :=
  ∀ value, run.overrideParameters (desired.insert name value) =
    run.overrideParameters (desired.without [name])

/-- A name makes no difference exactly if no parameter has it. -/
theorem ineffective_iff
    {desired : Table String}
    {run : PipelineRun}
    {name : String} :
    run.Ineffective desired name ↔ ∀ param ∈ run.spec.params, param.name ≠ name := by
  constructor
  · rintro ineffective param member rfl
    -- Two values for the name of a parameter would have to make the same of it.
    have same := (ineffective "").trans (ineffective "x").symm
    have sameParams := congrArg (fun run => run.spec.params) same
    have sameParam := List.map_inj_left.mp sameParams param member
    simp [overrideParameter] at sameParam
  · intro undeclared value
    refine overrideParameters_congr fun param member => ?_
    have different := undeclared param member
    rw [Table.find?_insert_of_ne _ _ different,
      Table.find?_without_of_not_mem (by simpa using different)]

/-- What the names that are reported say about overriding with a table. -/
structure Reported (desired : Table String) (run : PipelineRun) (names : List String) : Prop where
  /-- The names come in the order of their bytes, and none comes twice. -/
  increasing : names.Pairwise fun earlier later => Text.bytes earlier < Text.bytes later
  /-- They are the desired names that make no difference. -/
  ineffective : ∀ name, name ∈ names ↔ name ∈ desired.keys ∧ run.Ineffective desired name
  /-- Leaving all of them out comes to the same. -/
  dispensable : run.overrideParameters desired = run.overrideParameters (desired.without names)
  /-- After overriding they are the desired names without a value. -/
  missing : ∀ name ∈ desired.keys,
    name ∉ (run.overrideParameters desired).parameters.keys ↔ name ∈ names
  /-- All other desired names have the desired value. -/
  present : ∀ name value, desired.find? name = some value → name ∉ names →
    (run.overrideParameters desired).parameters.find? name = some value
  /-- Each of them has one warning. -/
  warned : (run.verifyParameters desired).entries =
    names.map fun name => ⟨.warn, .parameters, "Unrecognized input parameter: " ++ name⟩
  /-- Overriding does not change what is reported. -/
  settled : ∀ other, (run.overrideParameters other).unrecognizedParameters desired = names
  /-- The order in which the entries are met changes neither what is reported nor what is
  overridden. -/
  unordered : ∀ other : Table String, other.entries.Perm desired.entries →
    run.unrecognizedParameters other = names ∧
      run.verifyParameters other = run.verifyParameters desired ∧
      run.overrideParameters other = run.overrideParameters desired

/-- The names that are reported are exactly those that overriding ignores. -/
theorem unrecognizedParameters_exact (desired : Table String) (run : PipelineRun) :
    run.Reported desired (run.unrecognizedParameters desired) where
  increasing := (pairwise_unrecognizedParameters desired run).imp Text.bytes_lt_bytes
  ineffective name := by rw [mem_unrecognizedParameters, ineffective_iff]
  dispensable := by
    refine overrideParameters_congr fun param member => ?_
    refine (Table.find?_without_of_not_mem (fun listed => ?_) desired).symm
    exact (mem_unrecognizedParameters.mp listed).2 param member rfl
  missing name isDesired := by
    rw [mem_keys_parameters_overrideParameters, ← not_mem_unrecognizedParameters isDesired, not_not]
  present name value isDesired recognized := by
    have isKey := Table.mem_keys.mpr ⟨value, isDesired⟩
    exact find?_parameters_of_desired isDesired ((not_mem_unrecognizedParameters isKey).mp recognized)
  warned := entries_warnUnrecognized _
  settled other := by
    rw [unrecognizedParameters, unrecognizedParameters, declares_overrideParameters]
  unordered other same := by
    have sameNames := unrecognizedParameters_congr same run
    refine ⟨sameNames, by rw [verifyParameters, verifyParameters, sameNames], ?_⟩
    exact overrideParameters_congr fun param _ => Table.find?_congr same param.name

end PipelineRun

end RunManifest
