import RunManifest.Proofs.Document.Separate
import RunManifest.Run.Basic

/-!
Contract: the parts of a run do not touch each other.

Owns `separate` for each kind of record in a run, that its fields and the members it keeps do not
touch each other, and `orderly`, that it is orderly for this reason.

Each field of a record sets a part of its own, and the members that are kept are such a part, too.
So any two of them are told apart by evaluation, whatever values they set.
-/

set_option autoImplicit false

namespace RunManifest

open Document

/-! ## Metadata -/

namespace OwnerReference

/-- The fields of a reference do not touch each other. -/
theorem separate : (schema Json.format).Separate := by
  refine .of_dropped rfl (by decide) ?_
  simp only [schema, List.pairwise_cons, List.forall_mem_cons, List.not_mem_nil, IsEmpty.forall_iff,
    implies_true, List.Pairwise.nil, and_true]
  repeat' apply And.intro
  all_goals
    exact Field.apart_of_sets (fun _ _ => rfl) (fun _ _ => rfl) (fun _ _ _ => rfl)
      (fun _ _ => rfl) fun _ _ => rfl

theorem orderly : (schema Json.format).Orderly := separate.orderly

end OwnerReference

namespace ObjectMeta

/-- The fields of metadata and the members it keeps do not touch each other. -/
theorem separate : (schema Json.format).Separate := by
  refine .of_kept rfl (by decide) ?_ rfl ⟨fun _ _ => rfl, fun _ _ _ => rfl, fun _ => rfl⟩ ?_
  · simp only [schema, List.pairwise_cons, List.forall_mem_cons, List.not_mem_nil,
      IsEmpty.forall_iff, implies_true, List.Pairwise.nil, and_true]
    repeat' apply And.intro
    all_goals
      exact Field.apart_of_sets (fun _ _ => rfl) (fun _ _ => rfl) (fun _ _ _ => rfl)
        (fun _ _ => rfl) fun _ _ => rfl
  · simp only [schema, List.forall_mem_cons, List.not_mem_nil, IsEmpty.forall_iff, implies_true,
      and_true]
    repeat' apply And.intro
    all_goals exact Field.beside_of_sets (fun _ _ => rfl) (fun _ _ _ => rfl) fun _ _ => rfl

theorem orderly : (schema Json.format).Orderly := separate.orderly

end ObjectMeta

/-! ## Parameters, templates and specifications -/

namespace Param

theorem separate : (schema Json.format).Separate := by
  refine .of_dropped rfl (by decide) ?_
  simp only [schema, List.pairwise_cons, List.forall_mem_cons, List.not_mem_nil, IsEmpty.forall_iff,
    implies_true, List.Pairwise.nil, and_true]
  exact Field.apart_of_sets (fun _ _ => rfl) (fun _ _ => rfl) (fun _ _ _ => rfl)
    (fun _ _ => rfl) fun _ _ => rfl

theorem orderly : (schema Json.format).Orderly := separate.orderly

end Param

namespace TaskRunTemplate

theorem separate : (schema Json.format).Separate := by
  refine .of_kept rfl (by decide) ?_ rfl ⟨fun _ _ => rfl, fun _ _ _ => rfl, fun _ => rfl⟩ ?_
  · exact List.pairwise_singleton _ _
  · simp only [schema, List.forall_mem_cons, List.not_mem_nil, IsEmpty.forall_iff, implies_true,
      and_true]
    exact Field.beside_of_sets (fun _ _ => rfl) (fun _ _ _ => rfl) fun _ _ => rfl

theorem orderly : (schema Json.format).Orderly := separate.orderly

end TaskRunTemplate

namespace PipelineRunSpec

theorem separate : (schema Json.format).Separate := by
  refine .of_kept rfl (by decide) ?_ rfl ⟨fun _ _ => rfl, fun _ _ _ => rfl, fun _ => rfl⟩ ?_
  · simp only [schema, List.pairwise_cons, List.forall_mem_cons, List.not_mem_nil,
      IsEmpty.forall_iff, implies_true, List.Pairwise.nil, and_true]
    exact Field.apart_of_sets (fun _ _ => rfl) (fun _ _ => rfl) (fun _ _ _ => rfl)
      (fun _ _ => rfl) fun _ _ => rfl
  · simp only [schema, List.forall_mem_cons, List.not_mem_nil, IsEmpty.forall_iff, implies_true,
      and_true]
    repeat' apply And.intro
    all_goals exact Field.beside_of_sets (fun _ _ => rfl) (fun _ _ _ => rfl) fun _ _ => rfl

theorem orderly : (schema Json.format).Orderly := separate.orderly

end PipelineRunSpec

/-! ## Statuses -/

namespace Condition

theorem separate : (schema Json.format).Separate := by
  refine .of_kept rfl (by decide) ?_ rfl ⟨fun _ _ => rfl, fun _ _ _ => rfl, fun _ => rfl⟩ ?_
  · simp only [schema, List.pairwise_cons, List.forall_mem_cons, List.not_mem_nil,
      IsEmpty.forall_iff, implies_true, List.Pairwise.nil, and_true]
    repeat' apply And.intro
    all_goals
      exact Field.apart_of_sets (fun _ _ => rfl) (fun _ _ => rfl) (fun _ _ _ => rfl)
        (fun _ _ => rfl) fun _ _ => rfl
  · simp only [schema, List.forall_mem_cons, List.not_mem_nil, IsEmpty.forall_iff, implies_true,
      and_true]
    repeat' apply And.intro
    all_goals exact Field.beside_of_sets (fun _ _ => rfl) (fun _ _ _ => rfl) fun _ _ => rfl

theorem orderly : (schema Json.format).Orderly := separate.orderly

end Condition

namespace ChildReference

theorem separate : (schema Json.format).Separate := by
  refine .of_kept rfl (by decide) ?_ rfl ⟨fun _ _ => rfl, fun _ _ _ => rfl, fun _ => rfl⟩ ?_
  · simp only [schema, List.pairwise_cons, List.forall_mem_cons, List.not_mem_nil,
      IsEmpty.forall_iff, implies_true, List.Pairwise.nil, and_true]
    repeat' apply And.intro
    all_goals
      exact Field.apart_of_sets (fun _ _ => rfl) (fun _ _ => rfl) (fun _ _ _ => rfl)
        (fun _ _ => rfl) fun _ _ => rfl
  · simp only [schema, List.forall_mem_cons, List.not_mem_nil, IsEmpty.forall_iff, implies_true,
      and_true]
    repeat' apply And.intro
    all_goals exact Field.beside_of_sets (fun _ _ => rfl) (fun _ _ _ => rfl) fun _ _ => rfl

theorem orderly : (schema Json.format).Orderly := separate.orderly

end ChildReference

namespace PipelineRunStatus

theorem separate : (schema Json.format).Separate := by
  refine .of_kept rfl (by decide) ?_ rfl ⟨fun _ _ => rfl, fun _ _ _ => rfl, fun _ => rfl⟩ ?_
  · simp only [schema, List.pairwise_cons, List.forall_mem_cons, List.not_mem_nil,
      IsEmpty.forall_iff, implies_true, List.Pairwise.nil, and_true]
    repeat' apply And.intro
    all_goals
      exact Field.apart_of_sets (fun _ _ => rfl) (fun _ _ => rfl) (fun _ _ _ => rfl)
        (fun _ _ => rfl) fun _ _ => rfl
  · simp only [schema, List.forall_mem_cons, List.not_mem_nil, IsEmpty.forall_iff, implies_true,
      and_true]
    repeat' apply And.intro
    all_goals exact Field.beside_of_sets (fun _ _ => rfl) (fun _ _ _ => rfl) fun _ _ => rfl

theorem orderly : (schema Json.format).Orderly := separate.orderly

end PipelineRunStatus

/-! ## Runs -/

namespace PipelineRun

theorem separate : (schema Json.format).Separate := by
  refine .of_dropped rfl (by decide) ?_
  simp only [schema, List.pairwise_cons, List.forall_mem_cons, List.not_mem_nil, IsEmpty.forall_iff,
    implies_true, List.Pairwise.nil, and_true]
  repeat' apply And.intro
  all_goals
    exact Field.apart_of_sets (fun _ _ => rfl) (fun _ _ => rfl) (fun _ _ _ => rfl)
      (fun _ _ => rfl) fun _ _ => rfl

theorem orderly : (schema Json.format).Orderly := separate.orderly

end PipelineRun

end RunManifest
