import RunManifest.Proofs.Run.Separate

/-!
Contract: the readers of runs are composed.

Owns `composed` for each kind of record in a run.
-/

set_option autoImplicit false

namespace RunManifest

open Document

/-! ## Metadata -/

namespace OwnerReference

theorem composed : Composed ((schema Json.format).read Json.format) := by
  refine .record _ separate.independent ?_
  refine List.forall_mem_cons.mpr ⟨.change _ (.text .text), ?_⟩
  refine List.forall_mem_cons.mpr ⟨.change _ (.text .text), ?_⟩
  refine List.forall_mem_cons.mpr ⟨.change _ (.text .text), ?_⟩
  refine List.forall_mem_cons.mpr ⟨.change _ (.text .text), ?_⟩
  refine List.forall_mem_cons.mpr ⟨.change _ (.optional .flag), ?_⟩
  refine List.forall_mem_cons.mpr ⟨.change _ (.optional .flag), ?_⟩
  exact List.forall_mem_nil _

end OwnerReference

namespace ObjectMeta

theorem composed : Composed ((schema Json.format).read Json.format) := by
  refine .record _ separate.independent ?_
  refine List.forall_mem_cons.mpr ⟨.change _ (.text .text), ?_⟩
  refine List.forall_mem_cons.mpr ⟨.change _ (.text .text), ?_⟩
  refine List.forall_mem_cons.mpr ⟨.change _ (.text .text), ?_⟩
  refine List.forall_mem_cons.mpr ⟨.change _ (.text .text), ?_⟩
  refine List.forall_mem_cons.mpr ⟨.change _ (.text .text), ?_⟩
  refine List.forall_mem_cons.mpr ⟨.change _ (.optional .instant), ?_⟩
  refine List.forall_mem_cons.mpr ⟨.change _ (.optional .texts), ?_⟩
  refine List.forall_mem_cons.mpr ⟨.change _ (.optional .texts), ?_⟩
  refine List.forall_mem_cons.mpr ⟨.change _ (.optional (.list OwnerReference.composed)), ?_⟩
  exact List.forall_mem_nil _

end ObjectMeta

/-! ## Parameters, templates and specifications -/

namespace Param

theorem composed : Composed ((schema Json.format).read Json.format) := by
  refine .record _ separate.independent ?_
  refine List.forall_mem_cons.mpr ⟨.change _ (.text .text), ?_⟩
  refine List.forall_mem_cons.mpr ⟨.change _ .paramValue, ?_⟩
  exact List.forall_mem_nil _

end Param

namespace TaskRunTemplate

theorem composed : Composed ((schema Json.format).read Json.format) := by
  refine .record _ separate.independent ?_
  refine List.forall_mem_cons.mpr ⟨.change _ (.text .text), ?_⟩
  exact List.forall_mem_nil _

end TaskRunTemplate

namespace PipelineRunSpec

theorem composed : Composed ((schema Json.format).read Json.format) := by
  refine .record _ separate.independent ?_
  refine List.forall_mem_cons.mpr ⟨.change _ (.list Param.composed), ?_⟩
  refine List.forall_mem_cons.mpr ⟨.change _ TaskRunTemplate.composed, ?_⟩
  exact List.forall_mem_nil _

end PipelineRunSpec

/-! ## Statuses -/

namespace Condition

theorem composed : Composed ((schema Json.format).read Json.format) := by
  refine .record _ separate.independent ?_
  refine List.forall_mem_cons.mpr ⟨.change _ (.text .text), ?_⟩
  refine List.forall_mem_cons.mpr ⟨.change _ (.text .text), ?_⟩
  refine List.forall_mem_cons.mpr ⟨.change _ (.text .text), ?_⟩
  refine List.forall_mem_cons.mpr ⟨.change _ (.text .text), ?_⟩
  refine List.forall_mem_cons.mpr ⟨.change _ (.optional .instant), ?_⟩
  exact List.forall_mem_nil _

end Condition

namespace ChildReference

theorem composed : Composed ((schema Json.format).read Json.format) := by
  refine .record _ separate.independent ?_
  refine List.forall_mem_cons.mpr ⟨.change _ (.text .text), ?_⟩
  refine List.forall_mem_cons.mpr ⟨.change _ (.text .text), ?_⟩
  refine List.forall_mem_cons.mpr ⟨.change _ (.text .text), ?_⟩
  refine List.forall_mem_cons.mpr ⟨.change _ (.text .text), ?_⟩
  exact List.forall_mem_nil _

end ChildReference

namespace PipelineRunStatus

theorem composed : Composed ((schema Json.format).read Json.format) := by
  refine .record _ separate.independent ?_
  refine List.forall_mem_cons.mpr ⟨.change _ (.list Condition.composed), ?_⟩
  refine List.forall_mem_cons.mpr ⟨.change _ (.optional .instant), ?_⟩
  refine List.forall_mem_cons.mpr ⟨.change _ (.optional .instant), ?_⟩
  refine List.forall_mem_cons.mpr ⟨.change _ (.list ChildReference.composed), ?_⟩
  exact List.forall_mem_nil _

end PipelineRunStatus

/-! ## Runs -/

namespace PipelineRun

theorem composed : Composed ((schema Json.format).read Json.format) := by
  refine .record _ separate.independent ?_
  refine List.forall_mem_cons.mpr ⟨.change _ (.text .text), ?_⟩
  refine List.forall_mem_cons.mpr ⟨.change _ (.text .text), ?_⟩
  refine List.forall_mem_cons.mpr ⟨.change _ ObjectMeta.composed, ?_⟩
  refine List.forall_mem_cons.mpr ⟨.change _ PipelineRunSpec.composed, ?_⟩
  refine List.forall_mem_cons.mpr ⟨.change _ PipelineRunStatus.composed, ?_⟩
  exact List.forall_mem_nil _

end PipelineRun

end RunManifest
