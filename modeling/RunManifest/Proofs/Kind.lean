import RunManifest.Proofs.Text.Joined
import RunManifest.Run.Metadata

/-!
Contract: the text of a group and a version tells both, so kinds can be compared by it.

Owns:
- `Kind.apiVersion_inj`, kinds whose versions have no slash have the same text just when they have
  the same group and the same version;
- `OwnerReference.isKind_managing`, a reference to an owner is of the kind that it was made for and
  of no other.
-/

set_option autoImplicit false

namespace RunManifest

namespace Kind

variable {kind first second : Kind}

/-- The core group leaves the version alone. -/
theorem apiVersion_of_core (core : kind.group = "") : kind.apiVersion = kind.version := by
  simp [apiVersion, core]

private theorem toList_apiVersion (named : kind.group ≠ "") :
    kind.apiVersion.toList = kind.group.toList ++ '/' :: kind.version.toList := by
  have notEmpty : ¬ kind.group.isEmpty = true := by simpa using named
  simp [apiVersion, notEmpty]

/-- Only the text of a version alone has no slash. -/
theorem slash_mem_apiVersion (plain : '/' ∉ kind.version.toList) :
    '/' ∈ kind.apiVersion.toList ↔ kind.group ≠ "" := by
  by_cases core : kind.group = ""
  · simpa [apiVersion_of_core core, core] using plain
  · simp [toList_apiVersion core, core]

/-- Group and version are told by their text. -/
theorem apiVersion_inj
    (firstPlain : '/' ∉ first.version.toList)
    (secondPlain : '/' ∉ second.version.toList) :
    first.apiVersion = second.apiVersion ↔
      first.group = second.group ∧ first.version = second.version := by
  constructor
  · intro same
    have bothNamed : first.group ≠ "" ↔ second.group ≠ "" := by
      rw [← slash_mem_apiVersion firstPlain, ← slash_mem_apiVersion secondPlain, same]
    by_cases core : second.group = ""
    · have firstCore : first.group = "" := not_not.mp (mt bothNamed.mp (not_not.mpr core))
      rw [apiVersion_of_core firstCore, apiVersion_of_core core] at same
      exact ⟨firstCore.trans core.symm, same⟩
    · -- The groups may have slashes of their own, so the texts are taken apart at the last one.
      have sameText := congrArg String.toList same
      rw [toList_apiVersion (bothNamed.mpr core), toList_apiVersion core,
        Text.append_separator_inj_last firstPlain secondPlain] at sameText
      exact ⟨String.toList_inj.mp sameText.1, String.toList_inj.mp sameText.2⟩
  · rintro ⟨sameGroup, sameVersion⟩
    rw [apiVersion, apiVersion, sameGroup, sameVersion]

end Kind

/-- The text of group and version is the same for two kinds just when group and version are, and a
reference that was made for a kind is of another kind just when the kinds are the same. -/
theorem OwnerReference.isKind_managing
    {first second : Kind}
    (firstPlain : '/' ∉ first.version.toList)
    (secondPlain : '/' ∉ second.version.toList)
    (name uid : String) :
    (first.apiVersion = second.apiVersion ↔
      first.group = second.group ∧ first.version = second.version) ∧
    ((OwnerReference.managing first name uid).isKind second = true ↔ first = second) := by
  have versions := Kind.apiVersion_inj firstPlain secondPlain
  refine ⟨versions, ?_⟩
  obtain ⟨group, version, kind⟩ := first
  obtain ⟨otherGroup, otherVersion, otherKind⟩ := second
  simp only [managing, isKind, Bool.and_eq_true, beq_iff_eq, versions, Kind.mk.injEq, and_assoc]

/-- A group that goes on with a slash, and the core group, are not the group of schedules. -/
theorem OwnerReference.isKind_managing_foreign :
    '/' ∉ Kind.scheduledWorkflow.version.toList ∧
      Kind.apiVersion ⟨"kubeflow.org/", "v1beta1", "ScheduledWorkflow"⟩ ≠
        Kind.scheduledWorkflow.apiVersion ∧
      (managing ⟨"", "v1beta1", "ScheduledWorkflow"⟩ "nightly" "7").isKind .scheduledWorkflow =
        false ∧
      (managing .scheduledWorkflow "nightly" "7").isKind .scheduledWorkflow = true := by
  have plain : '/' ∉ Kind.scheduledWorkflow.version.toList := by decide
  have nested := @isKind_managing ⟨"kubeflow.org/", "v1beta1", "ScheduledWorkflow"⟩ _ (by decide)
    plain "nightly" "7"
  have core := @isKind_managing ⟨"", "v1beta1", "ScheduledWorkflow"⟩ _ (by decide) plain "nightly"
    "7"
  have same := isKind_managing plain plain "nightly" "7"
  exact ⟨plain, nested.1.not.mpr (by decide), Bool.eq_false_iff.mpr (core.2.not.mpr (by decide)),
    same.2.mpr rfl⟩

end RunManifest
