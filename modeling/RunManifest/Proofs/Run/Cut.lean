import RunManifest.Proofs.Document.Cut
import RunManifest.Proofs.Run.Composition

/-!
Contract: the text of a run that was cut is never taken for the text of a run.

Owns `PipelineRun.ofJsonText_cut`: a text that lacks more than blanks is refused for a breach of the
grammar, and for ending too early unless it was cut inside a number.
-/

set_option autoImplicit false

namespace RunManifest.PipelineRun

/-- A text that was cut is refused, and not because of what it says. Behind a cut inside a number
the number may be wrong, as in `1.`, or what follows it, as in `1` in front of the end. -/
theorem ofJsonText_cut
    {before after : String}
    {run : PipelineRun}
    (reads : ofJsonText (before ++ after) = .ok run)
    (leavesOut : ∃ c ∈ after.toList, Json.isBlank c = false) :
    ∃ fault, ofJsonText before = .error (.fault fault) ∧
      (Json.cutsNumber before.toList after.toList = false → ∃ inside, fault = .truncated inside) := by
  have whole : String.ofList (before.toList ++ after.toList) = before ++ after := by
    rw [← String.toList_append, String.ofList_toList]
  unfold ofJsonText at reads ⊢
  rw [← whole] at reads
  obtain ⟨fault, fails, shown⟩ := composed.decode_cut reads leavesOut
  rw [String.ofList_toList] at fails
  refine ⟨fault, fails, fun notInside => ?_⟩
  rcases shown with inside | isTruncated
  · rw [notInside] at inside
    cases inside
  · exact isTruncated

/-- A document with a surrogate pair and a number. -/
def pairedText : String :=
  Json.braced [("kind", "\"\\ud83d\\ude00\""), ("spec", Json.braced [("n", "[-1.5e+3]")])]

/-- The front of the document, and what is cut off behind it. -/
def pairedFront (length : Nat) : String :=
  String.ofList (pairedText.toList.take length)

def pairedBack (length : Nat) : String :=
  String.ofList (pairedText.toList.drop length)

/-- One cut falls inside the second half of the pair, and one in front of the last digit. -/
theorem ofJsonText_cut_unfinished :
    (∃ run, ofJsonText pairedText = .ok run) ∧
      Json.cutsNumber (pairedFront 18).toList (pairedBack 18).toList = false ∧
      (∃ fault, ofJsonText (pairedFront 18) = .error (.fault fault) ∧
        ∃ inside, fault = .truncated inside) ∧
      Json.cutsNumber (pairedFront 42).toList (pairedBack 42).toList = true ∧
      ∃ fault, ofJsonText (pairedFront 42) = .error (.fault fault) := by
  have whole : ∀ length, pairedFront length ++ pairedBack length = pairedText := by
    intro length
    rw [pairedFront, pairedBack, ← String.ofList_append, List.take_append_drop,
      String.ofList_toList]
  have isRead : (ofJsonText pairedText).isOk = true := by decide +kernel
  cases isRun : ofJsonText pairedText with
  | error problem =>
      rw [isRun] at isRead
      cases isRead
  | ok run =>
      have notInside : Json.cutsNumber (pairedFront 18).toList (pairedBack 18).toList = false := by
        decide +kernel
      have inside : Json.cutsNumber (pairedFront 42).toList (pairedBack 42).toList = true := by
        decide +kernel
      obtain ⟨fault, fails, shown⟩ := ofJsonText_cut ((congrArg _ (whole 18)).trans isRun)
        ⟨']', by decide +kernel, by decide⟩
      obtain ⟨other, failsOther, -⟩ := ofJsonText_cut ((congrArg _ (whole 42)).trans isRun)
        ⟨']', by decide +kernel, by decide⟩
      exact ⟨⟨run, rfl⟩, notInside, ⟨fault, fails, shown notInside⟩, inside, other, failsOther⟩

end RunManifest.PipelineRun
