import Mathlib.Data.String.Basic

/-!
Contract: texts joined by a separator can be taken apart again.

Owns:
- `append_separator_inj`, pieces without the separator in front of it are told by the joined text;
- `append_separator_inj_last`, pieces without the separator behind it are too.
-/

set_option autoImplicit false

namespace RunManifest.Text

variable {separator : Char} {left right before after : List Char}

/-- What stands before the first separator. -/
theorem takeWhile_append_separator (absent : separator ∉ left) (after : List Char) :
    (left ++ separator :: after).takeWhile (· != separator) = left := by
  have inFront : ∀ c ∈ left, (c != separator) = true := fun c member =>
    bne_iff_ne.mpr fun same => absent (same ▸ member)
  rw [List.takeWhile_append_of_pos inFront, List.takeWhile_cons_of_neg (by simp), List.append_nil]

/-- Two joined texts with no separator in their first pieces are the same just when their pieces
are. -/
theorem append_separator_inj (absentLeft : separator ∉ left) (absentRight : separator ∉ right) :
    left ++ separator :: before = right ++ separator :: after ↔ left = right ∧ before = after := by
  constructor
  · intro same
    have samePiece : left = right := by
      rw [← takeWhile_append_separator absentLeft before, same,
        takeWhile_append_separator absentRight]
    subst samePiece
    exact ⟨rfl, List.cons_inj_right separator |>.mp (List.append_cancel_left same)⟩
  · rintro ⟨rfl, rfl⟩
    rfl

/-- Two joined texts with no separator in their last pieces are the same just when their pieces
are. -/
theorem append_separator_inj_last
    (absentBefore : separator ∉ before)
    (absentAfter : separator ∉ after) :
    left ++ separator :: before = right ++ separator :: after ↔ left = right ∧ before = after := by
  have reversed :
      before.reverse ++ separator :: left.reverse = after.reverse ++ separator :: right.reverse ↔
        before.reverse = after.reverse ∧ left.reverse = right.reverse :=
    append_separator_inj (mt List.mem_reverse.mp absentBefore) (mt List.mem_reverse.mp absentAfter)
  simp only [List.reverse_inj] at reversed
  rw [← List.reverse_inj, and_comm, ← reversed]
  simp

end RunManifest.Text
