import Mathlib.Data.String.Basic
import RunManifest.Text.Utf8

/-!
Contract: texts in the order of their code points are in the order of their UTF-8 bytes.

Owns `Text.bytes_lt_bytes`.
-/

set_option autoImplicit false

namespace RunManifest.Text

theorem bytes_eq_flatMap (text : String) :
    bytes text = text.toList.flatMap String.utf8EncodeChar := by
  rw [bytes, ← String.utf8Encode_toList, List.utf8Encode, List.data_toByteArray]

/-- Codes that differ first in one place, where the second has the larger byte. -/
def SmallerAt (left right : List UInt8) : Prop :=
  ∃ same small large leftRest rightRest,
    left = same ++ small :: leftRest ∧ right = same ++ large :: rightRest ∧ small < large

private theorem smallerAt_cons
    {small large : Nat}
    (isByte : large < 256)
    (atMost : small ≤ large)
    {left right : List UInt8}
    (later : small = large → SmallerAt left right) :
    SmallerAt (UInt8.ofNat small :: left) (UInt8.ofNat large :: right) := by
  by_cases same : small = large
  · subst same
    obtain ⟨same, first, second, leftRest, rightRest, rfl, rfl, smaller⟩ := later rfl
    exact ⟨UInt8.ofNat small :: same, first, second, leftRest, rightRest, rfl, rfl, smaller⟩
  · refine ⟨[], _, _, left, right, rfl, rfl, ?_⟩
    rw [UInt8.lt_iff_toNat_lt, UInt8.toNat_ofNat', UInt8.toNat_ofNat']
    omega

theorem SmallerAt.append
    {left right : List UInt8}
    (smaller : SmallerAt left right)
    (leftRest rightRest : List UInt8) :
    left ++ leftRest < right ++ rightRest := by
  obtain ⟨same, small, large, leftEnd, rightEnd, rfl, rfl, lt⟩ := smaller
  rw [List.append_assoc, List.append_assoc]
  apply List.append_left_lt
  exact List.cons_lt_cons_iff.mpr (.inl lt)

/-- A smaller character has a smaller code. The first byte tells how many there are, so codes of
different lengths differ there. -/
theorem smallerAt_utf8EncodeChar {left right : Char} (smaller : left < right) :
    SmallerAt (String.utf8EncodeChar left) (String.utf8EncodeChar right) := by
  have below : left.val.toNat < right.val.toNat := smaller
  have inRange : right.val.toNat < 0xD800 ∨ 0xDFFF < right.val.toNat ∧ right.val.toNat < 0x110000 :=
    right.valid
  unfold String.utf8EncodeChar
  dsimp only
  generalize left.val.toNat = small at below ⊢
  generalize right.val.toNat = large at below inRange ⊢
  by_cases oneByte : large ≤ 127
  · rw [if_pos (by omega), if_pos oneByte]
    exact smallerAt_cons (by omega) (by omega) (by omega)
  rw [if_neg oneByte]
  by_cases twoBytes : large ≤ 2047
  · rw [if_pos twoBytes]
    split
    · exact smallerAt_cons (by omega) (by omega) (by omega)
    rw [if_pos (by omega)]
    refine smallerAt_cons (by omega) (by omega) fun _ => ?_
    exact smallerAt_cons (by omega) (by omega) (by omega)
  rw [if_neg twoBytes]
  by_cases threeBytes : large ≤ 65535
  · rw [if_pos threeBytes]
    split
    · exact smallerAt_cons (by omega) (by omega) (by omega)
    split
    · exact smallerAt_cons (by omega) (by omega) (by omega)
    rw [if_pos (by omega)]
    refine smallerAt_cons (by omega) (by omega) fun _ => ?_
    refine smallerAt_cons (by omega) (by omega) fun _ => ?_
    exact smallerAt_cons (by omega) (by omega) (by omega)
  rw [if_neg threeBytes]
  split
  · exact smallerAt_cons (by omega) (by omega) (by omega)
  split
  · exact smallerAt_cons (by omega) (by omega) (by omega)
  split
  · exact smallerAt_cons (by omega) (by omega) (by omega)
  refine smallerAt_cons (by omega) (by omega) fun _ => ?_
  refine smallerAt_cons (by omega) (by omega) fun _ => ?_
  refine smallerAt_cons (by omega) (by omega) fun _ => ?_
  exact smallerAt_cons (by omega) (by omega) (by omega)

private theorem utf8EncodeChar_ne_nil (c : Char) : String.utf8EncodeChar c ≠ [] := by
  unfold String.utf8EncodeChar
  dsimp only
  repeat' split
  all_goals exact List.cons_ne_nil _ _

theorem bytes_lt_bytes {left right : String} (smaller : left < right) :
    bytes left < bytes right := by
  rw [String.lt_iff_toList_lt] at smaller
  rw [bytes_eq_flatMap, bytes_eq_flatMap]
  generalize left.toList = chars at smaller ⊢
  generalize right.toList = others at smaller ⊢
  induction smaller with
  | @nil c others =>
      obtain ⟨byte, rest, isCode⟩ := List.exists_cons_of_ne_nil (utf8EncodeChar_ne_nil c)
      rw [List.flatMap_nil, List.flatMap_cons, isCode]
      exact List.nil_lt_cons _ _
  | cons _ inductionHypothesis =>
      rw [List.flatMap_cons, List.flatMap_cons]
      exact List.append_left_lt inductionHypothesis
  | rel differs =>
      rw [List.flatMap_cons, List.flatMap_cons]
      exact (smallerAt_utf8EncodeChar differs).append _ _

end RunManifest.Text
