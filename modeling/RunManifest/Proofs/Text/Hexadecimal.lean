import RunManifest.Text.Digits
import Mathlib.Data.Nat.Digits.Lemmas

/-!
Contract: hexadecimal digits stand for the number they were written for.

Owns the laws of `Text.upperHexadecimal`: its digits, its length and the value it is read as.
-/

set_option autoImplicit false

namespace RunManifest.Text

/-- The upper-case hexadecimal digits. -/
def upperDigits : List Char := "0123456789ABCDEF".toList

private theorem toUpper_digitChar_mem :
    ∀ digit < 16, (Nat.digitChar digit).toUpper ∈ upperDigits := by
  decide

private theorem hexValue?_digitChar :
    ∀ digit < 16, hexValue? (Nat.digitChar digit).toUpper = some digit := by
  decide

private theorem foldlM_zeros (count : Nat) :
    (List.replicate count '0').foldlM (fun value c => (hexValue? c).map (value * 16 + ·)) 0 =
      some 0 := by
  induction count with
  | zero => rfl
  | succ count inductionHypothesis =>
      rw [List.replicate_succ, List.foldlM_cons]
      exact inductionHypothesis

private theorem foldlM_hexadecimal (n : Nat) :
    ((hexadecimal n).map Char.toUpper).foldlM
      (fun value c => (hexValue? c).map (value * 16 + ·)) 0 = some n := by
  induction n using Nat.strongRecOn with
  | ind n inductionHypothesis =>
      rw [hexadecimal, Nat.toDigits_eq_if (by decide)]
      split
      · rename_i small
        rw [List.map_singleton, List.foldlM_cons, hexValue?_digitChar n small]
        simp
      · have smaller := inductionHypothesis (n / 16) (by omega)
        rw [hexadecimal] at smaller
        rw [List.map_append, List.foldlM_append, smaller, List.map_singleton, Option.bind_eq_bind,
          Option.bind_some, List.foldlM_cons, hexValue?_digitChar (n % 16) (Nat.mod_lt n (by decide))]
        show some (n / 16 * 16 + n % 16) = some n
        rw [Nat.div_add_mod']

/-- Hexadecimal digits are read as the number. -/
theorem hexadecimalValue?_upperHexadecimal (width n : Nat) :
    hexadecimalValue? (upperHexadecimal width n) = some n := by
  rw [hexadecimalValue?, upperHexadecimal, List.foldlM_append, foldlM_zeros]
  exact foldlM_hexadecimal n

private theorem mem_upperDigits_of_hexadecimal
    {n : Nat}
    {c : Char}
    (member : c ∈ (hexadecimal n).map Char.toUpper) :
    c ∈ upperDigits := by
  induction n using Nat.strongRecOn with
  | ind n inductionHypothesis =>
      rw [hexadecimal, Nat.toDigits_eq_if (by decide)] at member
      split at member
      · rename_i small
        rw [List.mem_singleton.mp member]
        exact toUpper_digitChar_mem n small
      · rw [List.map_append, List.mem_append] at member
        rcases member with before | last
        · exact inductionHypothesis (n / 16) (by omega) before
        · rw [List.mem_singleton.mp last]
          exact toUpper_digitChar_mem (n % 16) (Nat.mod_lt n (by decide))

theorem mem_upperDigits {width n : Nat} {c : Char} (member : c ∈ upperHexadecimal width n) :
    c ∈ upperDigits := by
  rcases List.mem_append.mp member with filling | digit
  · rw [List.eq_of_mem_replicate filling]
    decide
  · exact mem_upperDigits_of_hexadecimal digit

theorem length_upperHexadecimal {width n : Nat} (positive : 0 < width) (small : n < 16 ^ width) :
    (upperHexadecimal width n).length = width := by
  have fits : (hexadecimal n).length ≤ width :=
    (Nat.length_toDigits_le_iff (by decide) positive).mpr small
  rw [upperHexadecimal, List.length_append, List.length_replicate, List.length_map]
  omega

end RunManifest.Text
