import RunManifest.Proofs.Text.Apart

/-!
Contract: how often a token occurs in a text, and how replacing it changes the length.

Owns:
- `occurrences`, the number of places at which a token occurs;
- `Solid`, tokens no occurrence of which begins inside another, so that all of them are replaced;
- `length_replaceFrom`, the length of a text after replacing;
- `occurrences_replaceFrom`, replacing a token keeps the occurrences of another;
- `length_occurrences_le`, the occurrences of two tokens have room beside each other.
-/

set_option autoImplicit false

namespace RunManifest.Text

/-- The number of places at which a token occurs in a text. -/
def occurrences (token text : List Char) : Nat :=
  text.tails.countP token.isPrefixOf

/-- A token no occurrence of which begins inside another. -/
structure Solid (token : List Char) : Prop where
  nonempty : token ≠ []
  clear : Clear token.tail token

variable {piece token other value : List Char}

/-! ## Counting -/

private theorem occurrences_nil (nonempty : token ≠ []) : occurrences token [] = 0 := by
  have elsewhere : token.isPrefixOf [] = false := by
    rw [← Bool.not_eq_true, List.isPrefixOf_iff_prefix, List.prefix_nil]
    exact nonempty
  simp [occurrences, elsewhere]

private theorem occurrences_cons (c : Char) (rest : List Char) :
    occurrences token (c :: rest) =
      occurrences token rest + if token <+: c :: rest then 1 else 0 := by
  simp only [occurrences, List.tails_cons, List.countP_cons, List.isPrefixOf_iff_prefix]

private theorem occurrences_cons_other
    {c : Char}
    {rest : List Char}
    (elsewhere : ¬ token <+: c :: rest) :
    occurrences token (c :: rest) = occurrences token rest := by
  rw [occurrences_cons, if_neg elsewhere, Nat.add_zero]

/-- Nothing is counted in a piece in which no occurrence begins. -/
theorem Clear.occurrences_append (clear : Clear piece token) (rest : List Char) :
    occurrences token (piece ++ rest) = occurrences token rest := by
  induction piece with
  | nil => rfl
  | cons c more inductionHypothesis =>
      have elsewhere := clear.not_prefix_append (List.cons_ne_nil c more) rest
      rw [List.cons_append] at elsewhere ⊢
      rw [occurrences_cons_other elsewhere, inductionHypothesis clear.of_cons]

/-- An occurrence counts once. -/
theorem Solid.occurrences_append (solid : Solid token) (rest : List Char) :
    occurrences token (token ++ rest) = occurrences token rest + 1 := by
  obtain ⟨first, others, rfl⟩ := List.exists_cons_of_ne_nil solid.nonempty
  have occurs : first :: others <+: first :: (others ++ rest) := List.prefix_append _ _
  have within : Clear others (first :: others) := solid.clear
  rw [List.cons_append, occurrences_cons, if_pos occurs, within.occurrences_append]

/-! ## Replacing -/

/-- Every occurrence is taken out and the value is put in for it. -/
theorem length_replaceFrom (solid : Solid token) (value text : List Char) :
    (replaceFrom token value 0 text).length + token.length * occurrences token text =
      text.length + value.length * occurrences token text := by
  induction text using scanInduction solid.nonempty with
  | nil => simp [occurrences_nil solid.nonempty]
  | occurrence after inductionHypothesis =>
      rw [replaceFrom_occurrence value solid.nonempty, solid.occurrences_append, Nat.mul_add_one,
        Nat.mul_add_one, List.length_append, List.length_append]
      omega
  | other c rest elsewhere inductionHypothesis =>
      rw [replaceFrom_other value elsewhere, occurrences_cons_other elsewhere, List.length_cons,
        List.length_cons]
      omega

/-- Replacing a token keeps the occurrences of another, if neither begins in the other and the value
is apart from the one that is kept. -/
theorem occurrences_replaceFrom
    (nonempty : token ≠ [])
    (tokenClear : Clear token other)
    (otherClear : Clear other token)
    (apart : Apart value other)
    (text : List Char) :
    occurrences other (replaceFrom token value 0 text) = occurrences other text := by
  induction text using scanInduction nonempty with
  | nil => rw [replaceFrom_nil]
  | occurrence after inductionHypothesis =>
      rw [replaceFrom_occurrence value nonempty, apart.clear.occurrences_append,
        tokenClear.occurrences_append, inductionHypothesis]
  | other c rest elsewhere inductionHypothesis =>
      -- An occurrence at the front stays there, and no other comes up.
      have front : other <+: c :: replaceFrom token value 0 rest ↔ other <+: c :: rest := by
        rw [← replaceFrom_other value elsewhere]
        constructor
        · exact apart.prefix_of_prefix_replaceFrom nonempty List.suffix_rfl
        · rintro ⟨after, isText⟩
          rw [← isText, otherClear.replaceFrom_append]
          exact List.prefix_append _ _
      rw [replaceFrom_other value elsewhere, occurrences_cons, occurrences_cons,
        inductionHypothesis, if_congr front rfl rfl]

/-- The occurrences of two tokens of which neither begins in the other have room beside each
other. -/
theorem length_occurrences_le
    (solid : Solid token)
    (otherSolid : Solid other)
    (tokenClear : Clear token other)
    (otherClear : Clear other token)
    (text : List Char) :
    token.length * occurrences token text + other.length * occurrences other text ≤
      text.length := by
  -- At every place one of the tokens begins or none does, and the rest has room for all others.
  induction length : text.length using Nat.strongRecOn generalizing text with
  | ind count inductionHypothesis =>
      by_cases isToken : token <+: text
      · obtain ⟨after, rfl⟩ := isToken
        have positive := List.length_pos_of_ne_nil solid.nonempty
        rw [List.length_append] at length
        have room := inductionHypothesis after.length (by omega) after rfl
        rw [solid.occurrences_append, tokenClear.occurrences_append, Nat.mul_add_one]
        omega
      · by_cases isOther : other <+: text
        · obtain ⟨after, rfl⟩ := isOther
          have positive := List.length_pos_of_ne_nil otherSolid.nonempty
          rw [List.length_append] at length
          have room := inductionHypothesis after.length (by omega) after rfl
          rw [otherSolid.occurrences_append, otherClear.occurrences_append, Nat.mul_add_one]
          omega
        · cases text with
          | nil => simp [occurrences_nil solid.nonempty, occurrences_nil otherSolid.nonempty]
          | cons c rest =>
              rw [List.length_cons] at length
              have room := inductionHypothesis rest.length (by omega) rest rfl
              rw [occurrences_cons_other isToken, occurrences_cons_other isOther]
              omega

end RunManifest.Text
