import RunManifest.Proofs.Text.Replace

/-!
Contract: values that form no occurrence of a token with what stands around them.

Owns:
- `Apart`, a value and a token neither of which contains the other and no end of one of which is a
  beginning of the other;
- `Clear`, a piece of text in which no occurrence of a token begins, whatever follows;
- `not_infix_replaceFrom`, a token does not occur after replacing if the value is apart from it;
- `replaceFrom_comm`, two tokens can be replaced in either order if each value is apart from the
  other token.
-/

set_option autoImplicit false

namespace RunManifest.Text

/-! ## Pieces in which no occurrence begins -/

/-- No occurrence of the token begins in the piece, whatever follows: the rest of the piece from any
place on neither begins with the token nor is a beginning of it. -/
def Clear (piece token : List Char) : Prop :=
  ∀ part, part ≠ [] → part <:+ piece → ¬ part <+: token ∧ ¬ token <+: part

instance (piece token : List Char) : Decidable (Clear piece token) :=
  decidable_of_iff (∀ part ∈ piece.tails, part ≠ [] → ¬ part <+: token ∧ ¬ token <+: part)
    ⟨fun clear part nonempty isSuffix => clear part ((List.mem_tails _ _).mpr isSuffix) nonempty,
      fun clear part isTail nonempty => clear part nonempty ((List.mem_tails _ _).mp isTail)⟩

variable {piece token other value : List Char}

theorem Clear.of_cons {c : Char} (clear : Clear (c :: piece) token) : Clear piece token :=
  fun part nonempty isSuffix => clear part nonempty (isSuffix.trans (List.suffix_cons c piece))

theorem Clear.not_prefix_append
    (clear : Clear piece token)
    (nonempty : piece ≠ [])
    (rest : List Char) :
    ¬ token <+: piece ++ rest := by
  obtain ⟨notBeginning, notAhead⟩ := clear piece nonempty List.suffix_rfl
  intro occurs
  rcases List.prefix_or_prefix_of_prefix occurs (List.prefix_append piece rest) with
    within | beyond
  · exact notAhead within
  · exact notBeginning beyond

/-- A clear piece stays, and the search goes on behind it. -/
theorem Clear.replaceFrom_append
    (clear : Clear piece token)
    (value rest : List Char) :
    replaceFrom token value 0 (piece ++ rest) = piece ++ replaceFrom token value 0 rest := by
  induction piece with
  | nil => rfl
  | cons c more inductionHypothesis =>
      have elsewhere : ¬ token <+: c :: (more ++ rest) :=
        clear.not_prefix_append (List.cons_ne_nil c more) rest
      rw [List.cons_append, replaceFrom_other value elsewhere, inductionHypothesis clear.of_cons,
        List.cons_append]

/-- A clear piece brings no occurrence. -/
theorem Clear.not_infix_append
    (clear : Clear piece token)
    {rest : List Char}
    (absent : ¬ token <:+: rest) :
    ¬ token <:+: piece ++ rest := by
  induction piece with
  | nil => exact absent
  | cons c more inductionHypothesis =>
      rw [List.cons_append, List.infix_cons_iff, not_or]
      exact ⟨clear.not_prefix_append (List.cons_ne_nil c more) rest,
        inductionHypothesis clear.of_cons⟩

/-! ## Values apart from a token -/

/-- A value that is not empty, does not contain the token and is not contained in it, and that has
neither a beginning at which the token could end nor an end at which it could begin. -/
structure Apart (value token : List Char) : Prop where
  nonempty : value ≠ []
  notContaining : ¬ token <:+: value
  notContained : ¬ value <:+: token
  beginning : ∀ part, part ≠ [] → part <+: value → ¬ part <:+ token
  ending : ∀ part, part ≠ [] → part <:+ value → ¬ part <+: token

instance (value token : List Char) : Decidable (Apart value token) :=
  decidable_of_iff
    (value ≠ [] ∧ ¬ token <:+: value ∧ ¬ value <:+: token ∧
      (∀ part ∈ value.inits, part ≠ [] → ¬ part <:+ token) ∧
      ∀ part ∈ value.tails, part ≠ [] → ¬ part <+: token)
    ⟨fun ⟨nonempty, notContaining, notContained, beginning, ending⟩ =>
        ⟨nonempty, notContaining, notContained,
          fun part isPart isPrefix => beginning part ((List.mem_inits _ _).mpr isPrefix) isPart,
          fun part isPart isSuffix => ending part ((List.mem_tails _ _).mpr isSuffix) isPart⟩,
      fun apart => ⟨apart.nonempty, apart.notContaining, apart.notContained,
        fun part isPrefix isPart => apart.beginning part isPart ((List.mem_inits _ _).mp isPrefix),
        fun part isSuffix isPart => apart.ending part isPart ((List.mem_tails _ _).mp isSuffix)⟩⟩

theorem Apart.clear (apart : Apart value token) : Clear value token := by
  intro part nonempty isSuffix
  refine ⟨apart.ending part nonempty isSuffix, fun ahead => ?_⟩
  exact apart.notContaining (ahead.isInfix.trans isSuffix.isInfix)

/-- What begins a text after replacing began it before, if it ends a token from which the value is
apart: it cannot go as far as the first value that was put. -/
theorem Apart.prefix_of_prefix_replaceFrom
    (apart : Apart value other)
    (nonempty : token ≠ [])
    {part text : List Char}
    (ends : part <:+ other)
    (begins : part <+: replaceFrom token value 0 text) :
    part <+: text := by
  induction text using scanInduction nonempty generalizing part with
  | nil => simpa using begins
  | occurrence after _ =>
      rw [replaceFrom_occurrence value nonempty] at begins
      by_cases isEmpty : part = []
      · rw [isEmpty]
        exact List.nil_prefix
      · rcases List.prefix_or_prefix_of_prefix begins (List.prefix_append value _) with
          within | beyond
        · exact absurd ends (apart.beginning part isEmpty within)
        · exact absurd (beyond.isInfix.trans ends.isInfix) apart.notContained
  | other c rest elsewhere inductionHypothesis =>
      rw [replaceFrom_other value elsewhere] at begins
      cases part with
      | nil => exact List.nil_prefix
      | cons first more =>
          rw [List.cons_prefix_cons] at begins ⊢
          exact ⟨begins.1, inductionHypothesis ((List.suffix_cons first more).trans ends) begins.2⟩

/-- A token from which the value is apart does not occur after replacing, if wherever it occurred
before there was an occurrence that was replaced. -/
theorem Apart.not_infix_replaceFrom
    (apart : Apart value other)
    (nonempty : token ≠ [])
    {text : List Char}
    (covered : ∀ rest, rest <:+ text → other <+: rest → token <+: rest) :
    ¬ other <:+: replaceFrom token value 0 text := by
  induction text using scanInduction nonempty with
  | nil =>
      rw [replaceFrom_nil, List.infix_nil]
      rintro rfl
      exact apart.notContaining List.nil_infix
  | occurrence after inductionHypothesis =>
      rw [replaceFrom_occurrence value nonempty]
      refine apart.clear.not_infix_append (inductionHypothesis fun rest isSuffix => ?_)
      exact covered rest (isSuffix.trans (List.suffix_append token after))
  | other c rest elsewhere inductionHypothesis =>
      rw [replaceFrom_other value elsewhere, List.infix_cons_iff, not_or]
      constructor
      · intro begins
        rw [← replaceFrom_other value elsewhere] at begins
        have before := apart.prefix_of_prefix_replaceFrom nonempty List.suffix_rfl begins
        exact elsewhere (covered _ List.suffix_rfl before)
      · refine inductionHypothesis fun after isSuffix => ?_
        exact covered after (isSuffix.trans (List.suffix_cons c rest))

/-! ## Two replacements -/

/-- Two tokens can be replaced in either order, if neither begins in the other and each value is
apart from the other token. -/
theorem replaceFrom_comm
    {first second left right : List Char}
    (nonemptyFirst : first ≠ [])
    (nonemptySecond : second ≠ [])
    (firstClear : Clear first second)
    (secondClear : Clear second first)
    (leftApart : Apart left second)
    (rightApart : Apart right first)
    (text : List Char) :
    replaceFrom second right 0 (replaceFrom first left 0 text) =
      replaceFrom first left 0 (replaceFrom second right 0 text) := by
  -- At every place one of the tokens begins or none does, and both sides go on behind it.
  induction length : text.length using Nat.strongRecOn generalizing text with
  | ind count inductionHypothesis =>
      by_cases isFirst : first <+: text
      · obtain ⟨after, rfl⟩ := isFirst
        have shorter : after.length < count := by
          have := List.length_pos_of_ne_nil nonemptyFirst
          simp only [List.length_append] at length
          omega
        rw [replaceFrom_occurrence left nonemptyFirst, leftApart.clear.replaceFrom_append,
          firstClear.replaceFrom_append, replaceFrom_occurrence left nonemptyFirst,
          inductionHypothesis _ shorter after rfl]
      · by_cases isSecond : second <+: text
        · obtain ⟨after, rfl⟩ := isSecond
          have shorter : after.length < count := by
            have := List.length_pos_of_ne_nil nonemptySecond
            simp only [List.length_append] at length
            omega
          rw [replaceFrom_occurrence right nonemptySecond, rightApart.clear.replaceFrom_append,
            secondClear.replaceFrom_append, replaceFrom_occurrence right nonemptySecond,
            inductionHypothesis _ shorter after rfl]
        · cases text with
          | nil => simp
          | cons c rest =>
              have shorter : rest.length < count := by
                simp only [List.length_cons] at length
                omega
              have notSecond : ¬ second <+: c :: replaceFrom first left 0 rest := by
                rw [← replaceFrom_other left isFirst]
                exact fun begins => isSecond
                  (leftApart.prefix_of_prefix_replaceFrom nonemptyFirst List.suffix_rfl begins)
              have notFirst : ¬ first <+: c :: replaceFrom second right 0 rest := by
                rw [← replaceFrom_other right isSecond]
                exact fun begins => isFirst
                  (rightApart.prefix_of_prefix_replaceFrom nonemptySecond List.suffix_rfl begins)
              rw [replaceFrom_other left isFirst, replaceFrom_other right isSecond,
                replaceFrom_other right notSecond, replaceFrom_other left notFirst,
                inductionHypothesis _ shorter rest rfl]

theorem replaceAll_comm
    {first second left right : String}
    (nonemptyFirst : first.toList ≠ [])
    (nonemptySecond : second.toList ≠ [])
    (firstClear : Clear first.toList second.toList)
    (secondClear : Clear second.toList first.toList)
    (leftApart : Apart left.toList second.toList)
    (rightApart : Apart right.toList first.toList)
    (text : String) :
    replaceAll second right (replaceAll first left text) =
      replaceAll first left (replaceAll second right text) := by
  rw [← String.toList_inj, toList_replaceAll nonemptySecond, toList_replaceAll nonemptyFirst,
    toList_replaceAll nonemptyFirst, toList_replaceAll nonemptySecond]
  exact replaceFrom_comm nonemptyFirst nonemptySecond firstClear secondClear leftApart rightApart _

end RunManifest.Text
