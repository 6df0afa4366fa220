import Mathlib
import RunManifest.Text.Replace

/-!
Contract: what replacing every occurrence of a token does to a text.

Owns:
- the step laws of `replaceFrom`: an occurrence at the front is replaced and passed over, any other
  first character stays;
- `scanInduction`, induction along a text past occurrences and single characters;
- `replaceFrom_append_separator`, the law that a character that is not part of the token cuts a
  text into pieces that are replaced independently;
- `replaceEach_eq_self`, a text without an occurrence stays as it is, and
  `not_infix_of_replaceFrom_nil`, one that stays when occurrences are left out has none;
- `Replaced`, what it means to replace every occurrence from left to right, and `replaced_replaceAll`.
-/

set_option autoImplicit false

namespace RunManifest.Text

variable {token : List Char} (value : List Char)

/-! ## Steps -/

@[simp] theorem replaceFrom_nil (token : List Char) (skip : Nat) :
    replaceFrom token value skip [] = [] := by
  cases skip <;> rfl

private theorem replaceFrom_skip (token : List Char) (skip : Nat) (text : List Char) :
    replaceFrom token value skip text = replaceFrom token value 0 (text.drop skip) := by
  induction skip generalizing text with
  | zero => rfl
  | succ skip inductionHypothesis =>
      cases text with
      | nil => simp
      | cons c rest => exact inductionHypothesis rest

/-- An occurrence at the front is replaced, and the search goes on after it. -/
theorem replaceFrom_occurrence
    (nonempty : token ≠ [])
    (rest : List Char) :
    replaceFrom token value 0 (token ++ rest) = value ++ replaceFrom token value 0 rest := by
  obtain ⟨first, others, rfl⟩ := List.exists_cons_of_ne_nil nonempty
  have occurs : (first :: others).isPrefixOf (first :: (others ++ rest)) = true := by
    rw [List.isPrefixOf_iff_prefix]
    exact List.prefix_append _ _
  rw [List.cons_append, replaceFrom, if_pos occurs, replaceFrom_skip]
  simp

/-- A character at which the token does not occur stays. -/
theorem replaceFrom_other
    {c : Char}
    {rest : List Char}
    (elsewhere : ¬ token <+: c :: rest) :
    replaceFrom token value 0 (c :: rest) = c :: replaceFrom token value 0 rest := by
  rw [← List.isPrefixOf_iff_prefix] at elsewhere
  rw [replaceFrom, if_neg elsewhere]

/-- A text that is not empty does not become empty. -/
theorem replaceFrom_ne_nil
    (nonempty : value ≠ [])
    {text : List Char}
    (notEmpty : text ≠ []) :
    replaceFrom token value 0 text ≠ [] := by
  obtain ⟨c, rest, rfl⟩ := List.exists_cons_of_ne_nil notEmpty
  rw [replaceFrom]
  split
  · exact List.append_ne_nil_of_left_ne_nil nonempty _
  · exact List.cons_ne_nil _ _

/-! ## Texts in pieces -/

/-- An occurrence before a character that the token does not have ends before it. -/
theorem prefix_of_prefix_append_separator
    {separator : Char}
    (absent : separator ∉ token)
    {left right : List Char}
    (occurs : token <+: left ++ separator :: right) :
    token <+: left := by
  have cut : left ++ [separator] <+: left ++ separator :: right := ⟨right, by simp⟩
  rcases List.prefix_or_prefix_of_prefix occurs cut with within | beyond
  · rcases List.prefix_concat_iff.mp within with same | before
    · exact absurd (by simp [same]) absent
    · exact before
  · exact absurd (beyond.subset (by simp)) absent

/-- Induction along a text from left to right: past an occurrence of a token where there is one, and
past a single character elsewhere. -/
theorem scanInduction
    {motive : List Char → Prop}
    (nonempty : token ≠ [])
    (nil : motive [])
    (occurrence : ∀ after, motive after → motive (token ++ after))
    (other : ∀ c rest, ¬ token <+: c :: rest → motive rest → motive (c :: rest))
    (text : List Char) :
    motive text := by
  induction length : text.length using Nat.strongRecOn generalizing text with
  | ind count inductionHypothesis =>
      by_cases occurs : token <+: text
      · obtain ⟨after, rfl⟩ := occurs
        have shorter : after.length < count := by
          have := List.length_pos_of_ne_nil nonempty
          simp only [List.length_append] at length
          omega
        exact occurrence after (inductionHypothesis _ shorter after rfl)
      · cases text with
        | nil => exact nil
        | cons c rest =>
            have shorter : rest.length < count := by
              simp only [List.length_cons] at length
              omega
            exact other c rest occurs (inductionHypothesis _ shorter rest rfl)

/-- A character that the token does not have cuts a text into pieces that do not touch. -/
theorem replaceFrom_append_separator
    {separator : Char}
    (nonempty : token ≠ [])
    (absent : separator ∉ token)
    (left right : List Char) :
    replaceFrom token value 0 (left ++ separator :: right) =
      replaceFrom token value 0 left ++ separator :: replaceFrom token value 0 right := by
  induction left using scanInduction nonempty with
  | nil =>
      have elsewhere : ¬ token <+: separator :: right := by
        intro occurs
        have none : token <+: [] :=
          prefix_of_prefix_append_separator absent (by simpa using occurs)
        exact nonempty (List.prefix_nil.mp none)
      simpa using replaceFrom_other value elsewhere
  | occurrence after inductionHypothesis =>
      rw [List.append_assoc, replaceFrom_occurrence value nonempty,
        replaceFrom_occurrence value nonempty, inductionHypothesis, List.append_assoc]
  | other c rest elsewhere inductionHypothesis =>
      have stillElsewhere : ¬ token <+: c :: (rest ++ separator :: right) := fun occurs =>
        elsewhere (prefix_of_prefix_append_separator absent occurs)
      rw [List.cons_append, replaceFrom_other value stillElsewhere,
        replaceFrom_other value elsewhere, inductionHypothesis, List.cons_append]

/-- Characters at none of which the token occurs stay, whatever follows. -/
theorem replaceFrom_append_inert
    (left right : List Char)
    (inert : ∀ c ∈ left, ∀ rest, ¬ token <+: c :: rest) :
    replaceFrom token value 0 (left ++ right) = left ++ replaceFrom token value 0 right := by
  induction left with
  | nil => rfl
  | cons c rest inductionHypothesis =>
      rw [List.cons_append, replaceFrom_other value (inert c (by simp) _),
        inductionHypothesis fun other member => inert other (by simp [member])]
      rfl

/-! ## Texts without the token -/

theorem replaceFrom_eq_self
    {text : List Char}
    (absent : ¬ token <:+: text) :
    replaceFrom token value 0 text = text := by
  induction text with
  | nil => rfl
  | cons c rest inductionHypothesis =>
      have elsewhere : ¬ token <+: c :: rest := fun occurs => absent occurs.isInfix
      have absentLater : ¬ token <:+: rest := fun occurs =>
        absent (occurs.trans (List.suffix_cons c rest).isInfix)
      rw [replaceFrom_other value elsewhere, inductionHypothesis absentLater]

private theorem length_replaceFrom_nil_le
    (nonempty : token ≠ [])
    (text : List Char) :
    (replaceFrom token [] 0 text).length ≤ text.length := by
  induction text using scanInduction nonempty with
  | nil => simp
  | occurrence after inductionHypothesis =>
      rw [replaceFrom_occurrence [] nonempty, List.nil_append, List.length_append]
      omega
  | other c rest elsewhere inductionHypothesis =>
      rw [replaceFrom_other [] elsewhere]
      simpa using inductionHypothesis

/-- A text that stays as it is when occurrences of a token are left out has none. -/
theorem not_infix_of_replaceFrom_nil
    (nonempty : token ≠ [])
    {text : List Char}
    (unchanged : replaceFrom token [] 0 text = text) :
    ¬ token <:+: text := by
  induction text using scanInduction nonempty with
  | nil => exact fun occurs => nonempty (List.infix_nil.mp occurs)
  | occurrence after _ =>
      have shorter := length_replaceFrom_nil_le nonempty after
      have positive := List.length_pos_of_ne_nil nonempty
      rw [replaceFrom_occurrence [] nonempty, List.nil_append] at unchanged
      rw [unchanged, List.length_append] at shorter
      omega
  | other c rest elsewhere inductionHypothesis =>
      rw [replaceFrom_other [] elsewhere, List.cons.injEq] at unchanged
      rw [List.infix_cons_iff, not_or]
      exact ⟨elsewhere, inductionHypothesis unchanged.2⟩

private theorem replaceChars_of_ne_nil (nonempty : token ≠ []) (text : List Char) :
    replaceChars token value text = replaceFrom token value 0 text := by
  rw [replaceChars, if_neg (by simpa using nonempty)]

theorem toList_replaceAll
    {token : String}
    (nonempty : token.toList ≠ [])
    (value text : String) :
    (replaceAll token value text).toList =
      replaceFrom token.toList value.toList 0 text.toList := by
  rw [replaceAll, String.toList_ofList, replaceChars_of_ne_nil _ nonempty]

theorem replaceEach_eq_self
    {replacements : List (String × String)}
    {text : String}
    (absent : ∀ replacement ∈ replacements,
      replacement.1.toList ≠ [] ∧ ¬ replacement.1.toList <:+: text.toList) :
    replaceEach replacements text = text := by
  induction replacements with
  | nil => rfl
  | cons replacement rest inductionHypothesis =>
      obtain ⟨nonempty, notThere⟩ := absent replacement (by simp)
      have unchanged : replaceAll replacement.1 replacement.2 text = text := by
        rw [← String.toList_inj, toList_replaceAll nonempty, replaceFrom_eq_self _ notThere]
      have others := inductionHypothesis fun other member => absent other (by simp [member])
      rw [replaceEach, List.foldl_cons, unchanged]
      exact others

/-! ## What replacing means -/

/-- A text with every occurrence of a token replaced, found from left to right without overlap. -/
inductive Replaced (token value : List Char) : List Char → List Char → Prop where
  | done : Replaced token value [] []
  | occurrence {rest result : List Char} (later : Replaced token value rest result) :
      Replaced token value (token ++ rest) (value ++ result)
  | other {c : Char} {rest result : List Char} (elsewhere : ¬ token <+: c :: rest)
      (later : Replaced token value rest result) :
      Replaced token value (c :: rest) (c :: result)

private theorem replaced_replaceFrom (nonempty : token ≠ []) (text : List Char) :
    Replaced token value text (replaceFrom token value 0 text) := by
  induction text using scanInduction nonempty with
  | nil => exact .done
  | occurrence after inductionHypothesis =>
      rw [replaceFrom_occurrence value nonempty]
      exact .occurrence inductionHypothesis
  | other c rest elsewhere inductionHypothesis =>
      rw [replaceFrom_other value elsewhere]
      exact .other elsewhere inductionHypothesis

theorem replaced_replaceAll
    {token : String}
    (nonempty : token.toList ≠ [])
    (value text : String) :
    Replaced token.toList value.toList text.toList (replaceAll token value text).toList := by
  rw [toList_replaceAll nonempty]
  exact replaced_replaceFrom _ nonempty _

end RunManifest.Text
