import Mathlib
import RunManifest.Command.Identifier
import RunManifest.Proofs.Text.Apart

/-!
Contract: the form of identifiers.

Owns:
- `Identifier.isHyphenated`, groups of 8, 4, 4, 4 and 12 lower-case hexadecimal digits with hyphens
  between them;
- `Identifier.isHyphenated_ofBits`, identifiers that are made of random bits have this form;
- `Identifier.apart_of_isHyphenated`, such an identifier is apart from every shorter token that
  neither begins nor ends with one of its characters.
-/

set_option autoImplicit false

namespace RunManifest.Command.Identifier

/-- Whether a character is a lower-case hexadecimal digit. -/
def isHexDigit (c : Char) : Bool :=
  c.isDigit || ('a' ≤ c && c ≤ 'f')

/-- Whether a text has groups of 8, 4, 4, 4 and 12 lower-case hexadecimal digits with hyphens between
them. -/
def isHyphenated (id : String) : Bool :=
  (id.toList.splitOn '-').map List.length == [8, 4, 4, 4, 12] &&
    (id.toList.splitOn '-').all fun group => group.all isHexDigit

/-! ## The form -/

variable {id : String}

/-- An identifier in its five groups. -/
theorem groups_of_isHyphenated (hyphenated : isHyphenated id = true) :
    ∃ first second third fourth fifth : List Char,
      id.toList = first ++ '-' :: (second ++ '-' :: (third ++ '-' :: (fourth ++ '-' :: fifth))) ∧
      first.length = 8 ∧ second.length = 4 ∧ third.length = 4 ∧ fourth.length = 4 ∧
      fifth.length = 12 ∧
      ∀ group ∈ [first, second, third, fourth, fifth], ∀ c ∈ group, isHexDigit c = true := by
  simp only [isHyphenated, Bool.and_eq_true, beq_iff_eq, List.all_eq_true] at hyphenated
  obtain ⟨lengths, areDigits⟩ := hyphenated
  have joined : ['-'].intercalate (id.toList.splitOn '-') = id.toList := List.intercalate_splitOn '-'
  generalize id.toList.splitOn '-' = groups at lengths areDigits joined
  simp only [List.map_eq_cons_iff, List.map_eq_nil_iff] at lengths
  obtain ⟨first, _, rfl, ofFirst, second, _, rfl, ofSecond, third, _, rfl, ofThird, fourth, _, rfl,
    ofFourth, fifth, _, rfl, ofFifth, rfl⟩ := lengths
  refine ⟨first, second, third, fourth, fifth, ?_, ofFirst, ofSecond, ofThird, ofFourth, ofFifth,
    areDigits⟩
  rw [← joined]
  simp [List.intercalate]

theorem length_of_isHyphenated (hyphenated : isHyphenated id = true) : id.toList.length = 36 := by
  obtain ⟨first, second, third, fourth, fifth, shape, ofFirst, ofSecond, ofThird, ofFourth, ofFifth,
    -⟩ := groups_of_isHyphenated hyphenated
  simp [shape, ofFirst, ofSecond, ofThird, ofFourth, ofFifth]

private theorem mem_of_isHyphenated
    (hyphenated : isHyphenated id = true)
    {c : Char}
    (member : c ∈ id.toList) :
    isHexDigit c = true ∨ c = '-' := by
  obtain ⟨first, second, third, fourth, fifth, shape, -, -, -, -, -, areDigits⟩ :=
    groups_of_isHyphenated hyphenated
  rw [shape] at member
  simp only [List.forall_mem_cons] at areDigits
  obtain ⟨inFirst, inSecond, inThird, inFourth, inFifth, -⟩ := areDigits
  simp only [List.mem_append, List.mem_cons] at member
  rcases member with there | isHyphen | there | isHyphen | there | isHyphen | there | isHyphen | there
  · exact .inl (inFirst c there)
  · exact .inr isHyphen
  · exact .inl (inSecond c there)
  · exact .inr isHyphen
  · exact .inl (inThird c there)
  · exact .inr isHyphen
  · exact .inl (inFourth c there)
  · exact .inr isHyphen
  · exact .inl (inFifth c there)

theorem ne_empty_of_isHyphenated (hyphenated : isHyphenated id = true) : id ≠ "" := by
  rintro rfl
  exact absurd (length_of_isHyphenated hyphenated) (by decide)

theorem unquoted_of_isHyphenated (hyphenated : isHyphenated id = true) :
    ∀ c ∈ id.toList, c ≠ '\"' ∧ c ≠ '\\' := by
  intro c member
  rcases mem_of_isHyphenated hyphenated member with isDigit | rfl
  · constructor
    · rintro rfl
      exact absurd isDigit (by decide)
    · rintro rfl
      exact absurd isDigit (by decide)
  · decide

/-! ## Random identifiers -/

private theorem isHexDigit_digitChar {n : Nat} (small : n < 16) :
    isHexDigit n.digitChar = true := by
  interval_cases n <;> decide

private theorem isHexDigit_of_mem_hexadecimal
    {n : Nat}
    {c : Char}
    (member : c ∈ Text.hexadecimal n) :
    isHexDigit c = true := by
  induction n using Nat.strongRecOn with
  | ind n inductionHypothesis =>
      rw [Text.hexadecimal, Nat.toDigits_eq_if (by decide)] at member
      split at member
      · rename_i small
        rw [List.mem_singleton.mp member]
        exact isHexDigit_digitChar small
      · rcases List.mem_append.mp member with earlier | last
        · exact inductionHypothesis (n / 16) (by omega) earlier
        · rw [List.mem_singleton.mp last]
          exact isHexDigit_digitChar (Nat.mod_lt n (by decide))

private theorem isHexDigit_of_mem_digits {width n : Nat} {c : Char} (member : c ∈ digits width n) :
    isHexDigit c = true := by
  rcases List.mem_append.mp member with filling | digit
  · rw [List.eq_of_mem_replicate filling]
    decide
  · exact isHexDigit_of_mem_hexadecimal digit

private theorem length_digits {width n : Nat} (positive : 0 < width) (small : n < 16 ^ width) :
    (digits width n).length = width := by
  have fits : (Text.hexadecimal n).length ≤ width :=
    (Nat.length_toDigits_le_iff (by decide) positive).mpr small
  rw [digits, List.length_append, List.length_replicate]
  omega

private theorem hyphen_not_mem_digits (width n : Nat) : '-' ∉ digits width n := by
  intro member
  exact absurd (isHexDigit_of_mem_digits member) (by decide)

/-- Identifiers made of random bits are hyphenated. -/
theorem isHyphenated_ofBits (bits : Nat) : isHyphenated (ofBits bits) = true := by
  have below : ∀ shift width : Nat, bits / Nat.pow 2 shift % Nat.pow 2 width < 2 ^ width :=
    fun shift width => Nat.mod_lt _ (Nat.two_pow_pos width)
  -- The fixed bits of the third and the fourth group leave room for the random ones.
  have third : 0x4000 + bits / Nat.pow 2 64 % Nat.pow 2 12 < 16 ^ 4 :=
    lt_of_lt_of_le (Nat.add_lt_add_left (below 64 12) 0x4000) (by decide)
  have fourth : 0x8000 + bits / Nat.pow 2 48 % Nat.pow 2 14 < 16 ^ 4 :=
    lt_of_lt_of_le (Nat.add_lt_add_left (below 48 14) 0x8000) (by decide)
  have groups :
      (ofBits bits).toList.splitOn '-' =
        [digits 8 (bits / Nat.pow 2 96 % Nat.pow 2 32), digits 4 (bits / Nat.pow 2 80 % Nat.pow 2 16),
          digits 4 (0x4000 + bits / Nat.pow 2 64 % Nat.pow 2 12),
          digits 4 (0x8000 + bits / Nat.pow 2 48 % Nat.pow 2 14),
          digits 12 (bits / Nat.pow 2 0 % Nat.pow 2 48)] := by
    rw [← List.splitOn_intercalate '-' _ (List.cons_ne_nil _ _)]
    · simp [ofBits, List.intercalate]
    · simp [hyphen_not_mem_digits]
  have lengths :
      ((ofBits bits).toList.splitOn '-').map List.length = [8, 4, 4, 4, 12] := by
    rw [groups]
    simp only [List.map_cons, List.map_nil, length_digits (by decide : 0 < 8) (below 96 32),
      length_digits (by decide : 0 < 4) (below 80 16), length_digits (by decide : 0 < 4) third,
      length_digits (by decide : 0 < 4) fourth, length_digits (by decide : 0 < 12) (below 0 48)]
  have areDigits :
      ((ofBits bits).toList.splitOn '-').all (fun group => group.all isHexDigit) = true := by
    rw [groups]
    simp only [List.all_cons, List.all_nil, Bool.and_true, Bool.and_eq_true, List.all_eq_true]
    exact ⟨fun c => isHexDigit_of_mem_digits, fun c => isHexDigit_of_mem_digits,
      fun c => isHexDigit_of_mem_digits, fun c => isHexDigit_of_mem_digits,
      fun c => isHexDigit_of_mem_digits⟩
  rw [isHyphenated, lengths, areDigits]
  rfl

/-! ## Tokens -/

/-- A hyphenated identifier is apart from a shorter token that neither begins nor ends with a
hexadecimal digit or a hyphen. -/
theorem apart_of_isHyphenated
    (hyphenated : isHyphenated id = true)
    {token : List Char}
    (nonempty : token ≠ [])
    (short : token.length < 36)
    (first : isHexDigit (token.head nonempty) = false ∧ token.head nonempty ≠ '-')
    (last : isHexDigit (token.getLast nonempty) = false ∧ token.getLast nonempty ≠ '-') :
    Text.Apart id.toList token := by
  have notFirst : token.head nonempty ∉ id.toList := by
    intro member
    rcases mem_of_isHyphenated hyphenated member with isDigit | isHyphen
    · exact absurd isDigit (by simp [first.1])
    · exact first.2 isHyphen
  have notLast : token.getLast nonempty ∉ id.toList := by
    intro member
    rcases mem_of_isHyphenated hyphenated member with isDigit | isHyphen
    · exact absurd isDigit (by simp [last.1])
    · exact last.2 isHyphen
  have length := length_of_isHyphenated hyphenated
  refine ⟨?_, ?_, ?_, ?_, ?_⟩
  · intro isEmpty
    simp [isEmpty] at length
  · intro contains
    exact notFirst (contains.subset (List.head_mem nonempty))
  · intro contained
    have := contained.length_le
    omega
  · intro part isPart begins ends
    have sameLast : part.getLast isPart = token.getLast nonempty := ends.getLast isPart
    exact notLast (sameLast ▸ begins.subset (List.getLast_mem isPart))
  · intro part isPart ends begins
    have sameFirst : part.head isPart = token.head nonempty := begins.head isPart
    exact notFirst (sameFirst ▸ ends.subset (List.head_mem isPart))

end RunManifest.Command.Identifier
