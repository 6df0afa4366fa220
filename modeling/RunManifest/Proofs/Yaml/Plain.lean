import RunManifest.Proofs.Yaml.Cursor
import RunManifest.Yaml.Printer
import RunManifest.Yaml.Scalar.Plain

/-!
Contract: plain scalars are read as the texts they were written for.

Owns:
- `readPlainFrom_append`, the words of a plain text are read up to its end;
- `readPlain_key` and `readPlain_line`, the text in front of a colon and at the end of a line.
-/

set_option autoImplicit false

namespace RunManifest.Yaml

/-- The spacing within a line. -/
def Gap.IsInner : Gap → Prop
  | .none => True
  | .blanks _ => True
  | .lines _ _ => False

theorem Gap.extend_space {gap : Gap} (inner : gap.IsInner) :
    (gap.extend ' ').IsInner ∧ (gap.extend ' ').text = gap.text ++ [' '] := by
  cases gap with
  | none => exact ⟨trivial, rfl⟩
  | blanks passed =>
      refine ⟨trivial, ?_⟩
      show (' ' :: passed).reverse = passed.reverse ++ [' ']
      rw [List.reverse_cons]
  | lines first others => cases inner

/-- What is known of the rest of a plain text after a character: no mark that ends it, no break, and
no space at its end. -/
structure PlainRest (previous : Char) (chars : List Char) : Prop where
  noMark : hasInnerMark previous chars = false
  noBreak : ∀ c ∈ chars, isBreak c = false
  printed : ∀ c ∈ chars, isPrintable c = true
  noSpace : chars.getLast?.any isSpace = false

theorem PlainRest.tail
    {previous c : Char}
    {chars : List Char}
    (plain : PlainRest previous (c :: chars)) :
    PlainRest c chars where
  noMark := by
    have noMark := plain.noMark
    rw [hasInnerMark, Bool.or_eq_false_iff] at noMark
    exact noMark.2
  noBreak d isChar := plain.noBreak d (by simp [isChar])
  printed d isChar := plain.printed d (by simp [isChar])
  noSpace := by
    have noSpace := plain.noSpace
    cases chars with
    | nil => rfl
    | cons d others => rwa [List.getLast?_cons_cons] at noSpace

/-- A colon inside a plain text does not end it. -/
theorem PlainRest.not_endsPlain
    {previous c : Char}
    {chars : List Char}
    (plain : PlainRest previous (c :: chars))
    (rest : List Char) :
    endsPlain false c (chars ++ rest) = false := by
  have noMark := plain.noMark
  rw [hasInnerMark, Bool.or_eq_false_iff, Bool.or_eq_false_iff] at noMark
  unfold endsPlain
  rw [Bool.false_and, Bool.or_false]
  cases chars with
  | nil =>
      have notColon : (c == ':') = false := by simpa [endsWord] using noMark.1.1
      rw [notColon, Bool.false_and]
  | cons d others => exact noMark.1.1

/-- A hash inside a plain text does not start a comment. -/
theorem PlainRest.ne_hash
    {previous c : Char}
    {chars : List Char}
    (plain : PlainRest previous (c :: chars))
    (spaced : isSpacing previous = true) :
    c ≠ '#' := by
  have noMark := plain.noMark
  rw [hasInnerMark, Bool.or_eq_false_iff, Bool.or_eq_false_iff, spaced, Bool.and_true] at noMark
  exact beq_eq_false_iff_ne.mp noMark.1.2

/-- One character of a word. -/
theorem readPlainFrom_word
    {indent : Int}
    {gap : Gap}
    {c : Char}
    {rest : List Char}
    {fuel index line column : Nat}
    (noBreak : isBreak c = false)
    (noBlank : isBlank c = false)
    (noEnd : endsPlain false c rest = false)
    (goesOn : gap.isOpen = true → indent ≤ column ∧ 0 < column ∧ c ≠ '#') :
    readPlainFrom false indent (fuel + 1) gap ⟨c :: rest, index, line, column⟩ =
      (readPlainFrom false indent fuel .none ⟨rest, index + c.utf8Size, line, column + 1⟩).map
        fun read => { read with chars := gap.text ++ c :: read.chars } := by
  have noStop : ¬ (gap.isOpen = true ∧ ((¬ false = true ∧ (column : Int) < indent) ∨
      (⟨c :: rest, index, line, column⟩ : Cursor).isAtDocumentMark = true ∨ c = '#')) := by
    rintro ⟨isOpen, stops⟩
    obtain ⟨indented, positive, notHash⟩ := goesOn isOpen
    rw [isAtDocumentMark_of_pos positive] at stops
    rcases stops with outdented | isMark | isHash
    · omega
    · cases isMark
    · exact notHash isHash
  rw [readPlainFrom]
  dsimp only
  rw [if_neg (by simp [noBreak]), if_neg (by simp [noBlank]), if_neg noStop,
    if_neg (by simp [isMisplacedColon]), if_neg (by simp [noEnd]), Cursor.next_cons]
  exact bind_pure_comp _ _

/-- A space between the words of a plain text. -/
theorem readPlainFrom_space
    {indent : Int}
    {gap : Gap}
    {rest : List Char}
    {fuel index line column : Nat} :
    readPlainFrom false indent (fuel + 1) gap ⟨' ' :: rest, index, line, column⟩ =
      readPlainFrom false indent fuel (gap.extend ' ') ⟨rest, index + 1, line, column + 1⟩ := by
  rw [readPlainFrom]
  dsimp only
  rw [if_neg (by decide), if_pos (by decide), if_neg (by simp), Cursor.next_cons]
  rfl

/-- The text of a plain scalar in front of something else. -/
theorem readPlainFrom_append
    {indent : Int}
    {previous : Char}
    {chars : List Char}
    (plain : PlainRest previous chars)
    {gap : Gap}
    (inner : gap.IsInner)
    (spaced : gap.isOpen = true → isSpacing previous = true ∧ chars ≠ [])
    {rest : List Char}
    {fuel index line column : Nat}
    (enough : chars.length < fuel)
    (positive : 0 < column)
    (indented : indent ≤ column) :
    readPlainFrom false indent fuel gap ⟨chars ++ rest, index, line, column⟩ =
      (readPlainFrom false indent (fuel - chars.length) .none
        ⟨rest, index + octetCount chars, line, column + chars.length⟩).map
        fun read => { read with chars := gap.text ++ chars ++ read.chars } := by
  induction chars generalizing previous gap fuel index column with
  | nil =>
      have closed : gap = .none := by
        cases gap with
        | none => rfl
        | blanks passed => exact absurd rfl (spaced rfl).2
        | lines first others => cases inner
      subst closed
      simp [Gap.text, octetCount]
  | cons c chars inductionHypothesis =>
      obtain ⟨fuel, rfl⟩ : ∃ smaller, fuel = smaller + 1 := ⟨fuel - 1, by omega⟩
      rw [List.length_cons] at enough
      have fewer : fuel + 1 - (chars.length + 1) = fuel - chars.length := by omega
      have further : column + (chars.length + 1) = column + 1 + chars.length := by omega
      rw [List.cons_append, octetCount_cons, List.length_cons, fewer, further, ← Nat.add_assoc index]
      by_cases isBlank : isBlank c = true
      · have isSpace := eq_space_of_isBlank (plain.printed c (by simp)) isBlank
        subst isSpace
        have notLast : chars ≠ [] := by
          rintro rfl
          exact absurd plain.noSpace (by decide)
        obtain ⟨innerToo, isText⟩ := Gap.extend_space inner
        rw [readPlainFrom_space,
          inductionHypothesis plain.tail innerToo (fun _ => ⟨by decide, notLast⟩) (by omega)
            (by omega) (by omega), isText]
        simp only [List.append_assoc, List.cons_append, List.nil_append]
        rfl
      · rw [Bool.not_eq_true] at isBlank
        have closed : Gap.none.IsInner := trivial
        have goesOn : gap.isOpen = true → indent ≤ column ∧ 0 < column ∧ c ≠ '#' := by
          intro isOpen
          exact ⟨indented, positive, plain.ne_hash (spaced isOpen).1⟩
        rw [readPlainFrom_word (plain.noBreak c (by simp)) isBlank (plain.not_endsPlain rest) goesOn,
          inductionHypothesis plain.tail closed (fun isOpen => by cases isOpen) (by omega) (by omega)
            (by omega), Option.map_map]
        simp only [Function.comp_def, Gap.text, List.nil_append, List.append_assoc,
          List.cons_append]

/-! ## Whole texts -/

/-- What is known of a text that can be written plain: how it starts and how it goes on. -/
structure PlainStart (c : Char) (chars : List Char) : Prop where
  noSpacing : isSpacing c = false
  printed : isPrintable c = true
  noReserved : reservedStarts.contains c = false
  noLoose : looseStarts.contains c = true → endsWord chars = false
  noMark : hasDocumentMark (c :: chars) = false
  rest : PlainRest c chars

/-- A text that can be written plain and is not empty. -/
theorem plainStart_of_allowsPlain
    {c : Char}
    {chars : List Char}
    (allowed : allowsPlain (c :: chars) = true) :
    PlainStart c chars := by
  unfold allowsPlain at allowed
  simp only [Bool.not_eq_true', Bool.or_eq_false_iff] at allowed
  obtain ⟨⟨⟨⟨⟨⟨start, noMark⟩, inner⟩, head⟩, last⟩, breaks⟩, printed⟩ := allowed
  have arePrinted : ∀ d ∈ c :: chars, isPrintable d = true := by
    simpa using printed
  have noBreaks : ∀ d ∈ c :: chars, isBreak d = false := by
    simpa using breaks
  rw [hasReservedStart, Bool.or_eq_false_iff] at start
  have isPrinted := arePrinted c (by simp)
  refine ⟨?_, isPrinted, start.1, ?_, noMark, inner, ?_, ?_, ?_⟩
  · unfold isSpacing
    rw [noBreaks c (by simp), Bool.or_false, Bool.eq_false_iff]
    intro isBlank
    rw [eq_space_of_isBlank isPrinted isBlank] at head
    cases head
  · intro isLoose
    rw [isLoose, Bool.true_and] at start
    exact start.2
  · intro d isChar
    exact noBreaks d (by simp [isChar])
  · intro d isChar
    exact arePrinted d (by simp [isChar])
  · cases chars with
    | nil => rfl
    | cons d others => rwa [List.getLast?_cons_cons] at last

section Starts

variable {c : Char} {chars : List Char}

/-- The first word of a plain text is longer than its first character, if that character alone would
be a mark. -/
theorem PlainStart.not_endsWord
    (start : PlainStart c chars)
    (rest : List Char)
    (isLoose : looseStarts.contains c = true) :
    endsWord (chars ++ rest) = false := by
  have noEnd := start.noLoose isLoose
  cases chars with
  | nil => cases noEnd
  | cons d others => exact noEnd

/-- The first character of a plain text does not end it. -/
theorem PlainStart.not_endsPlain (start : PlainStart c chars) (rest : List Char) :
    endsPlain false c (chars ++ rest) = false := by
  unfold endsPlain
  rw [Bool.false_and, Bool.or_false]
  by_cases isColon : c = ':'
  · rw [start.not_endsWord rest (by rw [isColon]; decide), Bool.and_false]
  · rw [beq_eq_false_iff_ne.mpr isColon, Bool.false_and]

theorem PlainStart.startsPlain (start : PlainStart c chars) (rest : List Char) :
    startsPlain false (c :: (chars ++ rest)) = true := by
  by_cases isLoose : looseStarts.contains c = true
  · have noEnd := start.not_endsWord rest isLoose
    generalize chars ++ rest = text at noEnd ⊢
    have noBlank : text.head?.any isBlank = false := by
      cases text with
      | nil => rfl
      | cons d others => exact (Bool.or_eq_false_iff.mp noEnd).1
    simp only [looseStarts, List.contains_cons, List.contains_nil, Bool.or_false, Bool.or_eq_true,
      beq_iff_eq] at isLoose
    rcases isLoose with rfl | rfl | rfl <;> simp [Yaml.startsPlain, noEnd, noBlank]
  · have notReserved := start.noReserved
    have notExcluded : plainExclusions.contains c = false := by
      simp [reservedStarts, looseStarts, plainExclusions] at notReserved isLoose ⊢
      simp [notReserved, isLoose]
    rw [Yaml.startsPlain, start.noSpacing, notExcluded]
    rfl

end Starts

/-- A plain text is read up to its end. -/
theorem readPlain_append
    {c : Char}
    {chars : List Char}
    (start : PlainStart c chars)
    {indent : Int}
    {rest : List Char}
    {index line column : Nat}
    (indented : indent ≤ column + 1) :
    readPlain false indent ⟨c :: chars ++ rest, index, line, column⟩ =
      (readPlainFrom false indent (rest.length + 1) .none
        ⟨rest, index + octetCount (c :: chars), line, column + (c :: chars).length⟩).map
        fun read => { read with chars := c :: chars ++ read.chars } := by
  obtain ⟨notBlank, notBreak⟩ := Bool.or_eq_false_iff.mp start.noSpacing
  have closed : Gap.none.IsInner := trivial
  have fuel : (c :: chars ++ rest).length + 1 = chars.length + rest.length + 1 + 1 := by
    simp
  have left : chars.length + rest.length + 1 - chars.length = rest.length + 1 := by omega
  have further : column + 1 + chars.length = column + (c :: chars).length := by
    rw [List.length_cons]
    omega
  rw [readPlain, fuel, List.cons_append, readPlainFrom_word notBreak notBlank
      (start.not_endsPlain rest) (fun isOpen => by cases isOpen),
    readPlainFrom_append start.rest closed (fun isOpen => by cases isOpen) (by omega) (by omega)
      (by omega), left, further, Nat.add_assoc index, ← octetCount_cons, Option.map_map]
  rfl

/-- A plain text in front of a colon that ends a key. -/
theorem readPlain_key
    {c : Char}
    {chars : List Char}
    (start : PlainStart c chars)
    {indent : Int}
    {rest : List Char}
    (ends : endsWord rest = true)
    {index line column : Nat}
    (indented : indent ≤ column + 1) :
    readPlain false indent ⟨c :: chars ++ ':' :: rest, index, line, column⟩ =
      some ⟨c :: chars, false,
        ⟨':' :: rest, index + octetCount (c :: chars), line, column + (c :: chars).length⟩⟩ := by
  rw [readPlain_append start indented, readPlainFrom]
  dsimp only
  rw [if_neg (by decide), if_neg (by decide), if_neg (by simp [Gap.isOpen]),
    if_neg (by simp [isMisplacedColon]), if_pos (by simp [endsPlain, ends])]
  simp [Gap.hasBreak]

/-- The spacing behind a plain text at the end of a line. -/
theorem readPlainFrom_blanks
    {indent : Int}
    {tail : List Char}
    (begins : Begins tail)
    {fuel width index line column : Nat}
    (enough : width < fuel)
    (outdented : ((column + width : Nat) : Int) < indent) :
    ∃ after, readPlainFrom false indent fuel (.lines (some '\n') [])
      ⟨blanks width ++ tail, index, line, column⟩ =
        some ⟨[], true, ⟨tail, after, line, column + width⟩⟩ := by
  induction width generalizing fuel index column with
  | zero =>
      obtain ⟨fuel, rfl⟩ : ∃ smaller, fuel = smaller + 1 := ⟨fuel - 1, by omega⟩
      refine ⟨index, ?_⟩
      show readPlainFrom false indent (fuel + 1) _ ⟨tail, index, line, column⟩ = _
      rw [readPlainFrom]
      cases tail with
      | nil => rfl
      | cons c rest =>
          obtain ⟨noSpacing, -⟩ := begins_cons.mp begins
          obtain ⟨notBlank, notBreak⟩ := Bool.or_eq_false_iff.mp noSpacing
          dsimp only
          rw [if_neg (by simp [notBreak]), if_neg (by simp [notBlank]),
            if_pos ⟨rfl, .inl ⟨by decide, by simpa using outdented⟩⟩]
          rfl
  | succ width inductionHypothesis =>
      obtain ⟨fuel, rfl⟩ : ∃ smaller, fuel = smaller + 1 := ⟨fuel - 1, by omega⟩
      have further : column + (width + 1) = column + 1 + width := by omega
      rw [further] at outdented ⊢
      have fewer : width < fuel := by omega
      obtain ⟨after, read⟩ := inductionHypothesis fewer outdented
      refine ⟨after, ?_⟩
      show readPlainFrom false indent (fuel + 1) _ ⟨' ' :: (blanks width ++ tail), _, _, _⟩ = _
      rw [readPlainFrom_space]
      exact read

/-- A plain text at the end of a line. What follows is indented less than the text would have to
be. -/
theorem readPlain_line
    {c : Char}
    {chars : List Char}
    (start : PlainStart c chars)
    {indent : Int}
    {tail : List Char}
    (begins : Begins tail)
    {width column : Nat}
    (indented : indent ≤ column + 1)
    (outdented : (width : Int) < indent)
    (index line : Nat) :
    ∃ after, readPlain false indent
        ⟨c :: chars ++ '\n' :: (blanks width ++ tail), index, line, column⟩ =
      some ⟨c :: chars, true, ⟨tail, after, line + 1, width⟩⟩ := by
  have later : ∃ after, readPlainFrom false indent ((blanks width ++ tail).length + 1)
      (.lines (some '\n') [])
      ⟨blanks width ++ tail, index + octetCount (c :: chars) + 1, line + 1, 0⟩ =
        some ⟨[], true, ⟨tail, after, line + 1, 0 + width⟩⟩ := by
    apply readPlainFrom_blanks begins
    · rw [blanks, List.length_append, List.length_replicate]
      omega
    · omega
  obtain ⟨after, read⟩ := later
  refine ⟨after, ?_⟩
  rw [readPlain_append start indented, List.length_cons, readPlainFrom]
  dsimp only
  rw [if_pos (by decide), Cursor.nextLine_cons]
  have gap : Gap.none.extend '\n' = .lines (some '\n') [] := rfl
  have size : '\n'.utf8Size = 1 := rfl
  rw [gap, size, read, Nat.zero_add]
  simp

end RunManifest.Yaml
