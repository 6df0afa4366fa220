import RunManifest.Proofs.Text.Hexadecimal
import RunManifest.Proofs.Yaml.Plain
import RunManifest.Yaml.Scalar.Quoted

/-!
Contract: scalars in quotes are read as the texts they were written for.

Owns:
- `escape?_escape`, an escape is read as the character it was written for;
- `readQuoted_doubleQuoted`, texts in double quotes, which stay in one line;
- `readQuoted_singleQuoted`, texts in single quotes, where every break is followed by indentation.
-/

set_option autoImplicit false

namespace RunManifest.Yaml

open Text

/-! ## Steps -/

section Steps

variable {quote : Quote} {gap : Gap} {c : Char} {rest : List Char} {fuel index line column : Nat}

private theorem readQuotedFrom_space :
    readQuotedFrom quote (fuel + 1) gap ⟨' ' :: rest, index, line, column⟩ =
      readQuotedFrom quote fuel (gap.extend ' ') ⟨rest, index + 1, line, column + 1⟩ := by
  rw [readQuotedFrom]
  dsimp only
  rw [if_neg (by decide), if_pos (by decide), Cursor.next_cons]
  rfl

private theorem readQuotedFrom_break (isBreak : isBreak c = true) :
    readQuotedFrom quote (fuel + 1) gap ⟨c :: rest, index, line, column⟩ =
      readQuotedFrom quote fuel (gap.extend c) ⟨rest, index + c.utf8Size, line + 1, 0⟩ := by
  rw [readQuotedFrom]
  dsimp only
  rw [if_pos isBreak, Cursor.nextLine_cons]

/-- A character that stands for itself. -/
theorem readQuotedFrom_char
    (noSpacing : isSpacing c = false)
    (notQuote : c ≠ quote.char)
    (notEscape : ¬ (quote = .double ∧ c = '\\'))
    (positive : 0 < column) :
    readQuotedFrom quote (fuel + 1) gap ⟨c :: rest, index, line, column⟩ =
      (readQuotedFrom quote fuel .none ⟨rest, index + c.utf8Size, line, column + 1⟩).map
        fun read => (gap.text ++ c :: read.1, read.2) := by
  obtain ⟨notBlank, notBreak⟩ := Bool.or_eq_false_iff.mp noSpacing
  rw [readQuotedFrom]
  dsimp only
  rw [if_neg (by simp [notBreak]), if_neg (by simp [notBlank]),
    if_neg (by simp [isAtDocumentMark_of_pos positive]), if_neg notQuote, if_neg notEscape,
    Cursor.next_cons]
  exact bind_pure_comp _ _

/-- The closing quote. -/
theorem readQuotedFrom_close
    (closes : quote = .single → rest.head? ≠ some quote.char)
    (positive : 0 < column) :
    readQuotedFrom quote (fuel + 1) gap ⟨quote.char :: rest, index, line, column⟩ =
      some (gap.text, ⟨rest, index + 1, line, column + 1⟩) := by
  have noSpacing : isSpacing quote.char = false := by cases quote <;> decide
  have size : quote.char.utf8Size = 1 := by cases quote <;> rfl
  obtain ⟨notBlank, notBreak⟩ := Bool.or_eq_false_iff.mp noSpacing
  rw [readQuotedFrom]
  dsimp only
  rw [if_neg (by simp [notBreak]), if_neg (by simp [notBlank]),
    if_neg (by simp [isAtDocumentMark_of_pos positive]), if_pos rfl,
    if_neg (fun doubled => closes doubled.1 doubled.2), Cursor.next_cons, size]

end Steps

/-! ## Double quotes -/

/-- The character that has a letter for its escape. -/
theorem escapedChar?_of_find
    {c : Char}
    {code : Nat}
    {letter : Char}
    (found : escapeLetters.find? (fun entry => entry.1 == c.toNat) = some (code, letter)) :
    escapedChar? letter = some c ∧ letter.utf8Size = 1 ∧ isBreak letter = false := by
  have isEntry := List.mem_of_find?_eq_some found
  have isCode : code = c.toNat := by simpa using List.find?_some found
  have table : ∀ entry ∈ escapeLetters, escapedChar? entry.2 = some (Char.ofNat entry.1) ∧
      entry.2.utf8Size = 1 ∧ isBreak entry.2 = false := by
    decide
  obtain ⟨isChar, size, notBreak⟩ := table _ isEntry
  refine ⟨?_, size, notBreak⟩
  rw [isChar, isCode, Char.ofNat_toNat]

private theorem charOfCode?_toNat (c : Char) : charOfCode? c.toNat = some c := by
  have isValid : c.toNat < 0xD800 ∨ 0xDFFF < c.toNat ∧ c.toNat < 0x110000 := c.valid
  unfold charOfCode?
  rw [if_neg (by omega), Char.ofNat_toNat]

/-- An escape with digits. -/
theorem escape?_digits
    {c letter : Char}
    {width : Nat}
    (noShort : escapedChar? letter = none)
    (isWidth : escapeWidth? letter = some width)
    (positive : 0 < width)
    (small : c.toNat < 16 ^ width)
    (rest : List Char) :
    escape? (letter :: upperHexadecimal width c.toNat ++ rest) = some (c, width + 1) := by
  have length := length_upperHexadecimal positive small
  have front : (upperHexadecimal width c.toNat ++ rest).take width =
      upperHexadecimal width c.toNat := by
    rw [List.take_append_of_le_length (by omega), List.take_of_length_le (by omega)]
  rw [List.cons_append, escape?, noShort]
  simp only [isWidth, Option.bind_eq_bind, Option.bind_some, front, length, if_true,
    hexadecimalValue?_upperHexadecimal, charOfCode?_toNat]
  rfl

/-- An escape is read as the character it was written for. -/
theorem escape?_escape (c : Char) (rest : List Char) :
    escape? (escape c ++ rest) = some (c, (escape c).length) := by
  have isValid : c.toNat < 0xD800 ∨ 0xDFFF < c.toNat ∧ c.toNat < 0x110000 := c.valid
  unfold escape
  split
  · rename_i found
    obtain ⟨isChar, -⟩ := escapedChar?_of_find found
    show escape? (_ :: rest) = _
    rw [escape?, isChar]
    rfl
  · split
    · have small : c.toNat < 16 ^ 2 := by omega
      rw [escape?_digits rfl rfl (by decide) small, List.length_cons,
        length_upperHexadecimal (by decide) small]
    · split
      · have small : c.toNat < 16 ^ 4 := by omega
        rw [escape?_digits rfl rfl (by decide) small, List.length_cons,
          length_upperHexadecimal (by decide) small]
      · have small : c.toNat < 16 ^ 8 := by omega
        rw [escape?_digits rfl rfl (by decide) small, List.length_cons,
          length_upperHexadecimal (by decide) small]

private theorem escape_eq_cons (c : Char) :
    ∃ first others, escape c = first :: others ∧ isBreak first = false := by
  unfold escape
  split
  · rename_i found
    obtain ⟨-, -, notBreak⟩ := escapedChar?_of_find found
    exact ⟨_, [], rfl, notBreak⟩
  · split
    · exact ⟨'x', _, rfl, by decide⟩
    · split
      · exact ⟨'u', _, rfl, by decide⟩
      · exact ⟨'U', _, rfl, by decide⟩

/-- A character that is escaped. -/
theorem readQuotedFrom_escape
    {gap : Gap}
    {c : Char}
    {rest : List Char}
    {fuel index line column : Nat}
    (positive : 0 < column) :
    readQuotedFrom .double (fuel + 1) gap ⟨'\\' :: escape c ++ rest, index, line, column⟩ =
      (readQuotedFrom .double fuel .none ⟨rest, index + octetCount ('\\' :: escape c), line,
        column + ('\\' :: escape c).length⟩).map
        fun read => (gap.text ++ c :: read.1, read.2) := by
  have noBreak : (escape c ++ rest).head?.any isBreak = false := by
    obtain ⟨first, others, isEscape, notBreak⟩ := escape_eq_cons c
    simp [isEscape, notBreak]
  have width : (escape c).length + 1 = ('\\' :: escape c).length := rfl
  rw [List.cons_append, readQuotedFrom]
  dsimp only
  rw [if_neg (by decide), if_neg (by decide), if_neg (by simp [isAtDocumentMark_of_pos positive]),
    if_neg (by decide), if_pos ⟨rfl, rfl⟩, if_neg (by rw [noBreak]; decide), escape?_escape,
    Option.bind_eq_bind, Option.bind_some]
  dsimp only
  rw [width, ← List.cons_append, Cursor.advance_append]
  exact bind_pure_comp _ _

/-- A character as it stands in double quotes. -/
def doubleQuotedChar (c : Char) : List Char :=
  if isEscaped c then '\\' :: escape c else [c]

private theorem readQuotedFrom_doubleQuoted
    {chars : List Char}
    {gap : Gap}
    (inner : gap.IsInner)
    {rest : List Char}
    {fuel index line column : Nat}
    (enough : (chars.flatMap doubleQuotedChar).length < fuel)
    (positive : 0 < column) :
    readQuotedFrom .double fuel gap
        ⟨chars.flatMap doubleQuotedChar ++ '\"' :: rest, index, line, column⟩ =
      some (gap.text ++ chars, ⟨rest, index + octetCount (chars.flatMap doubleQuotedChar) + 1, line,
        column + (chars.flatMap doubleQuotedChar).length + 1⟩) := by
  have closed : Gap.none.IsInner := trivial
  induction chars generalizing gap fuel index column with
  | nil =>
      obtain ⟨fuel, rfl⟩ : ∃ smaller, fuel = smaller + 1 := ⟨fuel - 1, by omega⟩
      have read : readQuotedFrom .double (fuel + 1) gap ⟨'\"' :: rest, index, line, column⟩ =
          some (gap.text, ⟨rest, index + 1, line, column + 1⟩) :=
        readQuotedFrom_close (fun isSingle => by cases isSingle) positive
      rw [List.flatMap_nil, List.nil_append, read, List.append_nil]
      rfl
  | cons c chars inductionHypothesis =>
      rw [List.flatMap_cons, List.length_append] at enough
      rw [List.flatMap_cons, octetCount_append, List.length_append, List.append_assoc]
      by_cases escapes : isEscaped c = true
      · have isWritten : doubleQuotedChar c = '\\' :: escape c := if_pos escapes
        rw [isWritten, List.length_cons] at enough
        obtain ⟨fuel, rfl⟩ : ∃ smaller, fuel = smaller + 1 := ⟨fuel - 1, by omega⟩
        rw [isWritten, readQuotedFrom_escape positive,
          inductionHypothesis closed (by omega) (by omega)]
        simp [Gap.text, Nat.add_assoc]
      · rw [Bool.not_eq_true] at escapes
        have isWritten : doubleQuotedChar c = [c] := if_neg (by simp [escapes])
        unfold isEscaped at escapes
        simp only [Bool.or_eq_false_iff, Bool.not_eq_false', beq_eq_false_iff_ne] at escapes
        obtain ⟨⟨⟨printed, notBreak⟩, notQuote⟩, notBackslash⟩ := escapes
        rw [isWritten, List.length_singleton] at enough
        obtain ⟨fuel, rfl⟩ : ∃ smaller, fuel = smaller + 1 := ⟨fuel - 1, by omega⟩
        rw [isWritten, List.singleton_append]
        by_cases blank : isBlank c = true
        · have isSpace := eq_space_of_isBlank printed blank
          subst isSpace
          obtain ⟨innerToo, isText⟩ := Gap.extend_space inner
          have size : octetCount [' '] = 1 := rfl
          rw [readQuotedFrom_space, inductionHypothesis innerToo (by omega) (by omega), isText, size]
          simp [Nat.add_assoc]
        · have noSpacing : isSpacing c = false := by
            rw [isSpacing, notBreak, Bool.or_false]
            exact Bool.not_eq_true _ ▸ blank
          have notClose : c ≠ Quote.double.char := notQuote
          rw [readQuotedFrom_char noSpacing notClose (fun escape => notBackslash escape.2) positive,
            inductionHypothesis closed (by omega) (by omega)]
          simp [Gap.text, octetCount, Nat.add_assoc]

/-- A text in double quotes is read, in one line. -/
theorem readQuoted_doubleQuoted
    (chars rest : List Char)
    (index line column : Nat) :
    readQuoted .double ⟨doubleQuoted chars ++ rest, index, line, column⟩ =
      some (chars, ⟨rest, index + octetCount (doubleQuoted chars), line,
        column + (doubleQuoted chars).length⟩) := by
  have closed : Gap.none.IsInner := trivial
  have shape : doubleQuoted chars = '\"' :: (chars.flatMap doubleQuotedChar ++ ['\"']) := rfl
  have size : octetCount (doubleQuoted chars) =
      1 + octetCount (chars.flatMap doubleQuotedChar) + 1 := by
    rw [shape, octetCount_cons, octetCount_append, ← Nat.add_assoc]
    rfl
  have length : (doubleQuoted chars).length =
      1 + (chars.flatMap doubleQuotedChar).length + 1 := by
    rw [shape]
    simp
    omega
  rw [readQuoted, size, length, shape, List.cons_append, List.append_assoc, Cursor.next_cons,
    List.singleton_append, readQuotedFrom_doubleQuoted closed (by simp) (by omega)]
  have quoteSize : '\"'.utf8Size = 1 := rfl
  simp [Gap.text, quoteSize, Nat.add_assoc]

/-! ## Single quotes -/

/-- Indentation at the start of a line. -/
theorem readQuotedFrom_blanks
    {quote : Quote}
    {first : Option Char}
    {others rest : List Char}
    {fuel width index line column : Nat}
    (enough : width < fuel) :
    readQuotedFrom quote fuel (.lines first others) ⟨blanks width ++ rest, index, line, column⟩ =
      readQuotedFrom quote (fuel - width) (.lines first others)
        ⟨rest, index + width, line, column + width⟩ := by
  induction width generalizing fuel index column with
  | zero => rfl
  | succ width inductionHypothesis =>
      obtain ⟨fuel, rfl⟩ : ∃ smaller, fuel = smaller + 1 := ⟨fuel - 1, by omega⟩
      have fewer : width < fuel := by omega
      have gap : (Gap.lines first others).extend ' ' = .lines first others := rfl
      show readQuotedFrom quote (fuel + 1) _ ⟨' ' :: (blanks width ++ rest), index, line, column⟩ = _
      rw [readQuotedFrom_space, gap, inductionHypothesis fewer, Nat.succ_sub_succ, Nat.add_assoc,
        Nat.add_assoc, Nat.add_comm 1]

private theorem octetCount_blanks (width : Nat) : octetCount (blanks width) = width := by
  induction width with
  | zero => rfl
  | succ width inductionHypothesis =>
      show octetCount (' ' :: blanks width) = _
      rw [octetCount_cons, inductionHypothesis, Nat.add_comm]
      rfl

/-- A quote that is written twice. -/
theorem readQuotedFrom_twice
    {gap : Gap}
    {rest : List Char}
    {fuel index line column : Nat}
    (positive : 0 < column) :
    readQuotedFrom .single (fuel + 1) gap ⟨'\x27' :: '\x27' :: rest, index, line, column⟩ =
      (readQuotedFrom .single fuel .none ⟨rest, index + 2, line, column + 2⟩).map
        fun read => (gap.text ++ '\x27' :: read.1, read.2) := by
  rw [readQuotedFrom]
  dsimp only
  rw [if_neg (by decide), if_neg (by decide), if_neg (by simp [isAtDocumentMark_of_pos positive]),
    if_pos (show '\x27' = Quote.single.char from rfl), if_pos ⟨rfl, rfl⟩]
  exact bind_pure_comp _ _

/-- What is known of the rest of a text in single quotes. -/
structure SingleRest (chars : List Char) : Prop where
  printed : ∀ c ∈ chars, isPrintable c = true
  noNewline : ∀ c ∈ chars, c ≠ '\n'
  noIndent : hasNeighbours isBreak isSpace chars = false
  noTrail : hasNeighbours isSpace isBreak chars = false

private theorem hasNeighbours_tail
    {first second : Char → Bool}
    {c : Char}
    {chars : List Char}
    (none : hasNeighbours first second (c :: chars) = false) :
    hasNeighbours first second chars = false ∧
      (first c = true → ∀ d, chars.head? = some d → second d = false) := by
  cases chars with
  | nil => exact ⟨rfl, fun _ d isHead => by cases isHead⟩
  | cons d others =>
      rw [hasNeighbours, Bool.or_eq_false_iff] at none
      refine ⟨none.2, fun isFirst e isHead => ?_⟩
      cases isHead
      simpa [isFirst] using none.1

theorem SingleRest.tail
    {c : Char}
    {chars : List Char}
    (single : SingleRest (c :: chars)) :
    SingleRest chars where
  printed d isChar := single.printed d (by simp [isChar])
  noNewline d isChar := single.noNewline d (by simp [isChar])
  noIndent := (hasNeighbours_tail single.noIndent).1
  noTrail := (hasNeighbours_tail single.noTrail).1

/-- The spacing passed at a place in single quotes, by whether a line has just ended. -/
inductive GapAt : Bool → Gap → Prop where
  | inside {gap : Gap} (inner : gap.IsInner) : GapAt false gap
  | atStart {first : Char} (notNewline : first ≠ '\n') (others : List Char) :
      GapAt true (.lines (some first) others)

private theorem Gap.text_lines {first : Char} (notNewline : first ≠ '\n') (others : List Char) :
    (Gap.lines (some first) others).text = first :: others.reverse := by
  unfold Gap.text
  split
  · rename_i same
    cases same
  · rename_i same
    cases same
  · rename_i same
    cases same
    exact absurd rfl notNewline
  · rename_i same
    cases same
    exact absurd rfl notNewline
  · rename_i same
    cases same
    rfl

/-- A break adds to the spacing as it stands. -/
theorem GapAt.extend_break
    {atStart : Bool}
    {gap : Gap}
    (gapAt : GapAt atStart gap)
    {c : Char}
    (breaks : isBreak c = true)
    (notNewline : c ≠ '\n')
    (noBlanks : ∀ passed, gap ≠ .blanks passed) :
    GapAt true (gap.extend c) ∧ (gap.extend c).text = gap.text ++ [c] := by
  unfold Gap.extend
  rw [breaks]
  cases gapAt with
  | inside inner =>
      cases gap with
      | none => exact ⟨.atStart notNewline [], Gap.text_lines notNewline []⟩
      | blanks passed => exact absurd rfl (noBlanks passed)
      | lines first others => cases inner
  | atStart notFirst others =>
      refine ⟨.atStart notFirst (c :: others), ?_⟩
      rw [Gap.text_lines notFirst, Gap.text_lines notFirst, List.reverse_cons, List.cons_append]

/-- The form of some characters, up to the closing quote, is read as these characters after the
given spacing. -/
def ReadsSingle (chars form rest : List Char) (fuel : Nat) (gap : Gap) (index line column : Nat) :
    Prop :=
  ∃ column', readQuotedFrom .single fuel gap ⟨form ++ rest, index, line, column⟩ =
    some (gap.text ++ chars,
      ⟨rest, index + octetCount form, line + chars.countP isBreak, column'⟩) ∧
    (chars.countP isBreak = 0 → column < column')

section Steps

variable {chars form rest : List Char} {fuel index line column : Nat} {gap : Gap} {c : Char}

theorem ReadsSingle.close (closes : rest.head? ≠ some '\x27') (positive : 0 < column) :
    ReadsSingle [] ['\x27'] rest (fuel + 1) gap index line column := by
  have read : readQuotedFrom .single (fuel + 1) gap ⟨'\x27' :: rest, index, line, column⟩ =
      some (gap.text, ⟨rest, index + 1, line, column + 1⟩) :=
    readQuotedFrom_close (fun _ => closes) positive
  refine ⟨column + 1, ?_, fun _ => by omega⟩
  rw [List.singleton_append, read, List.append_nil]
  rfl

private theorem ReadsSingle.lineEnd
    (breaks : isBreak c = true)
    (isText : (gap.extend c).text = gap.text ++ [c])
    (reads : ReadsSingle chars form rest fuel (gap.extend c) (index + c.utf8Size) (line + 1) 0) :
    ReadsSingle (c :: chars) (c :: form) rest (fuel + 1) gap index line column := by
  obtain ⟨column', read, -⟩ := reads
  refine ⟨column', ?_, fun none => by simp [breaks] at none⟩
  rw [List.cons_append, readQuotedFrom_break breaks, read, isText, octetCount_cons,
    List.countP_cons_of_pos breaks, List.append_assoc, Nat.add_assoc index, Nat.add_assoc line,
    Nat.add_comm 1]
  rfl

theorem ReadsSingle.space
    (inner : gap.IsInner)
    (reads : ReadsSingle chars form rest fuel (gap.extend ' ') (index + 1) line (column + 1)) :
    ReadsSingle (' ' :: chars) (' ' :: form) rest (fuel + 1) gap index line column := by
  obtain ⟨column', read, further⟩ := reads
  obtain ⟨-, isText⟩ := Gap.extend_space inner
  refine ⟨column', ?_, fun none => by have := further none; omega⟩
  rw [List.cons_append, readQuotedFrom_space, read, isText, octetCount_cons,
    List.countP_cons_of_neg (by decide), List.append_assoc, Nat.add_assoc index]
  rfl

theorem ReadsSingle.char
    (noSpacing : isSpacing c = false)
    (notQuote : c ≠ '\x27')
    (positive : 0 < column)
    (reads : ReadsSingle chars form rest fuel .none (index + c.utf8Size) line (column + 1)) :
    ReadsSingle (c :: chars) (c :: form) rest (fuel + 1) gap index line column := by
  obtain ⟨column', read, further⟩ := reads
  obtain ⟨-, notBreak⟩ := Bool.or_eq_false_iff.mp noSpacing
  have same : (c :: chars).countP isBreak = chars.countP isBreak :=
    List.countP_cons_of_neg (by simp [notBreak])
  refine ⟨column', ?_, fun none => by have := further (same ▸ none); omega⟩
  have notClose : c ≠ Quote.single.char := notQuote
  rw [List.cons_append, readQuotedFrom_char noSpacing notClose (by simp) positive, read,
    octetCount_cons, same, Nat.add_assoc index]
  rfl

private theorem ReadsSingle.twice
    (positive : 0 < column)
    (reads : ReadsSingle chars form rest fuel .none (index + 2) line (column + 2)) :
    ReadsSingle ('\x27' :: chars) ('\x27' :: '\x27' :: form) rest (fuel + 1) gap index line
      column := by
  obtain ⟨column', read, further⟩ := reads
  refine ⟨column', ?_, fun none => by have := further none; omega⟩
  have size : octetCount ('\x27' :: '\x27' :: form) = 2 + octetCount form := by
    rw [octetCount_cons, octetCount_cons, ← Nat.add_assoc]
    rfl
  rw [List.cons_append, List.cons_append, readQuotedFrom_twice positive, read, size,
    List.countP_cons_of_neg (by decide), Nat.add_assoc index]
  rfl

/-- A character of a word, whether it is a quote or not. -/
theorem ReadsSingle.word
    (noSpacing : isSpacing c = false)
    (positive : 0 < column)
    (enough : ((if c = '\x27' then ['\x27', c] else [c]) ++ form).length ≤ fuel)
    (later : ∀ {fuel index column : Nat}, 0 < column → form.length ≤ fuel →
      ReadsSingle chars form rest fuel .none index line column) :
    ReadsSingle (c :: chars) ((if c = '\x27' then ['\x27', c] else [c]) ++ form) rest fuel gap index
      line column := by
  by_cases isQuote : c = '\x27'
  · subst isQuote
    simp at enough
    obtain ⟨fuel, rfl⟩ : ∃ smaller, fuel = smaller + 1 := ⟨fuel - 1, by omega⟩
    exact .twice positive (later (by omega) (by omega))
  · rw [if_neg isQuote] at enough ⊢
    simp at enough
    obtain ⟨fuel, rfl⟩ : ∃ smaller, fuel = smaller + 1 := ⟨fuel - 1, by omega⟩
    exact .char noSpacing isQuote positive (later (by omega) (by omega))

private theorem length_singleQuotedChar_pos (c : Char) :
    0 < (if c = '\x27' then ['\x27', c] else [c]).length := by
  split <;> simp

/-- The indentation of a line that has just started. -/
theorem ReadsSingle.margin
    {width : Nat}
    {first : Char}
    {others : List Char}
    (enough : width < fuel)
    (reads : ReadsSingle chars form rest (fuel - width) (.lines (some first) others)
      (index + width) line (column + width)) :
    ReadsSingle chars (blanks width ++ form) rest fuel (.lines (some first) others) index line
      column := by
  obtain ⟨column', read, further⟩ := reads
  refine ⟨column', ?_, fun none => by have := further none; omega⟩
  rw [List.append_assoc, readQuotedFrom_blanks enough, read, octetCount_append, octetCount_blanks,
    Nat.add_assoc index]

end Steps

/-- A place in a text in single quotes from which reading goes on, with the spacing passed before
it. -/
structure ResumesAt (atStart : Bool) (gap : Gap) (column : Nat) (chars : List Char) : Prop where
  gapAt : GapAt atStart gap
  noIndent : atStart = true → ∀ c, chars.head? = some c → isSpace c = false
  noTrail : ∀ passed, gap = .blanks passed → ∀ c, chars.head? = some c → isBreak c = false
  positive : atStart = false → 0 < column

private theorem resumesAt_inside {column : Nat} (positive : 0 < column) (chars : List Char) :
    ResumesAt false .none column chars where
  gapAt := .inside trivial
  noIndent isStart := by cases isStart
  noTrail _ isBlanks := by cases isBlanks
  positive _ := positive

/-- Characters in single quotes are read wherever reading may go on with them. -/
def ReadsOn (indent : Nat) (rest chars : List Char) : Prop :=
  ∀ ⦃atStart : Bool⦄ ⦃gap : Gap⦄ ⦃fuel index line column : Nat⦄,
    ResumesAt atStart gap column chars →
    (singleQuotedFrom indent atStart chars).length ≤ fuel →
    ReadsSingle chars (singleQuotedFrom indent atStart chars) rest fuel gap index line column

section ReadsOn

variable {indent : Nat} {rest chars : List Char} {c : Char}

private theorem readsOn_nil (indented : 0 < indent) (closes : rest.head? ≠ some '\x27') :
    ReadsOn indent rest [] := by
  intro atStart gap fuel index line column resumes enough
  rw [singleQuotedFrom] at enough ⊢
  cases resumes.gapAt with
  | inside inner =>
      simp at enough
      obtain ⟨fuel, rfl⟩ : ∃ smaller, fuel = smaller + 1 := ⟨fuel - 1, by omega⟩
      exact .close closes (resumes.positive rfl)
  | atStart notNewline others =>
      have margin : (blanks indent).length = indent := List.length_replicate
      simp [margin] at enough
      obtain ⟨left, isLeft⟩ : ∃ left, fuel - indent = left + 1 := ⟨fuel - indent - 1, by omega⟩
      apply ReadsSingle.margin (by omega)
      rw [isLeft]
      exact .close closes (by omega)

private theorem readsOn_break
    (single : SingleRest (c :: chars))
    (breaks : isBreak c = true)
    (later : ReadsOn indent rest chars) :
    ReadsOn indent rest (c :: chars) := by
  intro atStart gap fuel index line column resumes enough
  rw [singleQuotedFrom, if_pos breaks] at enough ⊢
  rw [List.length_cons] at enough
  obtain ⟨fuel, rfl⟩ : ∃ smaller, fuel = smaller + 1 := ⟨fuel - 1, by omega⟩
  have noBlanks : ∀ passed, gap ≠ .blanks passed := by
    intro passed isBlanks
    rw [resumes.noTrail passed isBlanks c rfl] at breaks
    cases breaks
  obtain ⟨gapAtStart, isText⟩ :=
    resumes.gapAt.extend_break breaks (single.noNewline c (by simp)) noBlanks
  have after : ResumesAt true (gap.extend c) 0 chars := by
    refine ⟨gapAtStart, fun _ => (hasNeighbours_tail single.noIndent).2 breaks, ?_, ?_⟩
    · intro passed isBlanks
      rw [isBlanks] at gapAtStart
      cases gapAtStart
    · intro isInside
      cases isInside
  exact .lineEnd breaks isText (later after (by omega))

private theorem readsOn_space
    (single : SingleRest (' ' :: chars))
    (later : ReadsOn indent rest chars) :
    ReadsOn indent rest (' ' :: chars) := by
  intro atStart gap fuel index line column resumes enough
  rw [singleQuotedFrom, if_neg (by decide)] at enough ⊢
  cases resumes.gapAt with
  | atStart notNewline others => exact absurd (resumes.noIndent rfl ' ' rfl) (by decide)
  | inside inner =>
      simp at enough
      obtain ⟨fuel, rfl⟩ : ∃ smaller, fuel = smaller + 1 := ⟨fuel - 1, by omega⟩
      have after : ResumesAt false (gap.extend ' ') (column + 1) chars := by
        refine ⟨.inside (Gap.extend_space inner).1, ?_, ?_, fun _ => Nat.succ_pos column⟩
        · intro isStart
          cases isStart
        · exact fun _ _ => (hasNeighbours_tail single.noTrail).2 (by decide)
      exact .space inner (later after (by omega))

private theorem readsOn_word
    (indented : 0 < indent)
    (notBreak : ¬ isBreak c = true)
    (noSpacing : isSpacing c = false)
    (later : ReadsOn indent rest chars) :
    ReadsOn indent rest (c :: chars) := by
  intro atStart gap fuel index line column resumes enough
  have onward : ∀ {fuel index column : Nat}, 0 < column →
      (singleQuotedFrom indent false chars).length ≤ fuel →
      ReadsSingle chars (singleQuotedFrom indent false chars) rest fuel .none index line column :=
    fun positive enough => later (resumesAt_inside positive chars) enough
  rw [singleQuotedFrom, if_neg notBreak, List.append_assoc] at enough ⊢
  cases resumes.gapAt with
  | inside inner => exact .word noSpacing (resumes.positive rfl) enough onward
  | atStart notNewline others =>
      have margin : (blanks indent).length = indent := List.length_replicate
      have longer := length_singleQuotedChar_pos c
      rw [List.length_append] at enough
      simp only [if_true, margin] at enough ⊢
      rw [List.length_append] at enough
      apply ReadsSingle.margin (by omega)
      exact .word noSpacing (by omega) (by rw [List.length_append]; omega) onward

/-- A text in single quotes is read from any place in it on. -/
theorem readsOn_of_singleRest
    (single : SingleRest chars)
    (indented : 0 < indent)
    (closes : rest.head? ≠ some '\x27') :
    ReadsOn indent rest chars := by
  induction chars with
  | nil => exact readsOn_nil indented closes
  | cons c chars inductionHypothesis =>
      have later := inductionHypothesis single.tail
      by_cases breaks : isBreak c = true
      · exact readsOn_break single breaks later
      · by_cases isSpace : c = ' '
        · subst isSpace
          exact readsOn_space single later
        · have notBlank : isBlank c ≠ true := fun blank =>
            isSpace (eq_space_of_isBlank (single.printed c (by simp)) blank)
          exact readsOn_word indented breaks (by simp [isSpacing, notBlank, breaks]) later

end ReadsOn

/-- A text in single quotes is read. If it has no breaks, that is in one line. -/
theorem readQuoted_singleQuoted
    {chars : List Char}
    (allowed : allowsSingleQuoted chars = true)
    (noNewline : '\n' ∉ chars)
    {indent : Nat}
    (indented : 0 < indent)
    {rest : List Char}
    (closes : rest.head? ≠ some '\x27')
    (index line column : Nat) :
    ∃ column', readQuoted .single ⟨singleQuoted indent chars ++ rest, index, line, column⟩ =
      some (chars, ⟨rest, index + octetCount (singleQuoted indent chars),
        line + chars.countP isBreak, column'⟩) ∧
      (chars.countP isBreak = 0 → column < column') := by
  unfold allowsSingleQuoted at allowed
  simp only [Bool.not_eq_true', Bool.or_eq_false_iff] at allowed
  obtain ⟨⟨noIndent, noTrail⟩, printed⟩ := allowed
  have single : SingleRest chars := by
    refine ⟨by simpa using printed, ?_, noIndent, noTrail⟩
    rintro c isChar rfl
    exact noNewline isChar
  have reads : ReadsSingle chars (singleQuotedFrom indent false chars) rest
      (singleQuoted indent chars ++ rest).length .none (index + 1) line (column + 1) := by
    refine readsOn_of_singleRest single indented closes
      (resumesAt_inside (Nat.succ_pos column) chars) ?_
    simp [singleQuoted]
    omega
  obtain ⟨column', read, further⟩ := reads
  refine ⟨column', ?_, fun none => by have := further none; omega⟩
  have size : octetCount (singleQuoted indent chars) =
      1 + octetCount (singleQuotedFrom indent false chars) :=
    octetCount_cons _ _
  have start : (⟨singleQuoted indent chars ++ rest, index, line, column⟩ : Cursor).next =
      ⟨singleQuotedFrom indent false chars ++ rest, index + 1, line, column + 1⟩ :=
    Cursor.next_cons _ _ _ _ _
  rw [readQuoted, start, read, size, Nat.add_assoc index]
  rfl

end RunManifest.Yaml
