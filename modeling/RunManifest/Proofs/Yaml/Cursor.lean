import RunManifest.Yaml.Cursor
import RunManifest.Yaml.Printer

/-!
Contract: places in written YAML texts.

Owns:
- the laws of printable characters, of which written texts consist: their breaks need no
  normalization, and tabs and byte order marks are not among them;
- `Cursor.next_cons`, `Cursor.nextLine_cons` and `Cursor.advance_append`, the moves of a cursor over
  characters that are there;
- `octetCount` of characters that are put together;
- `Begins`, the texts at whose front something starts.
-/

set_option autoImplicit false

namespace RunManifest.Yaml

/-! ## Printable characters -/

theorem ne_of_isPrintable
    {c d : Char}
    (isPrinted : isPrintable c = true)
    (isNot : isPrintable d = false) :
    c ≠ d := by
  rintro rfl
  rw [isPrinted] at isNot
  cases isNot

/-- A blank in a written text is a space. -/
theorem eq_space_of_isBlank
    {c : Char}
    (isPrinted : isPrintable c = true)
    (blank : isBlank c = true) :
    c = ' ' := by
  simp only [isBlank, Bool.or_eq_true, beq_iff_eq] at blank
  rcases blank with isSpace | isTab
  · exact isSpace
  · exact absurd isTab (ne_of_isPrintable isPrinted (by decide))

theorem isAllowed_of_isPrintable {c : Char} (isPrinted : isPrintable c = true) :
    isAllowed c = true := by
  simp only [isPrintable, Bool.or_eq_true, Bool.and_eq_true, beq_iff_eq, decide_eq_true_eq]
    at isPrinted
  simp only [isAllowed, Bool.or_eq_true, Bool.and_eq_true, beq_iff_eq, decide_eq_true_eq]
  rcases isPrinted with (((isBreak | ascii) | lower) | ⟨upper, -⟩) | beyond
  · simp [isBreak]
  · simp [ascii]
  · simp [lower]
  · simp [upper]
  · simp [beyond]

/-- The breaks of a written text are as they should be. -/
theorem normalBreaks_of_isPrintable
    {text : List Char}
    (arePrinted : ∀ c ∈ text, isPrintable c = true) :
    normalBreaks text = text := by
  fun_induction normalBreaks text with
  | case1 => rfl
  | case2 rest inductionHypothesis =>
      exact absurd (arePrinted '\r' (by simp)) (by decide)
  | case3 c rest _ inductionHypothesis =>
      have isPrinted := arePrinted c (by simp)
      have notReturn : c ≠ '\r' := ne_of_isPrintable isPrinted (by decide)
      have notNext : c ≠ nextLine := ne_of_isPrintable isPrinted (by decide)
      rw [if_neg (by simp [notReturn, notNext]),
        inductionHypothesis fun other isChar => arePrinted other (by simp [isChar])]

/-! ## Octets -/

private theorem foldl_octetCount (chars : List Char) (start : Nat) :
    chars.foldl (fun count c => count + c.utf8Size) start = start + octetCount chars := by
  induction chars generalizing start with
  | nil => rfl
  | cons c rest inductionHypothesis =>
      have fromZero : octetCount (c :: rest) = 0 + c.utf8Size + octetCount rest :=
        inductionHypothesis (0 + c.utf8Size)
      rw [List.foldl_cons, inductionHypothesis, fromZero]
      omega

theorem octetCount_cons (c : Char) (rest : List Char) :
    octetCount (c :: rest) = c.utf8Size + octetCount rest := by
  rw [octetCount, List.foldl_cons, foldl_octetCount]
  omega

theorem octetCount_append (left right : List Char) :
    octetCount (left ++ right) = octetCount left + octetCount right := by
  rw [octetCount, List.foldl_append, foldl_octetCount]
  rfl

/-! ## Moves -/

namespace Cursor

theorem next_cons (c : Char) (rest : List Char) (index line column : Nat) :
    (⟨c :: rest, index, line, column⟩ : Cursor).next =
      ⟨rest, index + c.utf8Size, line, column + 1⟩ := by
  simp [next, advance, octetCount]

theorem nextLine_cons (c : Char) (rest : List Char) (index line column : Nat) :
    (⟨c :: rest, index, line, column⟩ : Cursor).nextLine =
      ⟨rest, index + c.utf8Size, line + 1, 0⟩ := by
  simp [nextLine, next_cons]

theorem advance_append (chars rest : List Char) (index line column : Nat) :
    (⟨chars ++ rest, index, line, column⟩ : Cursor).advance chars.length =
      ⟨rest, index + octetCount chars, line, column + chars.length⟩ := by
  simp [advance]

end Cursor

theorem isAtDocumentMark_of_pos
    {rest : List Char}
    {index line column : Nat}
    (positive : 0 < column) :
    (⟨rest, index, line, column⟩ : Cursor).isAtDocumentMark = false := by
  have notFirst : (column == 0) = false := by
    rw [beq_eq_false_iff_ne]
    omega
  unfold Cursor.isAtDocumentMark
  rw [notFirst, Bool.false_and]

/-! ## What follows -/

/-- A text at whose front something starts: no spacing, no comment, no byte order mark. -/
def Begins (text : List Char) : Prop :=
  ∀ c, text.head? = some c → isSpacing c = false ∧ c ≠ '#' ∧ c ≠ byteOrderMark

theorem begins_nil : Begins [] := by
  intro c isHead
  cases isHead

theorem begins_cons {c : Char} {rest : List Char} :
    Begins (c :: rest) ↔ isSpacing c = false ∧ c ≠ '#' ∧ c ≠ byteOrderMark := by
  simp [Begins]

end RunManifest.Yaml
