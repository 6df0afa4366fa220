import RunManifest.Proofs.Yaml.Lexer
import Mathlib.Data.String.Basic

/-!
Contract: the tokens of written texts, as values and as keys.

Owns:
- `textToken`, the token of a text;
- `Arrives`, that the lexer gets to the start of a line;
- `arrives_plain` and `arrives_text`, a scalar at the end of a line, or over several lines;
- `reaches_simpleKey`, a key in front of its colon, which comes soon enough;
- `reaches_key`, a key of either form.
-/

set_option autoImplicit false

namespace RunManifest.Yaml

open Lexer

/-! ## Styles -/

/-- How a reader tells a style. -/
def Style.scalarStyle : Style → ScalarStyle
  | .plain => .plain
  | .singleQuoted => .quoted
  | .doubleQuoted => .quoted
  | .literal => .literal

/-- The token of a text. -/
def textToken (text : String) : Token :=
  .scalar (style text).scalarStyle text

section Styles

variable {text : String}

theorem plain_of_style (isPlain : style text = .plain) :
    readsBack text = true ∧ allowsPlain text.toList = true := by
  unfold style at isPlain
  grind

theorem singleQuoted_of_style (isSingle : style text = .singleQuoted) :
    allowsSingleQuoted text.toList = true ∧ '\n' ∉ text.toList := by
  unfold style at isSingle
  simp at isSingle
  grind

theorem literal_of_style (isLiteral : style text = .literal) :
    allowsLiteral text.toList = true ∧ '\n' ∈ text.toList := by
  unfold style at isLiteral
  simp at isLiteral
  grind

/-- A text that is written plain has a first character. -/
theorem plainStart_of_style (isPlain : style text = .plain) :
    ∃ c chars, text.toList = c :: chars ∧ PlainStart c chars := by
  obtain ⟨back, allowed⟩ := plain_of_style isPlain
  cases isText : text.toList with
  | nil =>
      have isEmpty : text = "" := String.toList_eq_nil_iff.mp isText
      rw [isEmpty] at back
      exact absurd back (by decide)
  | cons c chars =>
      rw [isText] at allowed
      exact ⟨c, chars, rfl, plainStart_of_allowsPlain allowed⟩

end Styles

/-! ## Scalars as values -/

/-- The lexer gets to a line that starts with the given text at the given column. -/
def Arrives (first : Lexer) (tail : List Char) (width : Nat) (tokens : List Token) (indent : Int)
    (around : List Int) : Prop :=
  ∃ index line, Reaches first (ready ⟨tail, index, line, width⟩ tokens indent around)

theorem Arrives.of_reaches
    {first middle : Lexer}
    {tail : List Char}
    {width : Nat}
    {tokens : List Token}
    {indent : Int}
    {around : List Int}
    (reaches : Reaches first middle)
    (arrives : Arrives middle tail width tokens indent around) :
    Arrives first tail width tokens indent around := by
  obtain ⟨index, line, later⟩ := arrives
  exact ⟨index, line, reaches.trans later⟩

theorem PlainStart.begins {c : Char} {chars : List Char} (start : PlainStart c chars)
    (rest : List Char) : Begins (c :: rest) := by
  refine begins_cons.mpr ⟨start.noSpacing, ?_, ne_of_isPrintable start.printed (by decide)⟩
  rintro rfl
  exact absurd start.noReserved (by decide)

section Values

variable {tail : List Char} {tokens : List Token} {around : List Int} {keyAllowed : Bool}
variable {indent width index line column : Nat}

/-- A scalar after which a line ends. -/
theorem arrives_scalar
    {c : Char}
    {rest : List Char}
    {next : Cursor}
    {scalar : Token}
    {ended : Bool}
    {index' line' : Nat}
    (beginsHere : Begins (c :: rest))
    (within : indent ≤ column)
    (read : token ⟨⟨c :: rest, index + 1, line, column + 1⟩, tokens, indent, around, keyAllowed, none,
      []⟩ c rest = some ⟨next, scalar :: tokens, indent, around, ended,
        savedKey ⟨c :: rest, index + 1, line, column + 1⟩ tokens indent keyAllowed, []⟩)
    (begins : Begins tail)
    (skips : skipSpacing false (next.rest.length + 1) ended next =
      (true, ⟨tail, index', line', width⟩))
    (later : line < line')
    (fewer : next.rest.length ≤ (c :: rest).length)
    (fewerLeft : tail.length ≤ next.rest.length) :
    Arrives ⟨⟨' ' :: c :: rest, index, line, column⟩, tokens, indent, around, keyAllowed, none, []⟩
      tail width (scalar :: tokens) indent around := by
  refine ⟨index', line', Reaches.trans (.of_space beginsHere (by omega) read fewer)
    (.settle begins skips (freshKey_of_line later ?_) fewerLeft)⟩
  show (indent : Int) ≠ (column + 1 : Nat)
  omega

/-- A plain scalar at the end of a line. -/
theorem arrives_plain
    {text : String}
    {c : Char}
    {chars : List Char}
    (isText : text.toList = c :: chars)
    (start : PlainStart c chars)
    (begins : Begins tail)
    (outdented : width ≤ indent)
    (within : indent ≤ column) :
    Arrives ⟨⟨' ' :: (text.toList ++ '\n' :: (blanks width ++ tail)), index, line, column⟩, tokens,
      indent, around, keyAllowed, none, []⟩ tail width (.scalar .plain text :: tokens) indent
      around := by
  have reads : ∃ after, readPlain false ((indent : Int) + 1)
      ⟨c :: chars ++ '\n' :: (blanks width ++ tail), index + 1, line, column + 1⟩ =
        some ⟨c :: chars, true, ⟨tail, after, line + 1, width⟩⟩ :=
    readPlain_line start begins (by omega) (by omega) (index + 1) line
  obtain ⟨after, read⟩ := reads
  have notMark : (⟨c :: chars ++ '\n' :: (blanks width ++ tail), index + 1, line, column + 1⟩ :
      Cursor).isAtDocumentMark = false :=
    isAtDocumentMark_of_pos (Nat.succ_pos _)
  rw [isText]
  apply arrives_scalar (start.begins _) within (token_plain isText start notMark read) begins
  · exact skipSpacing_begins begins
  · exact Nat.lt_succ_self _
  · simp
    omega
  · exact Nat.le_refl _

/-- A scalar in quotes at the end of a line. -/
theorem arrives_quoted
    {quote : Quote}
    {text : String}
    {rest : List Char}
    {index' line' column' : Nat}
    (read : readQuoted quote ⟨quote.char :: rest, index + 1, line, column + 1⟩ =
      some (text.toList, ⟨'\n' :: (blanks width ++ tail), index', line', column'⟩))
    (sameOrLater : line ≤ line')
    (fewer : width + tail.length ≤ rest.length)
    (begins : Begins tail)
    (within : indent ≤ column) :
    Arrives ⟨⟨' ' :: quote.char :: rest, index, line, column⟩, tokens, indent, around, keyAllowed,
      none, []⟩ tail width (.scalar .quoted text :: tokens) indent around := by
  have beginsHere : Begins (quote.char :: rest) := by
    cases quote <;> exact begins_cons.mpr (by decide)
  apply arrives_scalar beginsHere within (token_quoted read) begins
  · exact skipSpacing_line begins (by simp [blanks])
  · omega
  · simp [blanks]
    omega
  · simp [blanks]
    omega

/-- A literal block. -/
theorem arrives_literal
    {text : String}
    (nonempty : text.toList ≠ [])
    (printed : ∀ c ∈ text.toList, isPrintable c = true)
    (begins : Begins tail)
    (outdented : width ≤ indent)
    (within : indent ≤ column) :
    Arrives ⟨⟨' ' :: (literalHeader text.toList ++ '\n' ::
        (literalLines (indent + indentStep) true text.toList ++ (blanks width ++ tail))), index, line,
        column⟩, tokens, indent, around, keyAllowed, none, []⟩ tail width
      (.scalar .literal text :: tokens) indent around := by
  obtain ⟨index', line', read⟩ :=
    readBlock_literal nonempty printed outdented begins (index + 1) line (column + 1)
  refine ⟨index', line', Reaches.of_space (begins_cons.mpr (by decide)) (by omega)
    (token_literal read) ?_⟩
  simp [blanks]
  omega

/-- A text in the form that fits it, and then another line. -/
theorem arrives_text
    (text : String)
    (begins : Begins tail)
    (outdented : width ≤ indent)
    (within : indent ≤ column) :
    Arrives ⟨⟨' ' :: (textForm indent text ++ (blanks width ++ tail)), index, line, column⟩, tokens,
      indent, around, keyAllowed, none, []⟩ tail width (textToken text :: tokens) indent around := by
  unfold textForm textToken
  cases isStyle : style text with
  | plain =>
      obtain ⟨c, chars, isText, start⟩ := plainStart_of_style isStyle
      dsimp only [Style.scalarStyle]
      rw [List.append_assoc]
      exact arrives_plain isText start begins outdented within
  | singleQuoted =>
      obtain ⟨allowed, noNewline⟩ := singleQuoted_of_style isStyle
      have indented : 0 < indent + indentStep := Nat.succ_pos _
      have closes : ('\n' :: (blanks width ++ tail)).head? ≠ some '\x27' := by simp
      obtain ⟨column', read, -⟩ :=
        readQuoted_singleQuoted allowed noNewline indented closes (index + 1) line (column + 1)
      dsimp only [Style.scalarStyle]
      rw [List.append_assoc]
      apply arrives_quoted read (Nat.le_add_right _ _) _ begins within
      simp [blanks]
      omega
  | doubleQuoted =>
      have read := readQuoted_doubleQuoted text.toList ('\n' :: (blanks width ++ tail))
        (index + 1) line (column + 1)
      dsimp only [Style.scalarStyle]
      rw [List.append_assoc]
      apply arrives_quoted read (Nat.le_refl _) _ begins within
      simp [blanks]
      omega
  | literal =>
      obtain ⟨allowed, hasNewline⟩ := literal_of_style isStyle
      have printed : ∀ c ∈ text.toList, isPrintable c = true := by
        simp [allowsLiteral] at allowed
        exact allowed.2
      dsimp only [Style.scalarStyle]
      rw [List.append_assoc, List.cons_append]
      exact arrives_literal (List.ne_nil_of_mem hasNewline) printed begins outdented within

end Values

/-! ## Octets of keys -/

private theorem octetCount_toList (text : String) : octetCount text.toList = text.utf8ByteSize := by
  have count : ∀ chars : List Char, octetCount chars = String.utf8Len chars := by
    intro chars
    induction chars with
    | nil => rfl
    | cons c chars inductionHypothesis =>
        rw [octetCount_cons, inductionHypothesis, String.utf8Len_cons, Nat.add_comm]
  rw [count, ← String.utf8ByteSize_ofList, String.ofList_toList]

private theorem octetCount_of_single {chars : List Char} (small : ∀ c ∈ chars, c.utf8Size = 1) :
    octetCount chars = chars.length := by
  induction chars with
  | nil => rfl
  | cons c chars inductionHypothesis =>
      rw [octetCount_cons, small c (by simp), List.length_cons,
        inductionHypothesis fun d isChar => small d (by simp [isChar]), Nat.add_comm]

/-- Quotes that are written twice at most double a text. -/
theorem octetCount_singleQuotedFrom_le
    {chars : List Char}
    (noBreak : ∀ c ∈ chars, isBreak c = false)
    (indent : Nat) :
    octetCount (singleQuotedFrom indent false chars) ≤ 2 * octetCount chars + 1 := by
  induction chars with
  | nil => exact Nat.le_refl 1
  | cons c chars inductionHypothesis =>
      have notBreak := noBreak c (by simp)
      have later := inductionHypothesis fun d isChar => noBreak d (by simp [isChar])
      have written : octetCount (if c = '\x27' then ['\x27', c] else [c]) ≤ 2 * c.utf8Size := by
        split
        · rename_i isQuote
          rw [isQuote]
          decide
        · rw [octetCount_cons]
          show c.utf8Size + 0 ≤ _
          omega
      rw [singleQuotedFrom, if_neg (by simp [notBreak])]
      simp only [Bool.false_eq_true, if_false, List.nil_append]
      rw [octetCount_append, octetCount_cons]
      omega

private theorem octetCount_singleQuoted_le
    {chars : List Char}
    (noBreak : ∀ c ∈ chars, isBreak c = false)
    (indent : Nat) :
    octetCount (singleQuoted indent chars) ≤ 2 * octetCount chars + 2 := by
  have size : octetCount (singleQuoted indent chars) =
      1 + octetCount (singleQuotedFrom indent false chars) := octetCount_cons _ _
  have inner := octetCount_singleQuotedFrom_le noBreak indent
  omega

/-- Characters with large code points take more octets. -/
theorem le_utf8Size (c : Char) :
    (0x7F < c.toNat → 2 ≤ c.utf8Size) ∧ (0xFFFF < c.toNat → 4 ≤ c.utf8Size) := by
  have isCode : c.toNat = c.val.toNat := rfl
  unfold Char.utf8Size
  simp only [UInt32.le_iff_toNat_le, UInt32.toNat_ofNatLT, isCode]
  grind

private theorem octetCount_upperHexadecimal
    {width n : Nat}
    (positive : 0 < width)
    (small : n < 16 ^ width) :
    octetCount (Text.upperHexadecimal width n) = width := by
  have table : (Text.upperDigits.all fun c => c.utf8Size == 1) = true := by decide
  have single : ∀ c ∈ Text.upperDigits, c.utf8Size = 1 := by simpa using table
  rw [octetCount_of_single fun c isDigit => single c (Text.mem_upperDigits isDigit),
    Text.length_upperHexadecimal positive small]

/-- An escape takes at most four times the octets of its character. -/
theorem octetCount_doubleQuotedChar_le (c : Char) :
    octetCount (doubleQuotedChar c) ≤ 4 * c.utf8Size := by
  have positive : 1 ≤ c.utf8Size := c.utf8Size_pos
  have backslash : '\\'.utf8Size = 1 := rfl
  unfold doubleQuotedChar
  split
  · rw [octetCount_cons, backslash]
    unfold escape
    split
    · rename_i found
      obtain ⟨-, size, -⟩ := escapedChar?_of_find found
      rw [octetCount_cons, size]
      show 1 + (1 + 0) ≤ _
      omega
    · split
      · rw [octetCount_cons, octetCount_upperHexadecimal (by decide) (by omega)]
        show 1 + (1 + 2) ≤ _
        omega
      · split
        · have size := (le_utf8Size c).1 (by omega)
          rw [octetCount_cons, octetCount_upperHexadecimal (by decide) (by omega)]
          show 1 + (1 + 4) ≤ _
          omega
        · have size := (le_utf8Size c).2 (by omega)
          have isValid : c.toNat < 0xD800 ∨ 0xDFFF < c.toNat ∧ c.toNat < 0x110000 := c.valid
          rw [octetCount_cons, octetCount_upperHexadecimal (by decide) (by omega)]
          show 1 + (1 + 8) ≤ _
          omega
  · rw [octetCount_cons]
    show c.utf8Size + 0 ≤ _
    omega

private theorem octetCount_doubleQuoted_le (chars : List Char) :
    octetCount (doubleQuoted chars) ≤ 4 * octetCount chars + 2 := by
  have inner : octetCount (chars.flatMap doubleQuotedChar) ≤ 4 * octetCount chars := by
    induction chars with
    | nil => exact Nat.le_refl 0
    | cons c chars inductionHypothesis =>
        have here := octetCount_doubleQuotedChar_le c
        rw [List.flatMap_cons, octetCount_append, octetCount_cons]
        omega
  have shape : octetCount (doubleQuoted chars) =
      1 + (octetCount (chars.flatMap doubleQuotedChar) + 1) := by
    show octetCount ('\"' :: (chars.flatMap doubleQuotedChar ++ ['\"'])) = _
    rw [octetCount_cons, octetCount_append]
    rfl
  omega

/-! ## Scalars as keys -/

/-- A colon is no part of the mark of a document. -/
theorem hasDocumentMark_colon (chars rest : List Char) :
    hasDocumentMark (chars ++ ':' :: rest) = hasDocumentMark chars := by
  rcases chars with _ | ⟨first, _ | ⟨second, _ | ⟨third, chars⟩⟩⟩ <;>
    simp [hasDocumentMark, List.isPrefixOf]

private theorem PlainStart.isAtDocumentMark_eq_false
    {c : Char}
    {chars : List Char}
    (start : PlainStart c chars)
    (rest : List Char)
    (index line column : Nat) :
    (⟨c :: chars ++ ':' :: rest, index, line, column⟩ : Cursor).isAtDocumentMark = false := by
  have noMark : hasDocumentMark (c :: chars ++ ':' :: rest) = false := by
    rw [hasDocumentMark_colon, start.noMark]
  rw [hasDocumentMark] at noMark
  unfold Cursor.isAtDocumentMark
  dsimp only
  rw [noMark, Bool.false_and, Bool.and_false]

section Keys

variable {rest : List Char} {tokens tokensInside : List Token} {indent : Int}
variable {around aroundInside : List Int} {index line column : Nat}

/-- A scalar and the colon after it. -/
theorem reaches_colon
    {c : Char}
    {form : List Char}
    {scalar : Token}
    {index' column' : Nat}
    (read : token (ready ⟨c :: form, index, line, column⟩ tokens indent around) c form =
      some ⟨⟨':' :: rest, index', line, column'⟩, scalar :: tokens, indent, around, false,
        savedKey ⟨c :: form, index, line, column⟩ tokens indent true, []⟩)
    (begins : Begins (c :: form))
    (near : index' ≤ index + keyReach)
    (further : column ≤ column')
    (fewer : rest.length < form.length)
    (within : indent ≤ column)
    (ends : endsWord rest = true)
    (enters : Enters .blockMappingStart column tokens indent around aroundInside tokensInside) :
    Reaches (ready ⟨c :: form, index, line, column⟩ tokens indent around)
      ⟨⟨rest, index' + 1, line, column' + 1⟩, .value :: scalar :: .key :: tokensInside, column,
        aroundInside, false, none, []⟩ := by
  have beginsColon : Begins (':' :: rest) := begins_cons.mpr (by decide)
  have fresh : freshKey ⟨':' :: rest, index', line, column'⟩
      (savedKey ⟨c :: form, index, line, column⟩ tokens indent true) = some _ :=
    freshKey_of_near rfl near
  have value : token ⟨⟨':' :: rest, index', line, column'⟩, scalar :: tokens, indent, around, false,
      savedKey ⟨c :: form, index, line, column⟩ tokens indent true, []⟩ ':' rest = some _ :=
    token_simpleValue ends enters
  refine Reaches.trans (.of_here begins rfl within read ?_) (.of_here beginsColon fresh ?_ value ?_)
  · simp
    omega
  · omega
  · simp

/-- A plain key and the colon after it. -/
theorem reaches_plainKey
    {key : String}
    {c : Char}
    {chars : List Char}
    (isText : key.toList = c :: chars)
    (start : PlainStart c chars)
    (near : octetCount (c :: chars) ≤ keyReach)
    (within : indent ≤ column)
    (ends : endsWord rest = true)
    (enters : Enters .blockMappingStart column tokens indent around aroundInside tokensInside) :
    Reaches (ready ⟨c :: chars ++ ':' :: rest, index, line, column⟩ tokens indent around)
      ⟨⟨rest, index + octetCount (c :: chars) + 1, line, column + (c :: chars).length + 1⟩,
        .value :: .scalar .plain key :: .key :: tokensInside, column, aroundInside, false, none,
        []⟩ := by
  have read : readPlain false (indent + 1) ⟨c :: chars ++ ':' :: rest, index, line, column⟩ =
      some _ := readPlain_key start ends (by omega)
  have notMark := start.isAtDocumentMark_eq_false rest index line column
  refine reaches_colon (token_plain isText start notMark read) (start.begins _) ?_ ?_ ?_ within ends
    enters
  · omega
  · omega
  · simp
    omega

/-- A key in quotes and the colon after it. -/
theorem reaches_quotedKey
    {key : String}
    {quote : Quote}
    {form : List Char}
    {size column' : Nat}
    (read : readQuoted quote ⟨quote.char :: (form ++ ':' :: rest), index, line, column⟩ =
      some (key.toList, ⟨':' :: rest, index + size, line, column'⟩))
    (near : size ≤ keyReach)
    (further : column ≤ column')
    (within : indent ≤ column)
    (ends : endsWord rest = true)
    (enters : Enters .blockMappingStart column tokens indent around aroundInside tokensInside) :
    Reaches (ready ⟨quote.char :: (form ++ ':' :: rest), index, line, column⟩ tokens indent around)
      ⟨⟨rest, index + size + 1, line, column' + 1⟩,
        .value :: .scalar .quoted key :: .key :: tokensInside, column, aroundInside, false, none,
        []⟩ := by
  have begins : Begins (quote.char :: (form ++ ':' :: rest)) := by
    cases quote <;> exact begins_cons.mpr (by decide)
  refine reaches_colon (token_quoted read) begins ?_ further ?_ within ends enters
  · omega
  · simp
    omega

/-- A key on one line. Its colon comes soon enough, because the key is short. -/
theorem reaches_simpleKey
    {key : String}
    (isSimple : isSimpleKey key = true)
    (within : indent ≤ column)
    (ends : endsWord rest = true)
    (enters : Enters .blockMappingStart column tokens indent around aroundInside tokensInside) :
    ∃ index' column', column ≤ column' ∧
      Reaches
        (ready ⟨(textForm column key).dropLast ++ ':' :: rest, index, line, column⟩ tokens indent
          around)
        ⟨⟨rest, index', line, column'⟩, .value :: textToken key :: .key :: tokensInside, column,
          aroundInside, false, none, []⟩ := by
  unfold isSimpleKey at isSimple
  simp only [Bool.and_eq_true, Bool.not_eq_true', List.any_eq_false, decide_eq_true_eq] at isSimple
  obtain ⟨noBreak, short⟩ := isSimple
  have limit : simpleKeyLimit = 128 := rfl
  have reach : keyReach = 1024 := rfl
  rw [← octetCount_toList, limit] at short
  unfold textForm textToken
  cases isStyle : style key with
  | plain =>
      obtain ⟨c, chars, isText, start⟩ := plainStart_of_style isStyle
      dsimp only [Style.scalarStyle]
      rw [List.dropLast_concat]
      rw [isText] at short ⊢
      exact ⟨_, _, by omega, reaches_plainKey isText start (by omega) within ends enters⟩
  | singleQuoted =>
      obtain ⟨allowed, noNewline⟩ := singleQuoted_of_style isStyle
      have noBreaks : key.toList.countP isBreak = 0 := List.countP_eq_zero.mpr noBreak
      have indented : 0 < column + indentStep := Nat.succ_pos _
      have closes : (':' :: rest).head? ≠ some '\x27' := by simp
      obtain ⟨column', read, further⟩ :=
        readQuoted_singleQuoted allowed noNewline indented closes index line column
      have bound := octetCount_singleQuoted_le
        (fun c isChar => Bool.eq_false_iff.mpr (noBreak c isChar)) (column + indentStep)
      have moved := further noBreaks
      rw [noBreaks, Nat.add_zero] at read
      dsimp only [Style.scalarStyle]
      rw [List.dropLast_concat]
      exact ⟨_, _, by omega, reaches_quotedKey read (by omega) (by omega) within ends enters⟩
  | doubleQuoted =>
      have read := readQuoted_doubleQuoted key.toList (':' :: rest) index line column
      have bound := octetCount_doubleQuoted_le key.toList
      dsimp only [Style.scalarStyle]
      rw [List.dropLast_concat]
      exact ⟨_, _, by omega, reaches_quotedKey read (by omega) (by omega) within ends enters⟩
  | literal =>
      obtain ⟨-, hasNewline⟩ := literal_of_style isStyle
      exact absurd (by decide) (noBreak '\n' hasNewline)

/-- A key after a question mark, with its colon on a line of its own. -/
theorem reaches_explicitKey
    (key : String)
    (within : indent ≤ column)
    (ends : endsWord rest = true)
    (enters : Enters .blockMappingStart column tokens indent around aroundInside tokensInside) :
    ∃ index' line', Reaches
      (ready ⟨'?' :: ' ' :: (textForm column key ++ (blanks column ++ ':' :: rest)), index, line,
        column⟩ tokens indent around)
      (ready ⟨rest, index', line', column + 1⟩ (.value :: textToken key :: .key :: tokensInside)
        column aroundInside) := by
  have beginsColon : Begins (':' :: rest) := begins_cons.mpr (by decide)
  obtain ⟨index', line', toColon⟩ : Arrives
      (ready ⟨' ' :: (textForm column key ++ (blanks column ++ ':' :: rest)), index + 1, line,
        column + 1⟩ (.key :: tokensInside) column aroundInside)
      (':' :: rest) column (textToken key :: .key :: tokensInside) column aroundInside :=
    arrives_text key beginsColon (Nat.le_refl _) (Nat.le_succ _)
  refine ⟨index' + 1, line', Reaches.trans (.of_here (begins_cons.mpr (by decide)) rfl within
    (token_explicitKey rfl enters) (Nat.lt_succ_self _)) (.trans toColon ?_)⟩
  exact .of_here beginsColon rfl (Int.le_refl _) (token_explicitValue ends) (Nat.lt_succ_self _)

/-- A key in the form that fits it. -/
theorem reaches_key
    (key : String)
    (within : indent ≤ column)
    (ends : endsWord rest = true)
    (enters : Enters .blockMappingStart column tokens indent around aroundInside tokensInside) :
    ∃ index' line' column', column ≤ column' ∧
      ((keyForm column key).2 = true → column' = column + 1) ∧
      Reaches (ready ⟨(keyForm column key).1 ++ rest, index, line, column⟩ tokens indent around)
        ⟨⟨rest, index', line', column'⟩, .value :: textToken key :: .key :: tokensInside, column,
          aroundInside, (keyForm column key).2, none, []⟩ := by
  unfold keyForm
  by_cases isSimple : isSimpleKey key = true
  · rw [if_pos isSimple, List.append_assoc]
    obtain ⟨index', column', further, reaches⟩ := reaches_simpleKey isSimple within ends enters
    exact ⟨index', line, column', further, (fun isBeside => by cases isBeside), reaches⟩
  · obtain ⟨index', line', reaches⟩ := reaches_explicitKey key within ends enters
    rw [if_neg isSimple]
    simp only [List.append_assoc, List.cons_append, List.nil_append]
    exact ⟨index', line', column + 1, Nat.le_succ _, fun _ => rfl, reaches⟩

end Keys

end RunManifest.Yaml
