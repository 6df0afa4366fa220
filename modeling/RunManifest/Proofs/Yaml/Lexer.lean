import RunManifest.Proofs.Yaml.Literal
import RunManifest.Yaml.Token

/-!
Contract: how the lexer gets from token to token in written YAML texts.

Owns:
- `Reaches`, that the tokens from one state on are those from another state on;
- `ready`, the state at a token at the start of a line, and `Reaches.settle` and `Reaches.close`,
  which say that lines end and blocks are closed before it;
- `Enters`, the start of a block at a column;
- the tokens of scalars, of marks and of empty flow collections.
-/

set_option autoImplicit false

namespace RunManifest.Yaml.Lexer

/-! ## Runs -/

/-- The tokens from the first state on are those from the last state on. -/
def Reaches (first last : Lexer) : Prop :=
  ∀ fuel, first.cursor.rest.length < fuel →
    ∃ left, last.cursor.rest.length < left ∧ run fuel first = run left last

theorem Reaches.trans {first middle last : Lexer} (toMiddle : Reaches first middle)
    (toLast : Reaches middle last) : Reaches first last := by
  intro fuel enough
  obtain ⟨left, enoughLeft, same⟩ := toMiddle fuel enough
  obtain ⟨rest, enoughRest, sameToo⟩ := toLast left enoughLeft
  exact ⟨rest, enoughRest, same.trans sameToo⟩

private theorem Reaches.of_toToken
    {first last : Lexer}
    (same : first.toToken = last.toToken)
    (fewer : last.cursor.rest.length ≤ first.cursor.rest.length) :
    Reaches first last := by
  intro fuel enough
  refine ⟨fuel, by omega, ?_⟩
  cases fuel with
  | zero => omega
  | succ fuel => rw [run, run, same]

private theorem Reaches.of_token
    {first here last : Lexer}
    {c : Char}
    {rest : List Char}
    (found : first.toToken = some here)
    (isRest : here.cursor.rest = c :: rest)
    (read : here.token c rest = some last)
    (fewer : last.cursor.rest.length < first.cursor.rest.length) :
    Reaches first last := by
  intro fuel enough
  cases fuel with
  | zero => omega
  | succ fuel =>
      refine ⟨fuel, by omega, ?_⟩
      rw [run, found, Option.bind_eq_bind, Option.bind_some, isRest]
      dsimp only
      rw [read]
      rfl

/-! ## Spacing -/

section Spacing

variable {text : List Char} {keyAllowed : Bool} {fuel width index line column : Nat}

theorem skipSpacing_begins {inFlow : Bool} (begins : Begins text) :
    skipSpacing inFlow fuel keyAllowed ⟨text, index, line, column⟩ =
      (keyAllowed, ⟨text, index, line, column⟩) := by
  cases fuel with
  | zero => rfl
  | succ fuel =>
      cases text with
      | nil => rfl
      | cons c rest =>
          obtain ⟨noSpacing, notHash, notMark⟩ := begins_cons.mp begins
          have notSpace : c ≠ ' ' := by
            rintro rfl
            cases noSpacing
          have notTab : c ≠ '\t' := by
            rintro rfl
            cases noSpacing
          obtain ⟨-, notBreak⟩ := Bool.or_eq_false_iff.mp noSpacing
          rw [skipSpacing]
          dsimp only
          rw [if_neg (by simp [notBreak]), if_neg (by simp [notSpace, notTab, notMark]),
            if_neg notHash]

theorem skipSpacing_blanks (begins : Begins text) (enough : width < fuel) :
    skipSpacing false fuel keyAllowed ⟨blanks width ++ text, index, line, column⟩ =
      (keyAllowed, ⟨text, index + width, line, column + width⟩) := by
  induction width generalizing fuel index column with
  | zero => exact skipSpacing_begins begins
  | succ width inductionHypothesis =>
      obtain ⟨fuel, rfl⟩ : ∃ smaller, fuel = smaller + 1 := ⟨fuel - 1, by omega⟩
      have fewer : width < fuel := by omega
      show skipSpacing false (fuel + 1) _ ⟨' ' :: (blanks width ++ text), index, line, column⟩ = _
      rw [skipSpacing]
      dsimp only
      rw [if_neg (by decide), if_pos (.inl rfl), Cursor.next_cons, inductionHypothesis fewer,
        Nat.add_assoc index, Nat.add_assoc column, Nat.add_comm width]
      rfl

theorem skipSpacing_line (begins : Begins text) (enough : width < fuel) :
    skipSpacing false (fuel + 1) keyAllowed ⟨'\n' :: (blanks width ++ text), index, line, column⟩ =
      (true, ⟨text, index + 1 + width, line + 1, width⟩) := by
  rw [skipSpacing]
  dsimp only
  rw [if_pos (by decide), Cursor.nextLine_cons, skipSpacing_blanks begins enough, Bool.not_false,
    Bool.or_true, Nat.zero_add]
  rfl

end Spacing

/-! ## Between tokens -/

section States

variable {cursor next : Cursor} {tokens : List Token} {indent outer : Int} {around : List Int}
variable {keyAllowed allowedNext : Bool} {key keyNext : Option PossibleKey} {column : Int}

theorem leaveBlocks_of_le (within : indent ≤ column) :
    leaveBlocks column ⟨cursor, tokens, indent, around, keyAllowed, key, []⟩ =
      ⟨cursor, tokens, indent, around, keyAllowed, key, []⟩ := by
  have noEnds : closeBlocks column indent around = (0, indent, around) := by
    cases around with
    | nil => rfl
    | cons outer around => rw [closeBlocks, if_neg (by omega)]
  rw [leaveBlocks, if_neg (by simp [inFlow]), noEnds]
  rfl

theorem leaveBlocks_of_lt (outside : column < indent) :
    leaveBlocks column ⟨cursor, tokens, indent, outer :: around, keyAllowed, key, []⟩ =
      leaveBlocks column ⟨cursor, .blockEnd :: tokens, outer, around, keyAllowed, key, []⟩ := by
  rw [leaveBlocks, leaveBlocks, if_neg (by simp [inFlow]), if_neg (by simp [inFlow])]
  dsimp only
  rw [closeBlocks, if_pos outside]
  simp [List.replicate_succ', List.append_assoc]

theorem toToken_eq
    (skips : skipSpacing false (cursor.rest.length + 1) keyAllowed cursor = (allowedNext, next))
    (fresh : freshKey next key = some keyNext) :
    toToken ⟨cursor, tokens, indent, around, keyAllowed, key, []⟩ =
      some (leaveBlocks next.column
        ⟨next, tokens, indent, around, allowedNext, keyNext, []⟩) := by
  have notFlow : inFlow ⟨cursor, tokens, indent, around, keyAllowed, key, []⟩ = false := rfl
  rw [toToken, notFlow, skips]
  simp [dropStaleKeys, fresh]

/-- The token after some spacing, in a block. -/
theorem Reaches.of_spacing
    {c : Char}
    {rest : List Char}
    {index line column : Nat}
    {last : Lexer}
    (skips : skipSpacing false (cursor.rest.length + 1) keyAllowed cursor =
      (allowedNext, ⟨c :: rest, index, line, column⟩))
    (fresh : freshKey ⟨c :: rest, index, line, column⟩ key = some keyNext)
    (within : indent ≤ column)
    (read : token ⟨⟨c :: rest, index, line, column⟩, tokens, indent, around, allowedNext, keyNext,
      []⟩ c rest = some last)
    (fewer : last.cursor.rest.length < cursor.rest.length) :
    Reaches ⟨cursor, tokens, indent, around, keyAllowed, key, []⟩ last := by
  have found : toToken ⟨cursor, tokens, indent, around, keyAllowed, key, []⟩ = _ :=
    toToken_eq skips fresh
  rw [leaveBlocks_of_le within] at found
  exact .of_token found rfl read fewer

/-- The token after a space. -/
theorem Reaches.of_space
    {c : Char}
    {rest : List Char}
    {index line column : Nat}
    {last : Lexer}
    (begins : Begins (c :: rest))
    (within : indent ≤ column)
    (read : token ⟨⟨c :: rest, index + 1, line, column + 1⟩, tokens, indent, around, keyAllowed,
      none, []⟩ c rest = some last)
    (fewer : last.cursor.rest.length ≤ (c :: rest).length) :
    Reaches ⟨⟨' ' :: c :: rest, index, line, column⟩, tokens, indent, around, keyAllowed, none, []⟩
      last := by
  have skips : skipSpacing false ((' ' :: c :: rest).length + 1) keyAllowed
      ⟨blanks 1 ++ c :: rest, index, line, column⟩ =
        (keyAllowed, ⟨c :: rest, index + 1, line, column + 1⟩) :=
    skipSpacing_blanks begins (by simp)
  exact .of_spacing skips rfl (by omega) read (Nat.lt_succ_of_le fewer)

/-- The token at the start of the next line. -/
theorem Reaches.of_line
    {c : Char}
    {rest : List Char}
    {index line column width : Nat}
    {last : Lexer}
    (begins : Begins (c :: rest))
    (within : indent ≤ width)
    (read : token ⟨⟨c :: rest, index + 1 + width, line + 1, width⟩, tokens, indent, around, true,
      none, []⟩ c rest = some last)
    (fewer : last.cursor.rest.length ≤ (c :: rest).length) :
    Reaches ⟨⟨'\n' :: (blanks width ++ c :: rest), index, line, column⟩, tokens, indent, around,
      keyAllowed, none, []⟩ last := by
  have skips : skipSpacing false (('\n' :: (blanks width ++ c :: rest)).length + 1) keyAllowed
      ⟨'\n' :: (blanks width ++ c :: rest), index, line, column⟩ =
        (true, ⟨c :: rest, index + 1 + width, line + 1, width⟩) :=
    skipSpacing_line begins (by simp [blanks])
  refine .of_spacing skips rfl within read ?_
  rw [List.length_cons, List.length_append]
  omega

/-- The token right here. -/
theorem Reaches.of_here
    {c : Char}
    {rest : List Char}
    {index line column : Nat}
    {last : Lexer}
    (begins : Begins (c :: rest))
    (fresh : freshKey ⟨c :: rest, index, line, column⟩ key = some key)
    (within : indent ≤ column)
    (read : token ⟨⟨c :: rest, index, line, column⟩, tokens, indent, around, keyAllowed, key, []⟩ c
      rest = some last)
    (fewer : last.cursor.rest.length < (c :: rest).length) :
    Reaches ⟨⟨c :: rest, index, line, column⟩, tokens, indent, around, keyAllowed, key, []⟩ last :=
  .of_spacing (skipSpacing_begins begins) fresh within read fewer

/-- The state at a token at the start of a line. -/
abbrev ready (cursor : Cursor) (tokens : List Token) (indent : Int) (around : List Int) : Lexer :=
  ⟨cursor, tokens, indent, around, true, none, []⟩

/-- A line ends, and with it the chance that something in it is a key. -/
theorem Reaches.settle
    {tail : List Char}
    {index line width : Nat}
    (begins : Begins tail)
    (skips : skipSpacing false (cursor.rest.length + 1) keyAllowed cursor =
      (true, ⟨tail, index, line, width⟩))
    (fresh : freshKey ⟨tail, index, line, width⟩ key = some none)
    (fewer : tail.length ≤ cursor.rest.length) :
    Reaches ⟨cursor, tokens, indent, around, keyAllowed, key, []⟩
      (ready ⟨tail, index, line, width⟩ tokens indent around) := by
  apply Reaches.of_toToken
  · rw [toToken_eq skips fresh, toToken_eq (skipSpacing_begins begins) rfl]
  · exact fewer

/-- A block ends where a line is indented less. -/
theorem Reaches.close
    {tail : List Char}
    {index line width : Nat}
    (begins : Begins tail)
    (outside : (width : Int) < indent) :
    Reaches (ready ⟨tail, index, line, width⟩ tokens indent (outer :: around))
      (ready ⟨tail, index, line, width⟩ (.blockEnd :: tokens) outer around) := by
  apply Reaches.of_toToken
  · rw [toToken_eq (skipSpacing_begins begins) rfl, toToken_eq (skipSpacing_begins begins) rfl,
      leaveBlocks_of_lt outside]
  · exact Nat.le_refl _

/-! ## Possible keys -/

/-- The key that may have started at a place. -/
def savedKey (cursor : Cursor) (tokens : List Token) (indent : Int) (keyAllowed : Bool) :
    Option PossibleKey :=
  if keyAllowed then
    some
      { position := tokens.length
        index := cursor.index
        line := cursor.line
        column := cursor.column
        required := indent == cursor.column }
  else none

private theorem saveKey_eq :
    saveKey ⟨cursor, tokens, indent, around, keyAllowed, none, []⟩ =
      some ⟨cursor, tokens, indent, around, keyAllowed, savedKey cursor tokens indent keyAllowed,
        []⟩ := by
  cases keyAllowed with
  | true => rfl
  | false => rfl

/-- What started in an earlier line is no key. -/
theorem freshKey_of_line
    (later : cursor.line < next.line)
    (notRequired : indent ≠ cursor.column) :
    freshKey next (savedKey cursor tokens indent keyAllowed) = some none := by
  cases keyAllowed with
  | false => rfl
  | true => simp [savedKey, freshKey, isStale, later, notRequired]

/-- What started shortly before in the same line may still be a key. -/
theorem freshKey_of_near
    (sameLine : next.line = cursor.line)
    (near : next.index ≤ cursor.index + keyReach) :
    freshKey next (savedKey cursor tokens indent keyAllowed) =
      some (savedKey cursor tokens indent keyAllowed) := by
  have notLater : ¬ cursor.line < next.line := by omega
  have notFar : ¬ cursor.index + keyReach < next.index := by omega
  cases keyAllowed with
  | false => rfl
  | true => simp [savedKey, freshKey, isStale, notLater, notFar]

/-! ## Blocks -/

/-- The columns around a block and the tokens before its content: a block starts at a column that is
right of the current block, and goes on at the column of the current block. -/
inductive Enters (start : Token) (column : Nat) (tokens : List Token) :
    Int → List Int → List Int → List Token → Prop where
  | opens {indent : Int} (further : indent < column) (around : List Int) :
      Enters start column tokens indent around (indent :: around) (start :: tokens)
  | stays (around : List Int) : Enters start column tokens column around around tokens

private theorem blockMark_eq
    {start : Token}
    {rest : List Char}
    {index line column : Nat}
    {aroundInside : List Int}
    {tokensInside : List Token}
    (enters : Enters start column tokens indent around aroundInside tokensInside) :
    blockMark start (ready ⟨rest, index, line, column⟩ tokens indent around) =
      some (ready ⟨rest, index, line, column⟩ tokensInside column aroundInside) := by
  cases enters with
  | opens further around => simp [blockMark, enterBlock, inFlow, further, insertAt]
  | stays around => simp [blockMark, enterBlock, inFlow]

/-! ## Marks -/

variable {c : Char} {rest : List Char} {index line width : Nat}

private theorem isAtDocumentMark_of_head (notHyphen : c ≠ '-') (notDot : c ≠ '.') :
    (⟨c :: rest, index, line, width⟩ : Cursor).isAtDocumentMark = false := by
  simp [Cursor.isAtDocumentMark, List.isPrefixOf, notHyphen.symm, notDot.symm]

private theorem isAtDocumentMark_hyphen (ends : endsWord rest = true) :
    (⟨'-' :: rest, index, line, width⟩ : Cursor).isAtDocumentMark = false := by
  cases rest with
  | nil => simp [Cursor.isAtDocumentMark, List.isPrefixOf]
  | cons d rest =>
      have notHyphen : d ≠ '-' := by
        rintro rfl
        cases ends
      simp [Cursor.isAtDocumentMark, List.isPrefixOf, notHyphen.symm]

private theorem mark_one
    {mark : Token}
    {outerKeys : List (Option PossibleKey)}
    (size : c.utf8Size = 1) :
    Lexer.mark mark 1 ⟨⟨c :: rest, index, line, width⟩, tokens, indent, around, keyAllowed, key,
        outerKeys⟩ =
      ⟨⟨rest, index + 1, line, width + 1⟩, mark :: tokens, indent, around, keyAllowed, key,
        outerKeys⟩ := by
  have advanced : (⟨c :: rest, index, line, width⟩ : Cursor).advance 1 = _ :=
    Cursor.next_cons c rest index line width
  rw [Lexer.mark, advanced, size]
  rfl

/-- The hyphen before an item. -/
theorem token_blockEntry
    {aroundInside : List Int}
    {tokensInside : List Token}
    (ends : endsWord rest = true)
    (enters : Enters .blockSequenceStart width tokens indent around aroundInside tokensInside) :
    token (ready ⟨'-' :: rest, index, line, width⟩ tokens indent around) '-' rest =
      some (ready ⟨rest, index + 1, line, width + 1⟩ (.blockEntry :: tokensInside) width
        aroundInside) := by
  have isEntry : token (ready ⟨'-' :: rest, index, line, width⟩ tokens indent around) '-' rest =
      blockEntry (ready ⟨'-' :: rest, index, line, width⟩ tokens indent around) := by
    simp [token, isAtDocumentMark_hyphen ends, ends]
  rw [isEntry, blockEntry, blockMark_eq enters]
  exact congrArg some (mark_one rfl)

/-- The question mark before a key. -/
theorem token_explicitKey
    {aroundInside : List Int}
    {tokensInside : List Token}
    (ends : endsWord rest = true)
    (enters : Enters .blockMappingStart width tokens indent around aroundInside tokensInside) :
    token (ready ⟨'?' :: rest, index, line, width⟩ tokens indent around) '?' rest =
      some (ready ⟨rest, index + 1, line, width + 1⟩ (.key :: tokensInside) width
        aroundInside) := by
  have notMark : (⟨'?' :: rest, index, line, width⟩ : Cursor).isAtDocumentMark = false :=
    isAtDocumentMark_of_head (by decide) (by decide)
  have isKey : token (ready ⟨'?' :: rest, index, line, width⟩ tokens indent around) '?' rest =
      explicitKey (ready ⟨'?' :: rest, index, line, width⟩ tokens indent around) := by
    simp [token, notMark, ends]
  rw [isKey, explicitKey, blockMark_eq enters]
  exact congrArg some (mark_one rfl)

/-- The colon before the value of a key after a question mark. -/
theorem token_explicitValue (ends : endsWord rest = true) :
    token (ready ⟨':' :: rest, index, line, width⟩ tokens width around) ':' rest =
      some (ready ⟨rest, index + 1, line, width + 1⟩ (.value :: tokens) width around) := by
  have notMark : (⟨':' :: rest, index, line, width⟩ : Cursor).isAtDocumentMark = false :=
    isAtDocumentMark_of_head (by decide) (by decide)
  have isValue : token (ready ⟨':' :: rest, index, line, width⟩ tokens width around) ':' rest =
      valueMark (ready ⟨':' :: rest, index, line, width⟩ tokens width around) := by
    simp [token, notMark, ends]
  rw [isValue, valueMark]
  dsimp only
  rw [blockMark_eq (.stays around)]
  exact congrArg some (mark_one rfl)

/-- The mark of a key, and perhaps the start of a mapping, are put before the key. -/
theorem insertKey_eq
    {scalar : Token}
    {column : Nat}
    {aroundInside : List Int}
    {tokensInside : List Token}
    (enters : Enters .blockMappingStart column tokens indent around aroundInside tokensInside) :
    enterBlock column tokens.length .blockMappingStart
        (insertAt tokens.length .key
          ⟨cursor, scalar :: tokens, indent, around, keyAllowed, key, []⟩) =
      ⟨cursor, scalar :: .key :: tokensInside, column, aroundInside, keyAllowed, key, []⟩ := by
  have one : (scalar :: tokens).length - tokens.length = 1 := by
    rw [List.length_cons]
    omega
  have two : (scalar :: .key :: tokens).length - tokens.length = 2 := by
    rw [List.length_cons, List.length_cons]
    omega
  have inserted : insertAt tokens.length .key
      ⟨cursor, scalar :: tokens, indent, around, keyAllowed, key, []⟩ =
        ⟨cursor, scalar :: .key :: tokens, indent, around, keyAllowed, key, []⟩ := by
    rw [insertAt]
    dsimp only
    rw [one]
    rfl
  rw [inserted, enterBlock, if_neg (by simp [inFlow])]
  cases enters with
  | opens further around =>
      rw [if_pos further, insertAt]
      dsimp only
      rw [two]
      rfl
  | stays around => rw [if_neg (Int.lt_irrefl _)]

/-- The colon after a key. -/
theorem token_simpleValue
    {start : Cursor}
    {scalar : Token}
    {aroundInside : List Int}
    {tokensInside : List Token}
    (ends : endsWord rest = true)
    (enters : Enters .blockMappingStart start.column tokens indent around aroundInside
      tokensInside) :
    token ⟨⟨':' :: rest, index, line, width⟩, scalar :: tokens, indent, around, false,
        savedKey start tokens indent true, []⟩ ':' rest =
      some ⟨⟨rest, index + 1, line, width + 1⟩, .value :: scalar :: .key :: tokensInside,
        start.column, aroundInside, false, none, []⟩ := by
  have notMark : (⟨':' :: rest, index, line, width⟩ : Cursor).isAtDocumentMark = false :=
    isAtDocumentMark_of_head (by decide) (by decide)
  have isValue : token ⟨⟨':' :: rest, index, line, width⟩, scalar :: tokens, indent, around, false,
        savedKey start tokens indent true, []⟩ ':' rest =
      valueMark ⟨⟨':' :: rest, index, line, width⟩, scalar :: tokens, indent, around, false,
        savedKey start tokens indent true, []⟩ := by
    simp [token, notMark, ends]
  rw [isValue]
  have inserted : enterBlock start.column tokens.length .blockMappingStart
      (insertAt tokens.length .key ⟨⟨':' :: rest, index, line, width⟩, scalar :: tokens, indent,
        around, false, savedKey start tokens indent true, []⟩) = _ :=
    insertKey_eq enters
  show some (Lexer.mark .value 1 { enterBlock start.column tokens.length .blockMappingStart _ with
    possibleKey := none, keyAllowed := false }) = _
  rw [inserted, mark_one rfl]

/-! ## Scalars -/

/-- A text that can be written plain is read as a plain scalar. -/
theorem token_plain
    {text : String}
    {chars : List Char}
    {ended : Bool}
    (isText : text.toList = c :: chars)
    (start : PlainStart c chars)
    (notMark : (⟨c :: chars ++ rest, index, line, width⟩ : Cursor).isAtDocumentMark = false)
    (read : readPlain false (indent + 1) ⟨c :: chars ++ rest, index, line, width⟩ =
      some ⟨c :: chars, ended, next⟩) :
    token ⟨⟨c :: chars ++ rest, index, line, width⟩, tokens, indent, around, keyAllowed, none, []⟩ c
        (chars ++ rest) =
      some ⟨next, .scalar .plain text :: tokens, indent, around, ended,
        savedKey ⟨c :: chars ++ rest, index, line, width⟩ tokens indent keyAllowed, []⟩ := by
  have isPlain : token ⟨⟨c :: chars ++ rest, index, line, width⟩, tokens, indent, around, keyAllowed,
      none, []⟩ c (chars ++ rest) =
        plainScalar ⟨⟨c :: chars ++ rest, index, line, width⟩, tokens, indent, around, keyAllowed,
          none, []⟩ := by
    have starts := start.startsPlain rest
    have notReserved := start.noReserved
    have noEnd := start.not_endsWord rest
    simp only [reservedStarts, List.contains_cons, List.contains_nil, Bool.or_false,
      Bool.or_eq_false_iff, beq_eq_false_iff_ne] at notReserved
    simp only [List.cons_append] at notMark
    have notLoose : ∀ d ∈ looseStarts, ¬ (c = d ∧ endsWord (chars ++ rest) = true) := by
      rintro d isLoose ⟨rfl, ends⟩
      rw [noEnd (List.contains_iff_mem.mpr isLoose)] at ends
      cases ends
    simp only [token, inFlow, notMark, notReserved, starts, List.cons_append, and_false, if_false,
      List.isEmpty_nil, Bool.not_true, Bool.false_eq_true, false_or, false_and, if_true]
    rw [if_neg (notLoose '-' (by decide)), if_neg (notLoose '?' (by decide)),
      if_neg (notLoose ':' (by decide))]
  rw [isPlain, plainScalar, saveKey_eq]
  show (readPlain false (indent + 1) _ >>= _) = _
  rw [read]
  show some (emit (.scalar .plain (String.ofList (c :: chars))) _) = _
  rw [← isText, String.ofList_toList]
  rfl

/-- A scalar in quotes. -/
theorem token_quoted
    {quote : Quote}
    {text : String}
    (read : readQuoted quote ⟨quote.char :: rest, index, line, width⟩ = some (text.toList, next)) :
    token ⟨⟨quote.char :: rest, index, line, width⟩, tokens, indent, around, keyAllowed, none, []⟩
        quote.char rest =
      some ⟨next, .scalar .quoted text :: tokens, indent, around, false,
        savedKey ⟨quote.char :: rest, index, line, width⟩ tokens indent keyAllowed, []⟩ := by
  have isQuoted : token ⟨⟨quote.char :: rest, index, line, width⟩, tokens, indent, around,
      keyAllowed, none, []⟩ quote.char rest =
        quotedScalar quote ⟨⟨quote.char :: rest, index, line, width⟩, tokens, indent, around,
          keyAllowed, none, []⟩ := by
    cases quote with
    | single =>
        have notMark : (⟨'\x27' :: rest, index, line, width⟩ : Cursor).isAtDocumentMark = false :=
          isAtDocumentMark_of_head (by decide) (by decide)
        simp [token, notMark, Quote.char]
    | double =>
        have notMark : (⟨'\"' :: rest, index, line, width⟩ : Cursor).isAtDocumentMark = false :=
          isAtDocumentMark_of_head (by decide) (by decide)
        simp [token, notMark, Quote.char]
  rw [isQuoted, quotedScalar, saveKey_eq]
  show (readQuoted quote _ >>= _) = _
  rw [read]
  show some (emit (.scalar .quoted (String.ofList text.toList)) _) = _
  rw [String.ofList_toList]
  rfl

/-- A literal block. -/
theorem token_literal
    {text : String}
    (read : readBlock false indent ⟨'|' :: rest, index, line, width⟩ = some (text.toList, next)) :
    token ⟨⟨'|' :: rest, index, line, width⟩, tokens, indent, around, keyAllowed, none, []⟩ '|' rest =
      some (ready next (.scalar .literal text :: tokens) indent around) := by
  have notMark : (⟨'|' :: rest, index, line, width⟩ : Cursor).isAtDocumentMark = false :=
    isAtDocumentMark_of_head (by decide) (by decide)
  have isBlock : token ⟨⟨'|' :: rest, index, line, width⟩, tokens, indent, around, keyAllowed, none,
      []⟩ '|' rest = blockScalar false ⟨⟨'|' :: rest, index, line, width⟩, tokens, indent, around,
        keyAllowed, none, []⟩ := by
    simp [token, notMark, inFlow]
  rw [isBlock, blockScalar]
  show (readBlock false indent _ >>= _) = _
  rw [read]
  show some (emit (.scalar .literal (String.ofList text.toList)) _) = _
  rw [String.ofList_toList]
  rfl

/-! ## Empty flow collections -/

/-- The brackets of flow collections, with their tokens. -/
def flowBrackets : List (Char × Char × Token × Token) :=
  [('[', ']', .flowSequenceStart, .flowSequenceEnd),
    ('\x7b', '\x7d', .flowMappingStart, .flowMappingEnd)]

private theorem token_flowStart
    {closing : Char}
    {start ending : Token}
    (isFlow : (c, closing, start, ending) ∈ flowBrackets) :
    token ⟨⟨c :: rest, index, line, width + 1⟩, tokens, indent, around, keyAllowed, none, []⟩ c rest =
      some ⟨⟨rest, index + 1, line, width + 1 + 1⟩, start :: tokens, indent, around, true, none,
        [savedKey ⟨c :: rest, index, line, width + 1⟩ tokens indent keyAllowed]⟩ := by
  have notMark : (⟨c :: rest, index, line, width + 1⟩ : Cursor).isAtDocumentMark = false :=
    isAtDocumentMark_of_pos (Nat.succ_pos _)
  have isStart : token ⟨⟨c :: rest, index, line, width + 1⟩, tokens, indent, around, keyAllowed, none,
      []⟩ c rest = flowStart start ⟨⟨c :: rest, index, line, width + 1⟩, tokens, indent, around,
        keyAllowed, none, []⟩ := by
    simp only [flowBrackets, List.mem_cons, Prod.mk.injEq, List.not_mem_nil, or_false] at isFlow
    rcases isFlow with ⟨rfl, rfl, rfl, rfl⟩ | ⟨rfl, rfl, rfl, rfl⟩ <;> simp [token, notMark]
  have size : c.utf8Size = 1 := by
    simp only [flowBrackets, List.mem_cons, Prod.mk.injEq, List.not_mem_nil, or_false] at isFlow
    rcases isFlow with ⟨rfl, -⟩ | ⟨rfl, -⟩ <;> rfl
  rw [isStart, flowStart, saveKey_eq]
  exact congrArg some (mark_one size)

private theorem token_flowEnd
    {opening : Char}
    {start ending : Token}
    (isFlow : (opening, c, start, ending) ∈ flowBrackets) :
    token ⟨⟨c :: rest, index, line, width + 1⟩, tokens, indent, around, keyAllowed, none, [key]⟩ c
        rest =
      some ⟨⟨rest, index + 1, line, width + 1 + 1⟩, ending :: tokens, indent, around, false, key,
        []⟩ := by
  have notMark : (⟨c :: rest, index, line, width + 1⟩ : Cursor).isAtDocumentMark = false :=
    isAtDocumentMark_of_pos (Nat.succ_pos _)
  have isEnd : token ⟨⟨c :: rest, index, line, width + 1⟩, tokens, indent, around, keyAllowed, none,
      [key]⟩ c rest = flowEnd ending ⟨⟨c :: rest, index, line, width + 1⟩, tokens, indent, around,
        keyAllowed, none, [key]⟩ := by
    simp only [flowBrackets, List.mem_cons, Prod.mk.injEq, List.not_mem_nil, or_false] at isFlow
    rcases isFlow with ⟨rfl, rfl, rfl, rfl⟩ | ⟨rfl, rfl, rfl, rfl⟩ <;> simp [token, notMark]
  have size : c.utf8Size = 1 := by
    simp only [flowBrackets, List.mem_cons, Prod.mk.injEq, List.not_mem_nil, or_false] at isFlow
    rcases isFlow with ⟨-, rfl, -⟩ | ⟨-, rfl, -⟩ <;> rfl
  rw [isEnd, flowEnd]
  exact congrArg some (mark_one size)

/-- In a flow collection nothing is passed over in front of a token. -/
theorem toToken_flow (begins : Begins cursor.rest) (fresh : freshKey cursor key = some key) :
    toToken ⟨cursor, tokens, indent, around, keyAllowed, none, [key]⟩ =
      some ⟨cursor, tokens, indent, around, keyAllowed, none, [key]⟩ := by
  have skips : ∀ inFlow, skipSpacing inFlow (cursor.rest.length + 1) keyAllowed cursor =
      (keyAllowed, cursor) := fun _ => skipSpacing_begins begins
  have noKey : freshKey cursor none = some none := rfl
  simp [toToken, skips, dropStaleKeys, fresh, noKey, leaveBlocks, inFlow]

/-- An empty flow collection after a space. -/
theorem Reaches.emptyFlow
    {opening closing : Char}
    {start ending : Token}
    (isFlow : (opening, closing, start, ending) ∈ flowBrackets)
    (within : indent ≤ width) :
    Reaches
      ⟨⟨' ' :: opening :: closing :: rest, index, line, width⟩, tokens, indent, around, keyAllowed,
        none, []⟩
      ⟨⟨rest, index + 1 + 1 + 1, line, width + 1 + 1 + 1⟩, ending :: start :: tokens, indent, around,
        false, savedKey ⟨opening :: closing :: rest, index + 1, line, width + 1⟩ tokens indent
          keyAllowed, []⟩ := by
  have brackets : ∀ bracket ∈ flowBrackets, ∀ text, Begins (bracket.1 :: text) ∧
      Begins (bracket.2.1 :: text) := by
    simp [flowBrackets, begins_cons]
    decide
  obtain ⟨beginsFlow, -⟩ := brackets _ isFlow (closing :: rest)
  obtain ⟨-, beginsEnd⟩ := brackets _ isFlow rest
  generalize isKey : savedKey ⟨opening :: closing :: rest, index + 1, line, width + 1⟩ tokens indent
    keyAllowed = key
  have fresh : freshKey ⟨closing :: rest, index + 1 + 1, line, width + 1 + 1⟩ key = some key := by
    rw [← isKey, freshKey_of_near]
    · rfl
    · show index + 1 + 1 ≤ index + 1 + 1024
      omega
  have opens : token ⟨⟨opening :: closing :: rest, index + 1, line, width + 1⟩, tokens, indent,
      around, keyAllowed, none, []⟩ opening (closing :: rest) = _ :=
    token_flowStart isFlow
  rw [isKey] at opens
  refine Reaches.trans (.of_space beginsFlow within opens ?_)
    (.of_token (toToken_flow beginsEnd fresh) rfl (token_flowEnd isFlow) ?_)
  · simp
  · simp

end States

end RunManifest.Yaml.Lexer
