import RunManifest.Proofs.Yaml.Printable

/-!
Contract: the tokens of written document values.

Owns:
- `Json.tokens`, the tokens of a value;
- `Emits`, that the block form of a value is taken apart into these tokens, up to the next line that
  is indented no more than what is around the value;
- `emits`, which says so of all values, and `tokens?_yaml`, which says it of whole texts.

Items and members are taken apart one by one. Each ends where a line starts with the hyphen or the
key of the next one, or with what follows the container.
-/

set_option autoImplicit false

namespace RunManifest.Json

open Yaml Lexer

mutual

/-- The tokens of a value. The flag says whether a container may start on the same line. The items
of a list below its key have no block of their own. -/
def tokens (sameLine : Bool) : Json → List Token
  | .null => [.scalar .plain "null"]
  | .flag value => [.scalar .plain (String.ofList (flagText value))]
  | .number value => [.scalar .plain (String.ofList (numberForm value))]
  | .text value => [textToken value]
  | .array [] => [.flowSequenceStart, .flowSequenceEnd]
  | .array (item :: rest) =>
      if sameLine then .blockSequenceStart :: itemTokens (item :: rest) ++ [.blockEnd]
      else itemTokens (item :: rest)
  | .object [] => [.flowMappingStart, .flowMappingEnd]
  | .object (member :: rest) => .blockMappingStart :: memberTokens (member :: rest) ++ [.blockEnd]

/-- The tokens of the items of a list. -/
def itemTokens : List Json → List Token
  | [] => []
  | item :: rest => .blockEntry :: item.tokens true ++ itemTokens rest

/-- The tokens of the members of a mapping. -/
def memberTokens : List (String × Json) → List Token
  | [] => []
  | (key, value) :: rest =>
      .key :: textToken key :: .value :: value.tokens (!isSimpleKey key) ++ memberTokens rest

end

/-- A value starts after a space or in a new line. -/
theorem endsWord_yamlAfter (value : Json) (indent : Nat) (sameLine : Bool) (rest : List Char) :
    endsWord (value.yamlAfter indent sameLine ++ rest) = true := by
  cases value with
  | null => rfl
  | flag value => rfl
  | number value => rfl
  | text value => rfl
  | array items =>
      cases items with
      | nil => rfl
      | cons item items => cases sameLine <;> rfl
  | object members =>
      cases members with
      | nil => rfl
      | cons member members => cases sameLine <;> rfl

private theorem begins_keyForm (key : String) (indent : Nat) (rest : List Char) :
    Begins ((keyForm indent key).1 ++ rest) := by
  unfold keyForm
  by_cases isSimple : isSimpleKey key = true
  · rw [if_pos isSimple]
    unfold textForm
    cases isStyle : style key with
    | plain =>
        obtain ⟨c, chars, isText, start⟩ := plainStart_of_style isStyle
        dsimp only
        rw [List.dropLast_concat, isText]
        exact start.begins _
    | singleQuoted =>
        dsimp only
        rw [List.dropLast_concat]
        exact begins_cons.mpr (by decide)
    | doubleQuoted =>
        dsimp only
        rw [List.dropLast_concat]
        exact begins_cons.mpr (by decide)
    | literal =>
        dsimp only
        rw [literalHeader, List.cons_append, List.cons_append,
          List.dropLast_cons_of_ne_nil (by simp)]
        exact begins_cons.mpr (by decide)
  · rw [if_neg isSimple]
    exact begins_cons.mpr (by decide)

private theorem keyForm_snd (key : String) (indent : Nat) :
    (keyForm indent key).2 = !isSimpleKey key := by
  unfold keyForm
  by_cases isSimple : isSimpleKey key = true
  · rw [if_pos isSimple, isSimple]
    rfl
  · rw [if_neg isSimple]
    simp [isSimple]

/-- The block form of a value is taken apart into its tokens. -/
def Emits (value : Json) : Prop :=
  ∀ (sameLine : Bool) {indent width column : Nat} {tail : List Char} (index line : Nat)
    (earlier : List Token) (around : List Int), Begins tail → width ≤ indent → indent ≤ column →
    (sameLine = true → column = indent + 1) →
    Arrives ⟨⟨value.yamlAfter indent sameLine ++ (blanks width ++ tail), index, line, column⟩,
      earlier, indent, around, sameLine, none, []⟩ tail width
      ((value.tokens sameLine).reverse ++ earlier) indent around

section Containers

variable {tail : List Char} {width column : Nat}

/-- Items that have begun. -/
theorem arrives_items
    {item : Json}
    {rest : List Json}
    (emits : ∀ each ∈ item :: rest, Emits each)
    (begins : Begins tail)
    (outdented : width ≤ column)
    (index line : Nat)
    (earlier : List Token)
    (around : List Int) :
    Arrives (ready ⟨item.yamlAfter column true ++ (yamlItems column rest ++ (blanks width ++ tail)),
      index, line, column + 1⟩ (.blockEntry :: earlier) column around) tail width
      ((itemTokens (item :: rest)).reverse ++ earlier) column around := by
  obtain ⟨emitsItem, emitsRest⟩ := List.forall_mem_cons.mp emits
  induction rest generalizing item index line earlier with
  | nil =>
      have arrives := emitsItem true index line (.blockEntry :: earlier) around begins outdented
        (Nat.le_succ column) fun _ => rfl
      simpa [yamlItems, itemTokens] using arrives
  | cons next rest inductionHypothesis =>
      obtain ⟨emitsNext, emitsLater⟩ := List.forall_mem_cons.mp emitsRest
      have ends := endsWord_yamlAfter next column true
        (yamlItems column rest ++ (blanks width ++ tail))
      have beginsNext : Begins ('-' :: (next.yamlAfter column true ++
          (yamlItems column rest ++ (blanks width ++ tail)))) := begins_cons.mpr (by decide)
      obtain ⟨index', line', toNext⟩ := emitsItem true index line (.blockEntry :: earlier) around
        beginsNext (Nat.le_refl column) (Nat.le_succ column) fun _ => rfl
      have later := inductionHypothesis emitsRest (index' + 1) line'
        ((item.tokens true).reverse ++ .blockEntry :: earlier) emitsNext emitsLater
      have arrives := Arrives.of_reaches (toNext.trans (.of_here beginsNext rfl (Int.le_refl _)
        (token_blockEntry ends (.stays around)) (Nat.lt_succ_self _))) later
      simpa [yamlItems, itemTokens] using arrives

/-- Members from the first key on. -/
theorem arrives_members
    {key : String}
    {value : Json}
    {rest : List (String × Json)}
    (emits : ∀ each ∈ (key, value) :: rest, Emits each.2)
    (begins : Begins tail)
    (outdented : width ≤ column)
    {indent : Int}
    {around aroundInside : List Int}
    {earlier earlierInside : List Token}
    (enters : Enters .blockMappingStart column earlier indent around aroundInside earlierInside)
    (within : indent ≤ column)
    (index line : Nat) :
    Arrives (ready ⟨(keyForm column key).1 ++ (value.yamlAfter column (keyForm column key).2 ++
      (yamlMembers column rest ++ (blanks width ++ tail))), index, line, column⟩ earlier indent
      around) tail width ((memberTokens ((key, value) :: rest)).reverse ++ earlierInside) column
      aroundInside := by
  obtain ⟨emitsValue, emitsRest⟩ := List.forall_mem_cons.mp emits
  induction rest generalizing key value index line earlier earlierInside indent around with
  | nil =>
      have ends := endsWord_yamlAfter value column (keyForm column key).2
        (yamlMembers column [] ++ (blanks width ++ tail))
      obtain ⟨index', line', column', further, beside, toValue⟩ :=
        reaches_key key within ends enters
      have later := emitsValue (keyForm column key).2 index' line'
        (.value :: textToken key :: .key :: earlierInside) aroundInside begins outdented further
        beside
      have arrives := Arrives.of_reaches toValue later
      simpa [memberTokens, keyForm_snd] using arrives
  | cons next rest inductionHypothesis =>
      obtain ⟨nextKey, nextValue⟩ := next
      obtain ⟨emitsNext, emitsLater⟩ := List.forall_mem_cons.mp emitsRest
      have ends := endsWord_yamlAfter value column (keyForm column key).2
        (yamlMembers column ((nextKey, nextValue) :: rest) ++ (blanks width ++ tail))
      obtain ⟨index', line', column', further, beside, toValue⟩ :=
        reaches_key key within ends enters
      have beginsNext := begins_keyForm nextKey column (nextValue.yamlAfter column
        (keyForm column nextKey).2 ++ (yamlMembers column rest ++ (blanks width ++ tail)))
      obtain ⟨index'', line'', toNext⟩ := emitsValue (keyForm column key).2 index' line'
        (.value :: textToken key :: .key :: earlierInside) aroundInside beginsNext
        (Nat.le_refl column) further beside
      have written : yamlMembers column ((nextKey, nextValue) :: rest) ++ (blanks width ++ tail) =
          blanks column ++ ((keyForm column nextKey).1 ++ (nextValue.yamlAfter column
            (keyForm column nextKey).2 ++
              (yamlMembers column rest ++ (blanks width ++ tail)))) := by
        simp [yamlMembers]
      rw [written] at toValue ⊢
      have arrives := Arrives.of_reaches (toValue.trans toNext)
        (inductionHypothesis emitsRest (.stays aroundInside) (Int.le_refl _) index'' line''
          emitsNext emitsLater)
      simpa [memberTokens, keyForm_snd] using arrives

private theorem arrives_emptyFlow
    {opening closing : Char}
    {start ending : Token}
    (isFlow : (opening, closing, start, ending) ∈ flowBrackets)
    {indent : Nat}
    {sameLine : Bool}
    (begins : Begins tail)
    (within : indent ≤ column)
    (index line : Nat)
    (earlier : List Token)
    (around : List Int) :
    Arrives ⟨⟨' ' :: opening :: closing :: '\n' :: (blanks width ++ tail), index, line, column⟩,
      earlier, indent, around, sameLine, none, []⟩ tail width (ending :: start :: earlier) indent
      around := by
  refine ⟨_, _, Reaches.trans (.emptyFlow isFlow (by omega)) (.settle begins
    (skipSpacing_line begins (by simp [blanks])) (freshKey_of_line (Nat.lt_succ_self line) ?_) ?_)⟩
  · show (indent : Int) ≠ (column + 1 : Nat)
    omega
  · simp [blanks]
    omega

/-- A list that is not empty. -/
theorem emits_array {item : Json} {rest : List Json} (emits : ∀ each ∈ item :: rest, Emits each) :
    Emits (.array (item :: rest)) := by
  intro sameLine indent width column tail index line earlier around begins outdented within beside
  cases sameLine with
  | true =>
      have atOne := beside rfl
      subst atOne
      have ends := endsWord_yamlAfter item (indent + indentStep) true
        (yamlItems (indent + indentStep) rest ++ (blanks width ++ tail))
      have beginsItem : Begins ('-' :: (item.yamlAfter (indent + indentStep) true ++
          (yamlItems (indent + indentStep) rest ++ (blanks width ++ tail)))) :=
        begins_cons.mpr (by decide)
      have further : (indent : Int) < (indent + 1 + 1 : Nat) := by omega
      obtain ⟨index', line', toEnd⟩ := arrives_items emits begins
        (Nat.le_trans outdented (Nat.le_add_right indent indentStep)) (index + 1 + 1) line
        (.blockSequenceStart :: earlier) (indent :: around)
      have outside : (width : Int) < (indent + indentStep : Nat) := by
        show (width : Int) < (indent + 2 : Nat)
        omega
      have arrives : Arrives _ _ _ _ _ _ := ⟨index', line', Reaches.trans
        (.of_space beginsItem (by omega) (token_blockEntry ends (.opens further around))
          (Nat.le_succ _)) (toEnd.trans (.close begins outside))⟩
      simpa [yamlAfter, tokens] using arrives
  | false =>
      have ends := endsWord_yamlAfter item indent true
        (yamlItems indent rest ++ (blanks width ++ tail))
      have beginsItem : Begins ('-' :: (item.yamlAfter indent true ++
          (yamlItems indent rest ++ (blanks width ++ tail)))) :=
        begins_cons.mpr (by decide)
      have later := arrives_items emits begins outdented (index + 1 + indent + 1) (line + 1) earlier
        around
      have toItem : Reaches ⟨⟨'\n' :: (blanks indent ++ '-' :: (item.yamlAfter indent true ++
          (yamlItems indent rest ++ (blanks width ++ tail)))), index, line, column⟩, earlier,
          indent, around, false, none, []⟩ _ :=
        .of_line beginsItem (Int.le_refl _) (token_blockEntry ends (.stays around)) (Nat.le_succ _)
      simpa [yamlAfter, tokens] using Arrives.of_reaches toItem later

/-- A mapping that is not empty. -/
theorem emits_object
    {member : String × Json}
    {rest : List (String × Json)}
    (emits : ∀ each ∈ member :: rest, Emits each.2) :
    Emits (.object (member :: rest)) := by
  obtain ⟨key, value⟩ := member
  intro sameLine indent width column tail index line earlier around begins outdented within beside
  have further : (indent : Int) < (indent + indentStep : Nat) := by
    show (indent : Int) < (indent + 2 : Nat)
    omega
  have inner : width ≤ indent + indentStep := by omega
  have outside : (width : Int) < (indent + indentStep : Nat) := by omega
  generalize isText : (keyForm (indent + indentStep) key).1 ++
    (value.yamlAfter (indent + indentStep) (keyForm (indent + indentStep) key).2 ++
      (yamlMembers (indent + indentStep) rest ++ (blanks width ++ tail))) = text
  have beginsKey : Begins text := isText ▸ begins_keyForm key _ _
  have inside : ∀ index line, Arrives (ready ⟨text, index, line, indent + indentStep⟩ earlier indent
      around) tail width ((tokens sameLine (.object ((key, value) :: rest))).reverse ++ earlier)
      indent around := by
    intro index line
    rw [← isText]
    obtain ⟨index', line', toEnd⟩ := arrives_members emits begins inner (.opens further around)
      (Int.le_of_lt further) index line
    refine ⟨index', line', ?_⟩
    simpa [tokens] using toEnd.trans (.close begins outside)
  cases sameLine with
  | true =>
      have atOne := beside rfl
      subst atOne
      have toKey : Reaches ⟨⟨' ' :: text, index, line, indent + 1⟩, earlier, indent, around, true,
          none, []⟩ (ready ⟨text, index + 1, line, indent + 1 + 1⟩ earlier indent around) := by
        refine .settle beginsKey ?_ rfl (Nat.le_succ _)
        show skipSpacing false _ _ ⟨blanks 1 ++ text, _, _, _⟩ = _
        exact skipSpacing_blanks beginsKey (by simp)
      simpa [yamlAfter, ← isText] using Arrives.of_reaches toKey (inside _ _)
  | false =>
      have toKey : Reaches ⟨⟨'\n' :: (blanks (indent + indentStep) ++ text), index, line, column⟩,
          earlier, indent, around, false, none, []⟩ (ready ⟨text, index + 1 + (indent + indentStep),
            line + 1, indent + indentStep⟩ earlier indent around) := by
        refine .settle beginsKey (skipSpacing_line beginsKey ?_) rfl ?_
        · simp [blanks]
        · simp [blanks]
          omega
      simpa [yamlAfter, ← isText] using Arrives.of_reaches toKey (inside _ _)

end Containers

/-- A value that is written as a plain scalar. -/
theorem emits_plain
    {value : Json}
    (text : String)
    {c : Char}
    {chars : List Char}
    (isText : text.toList = c :: chars)
    (start : PlainStart c chars)
    (form : ∀ indent sameLine, value.yamlAfter indent sameLine = ' ' :: (text.toList ++ ['\n']))
    (isToken : ∀ sameLine, value.tokens sameLine = [.scalar .plain text]) :
    Emits value := by
  intro sameLine indent width column tail index line earlier around begins outdented within _
  rw [form, isToken, List.cons_append, List.append_assoc]
  exact arrives_plain isText start begins outdented within

/-- Every value is taken apart into its tokens. -/
theorem emits (value : Json) : Emits value := by
  induction value using treeInduction with
  | null =>
      have start : PlainStart 'n' ['u', 'l', 'l'] := plainStart_of_allowsPlain (by decide)
      exact emits_plain "null" rfl start (fun _ _ => rfl) (fun _ => rfl)
  | flag value =>
      cases value with
      | true =>
          have start : PlainStart 't' ['r', 'u', 'e'] := plainStart_of_allowsPlain (by decide)
          exact emits_plain "true" rfl start (fun _ _ => rfl) (fun _ => rfl)
      | false =>
          have start : PlainStart 'f' ['a', 'l', 's', 'e'] := plainStart_of_allowsPlain (by decide)
          exact emits_plain "false" rfl start (fun _ _ => rfl) (fun _ => rfl)
  | number value =>
      obtain ⟨c, chars, isForm, start⟩ := (isNumeral_numberForm value).plainStart
      have isText : (String.ofList (numberForm value)).toList = c :: chars := by
        rw [String.toList_ofList, isForm]
      refine emits_plain _ isText start (fun _ _ => ?_) (fun _ => rfl)
      rw [String.toList_ofList]
      rfl
  | text value =>
      intro sameLine indent width column tail index line earlier around begins outdented within _
      exact arrives_text value begins outdented within
  | array items emitsItems =>
      cases items with
      | nil =>
          intro sameLine indent width column tail index line earlier around begins _ within _
          exact arrives_emptyFlow (by decide) begins within index line earlier around
      | cons item items => exact emits_array emitsItems
  | object members emitsMembers =>
      cases members with
      | nil =>
          intro sameLine indent width column tail index line earlier around begins _ within _
          exact arrives_emptyFlow (by decide) begins within index line earlier around
      | cons member members => exact emits_object emitsMembers

/-! ## Whole texts -/

/-- At the end of a text its outermost block ends. -/
theorem run_end (tokens : List Token) (index line fuel : Nat) :
    Lexer.run (fuel + 1) (ready ⟨[], index, line, 0⟩ tokens 0 [-1]) =
      some (.blockEnd :: tokens).reverse := by
  have found : toToken (ready ⟨[], index, line, 0⟩ tokens 0 [-1]) =
      some (ready ⟨[], index, line, 0⟩ tokens 0 [-1]) := by
    rw [toToken_eq (skipSpacing_begins begins_nil) rfl]
    exact congrArg some (leaveBlocks_of_le (Int.le_refl 0))
  rw [Lexer.run, found]
  show ((leaveBlocks (-1) (ready ⟨[], index, line, 0⟩ tokens 0 [-1])).dropKey >>= fun lexer =>
    pure lexer.tokens.reverse) = _
  rw [leaveBlocks_of_lt (by decide), leaveBlocks_of_le (by decide)]
  rfl

/-- The tokens of a mapping that is all of a text. -/
theorem run_yamlMembers
    (member : String × Json)
    (rest : List (String × Json))
    {fuel : Nat}
    (enough : (yamlMembers 0 (member :: rest)).length < fuel) :
    Lexer.run fuel (Lexer.start (yamlMembers 0 (member :: rest))) =
      some (tokens true (.object (member :: rest))) := by
  have all : ∀ each ∈ (member.1, member.2) :: rest, Emits each.2 := fun each _ => each.2.emits
  have enters : Enters .blockMappingStart 0 [] (-1) [] [-1] [.blockMappingStart] :=
    .opens (by decide) []
  obtain ⟨index, line, toEnd⟩ := arrives_members all begins_nil (Nat.le_refl 0) enters (by decide)
    0 0
  have written : yamlMembers 0 (member :: rest) = (keyForm 0 member.1).1 ++
      (member.2.yamlAfter 0 (keyForm 0 member.1).2 ++
        (yamlMembers 0 rest ++ (blanks 0 ++ []))) := by
    simp [yamlMembers, blanks]
  rw [written] at enough ⊢
  obtain ⟨left, some_left, same⟩ := toEnd fuel enough
  obtain ⟨left, rfl⟩ : ∃ smaller, left = smaller + 1 := ⟨left - 1, by omega⟩
  have atEnd := run_end ((memberTokens ((member.1, member.2) :: rest)).reverse ++
    [.blockMappingStart]) index line left
  refine same.trans (atEnd.trans ?_)
  simp [tokens]

/-- The tokens of the text of a mapping that is not empty. -/
theorem tokens?_yaml (member : String × Json) (rest : List (String × Json)) :
    tokens? (String.ofList (yaml (.object (member :: rest)))) =
      some (tokens true (.object (member :: rest))) := by
  have printed : Printed (yamlMembers 0 (member :: rest)) :=
    printed_yamlMembers (fun each _ => printed_yamlAfter each.2) 0
  have allowed : (yamlMembers 0 (member :: rest)).all isAllowed = true :=
    List.all_eq_true.mpr fun c isChar => isAllowed_of_isPrintable (printed c isChar)
  rw [yaml, tokens?, String.toList_ofList, if_pos allowed, normalBreaks_of_isPrintable printed]
  exact run_yamlMembers member rest (Nat.lt_succ_self _)

end RunManifest.Json
