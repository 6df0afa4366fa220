import RunManifest.Proofs.Json.Spelling
import RunManifest.Proofs.Text.Replace

/-!
Contract: replacing placeholders in the text of a value replaces them in its strings.

Owns:
- `IsToken`, the placeholders for which this holds: they have no character that is escaped, and
  begin as no text begins outside its strings;
- `replaceFrom_spelled`, replacing in a text changes the spelling of strings and nothing else;
- `replaceFrom_escaped`, replacing in the spelling of a string is replacing in the string, unless a
  raw control character was put into it;
- `not_infix_compact`, a placeholder that no string has does not occur in the text;
- `Spoiled`, spellings with a raw control character, which stay spoiled and are never read, and
  `spoiled_replaceTokens`, a value with a control character spoils the strings it is put into;
- `decode_replaceEach`, reading a text after replacements is reading the value after the same
  replacements in all of its strings, and `decode_replaceEach_of_control`, nobody reads a text that
  was spoiled.
-/

set_option autoImplicit false

namespace RunManifest.Json

open Text

/-- A placeholder: its characters stand for themselves in strings, and it begins as no text does
outside its strings. -/
structure IsToken (token : List Char) : Prop where
  plain : ∀ c ∈ token, Plain c
  starts : (∃ rest, token = '$' :: rest) ∨ ∃ rest, token = '\x7b' :: '\x7b' :: rest

/-- Whether a text has neither a dollar nor a brace, one of which every placeholder begins with. -/
def hasNoStart (text : String) : Bool :=
  text.toList.all fun c => c != '$' && c != '\x7b'

variable {token : List Char} (value : List Char)

namespace IsToken

theorem ne_nil (isToken : IsToken token) : token ≠ [] := by
  rcases isToken.starts with ⟨rest, rfl⟩ | ⟨rest, rfl⟩
  · exact List.cons_ne_nil _ _
  · exact List.cons_ne_nil _ _

private theorem not_prefix
    (isToken : IsToken token)
    {c : Char}
    (notDollar : c ≠ '$')
    (notBrace : c ≠ '\x7b')
    (rest : List Char) :
    ¬ token <+: c :: rest := by
  rcases isToken.starts with ⟨others, rfl⟩ | ⟨others, rfl⟩
  · rw [List.cons_prefix_cons]
    exact fun occurs => notDollar occurs.1.symm
  · rw [List.cons_prefix_cons]
    exact fun occurs => notBrace occurs.1.symm

/-- One brace is not enough for a placeholder. -/
theorem not_prefix_brace
    (isToken : IsToken token)
    {c : Char}
    (notBrace : c ≠ '\x7b')
    (rest : List Char) :
    ¬ token <+: '\x7b' :: c :: rest := by
  rcases isToken.starts with ⟨others, rfl⟩ | ⟨others, rfl⟩
  · rw [List.cons_prefix_cons]
    exact fun occurs => absurd occurs.1 (by decide)
  · rw [List.cons_prefix_cons, List.cons_prefix_cons]
    exact fun occurs => notBrace occurs.2.1.symm

/-- A text with neither dollars nor braces has no placeholder. -/
theorem not_infix
    (isToken : IsToken token)
    {text : List Char}
    (noDollar : '$' ∉ text)
    (noBrace : '\x7b' ∉ text) :
    ¬ token <:+: text := by
  intro occurs
  rcases isToken.starts with ⟨rest, rfl⟩ | ⟨rest, rfl⟩
  · exact noDollar (occurs.subset (by simp))
  · exact noBrace (occurs.subset (by simp))

theorem not_infix_of_hasNoStart
    (isToken : IsToken token)
    {text : String}
    (noStart : hasNoStart text = true) :
    ¬ token <:+: text.toList := by
  simp only [hasNoStart, List.all_eq_true, Bool.and_eq_true, bne_iff_ne] at noStart
  exact isToken.not_infix (fun member => (noStart _ member).1 rfl)
    fun member => (noStart _ member).2 rfl

end IsToken

/-! ## Outside strings -/

/-- A character that stands outside strings and does not open an object stays. -/
theorem replaceFrom_mark
    (isToken : IsToken token)
    {c : Char}
    (notDollar : c ≠ '$')
    (notBrace : c ≠ '\x7b')
    (rest : List Char) :
    replaceFrom token value 0 (c :: rest) = c :: replaceFrom token value 0 rest :=
  replaceFrom_other value (isToken.not_prefix notDollar notBrace rest)

/-- Digits and a few marks are neither dollars nor braces. -/
theorem inert_of_mem_jsonText
    (isToken : IsToken token)
    {number : Number}
    {c : Char}
    (member : c ∈ number.jsonText)
    (rest : List Char) :
    ¬ token <+: c :: rest := by
  have notStart : c ≠ '$' ∧ c ≠ '\x7b' := by
    rcases mem_jsonText member with isDigit | isMark
    · constructor <;> (rintro rfl; exact absurd isDigit (by decide))
    · constructor <;> (rintro rfl; exact absurd isMark (by decide))
  exact isToken.not_prefix notStart.1 notStart.2 rest

private theorem replaceFrom_quotedBy
    (isToken : IsToken token)
    (spell : String → List Char)
    (string : String)
    (rest : List Char) :
    replaceFrom token value 0 (quotedBy spell string ++ rest) =
      quotedBy (fun string => replaceFrom token value 0 (spell string)) string
        ++ replaceFrom token value 0 rest := by
  have absent : '\"' ∉ token := fun member => (isToken.plain _ member).1 rfl
  simp only [quotedBy, List.cons_append, List.append_assoc, List.nil_append]
  rw [replaceFrom_mark value isToken (by decide) (by decide),
    replaceFrom_append_separator value isToken.ne_nil absent]

private theorem replaceFrom_spelledItemsAfter
    (isToken : IsToken token)
    (spell : String → List Char)
    (items : List Json)
    (replaces : ∀ item ∈ items, ∀ rest,
      replaceFrom token value 0 (item.spelled spell ++ rest) =
        item.spelled (fun string => replaceFrom token value 0 (spell string))
          ++ replaceFrom token value 0 rest)
    (rest : List Char) :
    replaceFrom token value 0 (spelledItemsAfter spell items ++ rest) =
      spelledItemsAfter (fun string => replaceFrom token value 0 (spell string)) items
        ++ replaceFrom token value 0 rest := by
  induction items with
  | nil => rfl
  | cons item others inductionHypothesis =>
      simp only [spelledItemsAfter, List.cons_append, List.append_assoc]
      rw [replaceFrom_mark value isToken (by decide) (by decide), replaces item (by simp),
        inductionHypothesis fun other member => replaces other (by simp [member])]

private theorem replaceFrom_spelledMembersAfter
    (isToken : IsToken token)
    (spell : String → List Char)
    (members : List (String × Json))
    (replaces : ∀ member ∈ members, ∀ rest,
      replaceFrom token value 0 (member.2.spelled spell ++ rest) =
        member.2.spelled (fun string => replaceFrom token value 0 (spell string))
          ++ replaceFrom token value 0 rest)
    (rest : List Char) :
    replaceFrom token value 0 (spelledMembersAfter spell members ++ rest) =
      spelledMembersAfter (fun string => replaceFrom token value 0 (spell string)) members
        ++ replaceFrom token value 0 rest := by
  induction members with
  | nil => rfl
  | cons member others inductionHypothesis =>
      simp only [spelledMembersAfter, List.cons_append, List.append_assoc]
      rw [replaceFrom_mark value isToken (by decide) (by decide),
        replaceFrom_quotedBy value isToken,
        replaceFrom_mark value isToken (by decide) (by decide), replaces member (by simp),
        inductionHypothesis fun other isMember => replaces other (by simp [isMember])]

/-- Replacing a placeholder in the text of a value changes how its strings are spelled and nothing
else: no occurrence begins outside a string or goes beyond its end. -/
theorem replaceFrom_spelled
    (isToken : IsToken token)
    (spell : String → List Char)
    (document : Json)
    (rest : List Char) :
    replaceFrom token value 0 (document.spelled spell ++ rest) =
      document.spelled (fun string => replaceFrom token value 0 (spell string))
        ++ replaceFrom token value 0 rest := by
  induction document using treeInduction generalizing rest with
  | null =>
      exact replaceFrom_append_inert value "null".toList rest fun c member after =>
        isToken.not_prefix (by rintro rfl; revert member; decide)
          (by rintro rfl; revert member; decide) after
  | flag flag =>
      refine replaceFrom_append_inert value (flagText flag) rest fun c member after => ?_
      refine isToken.not_prefix ?_ ?_ after
      · rintro rfl
        cases flag <;> revert member <;> decide
      · rintro rfl
        cases flag <;> revert member <;> decide
  | number number =>
      exact replaceFrom_append_inert value number.jsonText rest fun c member after =>
        inert_of_mem_jsonText isToken member after
  | text string => exact replaceFrom_quotedBy value isToken spell string rest
  | array items inductionHypothesis =>
      cases items with
      | nil =>
          simp only [spelled, spelledItems, List.cons_append, List.nil_append]
          rw [replaceFrom_mark value isToken (by decide) (by decide),
            replaceFrom_mark value isToken (by decide) (by decide)]
      | cons item others =>
          simp only [spelled, spelledItems, List.cons_append, List.append_assoc, List.nil_append]
          rw [replaceFrom_mark value isToken (by decide) (by decide),
            inductionHypothesis item (by simp),
            replaceFrom_spelledItemsAfter value isToken spell others
              fun other member => inductionHypothesis other (by simp [member]),
            replaceFrom_mark value isToken (by decide) (by decide)]
  | object members inductionHypothesis =>
      cases members with
      | nil =>
          simp only [spelled, spelledMembers, List.cons_append, List.nil_append]
          rw [replaceFrom_other value (isToken.not_prefix_brace (by decide) rest),
            replaceFrom_mark value isToken (by decide) (by decide)]
      | cons member others =>
          simp only [spelled, spelledMembers, List.cons_append, List.append_assoc, List.nil_append]
          rw [replaceFrom_other value, replaceFrom_quotedBy value isToken,
            replaceFrom_mark value isToken (by decide) (by decide),
            inductionHypothesis member (by simp),
            replaceFrom_spelledMembersAfter value isToken spell others
              fun other isMember => inductionHypothesis other (by simp [isMember]),
            replaceFrom_mark value isToken (by decide) (by decide)]
          exact isToken.not_prefix_brace (by decide) _

/-! ## Inside strings -/

/-- An escape begins with a backslash and has neither dollars nor braces. -/
theorem escapedChar_of_not_plain {c : Char} (notPlain : ¬ Plain c) :
    ∃ rest, escapedChar c = '\\' :: rest ∧
      (rest.all fun other => other != '$' && other != '\x7b') = true := by
  rcases plain_or_escaped c with plain | rfl | rfl | ⟨code, small, rfl⟩
  · exact absurd plain notPlain
  · exact ⟨_, rfl, rfl⟩
  · exact ⟨_, rfl, rfl⟩
  · clear notPlain
    interval_cases code <;> exact ⟨_, rfl, rfl⟩

/-- A placeholder that occurs at the front of an escaped text occurs at the front of the text. -/
theorem prefix_of_prefix_escaped
    {token chars : List Char}
    (plain : ∀ c ∈ token, Plain c)
    (occurs : token <+: escaped chars) :
    token <+: chars := by
  induction token generalizing chars with
  | nil => exact List.nil_prefix
  | cons first others inductionHypothesis =>
      cases chars with
      | nil => exact occurs
      | cons c rest =>
          by_cases isPlain : Plain c
          · rw [escaped_cons, escapedChar_of_plain isPlain, List.singleton_append,
              List.cons_prefix_cons] at occurs
            have later := inductionHypothesis (fun other member => plain other (by simp [member]))
              occurs.2
            exact List.cons_prefix_cons.mpr ⟨occurs.1, later⟩
          · obtain ⟨escape, isEscape, -⟩ := escapedChar_of_not_plain isPlain
            rw [escaped_cons, isEscape, List.cons_append, List.cons_prefix_cons] at occurs
            exact absurd occurs.1 (plain first (by simp)).2.1

/-- A character at which no placeholder begins stays as it is spelled. -/
theorem replaceFrom_escapedChar
    (isToken : IsToken token)
    {c : Char}
    {rest : List Char}
    (elsewhere : ¬ token <+: c :: rest) :
    replaceFrom token value 0 (escaped (c :: rest)) =
      escapedChar c ++ replaceFrom token value 0 (escaped rest) := by
  by_cases isPlain : Plain c
  · have elsewhereEscaped : ¬ token <+: escaped (c :: rest) := fun occurs =>
      elsewhere (prefix_of_prefix_escaped isToken.plain occurs)
    rw [escaped_cons, escapedChar_of_plain isPlain] at elsewhereEscaped ⊢
    exact replaceFrom_other value elsewhereEscaped
  · obtain ⟨escape, isEscape, inert⟩ := escapedChar_of_not_plain isPlain
    rw [escaped_cons, isEscape]
    refine replaceFrom_append_inert value _ _ fun other member after => ?_
    rcases List.mem_cons.mp member with rfl | later
    · exact isToken.not_prefix (by decide) (by decide) after
    · have notStart := List.all_eq_true.mp inert other later
      simp only [Bool.and_eq_true, bne_iff_ne, ne_eq] at notStart
      exact isToken.not_prefix notStart.1 notStart.2 after

/-! ## Raw control characters -/

/-- A spelling with a raw control character after characters that are properly spelled. -/
def Spoiled (body : List Char) : Prop :=
  ∃ chars c rest, c.toNat < 0x20 ∧ body = escaped chars ++ c :: rest

theorem Spoiled.escaped_append
    (chars : List Char)
    {body : List Char}
    (spoiled : Spoiled body) :
    Spoiled (escaped chars ++ body) := by
  obtain ⟨more, c, rest, control, rfl⟩ := spoiled
  exact ⟨chars ++ more, c, rest, control, by rw [Json.escaped_append, List.append_assoc]⟩

theorem Spoiled.append
    {body : List Char}
    (spoiled : Spoiled body)
    (more : List Char) :
    Spoiled (body ++ more) := by
  obtain ⟨chars, c, rest, control, rfl⟩ := spoiled
  exact ⟨chars, c, rest ++ more, control, by simp⟩

/-- A control character spoils a text without quotes and backslashes. -/
theorem spoiled_of_control
    {chars : List Char}
    (unquoted : ∀ c ∈ chars, c ≠ '\"' ∧ c ≠ '\\')
    (control : ∃ c ∈ chars, c.toNat < 0x20) :
    Spoiled chars := by
  induction chars with
  | nil =>
      obtain ⟨c, inNothing, -⟩ := control
      cases inNothing
  | cons c rest inductionHypothesis =>
      obtain ⟨⟨notQuote, notBackslash⟩, unquotedRest⟩ := List.forall_mem_cons.mp unquoted
      by_cases isControl : c.toNat < 0x20
      · exact ⟨[], c, rest, isControl, rfl⟩
      · have isPlain : Plain c := ⟨notQuote, notBackslash, by omega⟩
        have later := (List.exists_mem_cons_iff _ _ _).mp control |>.resolve_left isControl
        have longer := (inductionHypothesis unquotedRest later).escaped_append [c]
        rwa [escaped_cons, escapedChar_of_plain isPlain] at longer

/-- A text without quotes and backslashes is properly spelled or spoiled. -/
theorem escaped_eq_self_or_spoiled
    {chars : List Char}
    (unquoted : ∀ c ∈ chars, c ≠ '\"' ∧ c ≠ '\\') :
    escaped chars = chars ∨ (Spoiled chars ∧ ∃ c ∈ chars, c.toNat < 0x20) := by
  by_cases control : ∃ c ∈ chars, c.toNat < 0x20
  · exact .inr ⟨spoiled_of_control unquoted control, control⟩
  · refine .inl (escaped_of_plain fun c member => ?_)
    exact ⟨(unquoted c member).1, (unquoted c member).2,
      Nat.le_of_not_lt fun isControl => control ⟨c, member, isControl⟩⟩

/-- Replacing in the spelling of a string is replacing in the string, unless it puts a raw control
character there. -/
theorem replaceFrom_escaped
    (isToken : IsToken token)
    (unquoted : ∀ c ∈ value, c ≠ '\"' ∧ c ≠ '\\')
    (chars : List Char) :
    replaceFrom token value 0 (escaped chars) = escaped (replaceFrom token value 0 chars) ∨
      (Spoiled (replaceFrom token value 0 (escaped chars)) ∧ ∃ c ∈ value, c.toNat < 0x20) := by
  induction chars using scanInduction isToken.ne_nil with
  | nil => exact .inl rfl
  | occurrence after inductionHypothesis =>
      rw [escaped_append, escaped_of_plain isToken.plain,
        replaceFrom_occurrence value isToken.ne_nil, replaceFrom_occurrence value isToken.ne_nil,
        escaped_append]
      -- The value is spoiled itself, or whatever spoils the text comes after it.
      rcases escaped_eq_self_or_spoiled unquoted with same | ⟨spoiled, control⟩
      · rw [same]
        rcases inductionHypothesis with later | ⟨spoiled, control⟩
        · exact .inl (by rw [later])
        · refine .inr ⟨?_, control⟩
          have longer := spoiled.escaped_append value
          rwa [same] at longer
      · exact .inr ⟨spoiled.append _, control⟩
  | other c rest elsewhere inductionHypothesis =>
      rw [replaceFrom_escapedChar value isToken elsewhere, replaceFrom_other value elsewhere,
        escaped_cons]
      rcases inductionHypothesis with later | ⟨spoiled, control⟩
      · exact .inl (by rw [later])
      · refine .inr ⟨?_, control⟩
        have longer := spoiled.escaped_append [c]
        rwa [escaped_cons, escaped_nil, List.append_nil] at longer

/-- A control character that is put where a placeholder occurs spoils the spelling of a string. -/
theorem spoiled_replaceFrom_escaped
    (isToken : IsToken token)
    (unquoted : ∀ c ∈ value, c ≠ '\"' ∧ c ≠ '\\')
    (control : ∃ c ∈ value, c.toNat < 0x20)
    {chars : List Char}
    (occurs : token <:+: chars) :
    Spoiled (replaceFrom token value 0 (escaped chars)) := by
  induction chars using scanInduction isToken.ne_nil with
  | nil => exact absurd (List.infix_nil.mp occurs) isToken.ne_nil
  | occurrence after _ =>
      rw [escaped_append, escaped_of_plain isToken.plain,
        replaceFrom_occurrence value isToken.ne_nil]
      exact (spoiled_of_control unquoted control).append _
  | other c rest elsewhere inductionHypothesis =>
      have later := (List.infix_cons_iff.mp occurs).resolve_left elsewhere
      have longer := (inductionHypothesis later).escaped_append [c]
      rw [replaceFrom_escapedChar value isToken elsewhere]
      rwa [escaped_cons, escaped_nil, List.append_nil] at longer

/-- A spoiled spelling stays spoiled. -/
theorem Spoiled.replaceFrom
    {body : List Char}
    (spoiled : Spoiled body)
    (isToken : IsToken token)
    (unquoted : ∀ c ∈ value, c ≠ '\"' ∧ c ≠ '\\') :
    Spoiled (Text.replaceFrom token value 0 body) := by
  obtain ⟨chars, c, rest, control, rfl⟩ := spoiled
  have absent : c ∉ token := fun member => by
    have := (isToken.plain c member).2.2
    omega
  rw [replaceFrom_append_separator value isToken.ne_nil absent]
  rcases replaceFrom_escaped value isToken unquoted chars with same | ⟨earlier, -⟩
  · exact ⟨_, c, _, control, by rw [same]⟩
  · exact earlier.append _

/-- A placeholder that occurs in no string of a value does not occur in its text: leaving its
occurrences out changes neither what stands outside strings nor the spelling of a string. -/
theorem not_infix_compact
    (isToken : IsToken token)
    {document : Json}
    (absent : ∀ string ∈ document.strings, ¬ token <:+: string.toList) :
    ¬ token <:+: document.compact := by
  refine not_infix_of_replaceFrom_nil isToken.ne_nil ?_
  have outside := replaceFrom_spelled [] isToken written document []
  rw [replaceFrom_nil, List.append_nil, List.append_nil] at outside
  rw [compact_eq_spelled, outside]
  refine spelled_congr document fun string member => ?_
  rcases replaceFrom_escaped [] isToken (by simp) string.toList with same | ⟨-, c, inNothing, -⟩
  · rw [written, same, replaceFrom_eq_self [] (absent string member)]
  · cases inNothing

/-! ## Replacements one after the other -/

/-- Replacements of placeholders by values that do not end a string. -/
def AreUnquoted (replacements : List (String × String)) : Prop :=
  ∀ replacement ∈ replacements, IsToken replacement.1.toList ∧
    ∀ c ∈ replacement.2.toList, c ≠ '\"' ∧ c ≠ '\\'

/-- Replacements of placeholders by values whose characters stand for themselves in strings. -/
def ArePlain (replacements : List (String × String)) : Prop :=
  ∀ replacement ∈ replacements, IsToken replacement.1.toList ∧ ∀ c ∈ replacement.2.toList, Plain c

private theorem ArePlain.areUnquoted
    {replacements : List (String × String)}
    (plain : ArePlain replacements) :
    AreUnquoted replacements := by
  intro replacement member
  obtain ⟨isToken, isPlain⟩ := plain replacement member
  exact ⟨isToken, fun c isChar => ⟨(isPlain c isChar).1, (isPlain c isChar).2.1⟩⟩

/-- The characters after replacements, applied in order. -/
def replaceTokens (replacements : List (String × String)) (chars : List Char) : List Char :=
  replacements.foldl
    (fun text replacement => replaceFrom replacement.1.toList replacement.2.toList 0 text) chars

variable {replacements : List (String × String)}

private theorem toList_replaceEach (unquoted : AreUnquoted replacements) (text : String) :
    (replaceEach replacements text).toList = replaceTokens replacements text.toList := by
  induction replacements generalizing text with
  | nil => rfl
  | cons replacement rest inductionHypothesis =>
      have isToken := (unquoted replacement (by simp)).1
      have others := inductionHypothesis (fun other member => unquoted other (by simp [member]))
        (replaceAll replacement.1 replacement.2 text)
      rw [toList_replaceAll isToken.ne_nil] at others
      exact others

private theorem replaceTokens_spelled
    (unquoted : AreUnquoted replacements)
    (spell : String → List Char)
    (document : Json) :
    replaceTokens replacements (document.spelled spell) =
      document.spelled fun string => replaceTokens replacements (spell string) := by
  induction replacements generalizing spell with
  | nil => rfl
  | cons replacement rest inductionHypothesis =>
      have isToken := (unquoted replacement (by simp)).1
      have first := replaceFrom_spelled replacement.2.toList isToken spell document []
      rw [replaceFrom_nil, List.append_nil, List.append_nil] at first
      have others := inductionHypothesis (fun other member => unquoted other (by simp [member]))
        fun string => replaceFrom replacement.1.toList replacement.2.toList 0 (spell string)
      rw [← first] at others
      exact others

/-- What becomes of the spelling of a string: that of the string after the replacements, or one
that is spoiled by a control character. -/
theorem replaceTokens_body
    (unquoted : AreUnquoted replacements)
    {chars body : List Char}
    (start : body = escaped chars ∨ Spoiled body) :
    replaceTokens replacements body = escaped (replaceTokens replacements chars) ∨
      Spoiled (replaceTokens replacements body) := by
  induction replacements generalizing chars body with
  | nil => exact start
  | cons replacement rest inductionHypothesis =>
      obtain ⟨isToken, noQuote⟩ := unquoted replacement (by simp)
      have unquotedRest : AreUnquoted rest := fun other member => unquoted other (by simp [member])
      refine inductionHypothesis unquotedRest ?_
      rcases start with rfl | spoiled
      · rcases replaceFrom_escaped _ isToken noQuote chars with same | ⟨spoiled, -⟩
        · exact .inl same
        · exact .inr spoiled
      · exact .inr (spoiled.replaceFrom _ isToken noQuote)

theorem Spoiled.replaceTokens
    {body : List Char}
    (spoiled : Spoiled body)
    (unquoted : AreUnquoted replacements) :
    Spoiled (Json.replaceTokens replacements body) := by
  induction replacements generalizing body with
  | nil => exact spoiled
  | cons replacement rest inductionHypothesis =>
      obtain ⟨⟨isToken, noQuote⟩, unquotedRest⟩ := List.forall_mem_cons.mp unquoted
      exact inductionHypothesis (spoiled.replaceFrom _ isToken noQuote) unquotedRest

/-- A value with a control character spoils the spelling of every string that has one of the
placeholders it is put for. -/
theorem spoiled_replaceTokens
    {tokens : List String}
    {value : String}
    (unquoted : AreUnquoted (tokens.map fun token => (token, value)))
    (control : ∃ c ∈ value.toList, c.toNat < 0x20)
    {chars : List Char}
    (occurs : ∃ token ∈ tokens, token.toList <:+: chars) :
    Spoiled (replaceTokens (tokens.map fun token => (token, value)) (escaped chars)) := by
  induction tokens with
  | nil =>
      obtain ⟨token, inNothing, -⟩ := occurs
      cases inNothing
  | cons token rest inductionHypothesis =>
      rw [List.map_cons] at unquoted ⊢
      obtain ⟨⟨isToken, noQuote⟩, unquotedRest⟩ := List.forall_mem_cons.mp unquoted
      by_cases here : token.toList <:+: chars
      · exact (spoiled_replaceFrom_escaped _ isToken noQuote control here).replaceTokens
          unquotedRest
      · -- A placeholder that does not occur leaves the string to the others.
        have later := (List.exists_mem_cons_iff _ _ _).mp occurs |>.resolve_left here
        rcases replaceFrom_escaped value.toList isToken noQuote chars with same | ⟨spoiled, -⟩
        · rw [replaceFrom_eq_self _ here] at same
          have spoiled := inductionHypothesis unquotedRest later
          rw [← same] at spoiled
          exact spoiled
        · exact spoiled.replaceTokens unquotedRest

/-- Plain values spoil nothing. -/
theorem replaceTokens_escaped
    (plain : ArePlain replacements)
    (chars : List Char) :
    replaceTokens replacements (escaped chars) = escaped (replaceTokens replacements chars) := by
  induction replacements generalizing chars with
  | nil => rfl
  | cons replacement rest inductionHypothesis =>
      obtain ⟨isToken, noQuote⟩ := plain.areUnquoted replacement (by simp)
      have first : replaceFrom replacement.1.toList replacement.2.toList 0 (escaped chars) =
          escaped (replaceFrom replacement.1.toList replacement.2.toList 0 chars) := by
        rcases replaceFrom_escaped _ isToken noQuote chars with same | ⟨-, c, member, control⟩
        · exact same
        · have := ((plain replacement (by simp)).2 c member).2.2
          omega
      have others := inductionHypothesis (fun other member => plain other (by simp [member]))
        (replaceFrom replacement.1.toList replacement.2.toList 0 chars)
      rw [← first] at others
      exact others

private theorem scans_of_eq_escaped
    {spell : String → List Char}
    {string said : String}
    (proper : spell string = escaped said.toList) :
    Scans spell string said := by
  intro rest
  rw [proper, scanString_escaped, String.ofList_toList]

private theorem breaks_of_spoiled
    {spell : String → List Char}
    {string : String}
    (spoiled : Spoiled (spell string)) :
    Breaks spell string := by
  obtain ⟨chars, c, more, control, same⟩ := spoiled
  intro rest
  refine ⟨.both (.malformed .controlCharacter), ?_⟩
  rw [same, List.append_assoc, List.cons_append]
  exact scanString_escaped_control chars control _

private theorem replaceEach_compact
    (unquoted : AreUnquoted replacements)
    (document : Json) :
    replaceEach replacements (String.ofList document.compact) =
      String.ofList (document.spelled fun string => replaceTokens replacements (written string)) := by
  have chars := toList_replaceEach unquoted (String.ofList document.compact)
  rw [String.toList_ofList] at chars
  rw [← replaceTokens_spelled unquoted, ← compact_eq_spelled, ← chars, String.ofList_toList]

/-- Reading a text after replacements by plain values is reading the value after the same
replacements in all of its strings. -/
theorem decode_replaceEach
    {α : Type}
    (read : Nat → Node → Except Problem α)
    (plain : ArePlain replacements)
    (document : Json) :
    decode read (replaceEach replacements (String.ofList document.compact)) =
      read levels (saidNode (replaceEach replacements) document) := by
  rw [replaceEach_compact plain.areUnquoted]
  refine decode_spelled read document fun string _ => scans_of_eq_escaped ?_
  rw [written, replaceTokens_escaped plain, toList_replaceEach plain.areUnquoted]

/-- After replacements a string says what it says in the value, or breaks. -/
theorem scans_or_breaks_replaceTokens (unquoted : AreUnquoted replacements) (string : String) :
    Scans (fun string => replaceTokens replacements (written string)) string
        (replaceEach replacements string) ∨
      Breaks (fun string => replaceTokens replacements (written string)) string := by
  rcases replaceTokens_body unquoted (.inl (Eq.refl (escaped string.toList))) with proper | spoiled
  · exact .inl (scans_of_eq_escaped (by rw [toList_replaceEach unquoted]; exact proper))
  · exact .inr (breaks_of_spoiled spoiled)

/-- Where values have control characters, reading may fail instead. -/
theorem decode_replaceEach_or_error
    {α : Type}
    (read : Nat → Node → Except Problem α)
    (unquoted : AreUnquoted replacements)
    (document : Json) :
    decode read (replaceEach replacements (String.ofList document.compact)) =
        read levels (saidNode (replaceEach replacements) document) ∨
      ∃ problem, decode read (replaceEach replacements (String.ofList document.compact)) =
        .error problem := by
  have either := scans_or_breaks_replaceTokens unquoted
  rw [replaceEach_compact unquoted]
  -- One raw control character anywhere is enough for the whole text to be refused.
  by_cases broken : ∃ string ∈ document.strings,
      Breaks (fun string => replaceTokens replacements (written string)) string
  · exact .inr (decode_spelled_of_breaks read document (fun string _ => either string) broken)
  · refine .inl (decode_spelled read document fun string member => ?_)
    exact (either string).resolve_right fun breaks => broken ⟨string, member, breaks⟩

/-- No reader accepts a text into which a value with a control character was put. -/
theorem decode_replaceEach_of_control
    {α : Type}
    (read : Nat → Node → Except Problem α)
    {tokens : List String}
    {value : String}
    (unquoted : AreUnquoted (tokens.map fun token => (token, value)))
    (control : ∃ c ∈ value.toList, c.toNat < 0x20)
    {document : Json}
    (occurs : ∃ string ∈ document.strings, ∃ token ∈ tokens, token.toList <:+: string.toList) :
    ∃ problem, decode read (replaceEach (tokens.map fun token => (token, value))
      (String.ofList document.compact)) = .error problem := by
  obtain ⟨string, member, inString⟩ := occurs
  rw [replaceEach_compact unquoted]
  refine decode_spelled_of_breaks read document
    (fun string _ => scans_or_breaks_replaceTokens unquoted string) ⟨string, member, ?_⟩
  exact breaks_of_spoiled (spoiled_replaceTokens unquoted control inString)

end RunManifest.Json
