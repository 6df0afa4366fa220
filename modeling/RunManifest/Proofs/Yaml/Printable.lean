import RunManifest.Proofs.Json.Tree
import RunManifest.Proofs.Yaml.Numbers
import RunManifest.Proofs.Yaml.Scalars

/-!
Contract: written YAML texts consist of printable characters.

Owns `Printed`, and `Json.printed_yamlAfter`, which says so of all values: a text with a character
that is not printable is written with escapes.
-/

set_option autoImplicit false

namespace RunManifest.Yaml

/-- All characters are printable. -/
def Printed (chars : List Char) : Prop :=
  ∀ c ∈ chars, isPrintable c = true

section Laws

variable {c : Char} {left right chars : List Char}

private theorem printed_nil : Printed [] := by
  intro c isChar
  cases isChar

private theorem printed_cons : Printed (c :: chars) ↔ isPrintable c = true ∧ Printed chars :=
  List.forall_mem_cons

private theorem printed_append : Printed (left ++ right) ↔ Printed left ∧ Printed right :=
  List.forall_mem_append

private theorem printed_of_all (table : chars.all isPrintable = true) : Printed chars :=
  List.all_eq_true.mp table

private theorem printed_blanks (width : Nat) : Printed (blanks width) := by
  intro c isChar
  rw [List.eq_of_mem_replicate isChar]
  decide

end Laws

/-! ## Texts -/

private theorem printed_singleQuotedFrom
    {chars : List Char}
    (printed : Printed chars)
    (indent : Nat)
    (atStart : Bool) :
    Printed (singleQuotedFrom indent atStart chars) := by
  have margin : ∀ atStart : Bool, Printed (if atStart then blanks indent else []) := by
    intro atStart
    split
    · exact printed_blanks indent
    · exact printed_nil
  have quote : isPrintable '\x27' = true := by decide
  induction chars generalizing atStart with
  | nil => exact printed_append.mpr ⟨margin atStart, printed_cons.mpr ⟨quote, printed_nil⟩⟩
  | cons c chars inductionHypothesis =>
      obtain ⟨here, later⟩ := printed_cons.mp printed
      rw [singleQuotedFrom]
      split
      · exact printed_cons.mpr ⟨here, inductionHypothesis later true⟩
      · refine printed_append.mpr ⟨printed_append.mpr ⟨margin atStart, ?_⟩,
          inductionHypothesis later false⟩
        split
        · exact printed_cons.mpr ⟨quote, printed_cons.mpr ⟨here, printed_nil⟩⟩
        · exact printed_cons.mpr ⟨here, printed_nil⟩

private theorem printed_upperHexadecimal (width n : Nat) :
    Printed (Text.upperHexadecimal width n) := by
  have table : Text.upperDigits.all isPrintable = true := by decide
  exact fun c isDigit => List.all_eq_true.mp table c (Text.mem_upperDigits isDigit)

private theorem printed_escape (c : Char) : Printed (escape c) := by
  have letters : escapeLetters.all (fun entry => isPrintable entry.2) = true := by decide
  unfold escape
  split
  · rename_i found
    have isEntry := List.mem_of_find?_eq_some found
    exact printed_cons.mpr ⟨List.all_eq_true.mp letters _ isEntry, printed_nil⟩
  · split
    · exact printed_cons.mpr ⟨by decide, printed_upperHexadecimal _ _⟩
    · split
      · exact printed_cons.mpr ⟨by decide, printed_upperHexadecimal _ _⟩
      · exact printed_cons.mpr ⟨by decide, printed_upperHexadecimal _ _⟩

private theorem printed_doubleQuoted (chars : List Char) : Printed (doubleQuoted chars) := by
  have quote : isPrintable '\"' = true := by decide
  have inner : Printed (chars.flatMap doubleQuotedChar) := by
    intro c isChar
    obtain ⟨d, -, isWritten⟩ := List.mem_flatMap.mp isChar
    unfold doubleQuotedChar at isWritten
    split at isWritten
    · exact printed_cons.mpr ⟨by decide, printed_escape d⟩ c isWritten
    · rename_i notEscaped
      rw [List.mem_singleton.mp isWritten]
      simp [isEscaped] at notEscaped
      exact notEscaped.1.1.1
  exact printed_append.mpr ⟨printed_cons.mpr ⟨quote, inner⟩, printed_cons.mpr ⟨quote, printed_nil⟩⟩

private theorem printed_literalHeader (chars : List Char) : Printed (literalHeader chars) := by
  have digit : Printed (Text.decimal indentStep) := by
    show Printed ['2']
    exact printed_cons.mpr ⟨by decide, printed_nil⟩
  have sign : Printed (chomping chars) := by
    rw [chomping_eq_sign]
    cases endChomping chars with
    | strip => exact printed_cons.mpr ⟨by decide, printed_nil⟩
    | clip => exact printed_nil
    | keep => exact printed_cons.mpr ⟨by decide, printed_nil⟩
  refine printed_append.mpr ⟨printed_cons.mpr ⟨by decide, ?_⟩, sign⟩
  split
  · exact digit
  · exact printed_nil

private theorem printed_literalLines
    {chars : List Char}
    (printed : Printed chars)
    (indent : Nat)
    (atStart : Bool) :
    Printed (literalLines indent atStart chars) := by
  have newline : isPrintable '\n' = true := by decide
  induction chars generalizing atStart with
  | nil =>
      cases atStart with
      | true => exact printed_nil
      | false => exact printed_cons.mpr ⟨newline, printed_nil⟩
  | cons c chars inductionHypothesis =>
      obtain ⟨here, later⟩ := printed_cons.mp printed
      rw [literalLines]
      split
      · exact printed_cons.mpr ⟨here, inductionHypothesis later true⟩
      · refine printed_append.mpr ⟨?_, printed_cons.mpr ⟨here, inductionHypothesis later false⟩⟩
        split
        · exact printed_blanks indent
        · exact printed_nil

/-- Texts are written with printable characters, whatever they consist of. -/
theorem printed_textForm (indent : Nat) (text : String) : Printed (textForm indent text) := by
  have newline : Printed ['\n'] := printed_cons.mpr ⟨by decide, printed_nil⟩
  unfold textForm
  cases isStyle : style text with
  | plain =>
      obtain ⟨c, chars, isText, start⟩ := plainStart_of_style isStyle
      dsimp only
      rw [isText]
      exact printed_append.mpr ⟨printed_cons.mpr ⟨start.printed, start.rest.printed⟩, newline⟩
  | singleQuoted =>
      obtain ⟨allowed, -⟩ := singleQuoted_of_style isStyle
      have printed : Printed text.toList := by
        simp [allowsSingleQuoted] at allowed
        exact allowed.2
      exact printed_append.mpr ⟨printed_cons.mpr ⟨by decide, printed_singleQuotedFrom printed _ _⟩,
        newline⟩
  | doubleQuoted => exact printed_append.mpr ⟨printed_doubleQuoted _, newline⟩
  | literal =>
      obtain ⟨allowed, -⟩ := literal_of_style isStyle
      have printed : Printed text.toList := by
        simp [allowsLiteral] at allowed
        exact allowed.2
      exact printed_append.mpr ⟨printed_literalHeader _,
        printed_cons.mpr ⟨by decide, printed_literalLines printed _ _⟩⟩

private theorem printed_keyForm (indent : Nat) (key : String) : Printed (keyForm indent key).1 := by
  have form := printed_textForm indent key
  have colon : Printed [':'] := printed_cons.mpr ⟨by decide, printed_nil⟩
  have mark : Printed ['?', ' '] :=
    printed_cons.mpr ⟨by decide, printed_cons.mpr ⟨by decide, printed_nil⟩⟩
  unfold keyForm
  split
  · exact printed_append.mpr ⟨fun c isChar => form c (List.mem_of_mem_dropLast isChar), colon⟩
  · exact printed_append.mpr ⟨printed_append.mpr ⟨printed_append.mpr ⟨mark, form⟩,
      printed_blanks indent⟩, colon⟩

end RunManifest.Yaml

namespace RunManifest.Json

open Yaml

private theorem printed_yamlItems
    {items : List Json}
    (printed : ∀ item ∈ items, ∀ indent sameLine, Printed (item.yamlAfter indent sameLine))
    (indent : Nat) :
    Printed (yamlItems indent items) := by
  induction items with
  | nil => exact printed_nil
  | cons item items inductionHypothesis =>
      obtain ⟨here, later⟩ := List.forall_mem_cons.mp printed
      rw [yamlItems]
      exact printed_append.mpr ⟨printed_append.mpr ⟨printed_blanks indent,
        printed_cons.mpr ⟨by decide, here indent true⟩⟩, inductionHypothesis later⟩

theorem printed_yamlMembers
    {members : List (String × Json)}
    (printed : ∀ member ∈ members, ∀ indent sameLine, Printed (member.2.yamlAfter indent sameLine))
    (indent : Nat) :
    Printed (yamlMembers indent members) := by
  induction members with
  | nil => exact printed_nil
  | cons member members inductionHypothesis =>
      obtain ⟨here, later⟩ := List.forall_mem_cons.mp printed
      rw [yamlMembers]
      exact printed_append.mpr ⟨printed_append.mpr ⟨printed_append.mpr ⟨printed_blanks indent,
        printed_keyForm indent member.1⟩, here indent _⟩, inductionHypothesis later⟩

/-- Values are written with printable characters. -/
theorem printed_yamlAfter (value : Json) (indent : Nat) (sameLine : Bool) :
    Printed (value.yamlAfter indent sameLine) := by
  have space : isPrintable ' ' = true := by decide
  have newline : isPrintable '\n' = true := by decide
  induction value using treeInduction generalizing indent sameLine with
  | null => exact printed_of_all (show " null\n".toList.all isPrintable = true by decide)
  | flag value =>
      have table : (' ' :: flagText value ++ ['\n']).all isPrintable = true := by
        cases value <;> decide
      exact printed_of_all table
  | number value =>
      refine printed_cons.mpr ⟨space, printed_append.mpr ⟨fun c isChar => ?_, ?_⟩⟩
      · exact (isHarmless_of_numeral ((isNumeral_numberForm value).mem c isChar)).printed
      · exact printed_cons.mpr ⟨newline, printed_nil⟩
  | text value => exact printed_cons.mpr ⟨space, printed_textForm indent value⟩
  | array items printedItems =>
      cases items with
      | nil => exact printed_of_all (show " []\n".toList.all isPrintable = true by decide)
      | cons item items =>
          obtain ⟨here, later⟩ := List.forall_mem_cons.mp printedItems
          have hyphen : isPrintable '-' = true := by decide
          rw [yamlAfter]
          split
          · exact printed_append.mpr ⟨printed_cons.mpr ⟨space, printed_cons.mpr ⟨hyphen, here _ _⟩⟩,
              printed_yamlItems later _⟩
          · exact printed_append.mpr ⟨printed_append.mpr ⟨printed_cons.mpr ⟨newline,
              printed_blanks indent⟩, printed_cons.mpr ⟨hyphen, here _ _⟩⟩,
              printed_yamlItems later _⟩
  | object members printedMembers =>
      cases members with
      | nil => exact printed_of_all (show " \x7b\x7d\n".toList.all isPrintable = true by decide)
      | cons member members =>
          obtain ⟨here, later⟩ := List.forall_mem_cons.mp printedMembers
          rw [yamlAfter]
          refine printed_append.mpr ⟨printed_append.mpr ⟨printed_append.mpr ⟨?_,
            printed_keyForm _ member.1⟩, here _ _⟩, printed_yamlMembers later _⟩
          split
          · exact printed_cons.mpr ⟨space, printed_nil⟩
          · exact printed_cons.mpr ⟨newline, printed_blanks _⟩

end RunManifest.Json
