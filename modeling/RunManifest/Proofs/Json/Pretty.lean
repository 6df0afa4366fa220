import RunManifest.Proofs.Json.Opaque
import RunManifest.Proofs.Json.Recognition

/-!
Contract: the text of a value over several lines is a text of the value.

Owns `spells_prettyAt`, for values whose numbers are recovered, and `decode_pretty`.
-/

set_option autoImplicit false

namespace RunManifest.Json

open Document

private theorem blanks_newLine (level : Nat) : Blanks (newLine level) := by
  intro c isChar
  rcases List.mem_cons.mp isChar with rfl | isBlank
  · rfl
  · rw [List.eq_of_mem_replicate isBlank]
    rfl

private theorem spellsString_stringText (value : String) :
    SpellsString value (stringText value) := by
  have scans := scanString_escaped value.toList []
  rw [String.ofList_toList] at scans
  obtain ⟨spelled, same, spells⟩ := spells_of_scanString scans
  rw [List.append_nil] at same
  rw [← same] at spells
  exact spells

/-- The text of a number that is recovered is a text of it. -/
theorem spells_jsonText {value : Number} (recovered : value.reading = some value) :
    Spells (.number value) value.jsonText := by
  obtain ⟨digits, wellFormed, isText⟩ := exists_chars_eq_jsonText value
  have scans := scanNumber_chars wellFormed endsNumber_nil
  rw [List.append_nil, isText] at scans
  rw [Number.reading, scans] at recovered
  obtain ⟨spelled, same, spells⟩ := spells_of_scanNumber scans
  rw [List.append_nil] at same
  rw [same]
  exact .number spells recovered

private theorem reading_of_fits
    {levels : Nat}
    {value : Number}
    (fits : Fits levels (.number value))
    (recovered : (Json.number value).Recovered) :
    value.reading = some value := by
  cases fits with
  | number _ inRange =>
      cases value with
      | integer value => exact Number.reading_integer inRange
      | float value => exact reading_of_recovered (recovered value (by simp))

private theorem spellsItems_pretty
    (level : Nat)
    (closing : List Char)
    (blankClosing : Blanks closing)
    (items : List Json)
    (item : Json)
    (spells : ∀ other ∈ item :: items, Spells other (other.prettyAt level)) :
    SpellsItems (item :: items)
      (newLine level ++ (item.prettyAt level ++ (prettyItemsAfter level items ++ closing))) := by
  induction items generalizing item with
  | nil => exact .last (blanks_newLine level) (spells item (by simp)) blankClosing
  | cons next others inductionHypothesis =>
      have later := inductionHypothesis next fun other isItem => spells other (by simp [isItem])
      have shape : prettyItemsAfter level (next :: others) ++ closing =
          [] ++ ',' :: (newLine level ++
            (next.prettyAt level ++ (prettyItemsAfter level others ++ closing))) := by
        simp [prettyItemsAfter]
      rw [shape]
      exact .next (blanks_newLine level) (spells item (by simp)) blanks_nil later

private theorem spellsMembers_pretty
    (level : Nat)
    (closing : List Char)
    (blankClosing : Blanks closing)
    (members : List (String × Json))
    (member : String × Json)
    (spells : ∀ other ∈ member :: members, Spells other.2 (other.2.prettyAt level)) :
    SpellsMembers (member :: members)
      (newLine level ++ (stringText member.1 ++ ([] ++ ':' :: ([' '] ++
        (member.2.prettyAt level ++ (prettyMembersAfter level members ++ closing)))))) := by
  have oneBlank : Blanks [' '] := by simp [Blanks, isBlank]
  induction members generalizing member with
  | nil =>
      exact .last (blanks_newLine level) (spellsString_stringText member.1) blanks_nil oneBlank
        (spells member (by simp)) blankClosing
  | cons next others inductionHypothesis =>
      have later := inductionHypothesis next fun other isMember => spells other (by simp [isMember])
      have shape : prettyMembersAfter level (next :: others) ++ closing =
          [] ++ ',' :: (newLine level ++ (stringText next.1 ++ ([] ++ ':' :: ([' '] ++
            (next.2.prettyAt level ++ (prettyMembersAfter level others ++ closing)))))) := by
        simp [prettyMembersAfter]
      rw [shape]
      exact .next (blanks_newLine level) (spellsString_stringText member.1) blanks_nil oneBlank
        (spells member (by simp)) blanks_nil later

/-- The text over several lines is a text of the value, at any level of indentation. -/
theorem spells_prettyAt
    {levels : Nat}
    {value : Json}
    (fits : Fits levels value)
    (recovered : value.Recovered)
    (level : Nat) :
    Spells value (value.prettyAt level) := by
  unfold Recovered at recovered
  induction fits generalizing level with
  | null =>
      rw [prettyAt]
      exact .null
  | flag _ value =>
      rw [prettyAt]
      exact .flag value
  | number levels inRange =>
      rw [prettyAt]
      exact spells_jsonText (reading_of_fits (.number levels inRange) recovered)
  | text _ value =>
      rw [prettyAt]
      exact .text (spellsString_stringText value)
  | @array levels items _ inductionHypothesis =>
      simp only [floats, itemFloats_eq_flatMap, List.mem_flatMap] at recovered
      cases items with
      | nil =>
          rw [prettyAt]
          exact .emptyArray blanks_nil
      | cons item others =>
          have spells := spellsItems_pretty (level + 1) (newLine level) (blanks_newLine level)
            others item fun other isItem => inductionHypothesis other isItem
              (fun x occurs => recovered x ⟨other, isItem, occurs⟩) (level + 1)
          have shape := Spells.array spells
          simp only [List.append_assoc] at shape
          simpa only [prettyAt, List.append_assoc, List.cons_append] using shape
  | @object levels members _ inductionHypothesis =>
      simp only [floats, memberFloats_eq_flatMap, List.mem_flatMap] at recovered
      cases members with
      | nil =>
          rw [prettyAt]
          exact .emptyObject blanks_nil
      | cons member others =>
          have spells := spellsMembers_pretty (level + 1) (newLine level) (blanks_newLine level)
            others member fun other isMember => inductionHypothesis other isMember
              (fun x occurs => recovered x ⟨other, isMember, occurs⟩) (level + 1)
          have shape := Spells.object spells
          simp only [List.append_assoc] at shape
          simpa only [prettyAt, List.append_assoc, List.cons_append, List.nil_append] using shape

/-- Reading the text over several lines is reading the value. -/
theorem decode_pretty
    {α : Type}
    (read : Nat → Node → Except Problem α)
    {levels : Nat}
    {value : Json}
    (fits : Fits levels value)
    (recovered : value.Recovered) :
    decode read (String.ofList value.pretty) = read Json.levels (value.node some) := by
  have spells := SpellsText.mk blanks_nil (spells_prettyAt fits recovered 0) blanks_nil
  rw [List.nil_append, List.append_nil] at spells
  exact decode_of_spells read spells

end RunManifest.Json
