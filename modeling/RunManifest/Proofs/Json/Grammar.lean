import RunManifest.Proofs.Json.Spelling
import RunManifest.Proofs.Json.Steps

/-!
Contract: the texts of JSON values, in all their spellings.

Owns:
- `SpellsNumber` and `SpellsString`, the spellings of numbers and strings: a character may be
  escaped or not, in a short form or by its UTF-16 units;
- `Spells`, the texts of a value, with blanks between their parts, and `SpellsText`, the same with
  blanks around them;
- `decode_of_spells`, every text of a value is read as that value.
-/

set_option autoImplicit false

namespace RunManifest.Json

open Text

/-! ## The grammar -/

/-- A text of nothing but blanks. -/
def Blanks (text : List Char) : Prop :=
  ∀ c ∈ text, isBlank c = true

theorem blanks_nil : Blanks [] := by
  simp [Blanks]

/-- The spellings of an optional exponent. -/
inductive SpellsExponent : Option (Bool × List Char) → List Char → Prop where
  | absent : SpellsExponent none []
  | unsigned
      {mark : Char}
      (isMark : mark = 'e' ∨ mark = 'E')
      (digits : List Char) :
      SpellsExponent (some (false, digits)) (mark :: digits)
  | signed
      {mark : Char}
      (isMark : mark = 'e' ∨ mark = 'E')
      (negative : Bool)
      (digits : List Char) :
      SpellsExponent (some (negative, digits)) (mark :: (if negative then '-' else '+') :: digits)

/-- The spellings of a number. -/
inductive SpellsNumber (number : NumberText) : List Char → Prop where
  | mk
      {exponent : List Char}
      (wellFormed : number.WellFormed)
      (spells : SpellsExponent number.exponent exponent) :
      SpellsNumber number ((if number.negative then ['-'] else []) ++
        (number.whole ++ (fractionChars number.fraction ++ exponent)))

/-- The letters of short escapes and the characters they stand for. -/
def shortEscapes : List (Char × Char) :=
  [('\"', '\"'), ('\\', '\\'), ('/', '/'), ('b', '\x08'), ('f', '\x0c'), ('n', '\n'), ('r', '\r'),
    ('t', '\t')]

/-- The spellings of characters between quotes. -/
inductive SpellsChars : List Char → List Char → Prop where
  | nil : SpellsChars [] []
  | plain
      {c : Char}
      {chars text : List Char}
      (isPlain : Plain c)
      (spells : SpellsChars chars text) :
      SpellsChars (c :: chars) (c :: text)
  | short
      {letter c : Char}
      {chars text : List Char}
      (isEscape : (letter, c) ∈ shortEscapes)
      (spells : SpellsChars chars text) :
      SpellsChars (c :: chars) ('\\' :: letter :: text)
  | unit
      {first second third fourth c : Char}
      {chars text : List Char}
      (isCode : hexadecimalValue? [first, second, third, fourth] = some c.toNat)
      (spells : SpellsChars chars text) :
      SpellsChars (c :: chars) ('\\' :: 'u' :: first :: second :: third :: fourth :: text)
  | pair
      {first second third fourth fifth sixth seventh eighth c : Char}
      {chars text : List Char}
      (isLarge : 0x10000 ≤ c.toNat)
      (isLeading : hexadecimalValue? [first, second, third, fourth] =
        some (0xD800 + (c.toNat - 0x10000) / 0x400))
      (isTrailing : hexadecimalValue? [fifth, sixth, seventh, eighth] =
        some (0xDC00 + (c.toNat - 0x10000) % 0x400))
      (spells : SpellsChars chars text) :
      SpellsChars (c :: chars)
        ('\\' :: 'u' :: first :: second :: third :: fourth ::
          '\\' :: 'u' :: fifth :: sixth :: seventh :: eighth :: text)

/-- The spellings of a string. -/
inductive SpellsString (value : String) : List Char → Prop where
  | mk {text : List Char} (spells : SpellsChars value.toList text) :
      SpellsString value ('\"' :: (text ++ ['\"']))

mutual

/-- The texts of a value. -/
inductive Spells : Json → List Char → Prop where
  | null : Spells .null "null".toList
  | flag (value : Bool) : Spells (.flag value) (if value then "true".toList else "false".toList)
  | number
      {digits : NumberText}
      {value : Number}
      {text : List Char}
      (spells : SpellsNumber digits text)
      (isValue : digits.toNumber? = some value) :
      Spells (.number value) text
  | text
      {value : String}
      {text : List Char}
      (spells : SpellsString value text) :
      Spells (.text value) text
  | emptyArray {blanks : List Char} (areBlank : Blanks blanks) :
      Spells (.array []) ('[' :: (blanks ++ [']']))
  | array
      {items : List Json}
      {text : List Char}
      (spells : SpellsItems items text) :
      Spells (.array items) ('[' :: (text ++ [']']))
  | emptyObject {blanks : List Char} (areBlank : Blanks blanks) :
      Spells (.object []) ('\x7b' :: (blanks ++ ['\x7d']))
  | object
      {members : List (String × Json)}
      {text : List Char}
      (spells : SpellsMembers members text) :
      Spells (.object members) ('\x7b' :: (text ++ ['\x7d']))

/-- The texts of one value or more between brackets. -/
inductive SpellsItems : List Json → List Char → Prop where
  | last
      {item : Json}
      {before text after : List Char}
      (blankBefore : Blanks before)
      (spells : Spells item text)
      (blankAfter : Blanks after) :
      SpellsItems [item] (before ++ (text ++ after))
  | next
      {item : Json}
      {items : List Json}
      {before text after rest : List Char}
      (blankBefore : Blanks before)
      (spells : Spells item text)
      (blankAfter : Blanks after)
      (others : SpellsItems items rest) :
      SpellsItems (item :: items) (before ++ (text ++ (after ++ ',' :: rest)))

/-- The texts of one member or more between braces. -/
inductive SpellsMembers : List (String × Json) → List Char → Prop where
  | last
      {key : String}
      {value : Json}
      {before keyText middle between text after : List Char}
      (blankBefore : Blanks before)
      (spellsKey : SpellsString key keyText)
      (blankMiddle : Blanks middle)
      (blankBetween : Blanks between)
      (spells : Spells value text)
      (blankAfter : Blanks after) :
      SpellsMembers [(key, value)]
        (before ++ (keyText ++ (middle ++ ':' :: (between ++ (text ++ after)))))
  | next
      {key : String}
      {value : Json}
      {members : List (String × Json)}
      {before keyText middle between text after rest : List Char}
      (blankBefore : Blanks before)
      (spellsKey : SpellsString key keyText)
      (blankMiddle : Blanks middle)
      (blankBetween : Blanks between)
      (spells : Spells value text)
      (blankAfter : Blanks after)
      (others : SpellsMembers members rest) :
      SpellsMembers ((key, value) :: members)
        (before ++ (keyText ++ (middle ++ ':' :: (between ++ (text ++ (after ++ ',' :: rest))))))

end

/-- The texts of a value with blanks around it. -/
inductive SpellsText (value : Json) : List Char → Prop where
  | mk
      {before text after : List Char}
      (blankBefore : Blanks before)
      (spells : Spells value text)
      (blankAfter : Blanks after) :
      SpellsText value (before ++ (text ++ after))

/-! ## Numbers -/

theorem SpellsExponent.stopsDigits
    {exponent : Option (Bool × List Char)}
    {text rest : List Char}
    (spells : SpellsExponent exponent text)
    (ends : EndsNumber rest) :
    StopsDigits (text ++ rest) ∧ (text ++ rest).head? ≠ some '.' := by
  cases spells with
  | absent => exact ⟨ends.stopsDigits, fun isPoint => (ends '.' isPoint).2.1 rfl⟩
  | unsigned isMark digits =>
      rcases isMark with rfl | rfl <;> simp
  | signed isMark negative digits =>
      rcases isMark with rfl | rfl <;> simp

theorem SpellsExponent.scans
    {exponent : Option (Bool × List Char)}
    {text rest : List Char}
    (spells : SpellsExponent exponent text)
    (areDigits : ∀ part, exponent = some part → AreDigits part.2)
    (ends : EndsNumber rest) :
    scanExponent (text ++ rest) = .ok (exponent, rest) := by
  cases spells with
  | absent => exact scanExponent_append none areDigits ends
  | unsigned isMark digits =>
      have digitsHere := areDigits _ rfl
      rw [List.cons_append, scanExponent_cons isMark, exponentSign_of_digits digitsHere,
        someDigits_append digitsHere ends.stopsDigits]
      rfl
  | signed isMark negative digits =>
      have scanned := someDigits_append (areDigits _ rfl) ends.stopsDigits
      have sign : exponentSign ((if negative then '-' else '+') :: (digits ++ rest)) =
          (negative, digits ++ rest) := by
        cases negative <;> rfl
      rw [List.cons_append, List.cons_append, scanExponent_cons isMark, sign, scanned]
      rfl

theorem SpellsNumber.scans
    {number : NumberText}
    {text rest : List Char}
    (spells : SpellsNumber number text)
    (ends : EndsNumber rest) :
    scanNumber (text ++ rest) = .ok (number, rest) := by
  cases spells with
  | mk wellFormed spells =>
      obtain ⟨stops, noPoint⟩ := spells.stopsDigits ends
      simp only [List.append_assoc]
      exact scanNumber_of_parts wellFormed stops noPoint (spells.scans wellFormed.exponent ends)

/-! ## Strings -/

theorem shortEscape?_of_mem {letter c : Char} (isEscape : (letter, c) ∈ shortEscapes) :
    shortEscape? letter = some c := by
  simp only [shortEscapes, List.mem_cons, Prod.mk.injEq, List.not_mem_nil, or_false] at isEscape
  rcases isEscape with ⟨rfl, rfl⟩ | ⟨rfl, rfl⟩ | ⟨rfl, rfl⟩ | ⟨rfl, rfl⟩ | ⟨rfl, rfl⟩ | ⟨rfl, rfl⟩ |
    ⟨rfl, rfl⟩ | ⟨rfl, rfl⟩ <;> rfl

/-- The number of a character is no surrogate. -/
theorem not_surrogate (c : Char) : isLeading c.toNat = false ∧ isTrailing c.toNat = false := by
  have isValid : c.toNat < 0xD800 ∨ 0xDFFF < c.toNat ∧ c.toNat < 0x110000 := c.valid
  simp only [isLeading, isTrailing, Bool.and_eq_false_iff, decide_eq_false_iff_not]
  omega

/-- The units of a large character make a pair, and the pair makes the character. -/
theorem assemble_pair {c : Char} (isLarge : 0x10000 ≤ c.toNat) (pieces : List Piece) :
    assemble (.unit (0xD800 + (c.toNat - 0x10000) / 0x400) ::
        .unit (0xDC00 + (c.toNat - 0x10000) % 0x400) :: pieces) =
      (assemble pieces).map (c :: ·) := by
  have isValid : c.toNat < 0xD800 ∨ 0xDFFF < c.toNat ∧ c.toNat < 0x110000 := c.valid
  have leading : isLeading (0xD800 + (c.toNat - 0x10000) / 0x400) = true := by
    simp only [isLeading, Bool.and_eq_true, decide_eq_true_eq]
    omega
  have trailing : isTrailing (0xDC00 + (c.toNat - 0x10000) % 0x400) = true := by
    simp only [isTrailing, Bool.and_eq_true, decide_eq_true_eq]
    omega
  have isChar : pairedChar (0xD800 + (c.toNat - 0x10000) / 0x400)
      (0xDC00 + (c.toNat - 0x10000) % 0x400) = c := by
    have code : (0xD800 + (c.toNat - 0x10000) / 0x400 - 0xD800) * 0x400 +
        (0xDC00 + (c.toNat - 0x10000) % 0x400 - 0xDC00) + 0x10000 = c.toNat := by
      omega
    rw [pairedChar, code, Char.ofNat_toNat]
  rw [assemble, if_pos leading, if_pos trailing, isChar]

theorem SpellsChars.scanned
    {chars text : List Char}
    (spells : SpellsChars chars text)
    (rest : List Char) :
    ∃ pieces, Scanned (text ++ '\"' :: rest) pieces rest ∧ assemble pieces = .ok chars := by
  induction spells with
  | nil => exact ⟨[], .quote rest, rfl⟩
  | @plain c chars text isPlain _ inductionHypothesis =>
      obtain ⟨pieces, scanned, assembled⟩ := inductionHypothesis
      exact ⟨.char c :: pieces, .plain isPlain scanned, by rw [assemble, assembled]; rfl⟩
  | @short letter c chars text isEscape _ inductionHypothesis =>
      obtain ⟨pieces, scanned, assembled⟩ := inductionHypothesis
      exact ⟨.char c :: pieces, .short (shortEscape?_of_mem isEscape) scanned,
        by rw [assemble, assembled]; rfl⟩
  | @unit first second third fourth c chars text isCode _ inductionHypothesis =>
      obtain ⟨pieces, scanned, assembled⟩ := inductionHypothesis
      refine ⟨.unit c.toNat :: pieces, .unit isCode scanned, ?_⟩
      rw [assemble_unit (not_surrogate c).1 (not_surrogate c).2, assembled, Char.ofNat_toNat]
      rfl
  | @pair first second third fourth fifth sixth seventh eighth c chars text isLarge leading trailing
      _ inductionHypothesis =>
      obtain ⟨pieces, scanned, assembled⟩ := inductionHypothesis
      refine ⟨_, .unit leading (.unit trailing scanned), ?_⟩
      rw [assemble_pair isLarge, assembled]
      rfl

theorem SpellsString.eq_cons
    {value : String}
    {text : List Char}
    (spells : SpellsString value text) :
    ∃ body, text = '\"' :: body := by
  cases spells with
  | mk spells => exact ⟨_, rfl⟩

theorem SpellsString.scans
    {value : String}
    {text : List Char}
    (spells : SpellsString value text)
    (rest : List Char) :
    ∃ body, text ++ rest = '\"' :: body ∧ scanString body = .ok (.ok value, rest) := by
  cases spells with
  | @mk text spells =>
      obtain ⟨pieces, scanned, assembled⟩ := spells.scanned rest
      refine ⟨text ++ '\"' :: rest, by simp, ?_⟩
      simp only [scanString, scanned.scanPieces_eq, assembled, Except.map, String.ofList_toList]

/-! ## Fronts of texts -/

theorem skipBlanks_of_blanks {blanks : List Char} (areBlank : Blanks blanks) (text : List Char) :
    skipBlanks (blanks ++ text) = skipBlanks text :=
  List.dropWhile_append_of_pos areBlank

theorem readNode_of_blanks
    {blanks : List Char}
    (areBlank : Blanks blanks)
    (fuel : Nat)
    (text : List Char) :
    readNode fuel (blanks ++ text) = readNode fuel text := by
  cases fuel with
  | zero => rfl
  | succ fuel => rw [readNode, readNode, skipBlanks_of_blanks areBlank]

theorem endsNumber_of_blanks
    {blanks rest : List Char}
    (areBlank : Blanks blanks)
    (ends : EndsNumber rest) :
    EndsNumber (blanks ++ rest) := by
  cases blanks with
  | nil => exact ends
  | cons c others =>
      have isBlank := areBlank c (by simp)
      simp only [Json.isBlank, Bool.or_eq_true, beq_iff_eq] at isBlank
      rw [List.cons_append, endsNumber_cons]
      rcases isBlank with ((rfl | rfl) | rfl) | rfl <;> decide

private theorem skipBlanks_cons {c : Char} (notBlank : isBlank c = false) (rest : List Char) :
    skipBlanks (c :: rest) = c :: rest := by
  simp [skipBlanks, notBlank]

/-- The text of a number begins with a sign or a digit. -/
theorem SpellsNumber.eq_cons
    {number : NumberText}
    {text : List Char}
    (spells : SpellsNumber number text) :
    ∃ c rest, text = c :: rest ∧ (c = '-' ∨ c.isDigit = true) := by
  cases spells with
  | mk wellFormed spells =>
      obtain ⟨first, others, isWhole⟩ := List.exists_cons_of_ne_nil wellFormed.whole.1
      have isDigit := wellFormed.whole.2 first (by simp [isWhole])
      cases number.negative with
      | true => exact ⟨'-', _, rfl, .inl rfl⟩
      | false => exact ⟨first, _, by rw [isWhole]; rfl, .inr isDigit⟩

private theorem not_blank_of_number {c : Char} (starts : c = '-' ∨ c.isDigit = true) :
    isBlank c = false ∧ c ≠ ']' := by
  rcases starts with rfl | isDigit
  · decide
  · simp only [isBlank, Bool.or_eq_false_iff, beq_eq_false_iff_ne]
    refine ⟨⟨⟨⟨?_, ?_⟩, ?_⟩, ?_⟩, ?_⟩ <;> (rintro rfl; exact absurd isDigit (by decide))

/-- The text of a value is not empty, and begins neither with a blank nor with the end of an
array. -/
theorem Spells.eq_cons
    {value : Json}
    {text : List Char}
    (spells : Spells value text) :
    ∃ c rest, text = c :: rest ∧ isBlank c = false ∧ c ≠ ']' := by
  cases spells with
  | null => exact ⟨_, _, rfl, by decide, by decide⟩
  | flag value => cases value <;> exact ⟨_, _, rfl, by decide, by decide⟩
  | number spells =>
      obtain ⟨c, rest, same, starts⟩ := spells.eq_cons
      exact ⟨c, rest, same, not_blank_of_number starts⟩
  | text spells =>
      obtain ⟨body, same⟩ := spells.eq_cons
      exact ⟨_, _, same, by decide, by decide⟩
  | emptyArray => exact ⟨_, _, rfl, by decide, by decide⟩
  | array => exact ⟨_, _, rfl, by decide, by decide⟩
  | emptyObject => exact ⟨_, _, rfl, by decide, by decide⟩
  | object => exact ⟨_, _, rfl, by decide, by decide⟩

/-! ## Reading -/

/-- A text is read to its end as a value. Twice its length is enough for the nested steps. -/
def ReadsAs (value : Json) (text : List Char) : Prop :=
  ∀ fuel rest, 2 * text.length ≤ fuel → EndsNumber rest →
    readNode fuel (text ++ rest) = (value.node some, some rest)

private theorem readItems_of_spells
    {items : List Json}
    (each : ∀ item ∈ items, ∀ text, Spells item text → ReadsAs item text)
    {text : List Char}
    (spells : SpellsItems items text)
    (fuel : Nat)
    (rest : List Char)
    (enough : 2 * text.length + 1 ≤ fuel) :
    readItems fuel (text ++ ']' :: rest) = ⟨items.map (node some), none, some rest⟩ := by
  induction items generalizing text fuel with
  | nil => cases spells
  | cons item items inductionHypothesis =>
      obtain ⟨fuel, rfl⟩ : ∃ smaller, fuel = smaller + 1 := ⟨fuel - 1, by omega⟩
      rw [List.forall_mem_cons] at each
      cases spells with
      | @last _ before text after blankBefore spells blankAfter =>
          have reads : readNode fuel (before ++ (text ++ after) ++ ']' :: rest) =
              (item.node some, some (after ++ ']' :: rest)) := by
            simp only [List.append_assoc, List.length_append] at enough ⊢
            rw [readNode_of_blanks blankBefore]
            exact each.1 text spells fuel _ (by omega)
              (endsNumber_of_blanks blankAfter (by simp))
          have front : skipBlanks (after ++ ']' :: rest) = ']' :: rest := by
            rw [skipBlanks_of_blanks blankAfter]
            rfl
          rw [readItems_of_item reads, readAfterItem_of_close front]
          rfl
      | @next _ _ before text after others blankBefore spells blankAfter spellsOthers =>
          have reads : readNode fuel (before ++ (text ++ (after ++ ',' :: others)) ++ ']' :: rest) =
              (item.node some, some (after ++ ',' :: (others ++ ']' :: rest))) := by
            simp only [List.append_assoc, List.length_append, List.cons_append] at enough ⊢
            rw [readNode_of_blanks blankBefore]
            exact each.1 text spells fuel _ (by omega)
              (endsNumber_of_blanks blankAfter (by simp))
          have readsOthers := inductionHypothesis each.2 spellsOthers fuel (by
            simp only [List.length_append, List.length_cons] at enough
            omega)
          have front : skipBlanks (after ++ ',' :: (others ++ ']' :: rest)) =
              ',' :: (others ++ ']' :: rest) := by
            rw [skipBlanks_of_blanks blankAfter]
            rfl
          rw [readItems_of_item reads, readAfterItem_of_comma front, readsOthers]
          rfl

/-- A member is read up to the end of its value. -/
theorem readMembers_of_spelled
    {key : String}
    {value : Node}
    {before keyText middle between text after : List Char}
    (blankBefore : Blanks before)
    (spellsKey : SpellsString key keyText)
    (blankMiddle : Blanks middle)
    (blankBetween : Blanks between)
    {fuel : Nat}
    (reads : readNode fuel text = (value, some after)) :
    readMembers (fuel + 1) (before ++ (keyText ++ (middle ++ ':' :: (between ++ text)))) =
      readAfterMember fuel (.ok key) value after := by
  obtain ⟨body, isQuoted, scans⟩ := spellsKey.scans (middle ++ ':' :: (between ++ text))
  have front : skipBlanks (before ++ (keyText ++ (middle ++ ':' :: (between ++ text)))) =
      '\"' :: body := by
    rw [skipBlanks_of_blanks blankBefore, isQuoted]
    rfl
  have colon : skipBlanks (middle ++ ':' :: (between ++ text)) = ':' :: (between ++ text) := by
    rw [skipBlanks_of_blanks blankMiddle]
    rfl
  rw [readMembers_of_key front scans]
  exact readAfterKey_of_value colon (by rwa [readNode_of_blanks blankBetween])

private theorem readMembers_of_spells
    {members : List (String × Json)}
    (each : ∀ member ∈ members, ∀ text, Spells member.2 text → ReadsAs member.2 text)
    {text : List Char}
    (spells : SpellsMembers members text)
    (fuel : Nat)
    (rest : List Char)
    (enough : 2 * text.length + 1 ≤ fuel) :
    readMembers fuel (text ++ '\x7d' :: rest) =
      ⟨members.map fun member => (.ok member.1, member.2.node some), none, some rest⟩ := by
  induction members generalizing text fuel with
  | nil => cases spells
  | cons member members inductionHypothesis =>
      obtain ⟨fuel, rfl⟩ : ∃ smaller, fuel = smaller + 1 := ⟨fuel - 1, by omega⟩
      rw [List.forall_mem_cons] at each
      cases spells with
      | @last key value before keyText middle between text after blankBefore spellsKey blankMiddle
          blankBetween spells blankAfter =>
          simp only [List.append_assoc, List.cons_append, List.length_append, List.length_cons]
            at enough ⊢
          have reads := each.1 text spells fuel (after ++ '\x7d' :: rest) (by omega)
            (endsNumber_of_blanks blankAfter (by simp))
          have front : skipBlanks (after ++ '\x7d' :: rest) = '\x7d' :: rest := by
            rw [skipBlanks_of_blanks blankAfter]
            rfl
          rw [readMembers_of_spelled blankBefore spellsKey blankMiddle blankBetween reads,
            readAfterMember_of_close front]
          rfl
      | @next key value _ before keyText middle between text after others blankBefore spellsKey
          blankMiddle blankBetween spells blankAfter spellsOthers =>
          simp only [List.append_assoc, List.cons_append, List.length_append, List.length_cons]
            at enough ⊢
          have reads := each.1 text spells fuel (after ++ ',' :: (others ++ '\x7d' :: rest)) (by omega)
            (endsNumber_of_blanks blankAfter (by simp))
          have front : skipBlanks (after ++ ',' :: (others ++ '\x7d' :: rest)) =
              ',' :: (others ++ '\x7d' :: rest) := by
            rw [skipBlanks_of_blanks blankAfter]
            rfl
          rw [readMembers_of_spelled blankBefore spellsKey blankMiddle blankBetween reads,
            readAfterMember_of_comma front,
            inductionHypothesis each.2 spellsOthers fuel (by omega)]
          rfl

private theorem SpellsItems.eq_blanks_append
    {items : List Json}
    {text : List Char}
    (spells : SpellsItems items text) :
    ∃ before c rest, Blanks before ∧ text = before ++ c :: rest ∧ isBlank c = false ∧ c ≠ ']' := by
  cases spells with
  | last blankBefore spells =>
      obtain ⟨c, rest, rfl, front⟩ := spells.eq_cons
      exact ⟨_, c, _, blankBefore, rfl, front⟩
  | next blankBefore spells =>
      obtain ⟨c, rest, rfl, front⟩ := spells.eq_cons
      exact ⟨_, c, _, blankBefore, rfl, front⟩

private theorem SpellsMembers.eq_blanks_append
    {members : List (String × Json)}
    {text : List Char}
    (spells : SpellsMembers members text) :
    ∃ before rest, Blanks before ∧ text = before ++ '\"' :: rest := by
  cases spells with
  | last blankBefore spellsKey =>
      obtain ⟨body, rfl⟩ := spellsKey.eq_cons
      exact ⟨_, _, blankBefore, rfl⟩
  | next blankBefore spellsKey =>
      obtain ⟨body, rfl⟩ := spellsKey.eq_cons
      exact ⟨_, _, blankBefore, rfl⟩

/-- Leading blanks are passed over in front of items and members, too. -/
theorem readItems_of_blanks
    {blanks : List Char}
    (areBlank : Blanks blanks)
    (fuel : Nat)
    (text : List Char) :
    readItems fuel (blanks ++ text) = readItems fuel text := by
  cases fuel with
  | zero => rfl
  | succ fuel =>
      rw [readItems, readItems, readNode_of_blanks areBlank, skipBlanks_of_blanks areBlank]

theorem readMembers_of_blanks
    {blanks : List Char}
    (areBlank : Blanks blanks)
    (fuel : Nat)
    (text : List Char) :
    readMembers fuel (blanks ++ text) = readMembers fuel text := by
  cases fuel with
  | zero => rfl
  | succ fuel => rw [readMembers, readMembers, skipBlanks_of_blanks areBlank]

theorem readNode_of_bracket (fuel : Nat) (text : List Char) :
    readNode (fuel + 1) ('[' :: text) = readArray fuel text := by
  have front : skipBlanks ('[' :: text) = '[' :: text := rfl
  exact readNode_of_front front fuel

theorem readNode_of_brace (fuel : Nat) (text : List Char) :
    readNode (fuel + 1) ('\x7b' :: text) = readObject fuel text := by
  have front : skipBlanks ('\x7b' :: text) = '\x7b' :: text := rfl
  exact readNode_of_front front fuel

/-- An array is read to its end, and so is an object. -/
theorem readNode_of_spellsItems
    {items : List Json}
    (each : ∀ item ∈ items, ∀ text, Spells item text → ReadsAs item text)
    {text : List Char}
    (spells : SpellsItems items text)
    {fuel : Nat}
    (enough : 2 * text.length + 1 ≤ fuel)
    (rest : List Char) :
    readNode (fuel + 1) ('[' :: (text ++ ']' :: rest)) = ((array items).node some, some rest) := by
  have reads := readItems_of_spells each spells fuel rest enough
  obtain ⟨before, c, others, blankBefore, rfl, notBlank, notClose⟩ := spells.eq_blanks_append
  rw [List.append_assoc] at reads ⊢
  have front : skipBlanks (before ++ (c :: others ++ ']' :: rest)) =
      c :: (others ++ ']' :: rest) := by
    rw [skipBlanks_of_blanks blankBefore]
    exact skipBlanks_cons notBlank _
  rw [readItems_of_blanks blankBefore, List.cons_append] at reads
  rw [readNode_of_bracket, readArray_of_items front notClose, reads]
  simp

private theorem readNode_of_spellsMembers
    {members : List (String × Json)}
    (each : ∀ member ∈ members, ∀ text, Spells member.2 text → ReadsAs member.2 text)
    {text : List Char}
    (spells : SpellsMembers members text)
    {fuel : Nat}
    (enough : 2 * text.length + 1 ≤ fuel)
    (rest : List Char) :
    readNode (fuel + 1) ('\x7b' :: (text ++ '\x7d' :: rest)) =
      ((object members).node some, some rest) := by
  have reads := readMembers_of_spells each spells fuel rest enough
  obtain ⟨before, others, blankBefore, rfl⟩ := spells.eq_blanks_append
  rw [List.append_assoc] at reads ⊢
  have front : skipBlanks (before ++ ('\"' :: others ++ '\x7d' :: rest)) =
      '\"' :: (others ++ '\x7d' :: rest) := by
    rw [skipBlanks_of_blanks blankBefore]
    rfl
  rw [readMembers_of_blanks blankBefore, List.cons_append] at reads
  rw [readNode_of_brace, readObject_of_members front (by decide), reads]
  simp

/-- Every text of a value is read as that value. -/
theorem readsAs_of_spells (value : Json) :
    ∀ text, Spells value text → ReadsAs value text := by
  induction value using treeInduction with
  | null =>
      intro text spells fuel rest enough _
      cases spells
      obtain ⟨fuel, rfl⟩ : ∃ smaller, fuel = smaller + 1 := ⟨fuel - 1, by simp at enough; omega⟩
      rfl
  | flag value =>
      intro text spells fuel rest enough _
      cases spells
      obtain ⟨fuel, rfl⟩ : ∃ smaller, fuel = smaller + 1 :=
        ⟨fuel - 1, by cases value <;> simp at enough <;> omega⟩
      cases value <;> rfl
  | number value =>
      intro text spells fuel rest enough ends
      cases spells with
      | @number digits _ _ spells isValue =>
          obtain ⟨c, others, rfl, starts⟩ := spells.eq_cons
          obtain ⟨fuel, rfl⟩ : ∃ smaller, fuel = smaller + 1 := ⟨fuel - 1, by simp at enough; omega⟩
          have scans := spells.scans ends
          rw [List.cons_append] at scans
          rw [List.cons_append, readNode_of_number starts, readNumber, scans]
          simp [isValue]
  | text value =>
      intro text spells fuel rest enough _
      cases spells with
      | text spells =>
          obtain ⟨body, isQuoted, scans⟩ := spells.scans rest
          obtain ⟨front, rfl⟩ := spells.eq_cons
          obtain ⟨fuel, rfl⟩ : ∃ smaller, fuel = smaller + 1 := ⟨fuel - 1, by simp at enough; omega⟩
          rw [isQuoted, readNode_of_quote, readText, scans]
          rfl
  | array items inductionHypothesis =>
      intro text spells fuel rest enough _
      obtain ⟨fuel, rfl⟩ : ∃ smaller, fuel = smaller + 1 := by
        obtain ⟨c, others, rfl, -⟩ := spells.eq_cons
        exact ⟨fuel - 1, by simp at enough; omega⟩
      cases spells with
      | @emptyArray blanks areBlank =>
          have front : skipBlanks (blanks ++ ']' :: rest) = ']' :: rest := by
            rw [skipBlanks_of_blanks areBlank]
            rfl
          rw [List.cons_append, List.append_assoc, readNode_of_bracket]
          exact readArray_of_close front fuel
      | @array _ text spells =>
          rw [List.cons_append, List.append_assoc]
          exact readNode_of_spellsItems inductionHypothesis spells (by simp at enough; omega) rest
  | object members inductionHypothesis =>
      intro text spells fuel rest enough _
      obtain ⟨fuel, rfl⟩ : ∃ smaller, fuel = smaller + 1 := by
        obtain ⟨c, others, rfl, -⟩ := spells.eq_cons
        exact ⟨fuel - 1, by simp at enough; omega⟩
      cases spells with
      | @emptyObject blanks areBlank =>
          have front : skipBlanks (blanks ++ '\x7d' :: rest) = '\x7d' :: rest := by
            rw [skipBlanks_of_blanks areBlank]
            rfl
          rw [List.cons_append, List.append_assoc, readNode_of_brace]
          exact readObject_of_close front fuel
      | @object _ text spells =>
          rw [List.cons_append, List.append_assoc]
          exact readNode_of_spellsMembers inductionHypothesis spells (by simp at enough; omega) rest

/-- The tree of a value is read from its texts. -/
theorem nodeOf_of_spells
    {value : Json}
    {text : List Char}
    (spells : SpellsText value text) :
    ∃ rest, nodeOf text = (value.node some, some rest) ∧ skipBlanks rest = [] := by
  cases spells with
  | @mk before text after blankBefore spells blankAfter =>
      have ends : EndsNumber after := by
        have atEnd := endsNumber_of_blanks blankAfter endsNumber_nil
        rwa [List.append_nil] at atEnd
      refine ⟨after, ?_, List.dropWhile_eq_nil_iff.mpr blankAfter⟩
      rw [nodeOf, readNode_of_blanks blankBefore]
      exact readsAs_of_spells value text spells _ after (by simp; omega) ends

/-- Reading a text of a value is reading the value. -/
theorem decode_of_spells
    {α : Type}
    (read : Nat → Node → Except Problem α)
    {value : Json}
    {text : List Char}
    (spells : SpellsText value text) :
    decode read (String.ofList text) = read levels (value.node some) := by
  obtain ⟨rest, reads, blank⟩ := nodeOf_of_spells spells
  simp only [decode, String.toList_ofList, reads, Option.map_some, blank]
  cases read levels (value.node some) <;> rfl

end RunManifest.Json
