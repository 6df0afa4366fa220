import RunManifest.Proofs.Document.Composition
import RunManifest.Proofs.Json.Grammar

/-!
Contract: only texts of values are read as values.

Owns:
- `spellsText_iff`: the texts of a value are exactly those from which its tree is read, with nothing
  but blanks behind;
- `spellsText_of_decode`, the same for values that are read whole.
-/

set_option autoImplicit false

namespace RunManifest.Json

open Text

/-! ## Numbers -/

private theorem spells_of_scanFraction
    {text rest : List Char}
    {fraction : Option (List Char)}
    (scans : scanFraction text = .ok (fraction, rest)) :
    text = fractionChars fraction ++ rest ∧
      ∀ digits, fraction = some digits → AreDigits digits := by
  unfold scanFraction at scans
  split at scans
  · obtain ⟨⟨digits, after⟩, scansDigits, same⟩ := Document.map_eq_ok.mp scans
    cases same
    obtain ⟨rfl, areDigits, -⟩ := someDigits_eq_ok scansDigits
    refine ⟨rfl, ?_⟩
    rintro _ ⟨⟩
    exact areDigits
  · cases scans
    exact ⟨rfl, by simp⟩

private theorem spells_of_scanExponent
    {text rest : List Char}
    {exponent : Option (Bool × List Char)}
    (scans : scanExponent text = .ok (exponent, rest)) :
    ∃ spelled, text = spelled ++ rest ∧ SpellsExponent exponent spelled ∧
      ∀ part, exponent = some part → AreDigits part.2 := by
  cases text with
  | nil =>
      cases scans
      exact ⟨[], rfl, .absent, by simp⟩
  | cons mark text =>
      by_cases isMark : mark = 'e' ∨ mark = 'E'
      · rw [scanExponent_cons isMark] at scans
        obtain ⟨⟨digits, after⟩, scansDigits, same⟩ := Document.map_eq_ok.mp scans
        cases same
        obtain ⟨isText, areDigits, -⟩ := someDigits_eq_ok scansDigits
        unfold exponentSign at isText ⊢
        split at isText
        · subst isText
          exact ⟨_, rfl, .signed isMark false digits, by rintro _ ⟨⟩; exact areDigits⟩
        · subst isText
          exact ⟨_, rfl, .signed isMark true digits, by rintro _ ⟨⟩; exact areDigits⟩
        · dsimp only at isText
          subst isText
          exact ⟨_, rfl, .unsigned isMark digits, by rintro _ ⟨⟩; exact areDigits⟩
      · rw [scanExponent_of_unmarked isMark] at scans
        cases scans
        exact ⟨[], rfl, .absent, by simp⟩

theorem spells_of_scanNumber
    {text rest : List Char}
    {number : NumberText}
    (scans : scanNumber text = .ok (number, rest)) :
    ∃ spelled, text = spelled ++ rest ∧ SpellsNumber number spelled := by
  obtain ⟨afterWhole, afterFraction, isNegative, scansWhole, noZero, scansFraction,
    scansExponent⟩ := scanNumber_eq_ok scans
  obtain ⟨isWhole, wholeDigits, -⟩ := someDigits_eq_ok scansWhole
  obtain ⟨rfl, fractionDigits⟩ := spells_of_scanFraction scansFraction
  obtain ⟨spelled, rfl, spells, exponentDigits⟩ := spells_of_scanExponent scansExponent
  have wellFormed : number.WellFormed :=
    ⟨wholeDigits, fun isZero => not_not.mp fun long => noZero ⟨isZero, long⟩, fractionDigits,
      exponentDigits⟩
  refine ⟨_, ?_, .mk wellFormed spells⟩
  simp only [List.append_assoc]
  rw [← isWhole, isNegative]
  unfold numberSign
  split <;> rfl

/-! ## Strings -/

private theorem mem_of_shortEscape? {letter c : Char} (isEscape : shortEscape? letter = some c) :
    (letter, c) ∈ shortEscapes := by
  unfold shortEscape? at isEscape
  split at isEscape
  · rename_i isSame
    cases isEscape
    rcases isSame with rfl | rfl | rfl <;> decide
  · repeat' split at isEscape
    all_goals
      cases isEscape
    all_goals
      subst letter
      decide

private theorem hexValue?_lt {c : Char} {value : Nat} (isValue : hexValue? c = some value) :
    value < 16 := by
  unfold hexValue? at isValue
  split at isValue
  · rename_i isDigit
    have bounds := Char.isDigit_iff_toNat.mp isDigit
    cases isValue
    simp only [Char.reduceToNat] at bounds ⊢
    omega
  · split at isValue
    · rename_i inRange
      have above : 'a'.toNat ≤ c.toNat := UInt32.le_iff_toNat_le.mp inRange.1
      have below : c.toNat ≤ 'f'.toNat := UInt32.le_iff_toNat_le.mp inRange.2
      cases isValue
      simp only [Char.reduceToNat] at above below ⊢
      omega
    · split at isValue
      · rename_i inRange
        have above : 'A'.toNat ≤ c.toNat := UInt32.le_iff_toNat_le.mp inRange.1
        have below : c.toNat ≤ 'F'.toNat := UInt32.le_iff_toNat_le.mp inRange.2
        cases isValue
        simp only [Char.reduceToNat] at above below ⊢
        omega
      · cases isValue

private theorem hexadecimalValue?_lt
    {first second third fourth : Char}
    {code : Nat}
    (isCode : hexadecimalValue? [first, second, third, fourth] = some code) :
    code < 0x10000 := by
  simp only [hexadecimalValue?, List.foldlM_cons, List.foldlM_nil, Option.bind_eq_bind,
    Option.bind_eq_some_iff, Option.map_eq_some_iff] at isCode
  obtain ⟨_, ⟨a, isA, rfl⟩, _, ⟨b, isB, rfl⟩, _, ⟨c, isC, rfl⟩, _, ⟨d, isD, rfl⟩, same⟩ := isCode
  cases same
  have := hexValue?_lt isA
  have := hexValue?_lt isB
  have := hexValue?_lt isC
  have := hexValue?_lt isD
  omega

private theorem toNat_ofNat_of_valid {code : Nat} (valid : code.isValidChar) :
    (Char.ofNat code).toNat = code := by
  rw [Char.ofNat, dif_pos valid]
  rfl

/-- A unit that is no surrogate is the number of a character. -/
theorem toNat_ofNat_of_unit
    {code : Nat}
    (isUnit : code < 0x10000)
    (notLeading : isLeading code = false)
    (notTrailing : isTrailing code = false) :
    (Char.ofNat code).toNat = code := by
  apply toNat_ofNat_of_valid
  simp only [isLeading, isTrailing, Bool.and_eq_false_iff, decide_eq_false_iff_not]
    at notLeading notTrailing
  show code < 0xD800 ∨ 0xDFFF < code ∧ code < 0x110000
  omega

/-- The number of the character of a surrogate pair gives back the units of the pair. -/
theorem toNat_pairedChar
    {leading trailing : Nat}
    (leads : isLeading leading = true)
    (trails : isTrailing trailing = true) :
    0x10000 ≤ (pairedChar leading trailing).toNat ∧
      0xD800 + ((pairedChar leading trailing).toNat - 0x10000) / 0x400 = leading ∧
      0xDC00 + ((pairedChar leading trailing).toNat - 0x10000) % 0x400 = trailing := by
  simp only [isLeading, isTrailing, Bool.and_eq_true, decide_eq_true_eq] at leads trails
  have isNumber : (pairedChar leading trailing).toNat =
      (leading - 0xD800) * 0x400 + (trailing - 0xDC00) + 0x10000 := by
    apply toNat_ofNat_of_valid
    show _ < 0xD800 ∨ 0xDFFF < _ ∧ _ < 0x110000
    omega
  rw [isNumber]
  omega

private theorem spells_of_scanned
    {text rest chars : List Char}
    {pieces : List Piece}
    (scanned : Scanned text pieces rest)
    (assembled : assemble pieces = .ok chars) :
    ∃ spelled, text = spelled ++ '\"' :: rest ∧ SpellsChars chars spelled := by
  fun_induction assemble pieces generalizing text chars with
  | case1 =>
      cases assembled
      cases scanned
      exact ⟨[], rfl, .nil⟩
  | case2 c pieces inductionHypothesis =>
      obtain ⟨others, isOthers, rfl⟩ := Document.map_eq_ok.mp assembled
      cases scanned with
      | plain isPlain scanned =>
          obtain ⟨spelled, rfl, spells⟩ := inductionHypothesis scanned isOthers
          exact ⟨c :: spelled, rfl, .plain isPlain spells⟩
      | short isEscape scanned =>
          obtain ⟨spelled, rfl, spells⟩ := inductionHypothesis scanned isOthers
          exact ⟨_, rfl, .short (mem_of_shortEscape? isEscape) spells⟩
  | case3 leading trailing pieces leads trails inductionHypothesis =>
      obtain ⟨others, isOthers, rfl⟩ := Document.map_eq_ok.mp assembled
      obtain ⟨isLarge, isFirst, isSecond⟩ := toNat_pairedChar leads trails
      cases scanned with
      | unit isLeading scanned =>
          cases scanned with
          | unit isTrailing scanned =>
              obtain ⟨spelled, rfl, spells⟩ := inductionHypothesis scanned isOthers
              refine ⟨_, rfl, .pair isLarge ?_ ?_ spells⟩
              · rw [isFirst, isLeading]
              · rw [isSecond, isTrailing]
  | case4 => cases assembled
  | case5 => cases assembled
  | case6 code next pieces notLeading notTrailing inductionHypothesis =>
      obtain ⟨others, isOthers, rfl⟩ := Document.map_eq_ok.mp assembled
      cases scanned with
      | unit isCode scanned =>
          obtain ⟨spelled, rfl, spells⟩ := inductionHypothesis scanned isOthers
          refine ⟨_, rfl, .unit ?_ spells⟩
          rw [isCode, toNat_ofNat_of_unit (hexadecimalValue?_lt isCode) (by simpa using notLeading)
            (by simpa using notTrailing)]
  | case7 => cases assembled
  | case8 => cases assembled
  | case9 code pieces notUnit notLeading notTrailing inductionHypothesis =>
      obtain ⟨others, isOthers, rfl⟩ := Document.map_eq_ok.mp assembled
      cases scanned with
      | unit isCode scanned =>
          obtain ⟨spelled, rfl, spells⟩ := inductionHypothesis scanned isOthers
          refine ⟨_, rfl, .unit ?_ spells⟩
          rw [isCode, toNat_ofNat_of_unit (hexadecimalValue?_lt isCode) (by simpa using notLeading)
            (by simpa using notTrailing)]

theorem spells_of_scanString
    {text rest : List Char}
    {value : String}
    (scans : scanString text = .ok (.ok value, rest)) :
    ∃ spelled, '\"' :: text = spelled ++ rest ∧ SpellsString value spelled := by
  obtain ⟨pieces, scanned, isValue⟩ := scanned_of_scanString scans
  obtain ⟨chars, assembled, rfl⟩ := Document.map_eq_ok.mp isValue.symm
  obtain ⟨spelled, rfl, spells⟩ := spells_of_scanned scanned assembled
  refine ⟨'\"' :: (spelled ++ ['\"']), by simp, .mk ?_⟩
  rwa [String.toList_ofList]

/-! ## Values -/

/-- What is read to its end is the text of a value, behind blanks. -/
structure Recognizes (fuel : Nat) : Prop where
  node : ∀ text rest value, readNode fuel text = (value.node some, some rest) →
    ∃ before spelled, Blanks before ∧ text = before ++ (spelled ++ rest) ∧ Spells value spelled
  items : ∀ text rest items, (readItems fuel text).rest = some rest →
    (readItems fuel text).items = items.map (Json.node some) →
    ∃ spelled, text = spelled ++ ']' :: rest ∧ SpellsItems items spelled
  members : ∀ text rest members, (readMembers fuel text).rest = some rest →
    (readMembers fuel text).members = members.map (fun member => (.ok member.1, member.2.node some)) →
    ∃ spelled, text = spelled ++ '\x7d' :: rest ∧ SpellsMembers members spelled

private theorem blanks_of_skipBlanks
    {text rest : List Char}
    (front : skipBlanks text = rest) :
    ∃ before, Blanks before ∧ text = before ++ rest := by
  subst front
  refine ⟨text.takeWhile isBlank, ?_, List.takeWhile_append_dropWhile.symm⟩
  intro c isChar
  exact List.mem_takeWhile_imp isChar

private theorem eq_array_of_node
    {value : Json}
    {nodes : List Node}
    {ending : Option Fault}
    (isNode : value.node some = .array nodes ending) :
    ∃ items, value = .array items ∧ nodes = items.map (Json.node some) := by
  cases value with
  | array items =>
      rw [Json.node, itemNodes_eq_map] at isNode
      cases isNode
      exact ⟨items, rfl, rfl⟩
  | _ => cases isNode

private theorem eq_object_of_node
    {value : Json}
    {nodes : List (Readable String × Node)}
    {ending : Option Breakage}
    (isNode : value.node some = .object nodes ending) :
    ∃ members, value = .object members ∧
      nodes = members.map fun member => (.ok member.1, member.2.node some) := by
  cases value with
  | object members =>
      rw [Json.node, memberNodes_eq_map] at isNode
      cases isNode
      exact ⟨members, rfl, rfl⟩
  | _ => cases isNode

private theorem SpellsItems.blanks_append
    {items : List Json}
    {text blanks : List Char}
    (spells : SpellsItems items text)
    (areBlank : Blanks blanks) :
    SpellsItems items (blanks ++ text) := by
  cases spells with
  | last blankBefore spells blankAfter =>
      rw [← List.append_assoc]
      exact .last (List.forall_mem_append.mpr ⟨areBlank, blankBefore⟩) spells blankAfter
  | next blankBefore spells blankAfter others =>
      rw [← List.append_assoc]
      exact .next (List.forall_mem_append.mpr ⟨areBlank, blankBefore⟩) spells blankAfter others

private theorem SpellsMembers.blanks_append
    {members : List (String × Json)}
    {text blanks : List Char}
    (spells : SpellsMembers members text)
    (areBlank : Blanks blanks) :
    SpellsMembers members (blanks ++ text) := by
  cases spells with
  | last blankBefore spellsKey blankMiddle blankBetween spells blankAfter =>
      rw [← List.append_assoc]
      exact .last (List.forall_mem_append.mpr ⟨areBlank, blankBefore⟩) spellsKey blankMiddle
        blankBetween spells blankAfter
  | next blankBefore spellsKey blankMiddle blankBetween spells blankAfter others =>
      rw [← List.append_assoc]
      exact .next (List.forall_mem_append.mpr ⟨areBlank, blankBefore⟩) spellsKey blankMiddle
        blankBetween spells blankAfter others

section Recognition

variable {fuel : Nat} (recognizes : Recognizes fuel)
include recognizes

private theorem spells_of_readArray
    {text rest : List Char}
    {value : Json}
    (reads : readArray fuel text = (value.node some, some rest)) :
    ∃ spelled, '[' :: text = spelled ++ rest ∧ Spells value spelled := by
  rcases readArray_eq_some reads with ⟨front, isNode⟩ | ⟨c, behind, front, -, readsItems, isNode⟩
  · obtain ⟨before, blank, rfl⟩ := blanks_of_skipBlanks front
    obtain ⟨items, rfl, isEmpty⟩ := eq_array_of_node isNode
    cases List.map_eq_nil_iff.mp isEmpty.symm
    exact ⟨_, by simp, .emptyArray blank⟩
  · obtain ⟨before, blank, rfl⟩ := blanks_of_skipBlanks front
    obtain ⟨items, rfl, areItems⟩ := eq_array_of_node isNode
    obtain ⟨spelled, same, spells⟩ := recognizes.items _ _ _ readsItems areItems
    rw [same]
    exact ⟨_, by simp, .array (spells.blanks_append blank)⟩

private theorem spells_of_readObject
    {text rest : List Char}
    {value : Json}
    (reads : readObject fuel text = (value.node some, some rest)) :
    ∃ spelled, '\x7b' :: text = spelled ++ rest ∧ Spells value spelled := by
  rcases readObject_eq_some reads with
    ⟨front, isNode⟩ | ⟨c, behind, front, -, readsMembers, isNode⟩
  · obtain ⟨before, blank, rfl⟩ := blanks_of_skipBlanks front
    obtain ⟨members, rfl, isEmpty⟩ := eq_object_of_node isNode
    cases List.map_eq_nil_iff.mp isEmpty.symm
    exact ⟨_, by simp, .emptyObject blank⟩
  · obtain ⟨before, blank, rfl⟩ := blanks_of_skipBlanks front
    obtain ⟨members, rfl, areMembers⟩ := eq_object_of_node isNode
    obtain ⟨spelled, same, spells⟩ := recognizes.members _ _ _ readsMembers areMembers
    rw [same]
    exact ⟨_, by simp, .object (spells.blanks_append blank)⟩

private theorem spells_of_readFront
    {c : Char}
    {text rest : List Char}
    {value : Json}
    (reads : readFront fuel c text = (value.node some, some rest)) :
    ∃ spelled, c :: text = spelled ++ rest ∧ Spells value spelled := by
  unfold readFront at reads
  split at reads
  · obtain ⟨isNode, rfl⟩ := readWord_eq_some reads
    cases value with
    | null => exact ⟨_, rfl, .null⟩
    | _ => simp at isNode
  · obtain ⟨isNode, rfl⟩ := readWord_eq_some reads
    cases value with
    | flag value =>
        cases isNode
        exact ⟨_, rfl, .flag true⟩
    | _ => simp at isNode
  · obtain ⟨isNode, rfl⟩ := readWord_eq_some reads
    cases value with
    | flag value =>
        cases isNode
        exact ⟨_, rfl, .flag false⟩
    | _ => simp at isNode
  · obtain ⟨scanned, isNode, scans⟩ := readText_eq_some reads
    cases value with
    | text value =>
        cases isNode
        obtain ⟨spelled, same, spells⟩ := spells_of_scanString scans
        exact ⟨spelled, same, .text spells⟩
    | _ => simp at isNode
  · exact spells_of_readArray recognizes reads
  · exact spells_of_readObject recognizes reads
  · split at reads
    · obtain ⟨digits, isNode, scans⟩ := readNumber_eq_some reads
      cases value with
      | number value =>
          rw [Json.node, Node.number.injEq] at isNode
          obtain ⟨spelled, same, spells⟩ := spells_of_scanNumber scans
          exact ⟨spelled, same, .number spells isNode.symm⟩
      | _ => simp at isNode
    · simp at reads

private theorem spells_of_readItems
    {text rest : List Char}
    {items : List Json}
    (reads : (readItems (fuel + 1) text).rest = some rest)
    (areItems : (readItems (fuel + 1) text).items = items.map (Json.node some)) :
    ∃ spelled, text = spelled ++ ']' :: rest ∧ SpellsItems items spelled := by
  obtain ⟨node, middle, readsItem, readsAfter⟩ := readItems_eq_some reads
  rw [readItems_of_item readsItem] at areItems
  rcases readAfterItem_eq_some readsAfter with front | ⟨more, front, readsMore⟩
  · rw [readAfterItem_of_close front] at areItems
    obtain ⟨item, others, rfl, rfl, isEmpty⟩ := List.map_eq_cons_iff.mp areItems.symm
    cases List.map_eq_nil_iff.mp isEmpty
    obtain ⟨before, spelled, blankBefore, rfl, spells⟩ := recognizes.node _ _ _ readsItem
    obtain ⟨after, blankAfter, rfl⟩ := blanks_of_skipBlanks front
    exact ⟨_, by simp, .last blankBefore spells blankAfter⟩
  · rw [readAfterItem_of_comma front] at areItems
    obtain ⟨item, others, rfl, rfl, areOthers⟩ := List.map_eq_cons_iff.mp areItems.symm
    obtain ⟨before, spelled, blankBefore, rfl, spells⟩ := recognizes.node _ _ _ readsItem
    obtain ⟨after, blankAfter, rfl⟩ := blanks_of_skipBlanks front
    obtain ⟨spelledOthers, rfl, spellsOthers⟩ := recognizes.items _ _ _ readsMore areOthers.symm
    exact ⟨_, by simp, .next blankBefore spells blankAfter spellsOthers⟩

private theorem spells_of_readMembers
    {text rest : List Char}
    {members : List (String × Json)}
    (reads : (readMembers (fuel + 1) text).rest = some rest)
    (areMembers : (readMembers (fuel + 1) text).members =
      members.map fun member => (.ok member.1, member.2.node some)) :
    ∃ spelled, text = spelled ++ '\x7d' :: rest ∧ SpellsMembers members spelled := by
  obtain ⟨front, key, afterKey, isFront, scans, readsKey⟩ := readMembers_eq_some reads
  obtain ⟨middle, node, afterValue, isMiddle, readsValue, readsAfter⟩ :=
    readAfterKey_eq_some readsKey
  rw [readMembers_of_key isFront scans, readAfterKey_of_value isMiddle readsValue] at areMembers
  obtain ⟨before, blankBefore, rfl⟩ := blanks_of_skipBlanks isFront
  obtain ⟨between, blankMiddle, rfl⟩ := blanks_of_skipBlanks isMiddle
  rcases readAfterMember_eq_some readsAfter with isClose | ⟨more, isComma, readsMore⟩
  · rw [readAfterMember_of_close isClose] at areMembers
    obtain ⟨member, others, rfl, same, isEmpty⟩ := List.map_eq_cons_iff.mp areMembers.symm
    cases List.map_eq_nil_iff.mp isEmpty
    obtain ⟨rfl, rfl⟩ := Prod.mk.inj same
    obtain ⟨keyText, isKey, spellsKey⟩ := spells_of_scanString scans
    obtain ⟨blanks, spelled, areBlank, rfl, spells⟩ := recognizes.node _ _ _ readsValue
    obtain ⟨after, blankAfter, rfl⟩ := blanks_of_skipBlanks isClose
    rw [isKey]
    exact ⟨_, by simp, .last blankBefore spellsKey blankMiddle areBlank spells blankAfter⟩
  · rw [readAfterMember_of_comma isComma] at areMembers
    obtain ⟨member, others, rfl, same, areOthers⟩ := List.map_eq_cons_iff.mp areMembers.symm
    obtain ⟨rfl, rfl⟩ := Prod.mk.inj same
    obtain ⟨keyText, isKey, spellsKey⟩ := spells_of_scanString scans
    obtain ⟨blanks, spelled, areBlank, rfl, spells⟩ := recognizes.node _ _ _ readsValue
    obtain ⟨after, blankAfter, rfl⟩ := blanks_of_skipBlanks isComma
    obtain ⟨spelledOthers, rfl, spellsOthers⟩ := recognizes.members _ _ _ readsMore areOthers.symm
    rw [isKey]
    exact ⟨_, by simp, .next blankBefore spellsKey blankMiddle areBlank spells blankAfter
      spellsOthers⟩

end Recognition

private theorem recognizes (fuel : Nat) : Recognizes fuel := by
  induction fuel with
  | zero =>
      refine ⟨?_, ?_, ?_⟩
      · intro text rest value reads
        cases (Prod.mk.inj reads).2
      · intro text rest items reads
        cases reads
      · intro text rest members reads
        cases reads
  | succ fuel recognizes =>
      refine ⟨?_, fun _ _ _ => spells_of_readItems recognizes,
        fun _ _ _ => spells_of_readMembers recognizes⟩
      intro text rest value reads
      obtain ⟨c, front, isFront, readsFront⟩ := readNode_eq_some reads
      obtain ⟨before, blank, rfl⟩ := blanks_of_skipBlanks isFront
      obtain ⟨spelled, same, spells⟩ := spells_of_readFront recognizes readsFront
      exact ⟨before, spelled, blank, by rw [same], spells⟩

/-- The texts of a value are those from which its tree is read, with only blanks behind. -/
theorem spellsText_iff {value : Json} {text : List Char} :
    SpellsText value text ↔
      ∃ rest, nodeOf text = (value.node some, some rest) ∧ skipBlanks rest = [] := by
  refine ⟨nodeOf_of_spells, ?_⟩
  rintro ⟨rest, reads, blank⟩
  obtain ⟨before, spelled, blankBefore, rfl, spells⟩ := (recognizes _).node _ _ _ reads
  exact .mk blankBefore spells (List.dropWhile_eq_nil_iff.mp blank)

private theorem eq_number_of_value
    {levels : Nat}
    {number : Option Number}
    {value : Json}
    (reads : (Node.number number).value levels = .ok value) :
    Node.number number = value.node some := by
  cases number with
  | none => simp [Node.value, Node.inRange] at reads
  | some number =>
      rw [Node.value] at reads
      cases reads
      rfl

private theorem eq_text_of_value
    {levels : Nat}
    {text : Readable String}
    {value : Json}
    (reads : (Node.text text).value levels = .ok value) :
    Node.text text = value.node some := by
  cases text with
  | error cause => simp [Node.value, Node.legible] at reads
  | ok text =>
      rw [Node.value] at reads
      cases reads
      rfl

private theorem eq_none_of_ended {ending : Option Fault} (ended : Node.ended ending = .ok ()) :
    ending = none := by
  cases ending with
  | none => rfl
  | some fault => cases ended

/-- Only the tree of a value is read whole as the value. -/
theorem eq_node_of_value
    {levels : Nat}
    {node : Node}
    {value : Json}
    (reads : node.value levels = .ok value) :
    node = value.node some := by
  induction levels generalizing node value with
  | zero =>
      cases node with
      | null =>
          rw [Node.value] at reads
          cases reads
          rfl
      | flag flag =>
          rw [Node.value] at reads
          cases reads
          rfl
      | number number => exact eq_number_of_value reads
      | text text => exact eq_text_of_value reads
      | array items ending => cases reads
      | object members ending => cases reads
      | broken breakage => cases reads
  | succ levels inductionHypothesis =>
      cases node with
      | null =>
          rw [Node.value] at reads
          cases reads
          rfl
      | flag flag =>
          rw [Node.value] at reads
          cases reads
          rfl
      | number number => exact eq_number_of_value reads
      | text text => exact eq_text_of_value reads
      | array items ending =>
          rw [Document.value_array] at reads
          obtain ⟨values, readsItems, reads⟩ := Document.bind_eq_ok.mp reads
          obtain ⟨_, ended, reads⟩ := Document.bind_eq_ok.mp reads
          cases reads
          have each : List.Forall₂ (fun item value => item = Json.node some value) items values :=
            (Document.forall₂_of_mapM readsItems).imp fun _ _ => inductionHypothesis
          rw [← List.forall₂_map_right_iff, List.forall₂_eq_eq_eq] at each
          rw [each, eq_none_of_ended ended, Json.node, itemNodes_eq_map]
      | object members ending =>
          rw [Document.value_object] at reads
          obtain ⟨entries, readsMembers, reads⟩ := Document.bind_eq_ok.mp reads
          obtain ⟨_, ended, reads⟩ := Document.bind_eq_ok.mp reads
          cases reads
          have each : List.Forall₂
              (fun member entry => member = (.ok entry.1, Json.node some entry.2)) members entries := by
            refine (Document.forall₂_of_mapM readsMembers).imp fun member entry readsEntry => ?_
            obtain ⟨isKey, readsValue⟩ := Document.readEntry_eq_ok readsEntry
            exact Prod.ext isKey (inductionHypothesis readsValue)
          rw [← List.forall₂_map_right_iff, List.forall₂_eq_eq_eq] at each
          rw [each, Option.map_eq_none_iff.mp (eq_none_of_ended ended), Json.node,
            memberNodes_eq_map]
      | broken breakage => cases reads

/-- A text that is read whole as a value is a text of the value. -/
theorem spellsText_of_decode
    {text : String}
    {value : Json}
    (reads : decode Node.value text = .ok value) :
    SpellsText value text.toList := by
  simp only [decode, Document.bind_eq_ok] at reads
  obtain ⟨result, readsNode, atEnd⟩ := reads
  split at atEnd
  · rename_i isBlank
    cases atEnd
    obtain ⟨rest, isRest, blank⟩ := Option.map_eq_some_iff.mp isBlank
    exact spellsText_iff.mpr
      ⟨rest, Prod.ext (eq_node_of_value readsNode) isRest, blank⟩
  · cases atEnd

end RunManifest.Json
