import RunManifest.Proofs.Document.Outcome
import RunManifest.Proofs.Json.Numbers
import RunManifest.Proofs.Json.Strings

/-!
Contract: places in a JSON text, and how far its literals reach.

Owns:
- `Place`, whether a place in a text is inside a string, and `cutsNumber`, whether it is inside a
  number;
- `Passes`, that a text was read up to a place outside of all strings;
- `Scanned` and `Takes`, what the scanners of strings and numbers take from the front of a text.
-/

set_option autoImplicit false

namespace RunManifest.Json

open Text

/-! ## Places in a text -/

/-- Where a place in a text is, as far as strings go. -/
inductive Place where
  | outside
  | inside
  /-- Behind a backslash inside a string. -/
  | escaping
deriving DecidableEq, Repr

/-- The place behind a character. -/
def Place.past : Place → Char → Place
  | .outside, c => if c = '\"' then .inside else .outside
  | .inside, c => if c = '\"' then .outside else if c = '\\' then .escaping else .inside
  | .escaping, _ => .inside

/-- Whether a character can stand in a number. -/
def isNumberChar (c : Char) : Bool :=
  c.isDigit || ['-', '+', '.', 'e', 'E'].contains c

/-- Whether a cut between two parts of a text falls inside a number: it is outside all strings, and
characters of a number stand on both sides. -/
def cutsNumber (before after : List Char) : Bool :=
  before.foldl Place.past .outside == .outside && before.getLast?.any isNumberChar
    && after.head?.any isNumberChar

/-- Reading has come from the front of a text to the given rest, and is outside all strings. -/
def Passes (text rest : List Char) : Prop :=
  ∃ passed, text = passed ++ rest ∧ passed.foldl Place.past .outside = .outside

theorem Passes.trans
    {text middle rest : List Char}
    (first : Passes text middle)
    (second : Passes middle rest) :
    Passes text rest := by
  obtain ⟨early, rfl, outsideEarly⟩ := first
  obtain ⟨late, rfl, outsideLate⟩ := second
  refine ⟨early ++ late, by simp, ?_⟩
  rw [List.foldl_append, outsideEarly, outsideLate]

theorem Passes.length_le {text rest : List Char} (passes : Passes text rest) :
    rest.length ≤ text.length := by
  obtain ⟨passed, rfl, -⟩ := passes
  simp

theorem foldl_past_of_unquoted
    {chars : List Char}
    (unquoted : ∀ c ∈ chars, c ≠ '\"') :
    chars.foldl Place.past .outside = .outside := by
  induction chars with
  | nil => rfl
  | cons c rest inductionHypothesis =>
      have notQuote : c ≠ '\"' := unquoted c (by simp)
      simp only [List.foldl_cons, Place.past, if_neg notQuote]
      exact inductionHypothesis fun other member => unquoted other (by simp [member])

theorem passes_of_unquoted
    {passed rest : List Char}
    (unquoted : ∀ c ∈ passed, c ≠ '\"') :
    Passes (passed ++ rest) rest :=
  ⟨passed, rfl, foldl_past_of_unquoted unquoted⟩

theorem passes_cons {c : Char} (notQuote : c ≠ '\"') (rest : List Char) :
    Passes (c :: rest) rest :=
  ⟨[c], rfl, foldl_past_of_unquoted (by simpa using notQuote)⟩

theorem isNumberChar_ne_quote {c : Char} (isNumber : isNumberChar c = true) : c ≠ '\"' := by
  rintro rfl
  exact absurd isNumber (by decide)

theorem cutsNumber_of_passes
    {before left after : List Char}
    (passes : Passes before left)
    (cuts : cutsNumber left after = true) :
    cutsNumber before after = true := by
  obtain ⟨passed, rfl, isOutside⟩ := passes
  simp only [cutsNumber, Bool.and_eq_true] at cuts ⊢
  obtain ⟨⟨place, last⟩, head⟩ := cuts
  refine ⟨⟨?_, ?_⟩, head⟩
  · rw [List.foldl_append, isOutside]
    exact place
  · cases left with
    | nil => simp at last
    | cons c rest =>
        rw [List.getLast?_append_of_ne_nil _ (by simp)]
        exact last

/-! ## Blanks -/

private theorem skipBlanks_eq (text : List Char) :
    ∃ blanks, text = blanks ++ skipBlanks text ∧ ∀ c ∈ blanks, isBlank c = true := by
  refine ⟨text.takeWhile isBlank, (List.takeWhile_append_dropWhile).symm, ?_⟩
  intro c member
  exact List.mem_takeWhile_imp member

private theorem isBlank_ne_quote {c : Char} (blank : isBlank c = true) : c ≠ '\"' := by
  rintro rfl
  exact absurd blank (by decide)

theorem passes_skipBlanks (text : List Char) : Passes text (skipBlanks text) := by
  obtain ⟨blanks, same, areBlank⟩ := skipBlanks_eq text
  refine ⟨blanks, same, foldl_past_of_unquoted fun c member => isBlank_ne_quote (areBlank c member)⟩

/-- A cut text goes on as the whole text does, or ends among blanks. -/
theorem skipBlanks_append (before after : List Char) :
    skipBlanks before = [] ∨
      ∃ c rest, skipBlanks before = c :: rest ∧
        skipBlanks (before ++ after) = c :: (rest ++ after) := by
  cases front : skipBlanks before with
  | nil => exact .inl rfl
  | cons c rest =>
      refine .inr ⟨c, rest, rfl, ?_⟩
      unfold skipBlanks at front ⊢
      rw [List.dropWhile_append, front]
      simp

/-! ## Strings -/

/-- The pieces of a string up to its closing quote, and what follows the quote. -/
inductive Scanned : List Char → List Piece → List Char → Prop where
  | quote (rest : List Char) : Scanned ('\"' :: rest) [] rest
  | plain
      {c : Char}
      {text rest : List Char}
      {pieces : List Piece}
      (isPlain : Plain c)
      (scanned : Scanned text pieces rest) :
      Scanned (c :: text) (.char c :: pieces) rest
  | short
      {letter c : Char}
      {text rest : List Char}
      {pieces : List Piece}
      (isEscape : shortEscape? letter = some c)
      (scanned : Scanned text pieces rest) :
      Scanned ('\\' :: letter :: text) (.char c :: pieces) rest
  | unit
      {first second third fourth : Char}
      {code : Nat}
      {text rest : List Char}
      {pieces : List Piece}
      (isCode : hexadecimalValue? [first, second, third, fourth] = some code)
      (scanned : Scanned text pieces rest) :
      Scanned ('\\' :: 'u' :: first :: second :: third :: fourth :: text) (.unit code :: pieces) rest

theorem scanPieces_short
    {letter c : Char}
    (isEscape : shortEscape? letter = some c)
    (text : List Char) :
    scanPieces ('\\' :: letter :: text) = (.char c :: (scanPieces text).1, (scanPieces text).2) := by
  have notUnit : letter ≠ 'u' := by
    rintro rfl
    cases isEscape
  rw [scanPieces.eq_def]
  split
  case h_6 notShort same =>
    obtain ⟨rfl, rfl⟩ := List.cons.inj same
    exact absurd rfl (notShort letter text rfl)
  all_goals simp_all

theorem scanPieces_unit
    {first second third fourth : Char}
    {code : Nat}
    (isCode : hexadecimalValue? [first, second, third, fourth] = some code)
    (text : List Char) :
    scanPieces ('\\' :: 'u' :: first :: second :: third :: fourth :: text) =
      (.unit code :: (scanPieces text).1, (scanPieces text).2) := by
  rw [scanPieces, isCode]

theorem Scanned.scanPieces_eq
    {text rest : List Char}
    {pieces : List Piece}
    (scanned : Scanned text pieces rest) :
    scanPieces text = (pieces, .ok rest) := by
  induction scanned with
  | quote rest => rfl
  | plain isPlain _ inductionHypothesis => rw [scanPieces_plain isPlain, inductionHypothesis]
  | short isEscape _ inductionHypothesis => rw [scanPieces_short isEscape, inductionHypothesis]
  | unit isCode _ inductionHypothesis => rw [scanPieces_unit isCode, inductionHypothesis]

private theorem scanned_of_scanPieces
    {text rest : List Char}
    {pieces : List Piece}
    (scans : scanPieces text = (pieces, .ok rest)) :
    Scanned text pieces rest := by
  fun_induction scanPieces text generalizing pieces with
  | case1 => cases scans
  | case2 rest =>
      cases scans
      exact .quote _
  | case3 => cases scans
  | case4 first second third fourth text code isCode early ending split inductionHypothesis =>
      cases scans
      exact .unit isCode (inductionHypothesis split)
  | case5 => cases scans
  | case6 => cases scans
  | case7 letter text notLong notUnit c isEscape early ending split inductionHypothesis =>
      cases scans
      exact .short isEscape (inductionHypothesis split)
  | case8 => cases scans
  | case9 => cases scans
  | case10 c text notQuote notLast notUnit notShort notControl early ending split
      inductionHypothesis =>
      cases scans
      have notBackslash : c ≠ '\\' := by
        intro isBackslash
        cases text with
        | nil => exact notLast isBackslash rfl
        | cons next others => exact notShort next others isBackslash rfl
      exact .plain ⟨notQuote, notBackslash, by omega⟩ (inductionHypothesis split)

private theorem toNat_le_of_hexValue? {c : Char} (isDigit : (hexValue? c).isSome = true) :
    c.toNat ≤ 'f'.toNat := by
  unfold hexValue? at isDigit
  split at isDigit
  · rename_i decimal
    exact (Char.isDigit_iff_toNat.mp decimal).2.trans (by decide)
  · split at isDigit
    · rename_i lower
      exact UInt32.le_iff_toNat_le.mp lower.2
    · split at isDigit
      · rename_i upper
        exact (UInt32.le_iff_toNat_le.mp upper.2).trans (by decide)
      · cases isDigit

theorem utf8Size_of_hexValue? {c : Char} (isDigit : (hexValue? c).isSome = true) :
    c.utf8Size = 1 := by
  rw [Char.utf8Size_eq_one_iff, UInt32.le_iff_toNat_le]
  exact (toNat_le_of_hexValue? isDigit).trans (by decide)

private theorem past_of_hexValue? {c : Char} (isDigit : (hexValue? c).isSome = true) :
    Place.past .inside c = .inside := by
  have notQuote : c ≠ '\"' := by
    rintro rfl
    exact absurd isDigit (by decide)
  have notBackslash : c ≠ '\\' := by
    rintro rfl
    exact absurd isDigit (by decide)
  rw [Place.past, if_neg notQuote, if_neg notBackslash]

theorem hexValue?_of_mem
    {digits : List Char}
    {start code : Nat}
    (isCode : digits.foldlM (fun value c => (hexValue? c).map (value * 16 + ·)) start = some code) :
    ∀ c ∈ digits, (hexValue? c).isSome = true := by
  induction digits generalizing start with
  | nil => simp
  | cons digit rest inductionHypothesis =>
      rw [List.foldlM_cons, Option.bind_eq_bind, Option.bind_eq_some_iff] at isCode
      obtain ⟨next, isNext, isRest⟩ := isCode
      obtain ⟨value, isValue, -⟩ := Option.map_eq_some_iff.mp isNext
      rw [List.forall_mem_cons]
      exact ⟨by rw [isValue]; rfl, inductionHypothesis isRest⟩

theorem Scanned.place
    {text rest : List Char}
    {pieces : List Piece}
    (scanned : Scanned text pieces rest) :
    ∃ passed, text = passed ++ rest ∧ passed.foldl Place.past .inside = .outside := by
  induction scanned with
  | quote rest => exact ⟨['\"'], rfl, rfl⟩
  | @plain c text rest pieces isPlain _ inductionHypothesis =>
      obtain ⟨passed, rfl, isOutside⟩ := inductionHypothesis
      refine ⟨c :: passed, rfl, ?_⟩
      rw [List.foldl_cons, Place.past, if_neg isPlain.1, if_neg isPlain.2.1, isOutside]
  | @short letter c text rest pieces isEscape _ inductionHypothesis =>
      obtain ⟨passed, rfl, isOutside⟩ := inductionHypothesis
      exact ⟨'\\' :: letter :: passed, rfl, isOutside⟩
  | @unit first second third fourth code text rest pieces isCode _ inductionHypothesis =>
      obtain ⟨passed, rfl, isOutside⟩ := inductionHypothesis
      refine ⟨'\\' :: 'u' :: first :: second :: third :: fourth :: passed, rfl, ?_⟩
      have isDigit := hexValue?_of_mem isCode
      simp only [List.mem_cons, List.not_mem_nil, or_false, forall_eq_or_imp, forall_eq] at isDigit
      obtain ⟨isFirst, isSecond, isThird, isFourth⟩ := isDigit
      have begun : Place.past (Place.past .inside '\\') 'u' = .inside := rfl
      simp only [List.foldl_cons, begun, past_of_hexValue? isFirst, past_of_hexValue? isSecond,
        past_of_hexValue? isThird, past_of_hexValue? isFourth]
      exact isOutside

theorem assemble_unit
    {code : Nat}
    (notLeading : isLeading code = false)
    (notTrailing : isTrailing code = false)
    (rest : List Piece) :
    assemble (.unit code :: rest) = (assemble rest).map (Char.ofNat code :: ·) := by
  cases rest with
  | nil => simp [assemble, notLeading, notTrailing]
  | cons piece others => cases piece <;> simp [assemble, notLeading, notTrailing]

/-- A string that can be read ends outside, and its cut is read as the whole one or breaks off. -/
theorem scanned_of_scanString
    {text rest : List Char}
    {value : Readable String}
    (scans : scanString text = .ok (value, rest)) :
    ∃ pieces, Scanned text pieces rest ∧ value = (assemble pieces).map String.ofList := by
  unfold scanString at scans
  split at scans
  · rename_i pieces rest isScanned
    cases scans
    exact ⟨pieces, scanned_of_scanPieces isScanned, rfl⟩
  · cases scans

theorem passes_of_scanString
    {text rest : List Char}
    {value : Readable String}
    (scans : scanString text = .ok (value, rest)) :
    Passes ('\"' :: text) rest := by
  obtain ⟨pieces, scanned, -⟩ := scanned_of_scanString scans
  obtain ⟨passed, rfl, isOutside⟩ := scanned.place
  exact ⟨'\"' :: passed, rfl, isOutside⟩

/-! ## Numbers -/

/-- A scanner takes characters of numbers from the front of a text, and takes the same ones if the
text ends anywhere behind them. -/
def Takes {α : Type} (scan : List Char → Except Breakage (α × List Char)) : Prop :=
  ∀ text value rest, scan text = .ok (value, rest) →
    ∃ taken, text = taken ++ rest ∧ (∀ c ∈ taken, isNumberChar c = true) ∧
      ∀ left, left <+: rest → scan (taken ++ left) = .ok (value, left)

private theorem stopsDigits_of_front
    {left rest : List Char}
    (stops : StopsDigits rest)
    (isPrefix : left <+: rest) :
    StopsDigits left := by
  intro c isHead
  apply stops c
  obtain ⟨more, rfl⟩ := isPrefix
  cases left with
  | nil => cases isHead
  | cons d others => exact isHead

theorem someDigits_eq_ok
    {text digits rest : List Char}
    (scans : someDigits text = .ok (digits, rest)) :
    text = digits ++ rest ∧ AreDigits digits ∧ StopsDigits rest := by
  simp only [someDigits] at scans
  split at scans
  · cases scans
  · rename_i nonempty
    cases scans
    refine ⟨List.takeWhile_append_dropWhile.symm, ⟨by simpa using nonempty, ?_⟩, ?_⟩
    · intro c member
      exact List.mem_takeWhile_imp member
    · intro c isHead
      have notDigit := List.head?_dropWhile_not Char.isDigit text
      rw [isHead] at notDigit
      simpa using notDigit

private theorem isNumberChar_of_areDigits {digits : List Char} (areDigits : AreDigits digits) :
    ∀ c ∈ digits, isNumberChar c = true := by
  intro c member
  rw [isNumberChar, areDigits.2 c member, Bool.true_or]

private theorem takes_scanFraction : Takes scanFraction := by
  intro text value rest scans
  unfold scanFraction at scans
  split at scans
  · rename_i text
    obtain ⟨⟨digits, after⟩, scansDigits, same⟩ := Document.map_eq_ok.mp scans
    cases same
    obtain ⟨rfl, areDigits, stops⟩ := someDigits_eq_ok scansDigits
    refine ⟨'.' :: digits, rfl, ?_, ?_⟩
    · exact List.forall_mem_cons.mpr ⟨by decide, isNumberChar_of_areDigits areDigits⟩
    · intro left isPrefix
      rw [List.cons_append, scanFraction,
        someDigits_append areDigits (stopsDigits_of_front stops isPrefix)]
      rfl
  · rename_i noPoint
    cases scans
    refine ⟨[], rfl, by simp, ?_⟩
    intro left isPrefix
    rw [List.nil_append, scanFraction]
    intro digits isPoint
    obtain ⟨more, rfl⟩ := isPrefix
    exact noPoint (digits ++ more) (by rw [isPoint]; rfl)

/-- Whether an exponent is negative, and the text behind its sign. -/
def exponentSign : List Char → Bool × List Char
  | '+' :: digits => (false, digits)
  | '-' :: digits => (true, digits)
  | digits => (false, digits)

theorem scanExponent_cons {mark : Char} (isMark : mark = 'e' ∨ mark = 'E') (text : List Char) :
    scanExponent (mark :: text) = (someDigits (exponentSign text).2).map
      fun (digits, after) => (some ((exponentSign text).1, digits), after) := by
  rw [scanExponent.eq_def]
  dsimp only
  rw [if_pos isMark]
  rfl

theorem scanExponent_of_unmarked {c : Char} (unmarked : ¬ (c = 'e' ∨ c = 'E')) (text : List Char) :
    scanExponent (c :: text) = .ok (none, c :: text) := by
  rw [scanExponent.eq_def]
  dsimp only
  rw [if_neg unmarked]

theorem exponentSign_of_digits
    {digits : List Char}
    (areDigits : AreDigits digits)
    (rest : List Char) :
    exponentSign (digits ++ rest) = (false, digits ++ rest) := by
  unfold exponentSign
  split
  · rename_i same
    exact absurd same (areDigits.append_ne_cons (by decide) _ _)
  · rename_i same
    exact absurd same (areDigits.append_ne_cons (by decide) _ _)
  · rfl

private theorem exponentSign_append (text : List Char) :
    ∃ sign, text = sign ++ (exponentSign text).2 ∧ (∀ c ∈ sign, isNumberChar c = true) ∧
      ∀ digits rest, AreDigits digits →
        exponentSign (sign ++ (digits ++ rest)) = ((exponentSign text).1, digits ++ rest) := by
  rw [exponentSign.eq_def text]
  split
  · exact ⟨['+'], rfl, by simp [isNumberChar], fun _ _ _ => rfl⟩
  · exact ⟨['-'], rfl, by simp [isNumberChar], fun _ _ _ => rfl⟩
  · exact ⟨[], rfl, by simp, fun _ rest areDigits => exponentSign_of_digits areDigits rest⟩

private theorem takes_scanExponent : Takes scanExponent := by
  intro text value rest scans
  cases text with
  | nil =>
      cases scans
      refine ⟨[], rfl, by simp, ?_⟩
      intro left isPrefix
      rw [List.prefix_nil.mp isPrefix]
      rfl
  | cons mark text =>
      by_cases isMark : mark = 'e' ∨ mark = 'E'
      · rw [scanExponent_cons isMark] at scans
        obtain ⟨⟨digits, after⟩, scansDigits, same⟩ := Document.map_eq_ok.mp scans
        cases same
        obtain ⟨isText, areDigits, stops⟩ := someDigits_eq_ok scansDigits
        obtain ⟨sign, isSigned, areNumber, again⟩ := exponentSign_append text
        refine ⟨mark :: (sign ++ digits), ?_, ?_, ?_⟩
        · rw [List.cons_append, List.append_assoc, ← isText, ← isSigned]
        · have isNumber : isNumberChar mark = true := by
            rcases isMark with rfl | rfl <;> decide
          rw [List.forall_mem_cons, List.forall_mem_append]
          exact ⟨isNumber, areNumber, isNumberChar_of_areDigits areDigits⟩
        · intro left isPrefix
          rw [List.cons_append, List.append_assoc, scanExponent_cons isMark,
            again digits left areDigits,
            someDigits_append areDigits (stopsDigits_of_front stops isPrefix)]
          rfl
      · rw [scanExponent_of_unmarked isMark] at scans
        cases scans
        refine ⟨[], rfl, by simp, ?_⟩
        intro left isPrefix
        rw [List.nil_append]
        cases left with
        | nil => rfl
        | cons c others =>
            obtain ⟨rfl, -⟩ := List.cons_prefix_cons.mp isPrefix
            exact scanExponent_of_unmarked isMark others

/-- Whether a number is negative, and the text behind its sign. -/
def numberSign : List Char → Bool × List Char
  | '-' :: rest => (true, rest)
  | unsigned => (false, unsigned)

private theorem scanNumber_eq (text : List Char) :
    scanNumber text = (do
      let (whole, rest) ← someDigits (numberSign text).2
      if whole.head? = some '0' ∧ whole.length ≠ 1 then .error (.both (.malformed .badNumber))
      else
        let (fraction, rest) ← scanFraction rest
        let (exponent, rest) ← scanExponent rest
        .ok (⟨(numberSign text).1, whole, fraction, exponent⟩, rest)) := by
  cases text with
  | nil => rfl
  | cons c rest =>
      by_cases minus : c = '-'
      · subst minus
        rfl
      · simp only [scanNumber, numberSign, List.cons.injEq, minus, false_and, imp_self,
          implies_true]

/-- What a number that was scanned is made of. -/
theorem scanNumber_eq_ok
    {text rest : List Char}
    {number : NumberText}
    (scans : scanNumber text = .ok (number, rest)) :
    ∃ afterWhole afterFraction, number.negative = (numberSign text).1 ∧
      someDigits (numberSign text).2 = .ok (number.whole, afterWhole) ∧
      ¬ (number.whole.head? = some '0' ∧ number.whole.length ≠ 1) ∧
      scanFraction afterWhole = .ok (number.fraction, afterFraction) ∧
      scanExponent afterFraction = .ok (number.exponent, rest) := by
  rw [scanNumber_eq] at scans
  obtain ⟨⟨whole, afterWhole⟩, scansWhole, scans⟩ := Document.bind_eq_ok.mp scans
  dsimp only at scans
  split at scans
  · cases scans
  · rename_i noZero
    obtain ⟨⟨fraction, afterFraction⟩, scansFraction, scans⟩ := Document.bind_eq_ok.mp scans
    obtain ⟨⟨exponent, afterExponent⟩, scansExponent, same⟩ := Document.bind_eq_ok.mp scans
    cases same
    exact ⟨afterWhole, afterFraction, rfl, scansWhole, noZero, scansFraction, scansExponent⟩

private theorem numberSign_of_digits
    {digits : List Char}
    (areDigits : AreDigits digits)
    (rest : List Char) :
    numberSign (digits ++ rest) = (false, digits ++ rest) := by
  unfold numberSign
  split
  · rename_i same
    exact absurd same (areDigits.append_ne_cons (by decide) _ _)
  · rfl

private theorem numberSign_append (text : List Char) :
    ∃ sign, text = sign ++ (numberSign text).2 ∧ (∀ c ∈ sign, isNumberChar c = true) ∧
      ∀ digits rest, AreDigits digits →
        numberSign (sign ++ (digits ++ rest)) = ((numberSign text).1, digits ++ rest) := by
  rw [numberSign.eq_def text]
  split
  · exact ⟨['-'], rfl, by simp [isNumberChar], fun _ _ _ => rfl⟩
  · exact ⟨[], rfl, by simp, fun _ rest areDigits => numberSign_of_digits areDigits rest⟩

theorem takes_scanNumber : Takes scanNumber := by
  intro text number rest scans
  obtain ⟨afterWhole, afterFraction, isNegative, scansWhole, noZero, scansFraction,
    scansExponent⟩ := scanNumber_eq_ok scans
  obtain ⟨sign, isSigned, areSign, againSign⟩ := numberSign_append text
  obtain ⟨isText, areDigits, stops⟩ := someDigits_eq_ok scansWhole
  obtain ⟨places, rfl, arePlaces, againPlaces⟩ := takes_scanFraction _ _ _ scansFraction
  obtain ⟨power, rfl, arePower, againPower⟩ := takes_scanExponent _ _ _ scansExponent
  refine ⟨sign ++ (number.whole ++ (places ++ power)), ?_, ?_, ?_⟩
  · simp only [List.append_assoc]
    rw [← isText, ← isSigned]
  · simp only [List.forall_mem_append]
    exact ⟨areSign, isNumberChar_of_areDigits areDigits, arePlaces, arePower⟩
  · intro left isPrefix
    have isBehind : places ++ (power ++ left) <+: places ++ (power ++ rest) :=
      (List.prefix_append_right_inj _).mpr ((List.prefix_append_right_inj _).mpr isPrefix)
    have scansWhole : someDigits (number.whole ++ (places ++ (power ++ left))) =
        .ok (number.whole, places ++ (power ++ left)) :=
      someDigits_append areDigits (stopsDigits_of_front stops isBehind)
    have scansPlaces := againPlaces (power ++ left)
      ((List.prefix_append_right_inj _).mpr isPrefix)
    simp only [List.append_assoc]
    rw [scanNumber_eq, againSign _ _ areDigits]
    simp only [scansWhole, Document.ok_bind, if_neg noZero, scansPlaces, againPower left isPrefix,
      ← isNegative]

end RunManifest.Json
