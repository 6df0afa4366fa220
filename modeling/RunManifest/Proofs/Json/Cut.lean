import RunManifest.Proofs.Json.Steps

/-!
Contract: what is read from a JSON text that was cut.

Owns:
- `Cut`, how the tree of a cut text differs from the tree of the whole one;
- `nodeOf_cut`, the tree of a cut text is such a tree.

Behind a cut that falls inside a number another number may be read, and what follows it may be
wrong in another way than ending too early; `loose` stands for that case.
-/

set_option autoImplicit false

namespace RunManifest.Json

open Text

/-! ## Cut strings -/

/-- An escape that is cut among its digits has fewer than four octets left. -/
theorem scanPieces_cut_unit
    {digits : List Char}
    (areDigits : ∀ c ∈ digits, (hexValue? c).isSome = true)
    (short : digits.length < 4) :
    scanPieces ('\\' :: 'u' :: digits) = ([], .error .atEnd) := by
  match digits, short with
  | [], _ => rfl
  | [first], _ =>
      have size := utf8Size_of_hexValue? (areDigits first (by simp))
      simp [scanPieces, underFourBytes, size]
  | [first, second], _ =>
      have firstSize := utf8Size_of_hexValue? (areDigits first (by simp))
      have secondSize := utf8Size_of_hexValue? (areDigits second (by simp))
      simp [scanPieces, underFourBytes, firstSize, secondSize]
  | [first, second, third], _ =>
      have firstSize := utf8Size_of_hexValue? (areDigits first (by simp))
      have secondSize := utf8Size_of_hexValue? (areDigits second (by simp))
      have thirdSize := utf8Size_of_hexValue? (areDigits third (by simp))
      simp [scanPieces, underFourBytes, firstSize, secondSize, thirdSize]

/-- A cut string ends as the whole one does, or it breaks off behind the pieces in front of the
cut. -/
def CutsScan (before after rest : List Char) (pieces : List Piece) : Prop :=
  (∃ left, rest = left ++ after ∧ Scanned before pieces left) ∨
    ∃ early late, pieces = early ++ late ∧ scanPieces before = (early, .error .atEnd)

section CutsScan

variable {before text after rest : List Char} {pieces : List Piece}

private theorem cutsScan_atStart (breaks : scanPieces before = ([], .error .atEnd)) :
    CutsScan before after rest pieces :=
  .inr ⟨[], pieces, rfl, breaks⟩

/-- One piece in front of a cut string. -/
theorem CutsScan.cons
    {piece : Piece}
    (cut : CutsScan text after rest pieces)
    (keeps : ∀ left, Scanned text pieces left → Scanned before (piece :: pieces) left)
    (scans : scanPieces before = (piece :: (scanPieces text).1, (scanPieces text).2)) :
    CutsScan before after rest (piece :: pieces) := by
  rcases cut with ⟨left, same, scanned⟩ | ⟨early, late, rfl, broken⟩
  · exact .inl ⟨left, same, keeps left scanned⟩
  · refine .inr ⟨piece :: early, late, rfl, ?_⟩
    rw [scans, broken]

/-- A cut falls among the digits of an escape or behind them. -/
theorem cutsScan_unit
    {first second third fourth : Char}
    {code : Nat}
    (isCode : hexadecimalValue? [first, second, third, fourth] = some code)
    (split : [first, second, third, fourth] ++ text = before ++ after)
    (later : ∀ more, text = more ++ after → CutsScan more after rest pieces) :
    CutsScan ('\\' :: 'u' :: before) after rest (.unit code :: pieces) := by
  by_cases short : before.length < 4
  · have inDigits : before <+: [first, second, third, fourth] :=
      List.prefix_of_prefix_length_le ⟨after, split.symm⟩ ⟨text, rfl⟩ short.le
    exact cutsScan_atStart (scanPieces_cut_unit
      (fun c member => hexValue?_of_mem isCode c (inDigits.subset member)) short)
  · have isDigits : [first, second, third, fourth] <+: before :=
      List.prefix_of_prefix_length_le ⟨text, rfl⟩ ⟨after, split.symm⟩ (Nat.le_of_not_lt short)
    obtain ⟨more, rfl⟩ := isDigits
    rw [List.append_assoc] at split
    exact (later more (List.append_cancel_left split)).cons (fun _ => .unit isCode)
      (scanPieces_unit isCode more)

/-- A string that was scanned, and that is then cut. -/
theorem Scanned.cut (scanned : Scanned text pieces rest) (split : text = before ++ after) :
    CutsScan before after rest pieces := by
  induction scanned generalizing before with
  | quote rest =>
      cases before with
      | nil => exact cutsScan_atStart rfl
      | cons c before =>
          obtain ⟨rfl, rfl⟩ := List.cons.inj split
          exact .inl ⟨before, rfl, .quote before⟩
  | plain isPlain scanned inductionHypothesis =>
      cases before with
      | nil => exact cutsScan_atStart rfl
      | cons d before =>
          obtain ⟨rfl, splitRest⟩ := List.cons.inj split
          exact (inductionHypothesis splitRest).cons (fun _ => .plain isPlain)
            (scanPieces_plain isPlain before)
  | short isEscape scanned inductionHypothesis =>
      match before with
      | [] => exact cutsScan_atStart rfl
      | [backslash] =>
          obtain ⟨rfl, -⟩ := List.cons.inj split
          exact cutsScan_atStart rfl
      | backslash :: d :: before =>
          obtain ⟨rfl, splitLetter⟩ := List.cons.inj split
          obtain ⟨rfl, splitRest⟩ := List.cons.inj splitLetter
          exact (inductionHypothesis splitRest).cons (fun _ => .short isEscape)
            (scanPieces_short isEscape before)
  | unit isCode scanned inductionHypothesis =>
      match before with
      | [] => exact cutsScan_atStart rfl
      | [backslash] =>
          obtain ⟨rfl, -⟩ := List.cons.inj split
          exact cutsScan_atStart rfl
      | backslash :: u :: before =>
          obtain ⟨rfl, splitMark⟩ := List.cons.inj split
          obtain ⟨rfl, splitDigits⟩ := List.cons.inj splitMark
          exact cutsScan_unit isCode splitDigits fun _ => inductionHypothesis

end CutsScan

/-! ### Surrogates -/

private theorem not_isLeading_of_isTrailing {code : Nat} (trailing : isTrailing code = true) :
    isLeading code = false := by
  simp only [isTrailing, isLeading, Bool.and_eq_true, decide_eq_true_eq] at trailing ⊢
  simp only [Bool.and_eq_false_iff, decide_eq_false_iff_not]
  omega

/-- A trailing surrogate with none in front of it cannot be put together with anything. -/
theorem assemble_of_isTrailing
    {code : Nat}
    (trailing : isTrailing code = true)
    (rest : List Piece) :
    assemble (.unit code :: rest) = .error .loneSurrogate := by
  have notLeading := not_isLeading_of_isTrailing trailing
  cases rest with
  | nil => simp [assemble, notLeading, trailing]
  | cons piece others => cases piece <;> simp [assemble, notLeading, trailing]

private theorem awaits_unit
    {code : Nat}
    (notLeading : isLeading code = false)
    (notTrailing : isTrailing code = false)
    (rest : List Piece) :
    awaits (.unit code :: rest) = awaits rest := by
  cases rest with
  | nil => simp [awaits, notLeading, notTrailing]
  | cons piece others => cases piece <;> simp [awaits, notLeading, notTrailing]

/-- Where pieces can be put together, no surrogate in front of a place is without a partner unless
the partner is yet to come. -/
theorem awaits_of_assemble
    {pieces more : List Piece}
    {chars : List Char}
    (whole : assemble (pieces ++ more) = .ok chars) :
    ∃ pending, awaits pieces = .ok pending := by
  have ofUnit : ∀ (code : Nat) (rest : List Piece) (chars : List Char),
      ¬ isLeading code = true → ¬ isTrailing code = true →
      (∀ chars, assemble (rest ++ more) = .ok chars → ∃ pending, awaits rest = .ok pending) →
      assemble (.unit code :: (rest ++ more)) = .ok chars →
      ∃ pending, awaits (.unit code :: rest) = .ok pending := by
    intro code rest chars notLeading notTrailing later whole
    rw [Bool.not_eq_true] at notLeading notTrailing
    rw [assemble_unit notLeading notTrailing] at whole
    obtain ⟨others, assembled, -⟩ := Document.map_eq_ok.mp whole
    rw [awaits_unit notLeading notTrailing]
    exact later others assembled
  induction pieces using awaits.induct generalizing chars with
  | case1 => exact ⟨false, rfl⟩
  | case2 c rest inductionHypothesis =>
      obtain ⟨others, assembled, -⟩ := Document.map_eq_ok.mp whole
      exact inductionHypothesis assembled
  | case3 code next rest leading trailing inductionHypothesis =>
      simp only [List.cons_append, assemble, leading, trailing, if_true] at whole
      obtain ⟨others, assembled, -⟩ := Document.map_eq_ok.mp whole
      obtain ⟨pending, isPending⟩ := inductionHypothesis assembled
      exact ⟨pending, by simpa [awaits, leading, trailing] using isPending⟩
  | case4 code next rest leading notTrailing => simp [assemble, leading, notTrailing] at whole
  | case5 code next rest notLeading trailing =>
      rw [List.cons_append, assemble_of_isTrailing trailing] at whole
      cases whole
  | case6 code next rest notLeading notTrailing inductionHypothesis =>
      exact ofUnit code _ chars notLeading notTrailing (fun _ => inductionHypothesis) whole
  | case7 code rest noUnit leading isLast => exact ⟨true, by simp_all [awaits]⟩
  | case8 code rest noUnit leading notLast =>
      cases rest with
      | nil => exact absurd rfl notLast
      | cons piece others =>
          cases piece with
          | unit next => exact (noUnit next others rfl).elim
          | char c => simp [assemble, leading] at whole
  | case9 code rest noUnit notLeading trailing =>
      rw [List.cons_append, assemble_of_isTrailing trailing] at whole
      cases whole
  | case10 code rest noUnit notLeading notTrailing inductionHypothesis =>
      exact ofUnit code rest chars notLeading notTrailing (fun _ => inductionHypothesis) whole

/-- What breaks off is too short, and not wrong, where the whole can be put together. -/
theorem read_atEnd
    {pieces more : List Piece}
    {chars : List Char}
    (whole : assemble (pieces ++ more) = .ok chars) :
    Interruption.atEnd.read pieces = .truncated .text := by
  obtain ⟨pending, isPending⟩ := awaits_of_assemble whole
  rw [Interruption.read, isPending]
  cases pending <;> rfl

/-- A cut string is read as the whole one, or breaks off. -/
theorem scanString_cut
    {before after rest : List Char}
    {value : Readable String}
    (scans : scanString (before ++ after) = .ok (value, rest)) :
    (∃ left, rest = left ++ after ∧ scanString before = .ok (value, left)) ∨
      ∃ read, scanString before = .error ⟨read, .truncated .text⟩ ∧
        ((∀ cause, value ≠ .error cause) → read = .truncated .text) := by
  obtain ⟨pieces, scanned, rfl⟩ := scanned_of_scanString scans
  rcases scanned.cut rfl with ⟨left, same, kept⟩ | ⟨early, late, rfl, broken⟩
  · refine .inl ⟨left, same, ?_⟩
    rw [scanString, kept.scanPieces_eq]
  · refine .inr ⟨Interruption.atEnd.read early, by rw [scanString, broken]; rfl, ?_⟩
    intro legible
    cases assembled : assemble (early ++ late) with
    | error cause => exact absurd (by rw [assembled]; rfl) (legible cause)
    | ok chars => exact read_atEnd assembled

/-! ## Cut numbers and words -/

/-- A cut number is read as the whole one, or the cut falls inside it. -/
theorem scanNumber_cut
    {before after rest : List Char}
    {digits : NumberText}
    (nonempty : before ≠ [])
    (scans : scanNumber (before ++ after) = .ok (digits, rest)) :
    (∃ left, rest = left ++ after ∧ scanNumber before = .ok (digits, left)) ∨
      cutsNumber before after = true ∧ ∀ c ∈ before, isNumberChar c = true := by
  obtain ⟨taken, same, areNumber, again⟩ := takes_scanNumber _ _ _ scans
  rcases List.append_eq_append_iff.mp same with ⟨more, rfl, rfl⟩ | ⟨left, rfl, rfl⟩
  · rw [List.forall_mem_append] at areNumber
    cases more with
    | nil =>
        refine .inl ⟨[], rfl, ?_⟩
        have scansBefore := again [] List.nil_prefix
        rwa [List.append_nil, List.append_nil] at scansBefore
    | cons c others =>
        refine .inr ⟨?_, areNumber.1⟩
        obtain ⟨front, last, rfl⟩ := (List.eq_nil_or_concat' before).resolve_left nonempty
        have isOutside := foldl_past_of_unquoted fun d member =>
          isNumberChar_ne_quote (areNumber.1 d member)
        have lastNumber := areNumber.1 last (by simp)
        have headNumber := areNumber.2 c (by simp)
        simp only [cutsNumber, isOutside, List.getLast?_concat, List.cons_append, List.head?_cons,
          Option.any_some, lastNumber, headNumber]
        rfl
  · exact .inl ⟨left, rfl, again left (List.prefix_append left after)⟩

private theorem readWord_cut
    {value node : Node}
    {word before after rest : List Char}
    (reads : readWord value word (before ++ after) = (node, some rest)) :
    (∃ left, rest = left ++ after ∧ readWord value word before = (node, some left)) ∨
      readWord value word before = (.broken (.both (.truncated .value)), none) := by
  induction word generalizing before with
  | nil =>
      cases reads
      exact .inl ⟨before, rfl, rfl⟩
  | cons expected word inductionHypothesis =>
      cases before with
      | nil => exact .inr rfl
      | cons c before =>
          rw [List.cons_append, readWord] at reads
          rw [readWord]
          split at reads
          · rename_i isExpected
            rw [if_pos isExpected]
            exact inductionHypothesis reads
          · cases reads

/-! ## Cut trees -/

/-- The fault that a cut shows. -/
def Shows (loose : Prop) (fault : Fault) : Prop :=
  loose ∨ ∃ inside, fault = .truncated inside

/-- How the tree of a cut text differs from that of the whole text, which has no faults outside of
strings. -/
inductive Cut (loose : Prop) : Node → Node → Prop where
  | broken
      {node : Node}
      {breakage : Breakage}
      (skipped : Shows loose breakage.skipped)
      (read : (∀ cause, node ≠ .text (.error cause)) → Shows loose breakage.read) :
      Cut loose node (.broken breakage)
  | items (first last : List Node) :
      Cut loose (.array (first ++ last) none) (.array first (some (.truncated .list)))
  | item
      {item part : Node}
      (first last : List Node)
      (isCut : Cut loose item part) :
      Cut loose (.array (first ++ item :: last) none) (.array (first ++ [part]) none)
  | numberItem
      (isLoose : loose)
      (first last : List Node)
      (number other : Option Number)
      (fault : Fault) :
      Cut loose (.array (first ++ .number number :: last) none)
        (.array (first ++ [.number other]) (some fault))
  | members
      {breakage : Breakage}
      (first last : List (Readable String × Node))
      (skipped : Shows loose breakage.skipped)
      (read : (∀ cause value others, last ≠ (.error cause, value) :: others) →
        Shows loose breakage.read) :
      Cut loose (.object (first ++ last) none) (.object first (some breakage))
  | member
      {value part : Node}
      (first last : List (Readable String × Node))
      (key : Readable String)
      (isCut : Cut loose value part) :
      Cut loose (.object (first ++ (key, value) :: last) none) (.object (first ++ [(key, part)]) none)
  | numberMember
      (isLoose : loose)
      (first last : List (Readable String × Node))
      (key : Readable String)
      (number other : Option Number)
      (fault : Fault) :
      Cut loose (.object (first ++ (key, .number number) :: last) none)
        (.object (first ++ [(key, .number other)]) (some (.both fault)))

/-- What becomes of reading a value from a cut text: it is read as before, it breaks off, or
another number is read. -/
inductive NodeCut (loose : Prop) (after : List Char) (node : Node) (rest : List Char) :
    Node × Option (List Char) → Prop where
  | kept {left : List Char} (same : rest = left ++ after) :
      NodeCut loose after node rest (node, some left)
  | cut {part : Node} (isCut : Cut loose node part) : NodeCut loose after node rest (part, none)
  | number
      {number other : Option Number}
      {left : List Char}
      (isLoose : loose)
      (isNumber : node = .number number)
      (areNumber : ∀ c ∈ left, isNumberChar c = true) :
      NodeCut loose after node rest (.number other, some left)

/-- What becomes of reading items from a cut text. -/
inductive ItemsCut (loose : Prop) (after : List Char) (items : List Node) (rest : List Char) :
    ReadItems → Prop where
  | kept {left : List Char} (same : rest = left ++ after) :
      ItemsCut loose after items rest ⟨items, none, some left⟩
  | cut
      {parts : List Node}
      {ending : Option Fault}
      (isCut : Cut loose (.array items none) (.array parts ending)) :
      ItemsCut loose after items rest ⟨parts, ending, none⟩

/-- What becomes of reading members from a cut text. -/
inductive MembersCut
    (loose : Prop)
    (after : List Char)
    (members : List (Readable String × Node))
    (rest : List Char) :
    ReadMembers → Prop where
  | kept {left : List Char} (same : rest = left ++ after) :
      MembersCut loose after members rest ⟨members, none, some left⟩
  | cut
      {parts : List (Readable String × Node)}
      {ending : Option Breakage}
      (isCut : Cut loose (.object members none) (.object parts ending)) :
      MembersCut loose after members rest ⟨parts, ending, none⟩

private theorem Cut.consItem
    {loose : Prop}
    {items parts : List Node}
    {ending : Option Fault}
    (isCut : Cut loose (.array items none) (.array parts ending))
    (item : Node) :
    Cut loose (.array (item :: items) none) (.array (item :: parts) ending) := by
  cases isCut with
  | items first last => exact .items (item :: parts) last
  | item first last isCut => exact .item (item :: first) last isCut
  | numberItem isLoose first last number other fault =>
      exact .numberItem isLoose (item :: first) last number other fault

private theorem Cut.consMember
    {loose : Prop}
    {members parts : List (Readable String × Node)}
    {ending : Option Breakage}
    (isCut : Cut loose (.object members none) (.object parts ending))
    (member : Readable String × Node) :
    Cut loose (.object (member :: members) none) (.object (member :: parts) ending) := by
  cases isCut with
  | members first last skipped read => exact .members (member :: parts) last skipped read
  | member first last key isCut => exact .member (member :: first) last key isCut
  | numberMember isLoose first last key number other fault =>
      exact .numberMember isLoose (member :: first) last key number other fault

/-- A cut tree is no tree at all, or a container in place of a container. -/
theorem Cut.part_cases
    {loose : Prop}
    {node part : Node}
    (isCut : Cut loose node part) :
    (∃ breakage, part = .broken breakage ∧
        ((∀ cause, node ≠ .text (.error cause)) → Shows loose breakage.read)) ∨
      (∃ items parts ending, node = .array items none ∧ part = .array parts ending) ∨
      ∃ members parts ending, node = .object members none ∧ part = .object parts ending := by
  cases isCut with
  | broken _ read => exact .inl ⟨_, rfl, read⟩
  | items => exact .inr (.inl ⟨_, _, _, rfl, rfl⟩)
  | item => exact .inr (.inl ⟨_, _, _, rfl, rfl⟩)
  | numberItem => exact .inr (.inl ⟨_, _, _, rfl, rfl⟩)
  | members => exact .inr (.inr ⟨_, _, _, rfl, rfl⟩)
  | member => exact .inr (.inr ⟨_, _, _, rfl, rfl⟩)
  | numberMember => exact .inr (.inr ⟨_, _, _, rfl, rfl⟩)

private theorem shows_truncated (loose : Prop) (inside : Unfinished) :
    Shows loose (.truncated inside) :=
  .inr ⟨inside, rfl⟩

private theorem cut_truncated (loose : Prop) (node : Node) (inside : Unfinished) :
    Cut loose node (.broken (.both (.truncated inside))) :=
  .broken (shows_truncated loose inside) fun _ => shows_truncated loose inside

/-! ## Reading a cut text -/

private theorem readAfterItem_items (fuel : Nat) (item : Node) (text : List Char) :
    ∃ others, (readAfterItem fuel item text).items = item :: others := by
  unfold readAfterItem
  split
  · exact ⟨[], rfl⟩
  · exact ⟨[], rfl⟩
  · exact ⟨_, rfl⟩
  · exact ⟨[], rfl⟩

private theorem readAfterMember_members
    (fuel : Nat)
    (key : Readable String)
    (value : Node)
    (text : List Char) :
    ∃ others, (readAfterMember fuel key value text).members = (key, value) :: others := by
  unfold readAfterMember
  split
  · exact ⟨[], rfl⟩
  · exact ⟨[], rfl⟩
  · exact ⟨_, rfl⟩
  · exact ⟨[], rfl⟩

private theorem head?_skipBlanks_of_areNumber
    {text : List Char}
    (areNumber : ∀ c ∈ text, isNumberChar c = true)
    {c : Char}
    {rest : List Char}
    (front : skipBlanks text = c :: rest) :
    isNumberChar c = true := by
  apply areNumber
  have isSuffix : skipBlanks text <:+ text := List.dropWhile_suffix _
  exact isSuffix.subset (by rw [front]; simp)

/-- A cut text does not begin with what the whole one does not begin with. -/
theorem front_ne_of_append
    {before after : List Char}
    {c : Char}
    (whole : ∀ behind, skipBlanks (before ++ after) ≠ c :: behind)
    (behind : List Char) :
    skipBlanks before ≠ c :: behind := by
  intro isFront
  rcases skipBlanks_append before after with blank | ⟨first, front, isFirst, isWhole⟩
  · rw [blank] at isFront
    cases isFront
  · obtain ⟨rfl, rfl⟩ := List.cons.inj (isFirst.symm.trans isFront)
    exact whole _ isWhole

/-- Behind a number that was cut, characters of numbers are no way to go on. -/
theorem readAfterItem_of_areNumber
    {text : List Char}
    (areNumber : ∀ c ∈ text, isNumberChar c = true)
    (fuel : Nat)
    (item : Node) :
    ∃ fault, readAfterItem fuel item text = ⟨[item], some fault, none⟩ := by
  unfold readAfterItem
  split
  · exact ⟨_, rfl⟩
  · rename_i front
    exact absurd (head?_skipBlanks_of_areNumber areNumber front) (by decide)
  · rename_i front
    exact absurd (head?_skipBlanks_of_areNumber areNumber front) (by decide)
  · exact ⟨_, rfl⟩

private theorem readAfterMember_of_areNumber
    {text : List Char}
    (areNumber : ∀ c ∈ text, isNumberChar c = true)
    (fuel : Nat)
    (key : Readable String)
    (value : Node) :
    ∃ fault, readAfterMember fuel key value text =
      ⟨[(key, value)], some (.both fault), none⟩ := by
  unfold readAfterMember
  split
  · exact ⟨_, rfl⟩
  · rename_i front
    exact absurd (head?_skipBlanks_of_areNumber areNumber front) (by decide)
  · rename_i front
    exact absurd (head?_skipBlanks_of_areNumber areNumber front) (by decide)
  · exact ⟨_, rfl⟩

/-- What is read from a text is read from the text up to a cut, or breaks off. The cut text is read
in as many steps as its own length asks for. -/
structure CutsRead (loose : Prop) (fuel : Nat) : Prop where
  node : ∀ (before after : List Char) (enough : Nat) {rest : List Char} {node : Node},
    readNode fuel (before ++ after) = (node, some rest) →
    (cutsNumber before after = true → loose) → 2 * before.length + 1 ≤ enough →
    NodeCut loose after node rest (readNode enough before)
  items : ∀ (before after : List Char) (enough : Nat) {rest : List Char},
    (readItems fuel (before ++ after)).rest = some rest →
    (cutsNumber before after = true → loose) → 2 * before.length + 2 ≤ enough →
    ItemsCut loose after (readItems fuel (before ++ after)).items rest (readItems enough before)
  members : ∀ (before after : List Char) (enough : Nat) {rest : List Char},
    (readMembers fuel (before ++ after)).rest = some rest →
    (cutsNumber before after = true → loose) → 2 * before.length + 2 ≤ enough →
    MembersCut loose after (readMembers fuel (before ++ after)).members rest
      (readMembers enough before)

section Steps

variable {loose : Prop} {fuel enough : Nat} {before after rest : List Char}
variable (cuts : CutsRead loose fuel) (isLoose : cutsNumber before after = true → loose)
include isLoose

private theorem cutsNumber_front
    {front : List Char}
    (passes : Passes before front) :
    cutsNumber front after = true → loose :=
  fun inside => isLoose (cutsNumber_of_passes passes inside)

include cuts

private theorem readAfterItem_cut
    {item : Node}
    (reads : (readAfterItem fuel item (before ++ after)).rest = some rest)
    (isEnough : 2 * before.length ≤ enough) :
    ItemsCut loose after (readAfterItem fuel item (before ++ after)).items rest
      (readAfterItem enough item before) := by
  rcases skipBlanks_append before after with blank | ⟨c, front, isFront, isWhole⟩
  · obtain ⟨others, isItems⟩ := readAfterItem_items fuel item (before ++ after)
    rw [readAfterItem_of_blank blank, isItems]
    exact .cut (.items [item] others)
  · rcases readAfterItem_eq_some reads with close | ⟨more, comma, readsMore⟩
    · obtain ⟨rfl, same⟩ := List.cons.inj (isWhole.symm.trans close)
      rw [readAfterItem_of_close close, readAfterItem_of_close isFront]
      exact .kept same.symm
    · obtain ⟨rfl, rfl⟩ := List.cons.inj (isWhole.symm.trans comma)
      have shorter : front.length + 1 ≤ before.length := (passes_of_front isFront).length_le
      have outcome := cuts.items front after enough readsMore
        (cutsNumber_front isLoose ((passes_of_front isFront).trans (passes_cons (by decide) front)))
        (by omega)
      rw [readAfterItem_of_comma comma, readAfterItem_of_comma isFront]
      generalize readItems enough front = read at outcome
      cases outcome with
      | kept same => exact .kept same
      | cut isCut => exact .cut (isCut.consItem item)

private theorem readItems_cut
    (reads : (readItems (fuel + 1) (before ++ after)).rest = some rest)
    (isEnough : 2 * before.length + 2 ≤ enough + 1) :
    ItemsCut loose after (readItems (fuel + 1) (before ++ after)).items rest
      (readItems (enough + 1) before) := by
  obtain ⟨item, middle, readsItem, readsAfter⟩ := readItems_eq_some reads
  rw [readItems_of_item readsItem]
  have outcome := cuts.node before after enough readsItem isLoose (by omega)
  obtain ⟨others, isItems⟩ := readAfterItem_items fuel item middle
  generalize isRead : readNode enough before = read at outcome
  cases outcome with
  | @kept left same =>
      subst same
      have passes := (readsPast enough).node isRead
      have shorter := passes.length_le
      rw [readItems_of_item isRead]
      exact readAfterItem_cut cuts (cutsNumber_front isLoose passes) readsAfter (by omega)
  | cut isCut =>
      rw [readItems_of_broken (front_ne_of_append (front_ne_of_readNode readsItem)) isRead, isItems]
      exact .cut (.item [] others isCut)
  | @number number other left isLoose isNumber areNumber =>
      obtain ⟨fault, isAfter⟩ := readAfterItem_of_areNumber areNumber enough (.number other)
      rw [readItems_of_item isRead, isAfter, isItems, isNumber]
      exact .cut (.numberItem isLoose [] others number other fault)

private theorem readAfterMember_cut
    {key : Readable String}
    {value : Node}
    (reads : (readAfterMember fuel key value (before ++ after)).rest = some rest)
    (isEnough : 2 * before.length ≤ enough) :
    MembersCut loose after (readAfterMember fuel key value (before ++ after)).members rest
      (readAfterMember enough key value before) := by
  rcases skipBlanks_append before after with blank | ⟨c, front, isFront, isWhole⟩
  · obtain ⟨others, isMembers⟩ := readAfterMember_members fuel key value (before ++ after)
    rw [readAfterMember_of_blank blank, isMembers]
    exact .cut (.members [(key, value)] others (shows_truncated _ _) fun _ => shows_truncated _ _)
  · rcases readAfterMember_eq_some reads with close | ⟨more, comma, readsMore⟩
    · obtain ⟨rfl, same⟩ := List.cons.inj (isWhole.symm.trans close)
      rw [readAfterMember_of_close close, readAfterMember_of_close isFront]
      exact .kept same.symm
    · obtain ⟨rfl, rfl⟩ := List.cons.inj (isWhole.symm.trans comma)
      have shorter : front.length + 1 ≤ before.length := (passes_of_front isFront).length_le
      have outcome := cuts.members front after enough readsMore
        (cutsNumber_front isLoose ((passes_of_front isFront).trans (passes_cons (by decide) front)))
        (by omega)
      rw [readAfterMember_of_comma comma, readAfterMember_of_comma isFront]
      generalize readMembers enough front = read at outcome
      cases outcome with
      | kept same => exact .kept same
      | cut isCut => exact .cut (isCut.consMember (key, value))

private theorem readAfterKey_cut
    {key : Readable String}
    (reads : (readAfterKey fuel key (before ++ after)).rest = some rest)
    (isEnough : 2 * before.length ≤ enough) :
    MembersCut loose after (readAfterKey fuel key (before ++ after)).members rest
      (readAfterKey enough key before) := by
  obtain ⟨behind, value, afterValue, isColon, readsValue, readsAfter⟩ := readAfterKey_eq_some reads
  obtain ⟨others, isMembers⟩ := readAfterMember_members fuel key value afterValue
  rw [readAfterKey_of_value isColon readsValue]
  rcases skipBlanks_append before after with blank | ⟨c, front, isFront, isWhole⟩
  · rw [readAfterKey_of_blank blank, isMembers]
    exact .cut (.member [] others key (cut_truncated loose value _))
  · obtain ⟨rfl, rfl⟩ := List.cons.inj (isWhole.symm.trans isColon)
    have shorter : front.length + 1 ≤ before.length := (passes_of_front isFront).length_le
    have isLooseFront := cutsNumber_front isLoose
      ((passes_of_front isFront).trans (passes_cons (by decide) front))
    have outcome := cuts.node front after enough readsValue isLooseFront (by omega)
    generalize isRead : readNode enough front = read at outcome
    cases outcome with
    | @kept left same =>
        subst same
        have passes := (readsPast enough).node isRead
        have shorterStill := passes.length_le
        rw [readAfterKey_of_value isFront isRead]
        exact readAfterMember_cut cuts (cutsNumber_front isLooseFront passes) readsAfter (by omega)
    | cut isCut =>
        rw [readAfterKey_of_broken isFront isRead, isMembers]
        exact .cut (.member [] others key isCut)
    | @number number other left isLoose isNumber areNumber =>
        obtain ⟨fault, isAfter⟩ := readAfterMember_of_areNumber areNumber enough key (.number other)
        rw [readAfterKey_of_value isFront isRead, isAfter, isMembers, isNumber]
        exact .cut (.numberMember isLoose [] others key number other fault)

private theorem readMembers_cut
    (reads : (readMembers (fuel + 1) (before ++ after)).rest = some rest)
    (isEnough : 2 * before.length + 2 ≤ enough + 1) :
    MembersCut loose after (readMembers (fuel + 1) (before ++ after)).members rest
      (readMembers (enough + 1) before) := by
  obtain ⟨behind, key, afterKey, isQuote, scans, readsKey⟩ := readMembers_eq_some reads
  rcases skipBlanks_append before after with blank | ⟨c, front, isFront, isWhole⟩
  · rw [readMembers_of_blank blank]
    exact .cut (.members [] _ (shows_truncated _ _) fun _ => shows_truncated _ _)
  · obtain ⟨rfl, rfl⟩ := List.cons.inj (isWhole.symm.trans isQuote)
    rw [readMembers_of_key isQuote scans]
    rcases scanString_cut scans with ⟨left, rfl, scansFront⟩ | ⟨read, breaks, shown⟩
    · have passes := (passes_of_front isFront).trans (passes_of_scanString scansFront)
      have shorter := passes.length_le
      rw [readMembers_of_key isFront scansFront]
      exact readAfterKey_cut cuts (cutsNumber_front isLoose passes) readsKey (by omega)
    · obtain ⟨middle, value, afterValue, isColon, readsValue, -⟩ := readAfterKey_eq_some readsKey
      obtain ⟨others, isMembers⟩ := readAfterMember_members fuel key value afterValue
      rw [readMembers_of_broken isFront breaks, readAfterKey_of_value isColon readsValue, isMembers]
      refine .cut (.members [] _ (shows_truncated _ _) fun legible => .inr ⟨_, shown ?_⟩)
      rintro cause rfl
      exact legible cause value others rfl

private theorem readArray_cut
    {node : Node}
    (reads : readArray fuel (before ++ after) = (node, some rest))
    (isEnough : 2 * before.length + 2 ≤ enough) :
    NodeCut loose after node rest (readArray enough before) := by
  rcases skipBlanks_append before after with blank | ⟨c, front, isFront, isWhole⟩
  · rw [readArray_of_blank blank]
    rcases readArray_eq_some reads with ⟨-, rfl⟩ | ⟨c, behind, -, -, -, rfl⟩
    · exact .cut (.items [] [])
    · exact .cut (.items [] _)
  · rcases readArray_eq_some reads with
      ⟨close, rfl⟩ | ⟨first, behind, isItem, notClose, readsItems, rfl⟩
    · obtain ⟨rfl, same⟩ := List.cons.inj (isWhole.symm.trans close)
      rw [readArray_of_close isFront]
      exact .kept same.symm
    · obtain ⟨rfl, rfl⟩ := List.cons.inj (isWhole.symm.trans isItem)
      have passes := passes_of_front isFront
      have shorter := passes.length_le
      have outcome := cuts.items (c :: front) after enough readsItems
        (cutsNumber_front isLoose passes) (by omega)
      rw [readArray_of_items isFront notClose]
      rw [List.cons_append] at outcome
      generalize readItems enough (c :: front) = read at outcome
      cases outcome with
      | kept same => exact .kept same
      | cut isCut => exact .cut isCut

private theorem readObject_cut
    {node : Node}
    (reads : readObject fuel (before ++ after) = (node, some rest))
    (isEnough : 2 * before.length + 2 ≤ enough) :
    NodeCut loose after node rest (readObject enough before) := by
  rcases skipBlanks_append before after with blank | ⟨c, front, isFront, isWhole⟩
  · rw [readObject_of_blank blank]
    rcases readObject_eq_some reads with ⟨-, rfl⟩ | ⟨c, behind, -, -, -, rfl⟩
    · exact .cut (.members [] [] (shows_truncated _ _) fun _ => shows_truncated _ _)
    · exact .cut (.members [] _ (shows_truncated _ _) fun _ => shows_truncated _ _)
  · rcases readObject_eq_some reads with
      ⟨close, rfl⟩ | ⟨first, behind, isMember, notClose, readsMembers, rfl⟩
    · obtain ⟨rfl, same⟩ := List.cons.inj (isWhole.symm.trans close)
      rw [readObject_of_close isFront]
      exact .kept same.symm
    · obtain ⟨rfl, rfl⟩ := List.cons.inj (isWhole.symm.trans isMember)
      have passes := passes_of_front isFront
      have shorter := passes.length_le
      have outcome := cuts.members (c :: front) after enough readsMembers
        (cutsNumber_front isLoose passes) (by omega)
      rw [readObject_of_members isFront notClose]
      rw [List.cons_append] at outcome
      generalize readMembers enough (c :: front) = read at outcome
      cases outcome with
      | kept same => exact .kept same
      | cut isCut => exact .cut isCut

private theorem readFront_cut
    {c : Char}
    {front : List Char}
    {node : Node}
    (passes : Passes before (c :: front))
    (reads : readFront fuel c (front ++ after) = (node, some rest))
    (isEnough : 2 * front.length + 2 ≤ enough) :
    NodeCut loose after node rest (readFront enough c front) := by
  have isLooseHere := cutsNumber_front isLoose passes
  have ofWord : ∀ value word, readWord value word (front ++ after) = (node, some rest) →
      NodeCut loose after node rest (readWord value word front) := by
    intro value word readsWord
    rcases readWord_cut readsWord with ⟨left, same, kept⟩ | broken
    · rw [kept]
      exact .kept same
    · rw [broken]
      exact .cut (cut_truncated loose node _)
  unfold readFront at reads ⊢
  split at reads
  · exact ofWord _ _ reads
  · exact ofWord _ _ reads
  · exact ofWord _ _ reads
  · obtain ⟨value, rfl, scans⟩ := readText_eq_some reads
    rcases scanString_cut scans with ⟨left, same, kept⟩ | ⟨read, breaks, shown⟩
    · rw [readText, kept]
      exact .kept same
    · rw [readText, breaks]
      refine .cut (.broken (shows_truncated _ _) fun legible => .inr ⟨_, shown ?_⟩)
      rintro cause rfl
      exact legible cause rfl
  · exact readArray_cut cuts
      (cutsNumber_front isLoose (passes.trans (passes_cons (by decide) front))) reads isEnough
  · exact readObject_cut cuts
      (cutsNumber_front isLoose (passes.trans (passes_cons (by decide) front))) reads isEnough
  · split at reads
    · rename_i isNumber
      rw [if_pos isNumber]
      obtain ⟨digits, rfl, scans⟩ := readNumber_eq_some reads
      rcases scanNumber_cut (List.cons_ne_nil c front) scans with
        ⟨left, same, kept⟩ | ⟨inside, areNumber⟩
      · rw [readNumber, kept]
        exact .kept same
      · unfold readNumber
        split
        · rename_i digits left scansFront
          obtain ⟨taken, isTaken, -⟩ := takes_scanNumber _ _ _ scansFront
          refine .number (isLooseHere inside) rfl fun d member => areNumber d ?_
          rw [isTaken]
          exact List.mem_append_right taken member
        · exact .cut (.broken (.inl (isLooseHere inside)) fun _ => .inl (isLooseHere inside))
    · cases reads

private theorem readNode_cut
    {node : Node}
    (reads : readNode (fuel + 1) (before ++ after) = (node, some rest))
    (isEnough : 2 * before.length + 1 ≤ enough + 1) :
    NodeCut loose after node rest (readNode (enough + 1) before) := by
  obtain ⟨first, behind, isFirst, readsFront⟩ := readNode_eq_some reads
  rcases skipBlanks_append before after with blank | ⟨c, front, isFront, isWhole⟩
  · rw [readNode_of_blank blank]
    exact .cut (cut_truncated loose node _)
  · obtain ⟨rfl, rfl⟩ := List.cons.inj (isWhole.symm.trans isFirst)
    have passes := passes_of_front isFront
    have shorter : front.length + 1 ≤ before.length := passes.length_le
    rw [readNode_of_front isFront]
    exact readFront_cut cuts isLoose passes readsFront (by omega)

end Steps

private theorem cutsRead (loose : Prop) (fuel : Nat) : CutsRead loose fuel := by
  induction fuel with
  | zero =>
      refine ⟨?_, ?_, ?_⟩
      · intro before after enough rest node reads
        cases reads
      · intro before after enough rest reads
        cases reads
      · intro before after enough rest reads
        cases reads
  | succ fuel cuts =>
      refine ⟨?_, ?_, ?_⟩
      · intro before after enough rest node reads isLoose isEnough
        obtain ⟨enough, rfl⟩ : ∃ one, enough = one + 1 := ⟨enough - 1, by omega⟩
        exact readNode_cut cuts isLoose reads isEnough
      · intro before after enough rest reads isLoose isEnough
        obtain ⟨enough, rfl⟩ : ∃ one, enough = one + 1 := ⟨enough - 1, by omega⟩
        exact readItems_cut cuts isLoose reads isEnough
      · intro before after enough rest reads isLoose isEnough
        obtain ⟨enough, rfl⟩ : ∃ one, enough = one + 1 := ⟨enough - 1, by omega⟩
        exact readMembers_cut cuts isLoose reads isEnough

/-- The value at the front of a cut text. -/
theorem nodeOf_cut
    {before after rest : List Char}
    {node : Node}
    (reads : nodeOf (before ++ after) = (node, some rest)) :
    NodeCut (cutsNumber before after = true) after node rest (nodeOf before) :=
  (cutsRead _ _).node before after _ reads id (by omega)

end RunManifest.Json
