import RunManifest.Proofs.Yaml.Quoted
import RunManifest.Yaml.Scalar.Block

/-!
Contract: literal blocks are read as the texts they were written for.

Owns:
- `Lines`, texts as lines with breaks between them;
- `readEmptyLines_breaks`, the empty lines between the others, and the indentation after them;
- `readsLines_of_lines`, the lines of a text, and `chomped_ended`, the breaks at its end;
- `readBlock_literal`, a block with its header.
-/

set_option autoImplicit false

namespace RunManifest.Yaml

/-! ## Lines -/

/-- A line that is not empty, without the break at its end. -/
structure IsLine (line : List Char) : Prop where
  nonempty : line ≠ []
  noBreak : ∀ c ∈ line, isBreak c = false

/-- A text as lines, the first of which is not empty. -/
inductive Lines : List Char → Prop where
  | last {line : List Char} (isLine : IsLine line) : Lines line
  | ended
      {line breaks : List Char}
      {b : Char}
      (isLine : IsLine line)
      (areBreaks : ∀ c ∈ b :: breaks, isBreak c = true) :
      Lines (line ++ b :: breaks)
  | more
      {line breaks later : List Char}
      {b : Char}
      (isLine : IsLine line)
      (areBreaks : ∀ c ∈ b :: breaks, isBreak c = true)
      (lines : Lines later) :
      Lines (line ++ b :: (breaks ++ later))

/-- The characters with a property at the front of a text. -/
theorem exists_run (property : Char → Bool) (text : List Char) :
    ∃ run later, text = run ++ later ∧ (∀ c ∈ run, property c = true) ∧
      ∀ c, later.head? = some c → property c = false := by
  refine ⟨text.takeWhile property, text.dropWhile property, ?_, ?_, ?_⟩
  · exact List.takeWhile_append_dropWhile.symm
  · exact List.all_eq_true.mp List.all_takeWhile
  · intro c isHead
    have noMore := List.head?_dropWhile_not property text
    rw [isHead] at noMore
    simpa using noMore

private theorem lines_of_head {c : Char} {rest : List Char} (notBreak : isBreak c = false) :
    Lines (c :: rest) := by
  obtain ⟨line, more, isText, noBreak, stops⟩ := exists_run (fun d => !isBreak d) rest
  have isLine : IsLine (c :: line) := by
    refine ⟨List.cons_ne_nil _ _, fun d isChar => ?_⟩
    rcases List.mem_cons.mp isChar with rfl | isRest
    · exact notBreak
    · simpa using noBreak d isRest
  rw [isText]
  cases more with
  | nil =>
      rw [List.append_nil]
      exact .last isLine
  | cons b more =>
      have breaksHere : isBreak b = true := by simpa using stops b rfl
      obtain ⟨breaks, later, isMore, areBreaks, goesOn⟩ := exists_run isBreak more
      have allBreaks : ∀ d ∈ b :: breaks, isBreak d = true :=
        List.forall_mem_cons.mpr ⟨breaksHere, areBreaks⟩
      rw [isMore]
      cases later with
      | nil =>
          rw [List.append_nil]
          exact .ended isLine allBreaks
      | cons d others =>
          have shorter : others.length < rest.length := by
            rw [isText, isMore]
            simp
            omega
          exact .more isLine allBreaks (lines_of_head (goesOn d rfl))
termination_by rest.length

theorem Lines.head {text : List Char} (lines : Lines text) :
    ∃ c rest, text = c :: rest ∧ isBreak c = false := by
  cases lines with
  | last isLine =>
      obtain ⟨c, rest, rfl⟩ := List.exists_cons_of_ne_nil isLine.nonempty
      exact ⟨c, rest, rfl, isLine.noBreak c (by simp)⟩
  | ended isLine _ =>
      obtain ⟨c, rest, rfl⟩ := List.exists_cons_of_ne_nil isLine.nonempty
      exact ⟨c, _, rfl, isLine.noBreak c (by simp)⟩
  | more isLine _ _ =>
      obtain ⟨c, rest, rfl⟩ := List.exists_cons_of_ne_nil isLine.nonempty
      exact ⟨c, _, rfl, isLine.noBreak c (by simp)⟩

section Forms

variable {indent : Nat} {rest : List Char}

private theorem literalLines_line {line : List Char} (noBreak : ∀ c ∈ line, isBreak c = false) :
    literalLines indent false (line ++ rest) = line ++ literalLines indent false rest := by
  induction line with
  | nil => rfl
  | cons c line inductionHypothesis =>
      have notBreak := noBreak c (by simp)
      rw [List.cons_append, literalLines, if_neg (by simp [notBreak]),
        inductionHypothesis fun d isChar => noBreak d (by simp [isChar])]
      rfl

private theorem literalLines_break {atStart : Bool} {b : Char} (breaks : isBreak b = true) :
    literalLines indent atStart (b :: rest) = b :: literalLines indent true rest := by
  rw [literalLines, if_pos breaks]

private theorem literalLines_breaks
    {breaks : List Char}
    (areBreaks : ∀ c ∈ breaks, isBreak c = true) :
    literalLines indent true (breaks ++ rest) = breaks ++ literalLines indent true rest := by
  induction breaks with
  | nil => rfl
  | cons b breaks inductionHypothesis =>
      rw [List.cons_append, literalLines_break (areBreaks b (by simp)),
        inductionHypothesis fun c isChar => areBreaks c (by simp [isChar])]
      rfl

private theorem literalLines_start {c : Char} (notBreak : isBreak c = false) :
    literalLines indent true (c :: rest) =
      blanks indent ++ literalLines indent false (c :: rest) := by
  have notTrue : ¬ isBreak c = true := by simp [notBreak]
  simp only [literalLines, if_neg notTrue]
  rfl

private theorem length_le_literalLines (indent : Nat) (atStart : Bool) (chars : List Char) :
    chars.length ≤ (literalLines indent atStart chars).length := by
  induction chars generalizing atStart with
  | nil => exact Nat.zero_le _
  | cons c chars inductionHypothesis =>
      by_cases breaks : isBreak c = true
      · rw [literalLines_break breaks, List.length_cons, List.length_cons]
        exact Nat.succ_le_succ (inductionHypothesis _)
      · rw [literalLines, if_neg breaks, List.length_append, List.length_cons, List.length_cons]
        exact Nat.le_add_left_of_le (Nat.succ_le_succ (inductionHypothesis _))

end Forms

/-! ## Empty lines -/

/-- A place where the empty lines before the next line are over. -/
def EndsEmpty (indent : Option Nat) (column : Nat) (rest : List Char) : Prop :=
  ∀ c, rest.head? = some c → isBreak c = false ∧ (isBlank c = true → isWithin indent column = false)

private theorem endsEmpty_of_begins
    {indent : Option Nat}
    {column : Nat}
    {tail : List Char}
    (begins : Begins tail) :
    EndsEmpty indent column tail := by
  intro c isHead
  obtain ⟨notBlank, notBreak⟩ := Bool.or_eq_false_iff.mp (begins c isHead).1
  exact ⟨notBreak, fun isBlank => absurd isBlank (by simp [notBlank])⟩

private theorem readEmptyLines_end
    {indent : Option Nat}
    {rest : List Char}
    {fuel widest index line column : Nat}
    (ends : EndsEmpty indent column rest) :
    readEmptyLines indent (fuel + 1) widest ⟨rest, index, line, column⟩ =
      some ⟨[], max widest column, ⟨rest, index, line, column⟩⟩ := by
  cases rest with
  | nil => rfl
  | cons c rest =>
      obtain ⟨notBreak, notWithin⟩ := ends c rfl
      have noSpace : ¬ (c = ' ' ∧ isWithin indent column = true) := by
        rintro ⟨rfl, within⟩
        rw [notWithin (by decide)] at within
        cases within
      have noTab : ¬ (c = '\t' ∧ isWithin indent column = true) := by
        rintro ⟨rfl, within⟩
        rw [notWithin (by decide)] at within
        cases within
      rw [readEmptyLines]
      dsimp only
      rw [if_neg noSpace, if_neg noTab, if_neg (by simp [notBreak])]

private theorem readEmptyLines_blanks
    {indent : Option Nat}
    {rest : List Char}
    {fuel widest width index line column : Nat}
    (enough : width < fuel)
    (within : ∀ passed < width, isWithin indent (column + passed) = true) :
    readEmptyLines indent fuel widest ⟨blanks width ++ rest, index, line, column⟩ =
      readEmptyLines indent (fuel - width) widest ⟨rest, index + width, line, column + width⟩ := by
  induction width generalizing fuel index column with
  | zero => rfl
  | succ width inductionHypothesis =>
      obtain ⟨fuel, rfl⟩ : ∃ smaller, fuel = smaller + 1 := ⟨fuel - 1, by omega⟩
      have fewer : width < fuel := by omega
      have withinAfter : ∀ passed < width, isWithin indent (column + 1 + passed) = true := by
        intro passed isLess
        rw [Nat.add_assoc, Nat.add_comm 1]
        exact within (passed + 1) (by omega)
      show readEmptyLines indent (fuel + 1) _ ⟨' ' :: (blanks width ++ rest), index, line, column⟩ = _
      rw [readEmptyLines]
      dsimp only
      rw [if_pos ⟨rfl, within 0 (by omega)⟩, Cursor.next_cons, inductionHypothesis fewer withinAfter,
        Nat.succ_sub_succ, Nat.add_assoc index, Nat.add_assoc column, Nat.add_comm width]
      rfl

/-- Empty lines and the indentation after them. -/
theorem readEmptyLines_breaks
    {indent : Option Nat}
    {breaks rest : List Char}
    (areBreaks : ∀ c ∈ breaks, isBreak c = true)
    {fuel widest width index line : Nat}
    (enough : breaks.length + width < fuel)
    (within : ∀ passed < width, isWithin indent passed = true)
    (ends : EndsEmpty indent width rest) :
    readEmptyLines indent fuel widest ⟨breaks ++ (blanks width ++ rest), index, line, 0⟩ =
      some ⟨breaks, max widest width,
        ⟨rest, index + octetCount breaks + width, line + breaks.length, width⟩⟩ := by
  induction breaks generalizing fuel widest index line with
  | nil =>
      rw [List.length_nil, Nat.zero_add] at enough
      obtain ⟨left, isLeft⟩ : ∃ left, fuel - width = left + 1 := ⟨fuel - width - 1, by omega⟩
      rw [List.nil_append, readEmptyLines_blanks enough (by simpa using within), isLeft, Nat.zero_add,
        readEmptyLines_end ends]
      rfl
  | cons b breaks inductionHypothesis =>
      rw [List.length_cons] at enough
      obtain ⟨fuel, rfl⟩ : ∃ smaller, fuel = smaller + 1 := ⟨fuel - 1, by omega⟩
      have breaksHere := areBreaks b (by simp)
      have fewer : breaks.length + width < fuel := by omega
      have notSpace : b ≠ ' ' := by
        rintro rfl
        cases breaksHere
      have notTab : b ≠ '\t' := by
        rintro rfl
        cases breaksHere
      rw [List.cons_append, readEmptyLines]
      dsimp only
      rw [if_neg (by simp [notSpace]), if_neg (by simp [notTab]), if_pos breaksHere,
        Cursor.nextLine_cons,
        inductionHypothesis (fun c isChar => areBreaks c (by simp [isChar])) fewer, octetCount_cons,
        List.length_cons, Nat.max_zero, Nat.add_assoc index, Nat.add_assoc line, Nat.add_comm 1]
      rfl

/-! ## The end of a block -/

/-- What the header of a literal block says about the breaks at its end. -/
def endChomping (chars : List Char) : Chomping :=
  match chars.reverse with
  | [] => .strip
  | last :: before =>
      if !isBreak last then .strip
      else
        match before with
        | [] => .keep
        | c :: _ => if isBreak c then .keep else .clip

private theorem endChomping_line {line : List Char} (isLine : IsLine line) (leading : List Char) :
    endChomping (leading ++ line) = .strip := by
  obtain ⟨front, last, rfl⟩ := List.eq_nil_or_concat line |>.resolve_left isLine.nonempty
  have notBreak := isLine.noBreak last (by simp)
  simp [endChomping, notBreak]

/-- Several breaks at the end of a text are kept, and so is one that is all of the text. -/
theorem endChomping_breaks
    {breaks : List Char}
    (areBreaks : ∀ c ∈ breaks, isBreak c = true)
    {b : Char}
    (breaksHere : isBreak b = true)
    {leading : List Char}
    (several : leading = [] ∨ breaks ≠ []) :
    endChomping (leading ++ (breaks ++ [b])) = .keep := by
  rcases List.eq_nil_or_concat breaks with rfl | ⟨front, last, rfl⟩
  · rcases several with rfl | several
    · simp [endChomping, breaksHere]
    · exact absurd rfl several
  · have breaksBefore := areBreaks last (by simp)
    simp [endChomping, breaksHere, breaksBefore]

/-- The breaks at the end of a text are those that its header keeps. -/
theorem chomped_ended
    {line breaks : List Char}
    {b : Char}
    (isLine : IsLine line)
    (areBreaks : ∀ c ∈ b :: breaks, isBreak c = true)
    (leading : List Char) :
    chomped (endChomping (leading ++ (line ++ b :: breaks))) ⟨some b, breaks⟩ = b :: breaks := by
  have breaksHere := areBreaks b (by simp)
  rcases List.eq_nil_or_concat breaks with rfl | ⟨front, last, rfl⟩
  · obtain ⟨before, last, rfl⟩ := List.eq_nil_or_concat line |>.resolve_left isLine.nonempty
    have notBreak := isLine.noBreak last (by simp)
    simp [endChomping, breaksHere, notBreak, chomped]
  · rw [List.concat_eq_append, ← List.cons_append] at areBreaks
    have keeps : endChomping (leading ++ line ++ (b :: front ++ [last])) = .keep := by
      apply endChomping_breaks
      · exact fun c isChar => areBreaks c (List.mem_append_left _ isChar)
      · exact areBreaks last (by simp)
      · exact .inr (List.cons_ne_nil _ _)
    rw [List.concat_eq_append, ← List.append_assoc, ← List.cons_append, keeps]
    rfl

/-! ## Lines of a block -/

/-- What is written between the lines of a literal block are their breaks. -/
def Trail.text (trail : Trail) : List Char :=
  trail.last.toList ++ trail.empty

private theorem readLines_end
    {indent : Nat}
    {trail : Trail}
    {blankBefore : Bool}
    {fuel : Nat}
    {cursor : Cursor}
    (outdented : cursor.column ≠ indent) :
    readLines false indent fuel trail blankBefore cursor = some ([], trail, cursor) := by
  cases fuel with
  | zero => rfl
  | succ fuel =>
      rw [readLines]
      split
      · rfl
      · rw [if_neg outdented]

/-- One line with the empty lines after it. -/
theorem readLines_line
    {text : List Char}
    (isLine : IsLine text)
    {b : Char}
    {breaks : List Char}
    (areBreaks : ∀ c ∈ b :: breaks, isBreak c = true)
    {indent width : Nat}
    (within : width ≤ indent)
    {rest : List Char}
    (ends : EndsEmpty (some indent) width rest)
    {trail : Trail}
    {blankBefore : Bool}
    {fuel index line : Nat} :
    readLines false indent (fuel + 1) trail blankBefore
        ⟨text ++ b :: breaks ++ (blanks width ++ rest), index, line, indent⟩ =
      (readLines false indent fuel ⟨some b, breaks⟩ (text.head?.any isBlank)
        ⟨rest, index + octetCount (text ++ b :: breaks) + width, line + (b :: breaks).length,
          width⟩).map
        fun read => (trail.text ++ text ++ read.1, read.2) := by
  obtain ⟨c, others, rfl⟩ := List.exists_cons_of_ne_nil isLine.nonempty
  have breaksHere := areBreaks b (by simp)
  have withinBlock : ∀ passed < width, isWithin (some indent) passed = true := by
    intro passed isLess
    simp [isWithin]
    omega
  have empties : readEmptyLines (some indent) ((breaks ++ (blanks width ++ rest)).length + 1) 0
      ⟨breaks ++ (blanks width ++ rest), index + octetCount (c :: others) + b.utf8Size, line + 1, 0⟩ =
        some ⟨breaks, max 0 width, ⟨rest,
          index + octetCount (c :: others) + b.utf8Size + octetCount breaks + width,
          line + 1 + breaks.length, width⟩⟩ := by
    apply readEmptyLines_breaks (fun c isChar => areBreaks c (by simp [isChar])) _ withinBlock ends
    simp [blanks]
  have content : ∀ after : List Char,
      (c :: (others ++ b :: after)).takeWhile (fun d => !isBreak d) = c :: others := by
    intro after
    rw [← List.cons_append, List.takeWhile_append_of_pos (by simpa using isLine.noBreak)]
    simp [breaksHere]
  have joint : lineJoint false trail blankBefore (isBlank c) = trail.text := by
    simp [lineJoint, Trail.text]
  have size : index + octetCount (c :: others ++ b :: breaks) =
      index + octetCount (c :: others) + b.utf8Size + octetCount breaks := by
    rw [octetCount_append, octetCount_cons b]
    omega
  have count : line + (b :: breaks).length = line + 1 + breaks.length := by
    rw [List.length_cons]
    omega
  rw [size, count, List.append_assoc, List.cons_append, List.cons_append, readLines]
  dsimp only
  rw [if_pos rfl, content, ← List.cons_append, Cursor.advance_append]
  simp only [List.head?_cons, Option.isSome_some, if_true, Cursor.nextLine_cons, empties, joint]
  rw [Option.bind_eq_bind, Option.bind_some]
  exact bind_pure_comp _ _

/-- A line with breaks after it, and the margin of the line that follows. -/
theorem literalLines_more
    {text breaks others : List Char}
    {b c : Char}
    (isLine : IsLine text)
    (areBreaks : ∀ c ∈ b :: breaks, isBreak c = true)
    (notBreak : isBreak c = false)
    (indent : Nat) :
    literalLines indent false (text ++ b :: (breaks ++ c :: others)) =
      text ++ b :: breaks ++ (blanks indent ++ literalLines indent false (c :: others)) := by
  obtain ⟨breaksHere, breaksLater⟩ := List.forall_mem_cons.mp areBreaks
  rw [literalLines_line isLine.noBreak, literalLines_break breaksHere,
    literalLines_breaks breaksLater, literalLines_start notBreak, List.append_assoc]
  rfl

/-- Empty lines end at a line, if a blank at its start stands behind the margin. -/
theorem endsEmpty_literalLines
    {c : Char}
    (notBreak : isBreak c = false)
    {indent : Option Nat}
    {column : Nat}
    (notWithin : isBlank c = true → isWithin indent column = false)
    (margin : Nat)
    (others rest : List Char) :
    EndsEmpty indent column (literalLines margin false (c :: others) ++ rest) := by
  intro d isHead
  have isFirst : d = c := by
    simpa [literalLines, notBreak, eq_comm] using isHead
  subst isFirst
  exact ⟨notBreak, notWithin⟩

/-- The lines of a text are read in a block, up to a tail that stands in column `width`. What the
header says of the end of the text may be said of a longer text. -/
def ReadsLines (indent width : Nat) (tail chars : List Char) : Prop :=
  ∀ ⦃fuel : Nat⦄, chars.length < fuel → ∀ trail blankBefore index line,
    ∃ body last index' line', readLines false indent fuel trail blankBefore
        ⟨literalLines indent false chars ++ (blanks width ++ tail), index, line, indent⟩ =
      some (trail.text ++ body, last, ⟨tail, index', line', width⟩) ∧
      ∀ leading, body ++ chomped (endChomping (leading ++ chars)) last = chars

section ReadsLines

variable {indent width : Nat} {text breaks tail : List Char} {b : Char}

private theorem readsLines_last
    (isLine : IsLine text)
    (outdented : width < indent)
    (begins : Begins tail) :
    ReadsLines indent width tail text := by
  intro fuel enough trail blankBefore index line
  obtain ⟨fuel, rfl⟩ : ∃ smaller, fuel = smaller + 1 := ⟨fuel - 1, by omega⟩
  have isEnd : ∀ c ∈ ['\n'], isBreak c = true :=
    List.forall_mem_singleton.mpr rfl
  have form : literalLines indent false (text ++ []) = text ++ ['\n'] :=
    literalLines_line isLine.noBreak
  rw [List.append_nil] at form
  rw [form, readLines_line isLine isEnd (Nat.le_of_lt outdented) (endsEmpty_of_begins begins),
    readLines_end (Nat.ne_of_lt outdented), Option.map_some, List.append_nil]
  refine ⟨text, _, _, _, rfl, fun leading => ?_⟩
  rw [endChomping_line isLine]
  exact List.append_nil _

private theorem readsLines_ended
    (isLine : IsLine text)
    (areBreaks : ∀ c ∈ b :: breaks, isBreak c = true)
    (outdented : width < indent)
    (begins : Begins tail) :
    ReadsLines indent width tail (text ++ b :: breaks) := by
  intro fuel enough trail blankBefore index line
  obtain ⟨fuel, rfl⟩ : ∃ smaller, fuel = smaller + 1 := ⟨fuel - 1, by omega⟩
  obtain ⟨breaksHere, breaksLater⟩ := List.forall_mem_cons.mp areBreaks
  have ending : literalLines indent true (breaks ++ []) = breaks ++ [] :=
    literalLines_breaks breaksLater
  rw [List.append_nil] at ending
  rw [literalLines_line isLine.noBreak, literalLines_break breaksHere, ending,
    readLines_line isLine areBreaks (Nat.le_of_lt outdented) (endsEmpty_of_begins begins),
    readLines_end (Nat.ne_of_lt outdented), Option.map_some, List.append_nil]
  refine ⟨text, _, _, _, rfl, fun leading => ?_⟩
  rw [chomped_ended isLine areBreaks]

private theorem readsLines_more
    {later : List Char}
    (isLine : IsLine text)
    (areBreaks : ∀ c ∈ b :: breaks, isBreak c = true)
    (lines : Lines later)
    (reads : ReadsLines indent width tail later) :
    ReadsLines indent width tail (text ++ b :: (breaks ++ later)) := by
  intro fuel enough trail blankBefore index line
  obtain ⟨fuel, rfl⟩ : ∃ smaller, fuel = smaller + 1 := ⟨fuel - 1, by omega⟩
  have shorter : later.length < fuel := by
    simp at enough
    omega
  obtain ⟨c, others, rfl, notBreak⟩ := lines.head
  have notWithin : isWithin (some indent) indent = false := decide_eq_false (Nat.lt_irrefl _)
  have ends := endsEmpty_literalLines notBreak (fun _ => notWithin) indent others
    (blanks width ++ tail)
  rw [literalLines_more isLine areBreaks notBreak, List.append_assoc,
    List.append_assoc (blanks indent), readLines_line isLine areBreaks (Nat.le_refl _) ends]
  obtain ⟨body, last, index', line', read, kept⟩ := reads shorter _ _ _ _
  rw [read]
  refine ⟨text ++ b :: (breaks ++ body), last, index', line', ?_, fun leading => ?_⟩
  · simp [Trail.text]
  · have keptHere := kept (leading ++ text ++ b :: breaks)
    simp at keptHere ⊢
    exact keptHere

theorem readsLines_of_lines
    {chars : List Char}
    (lines : Lines chars)
    (outdented : width < indent)
    (begins : Begins tail) :
    ReadsLines indent width tail chars := by
  induction lines with
  | last isLine => exact readsLines_last isLine outdented begins
  | ended isLine areBreaks => exact readsLines_ended isLine areBreaks outdented begins
  | more isLine areBreaks lines inductionHypothesis =>
      exact readsLines_more isLine areBreaks lines inductionHypothesis

end ReadsLines

/-! ## Whole blocks -/

/-- The sign of a header. -/
def Chomping.sign : Chomping → List Char
  | .strip => ['-']
  | .clip => []
  | .keep => ['+']

theorem chomping_eq_sign (chars : List Char) : chomping chars = (endChomping chars).sign := by
  unfold chomping endChomping
  generalize chars.reverse = reversed
  cases reversed with
  | nil => rfl
  | cons last before =>
      dsimp only
      split
      · rfl
      · cases before with
        | nil => rfl
        | cons c before =>
            dsimp only
            split <;> rfl

/-- The indentation that the header of a literal block gives. -/
def givenIndent (chars : List Char) : Option Nat :=
  if chars.head?.any fun c => isSpace c || isBreak c then some indentStep else none

/-- The marks of a header, after the bar. -/
def literalMarks (chars : List Char) : List Char :=
  (if chars.head?.any fun c => isSpace c || isBreak c then Text.decimal indentStep else []) ++
    (endChomping chars).sign

private theorem headerMarks_literalMarks (chars rest : List Char) :
    headerMarks (literalMarks chars ++ '\n' :: rest) =
      some (⟨endChomping chars, givenIndent chars⟩, '\n' :: rest) := by
  unfold literalMarks givenIndent
  generalize endChomping chars = mode
  split
  · cases mode <;> rfl
  · cases mode <;> rfl

private theorem readBlockHeader_literalHeader (chars rest : List Char) (index line column : Nat) :
    readBlockHeader ⟨literalHeader chars ++ '\n' :: rest, index, line, column⟩ =
      some (⟨endChomping chars, givenIndent chars⟩,
        ⟨rest, index + octetCount (literalHeader chars) + 1, line + 1, 0⟩) := by
  have form : literalHeader chars = '|' :: literalMarks chars := by
    rw [literalHeader, chomping_eq_sign]
    rfl
  have width : (literalMarks chars ++ '\n' :: rest).length - ('\n' :: rest).length =
      (literalMarks chars).length := by
    simp
  have size : octetCount (literalHeader chars) = 1 + octetCount (literalMarks chars) := by
    rw [form, octetCount_cons]
    rfl
  have noBlanks : ∀ index column, (⟨'\n' :: rest, index, line, column⟩ : Cursor).skipWhile isBlank =
      ⟨'\n' :: rest, index, line, column⟩ := fun _ _ => rfl
  rw [size, form, List.cons_append, readBlockHeader, Cursor.next_cons]
  dsimp only
  rw [headerMarks_literalMarks, Option.bind_eq_bind, Option.bind_some]
  dsimp only
  rw [width, Cursor.advance_append, noBlanks]
  simp only [List.head?_cons, Option.some.injEq]
  rw [if_neg (by decide)]
  dsimp only
  rw [if_pos (by decide), Cursor.nextLine_cons, ← Nat.add_assoc index]
  rfl

/-- The parts of a literal block: its header, the empty lines at its start, and its other lines. -/
theorem readBlock_parts
    {chars rest body : List Char}
    {around indent index line column : Nat}
    {empty : EmptyLines}
    {last : Trail}
    {after : Cursor}
    (empties : readEmptyLines ((givenIndent chars).map (around + ·)) (rest.length + 1) 0
      ⟨rest, index + octetCount (literalHeader chars) + 1, line + 1, 0⟩ = some empty)
    (isIndent : ((givenIndent chars).map (around + ·)).getD (detectedIndent around empty.widest) =
      indent)
    (lines : readLines false indent (rest.length + 1) ⟨none, empty.breaks⟩ false empty.after =
      some (body, last, after))
    (isText : body ++ chomped (endChomping chars) last = chars) :
    readBlock false around ⟨literalHeader chars ++ '\n' :: rest, index, line, column⟩ =
      some (chars, after) := by
  have base : (max (around : Int) 0).toNat = around := by omega
  rw [readBlock, readBlockHeader_literalHeader, Option.bind_eq_bind, Option.bind_some]
  dsimp only
  rw [base, empties, Option.bind_eq_bind, Option.bind_some, isIndent, lines, Option.bind_eq_bind,
    Option.bind_some, isText]
  rfl

/-- Where the header of a block does not give the indentation, the first line starts with a word. -/
theorem givenIndent_cases
    {breaks others : List Char}
    {c : Char}
    (areBreaks : ∀ d ∈ breaks, isBreak d = true)
    (printed : isPrintable c = true) :
    givenIndent (breaks ++ c :: others) = some indentStep ∨
      (givenIndent (breaks ++ c :: others) = none ∧ isBlank c = false) := by
  cases breaks with
  | nil =>
      by_cases starts : (isSpace c || isBreak c) = true
      · left
        simp [givenIndent, starts]
      · right
        rw [Bool.not_eq_true, Bool.or_eq_false_iff] at starts
        refine ⟨by simp [givenIndent, starts], Bool.eq_false_iff.mpr fun blank => ?_⟩
        rw [eq_space_of_isBlank printed blank] at starts
        cases starts.1
  | cons b breaks =>
      left
      simp [givenIndent, areBreaks b (by simp)]

/-- A literal block of empty lines. -/
theorem readBlock_breaks
    {breaks : List Char}
    (nonempty : breaks ≠ [])
    (areBreaks : ∀ c ∈ breaks, isBreak c = true)
    {around width : Nat}
    (outdented : width < around + indentStep)
    {tail : List Char}
    (begins : Begins tail)
    {index line column : Nat} :
    readBlock false around
        ⟨literalHeader breaks ++ '\n' :: (breaks ++ (blanks width ++ tail)), index, line, column⟩ =
      some (breaks, ⟨tail, index + octetCount (literalHeader breaks) + 1 + octetCount breaks + width,
        line + 1 + breaks.length, width⟩) := by
  have given : (givenIndent breaks).map (around + ·) = some (around + indentStep) := by
    obtain ⟨b, others, rfl⟩ := List.exists_cons_of_ne_nil nonempty
    simp [givenIndent, areBreaks b (by simp)]
  have keeps : endChomping breaks = .keep := by
    obtain ⟨front, last, rfl⟩ := (List.eq_nil_or_concat breaks).resolve_left nonempty
    rw [List.concat_eq_append] at areBreaks ⊢
    exact endChomping_breaks (fun c isChar => areBreaks c (by simp [isChar]))
      (areBreaks last (by simp)) (.inl rfl)
  have enough : breaks.length + width < (breaks ++ (blanks width ++ tail)).length + 1 := by
    simp [blanks]
  have within : ∀ passed < width, isWithin (some (around + indentStep)) passed = true := by
    intro passed isLess
    exact decide_eq_true (by omega)
  apply readBlock_parts
  · rw [given]
    exact readEmptyLines_breaks areBreaks enough within (endsEmpty_of_begins begins)
  · rw [given]
  · exact readLines_end (Nat.ne_of_lt outdented)
  · rw [keeps]
    rfl

/-- The margin of a block, whether its header gives the indentation or not. -/
private theorem margin_of_starts
    {given : Option Nat}
    {c : Char}
    (starts : given = some indentStep ∨ (given = none ∧ isBlank c = false))
    (around : Nat) :
    (given.map (around + ·)).getD (detectedIndent around (max 0 (around + indentStep))) =
        around + indentStep ∧
      (∀ passed < around + indentStep, isWithin (given.map (around + ·)) passed = true) ∧
      (isBlank c = true → isWithin (given.map (around + ·)) (around + indentStep) = false) := by
  rcases starts with rfl | ⟨rfl, notBlank⟩
  · exact ⟨rfl, fun _ isLess => decide_eq_true isLess, fun _ => decide_eq_false (Nat.lt_irrefl _)⟩
  · refine ⟨?_, fun _ _ => rfl, fun blank => ?_⟩
    · show max (max 0 (around + 2)) (max ((around : Int) + 1).toNat 1) = around + 2
      omega
    · rw [notBlank] at blank
      cases blank

/-- A literal block whose first line that is not empty starts with a given character. -/
theorem readBlock_lines
    {breaks others : List Char}
    {c : Char}
    (areBreaks : ∀ c ∈ breaks, isBreak c = true)
    (notBreak : isBreak c = false)
    (printed : isPrintable c = true)
    {around width : Nat}
    (outdented : width < around + indentStep)
    {tail : List Char}
    (begins : Begins tail)
    (index line column : Nat) :
    ∃ index' line', readBlock false around ⟨literalHeader (breaks ++ c :: others) ++ '\n' ::
        (breaks ++ (blanks (around + indentStep) ++
          (literalLines (around + indentStep) false (c :: others) ++ (blanks width ++ tail)))), index,
        line, column⟩ =
      some (breaks ++ c :: others, ⟨tail, index', line', width⟩) := by
  have starts : givenIndent (breaks ++ c :: others) = some indentStep ∨ _ :=
    givenIndent_cases areBreaks printed
  generalize isGiven : givenIndent (breaks ++ c :: others) = given at starts
  obtain ⟨indent, within, notWithin⟩ := margin_of_starts starts around
  have ends := endsEmpty_literalLines notBreak notWithin (around + indentStep) others
    (blanks width ++ tail)
  generalize isRest : literalLines (around + indentStep) false (c :: others) ++
    (blanks width ++ tail) = rest at ends ⊢
  have enough : breaks.length + (around + indentStep) <
      (breaks ++ (blanks (around + indentStep) ++ rest)).length + 1 := by
    simp [blanks]
  have enoughLines : (c :: others).length <
      (breaks ++ (blanks (around + indentStep) ++ rest)).length + 1 := by
    have longer := length_le_literalLines (around + indentStep) false (c :: others)
    simp only [← isRest, List.length_append]
    omega
  generalize isStart : index + octetCount (literalHeader (breaks ++ c :: others)) + 1 = start
  obtain ⟨body, last, index', line', lines, kept⟩ :=
    readsLines_of_lines (lines_of_head notBreak) outdented begins enoughLines ⟨none, breaks⟩ false
      (start + octetCount breaks + (around + indentStep)) (line + 1 + breaks.length)
  rw [isRest] at lines
  refine ⟨index', line', ?_⟩
  apply readBlock_parts
  · rw [isStart, isGiven]
    exact readEmptyLines_breaks areBreaks enough within ends
  · rw [isGiven, indent]
  · exact lines
  · rw [List.append_assoc, kept]
    rfl

/-- A literal block is read up to the next line that is indented no more than what is around it. -/
theorem readBlock_literal
    {chars : List Char}
    (nonempty : chars ≠ [])
    (printed : ∀ c ∈ chars, isPrintable c = true)
    {around width : Nat}
    (outdented : width ≤ around)
    {tail : List Char}
    (begins : Begins tail)
    (index line column : Nat) :
    ∃ index' line', readBlock false around ⟨literalHeader chars ++ '\n' ::
        (literalLines (around + indentStep) true chars ++ (blanks width ++ tail)), index, line,
        column⟩ =
      some (chars, ⟨tail, index', line', width⟩) := by
  obtain ⟨breaks, later, rfl, areBreaks, goesOn⟩ := exists_run isBreak chars
  have further : width < around + indentStep := by
    show width < around + 2
    omega
  rw [literalLines_breaks areBreaks, List.append_assoc]
  cases later with
  | nil =>
      rw [List.append_nil] at nonempty ⊢
      exact ⟨_, _, readBlock_breaks nonempty areBreaks further begins⟩
  | cons c others =>
      have notBreak := goesOn c rfl
      rw [literalLines_start notBreak, List.append_assoc (blanks _)]
      exact readBlock_lines areBreaks notBreak (printed c (by simp)) further begins index line column

end RunManifest.Yaml
