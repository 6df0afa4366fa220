import Mathlib
import RunManifest.Json.Literal

/-!
Contract: JSON strings are read as the texts they were written for.

Owns:
- `Plain`, the characters that stand for themselves in a JSON string, and `escaped`, the characters
  of a text as they stand there;
- `scanString_escaped`, reading a written string gives its text back;
- `scanString_escaped_control`, a raw control character after written characters breaks a string.
-/

set_option autoImplicit false

namespace RunManifest.Json

/-- A character that stands for itself in a JSON string. -/
def Plain (c : Char) : Prop :=
  c ≠ '\"' ∧ c ≠ '\\' ∧ 0x20 ≤ c.toNat

instance (c : Char) : Decidable (Plain c) :=
  inferInstanceAs (Decidable (_ ∧ _ ∧ _))

theorem plain_of_all
    {chars : List Char}
    (all : (chars.all fun c => decide (Plain c)) = true) :
    ∀ c ∈ chars, Plain c :=
  fun c member => of_decide_eq_true (List.all_eq_true.mp all c member)

/-- The characters of a text as they stand in a JSON string. -/
def escaped (chars : List Char) : List Char :=
  chars.flatMap escapedChar

@[simp] theorem escaped_nil : escaped [] = [] := rfl

@[simp] theorem escaped_cons (c : Char) (rest : List Char) :
    escaped (c :: rest) = escapedChar c ++ escaped rest := rfl

theorem escaped_append (left right : List Char) :
    escaped (left ++ right) = escaped left ++ escaped right :=
  List.flatMap_append

theorem escapedChar_of_plain {c : Char} (plain : Plain c) : escapedChar c = [c] := by
  obtain ⟨notQuote, notBackslash, notControl⟩ := plain
  rw [escapedChar, if_neg notQuote, if_neg notBackslash, if_pos notControl]

theorem escaped_of_plain {chars : List Char} (plain : ∀ c ∈ chars, Plain c) :
    escaped chars = chars := by
  induction chars with
  | nil => rfl
  | cons c rest inductionHypothesis =>
      rw [escaped_cons, escapedChar_of_plain (plain c (by simp)),
        inductionHypothesis fun other member => plain other (by simp [member])]
      rfl

/-! ## Single characters -/

/-- A character is plain, a quote, a backslash or a control character. -/
theorem plain_or_escaped (c : Char) :
    Plain c ∨ c = '\"' ∨ c = '\\' ∨ ∃ code, code < 0x20 ∧ c = Char.ofNat code := by
  by_cases isQuote : c = '\"'
  · exact Or.inr (Or.inl isQuote)
  · by_cases isBackslash : c = '\\'
    · exact Or.inr (Or.inr (Or.inl isBackslash))
    · by_cases isControl : c.toNat < 0x20
      · exact Or.inr (Or.inr (Or.inr ⟨c.toNat, isControl, (Char.ofNat_toNat c).symm⟩))
      · exact Or.inl ⟨isQuote, isBackslash, by omega⟩

/-- The piece of a string that a written character is read as. -/
def pieceOf (c : Char) : Piece :=
  match escapedChar c with
  | ['\\', 'u', _, _, _, _] => .unit c.toNat
  | _ => .char c

private theorem pieceOf_of_plain {c : Char} (plain : Plain c) : pieceOf c = .char c := by
  simp [pieceOf, escapedChar_of_plain plain]

/-- A unit below the surrogates stands for itself. -/
theorem assemble_unit_of_lt {code : Nat} (small : code < 0xD800) (rest : List Piece) :
    assemble (.unit code :: rest) = (assemble rest).map (Char.ofNat code :: ·) := by
  have notLeading : isLeading code = false := by simp [isLeading]; omega
  have notTrailing : isTrailing code = false := by simp [isTrailing]; omega
  cases rest with
  | nil => simp [assemble, notLeading, notTrailing]
  | cons piece others => cases piece <;> simp [assemble, notLeading, notTrailing]

/-- A character is written as itself or as the unit of a control character. -/
theorem pieceOf_cases (c : Char) :
    (∃ code < 0x20, c = Char.ofNat code ∧ pieceOf c = .unit code) ∨ pieceOf c = .char c := by
  rcases plain_or_escaped c with plain | rfl | rfl | ⟨code, small, rfl⟩
  · exact .inr (pieceOf_of_plain plain)
  · exact .inr rfl
  · exact .inr rfl
  · have unitOrChar : pieceOf (Char.ofNat code) = .unit code ∨
        pieceOf (Char.ofNat code) = .char (Char.ofNat code) := by
      revert code
      decide
    exact unitOrChar.imp_left fun isUnit => ⟨code, small, rfl, isUnit⟩

/-- The piece of a character is read as that character. -/
theorem assemble_pieceOf (c : Char) (rest : List Piece) :
    assemble (pieceOf c :: rest) = (assemble rest).map (c :: ·) := by
  rcases pieceOf_cases c with ⟨code, small, rfl, isUnit⟩ | isChar
  · rw [isUnit, assemble_unit_of_lt (by omega)]
  · rw [isChar, assemble]

private theorem awaits_unit_of_lt {code : Nat} (small : code < 0xD800) (rest : List Piece) :
    awaits (.unit code :: rest) = awaits rest := by
  have notLeading : isLeading code = false := by simp [isLeading]; omega
  have notTrailing : isTrailing code = false := by simp [isTrailing]; omega
  cases rest with
  | nil => simp [awaits, notLeading, notTrailing]
  | cons piece others => cases piece <;> simp [awaits, notLeading, notTrailing]

private theorem awaits_pieceOf (c : Char) (rest : List Piece) :
    awaits (pieceOf c :: rest) = awaits rest := by
  rcases pieceOf_cases c with ⟨code, small, -, isUnit⟩ | isChar
  · rw [isUnit, awaits_unit_of_lt (by omega)]
  · rw [isChar, awaits]

theorem scanPieces_plain {c : Char} (plain : Plain c) (rest : List Char) :
    scanPieces (c :: rest) = (.char c :: (scanPieces rest).1, (scanPieces rest).2) := by
  obtain ⟨notQuote, notBackslash, notControl⟩ := plain
  rw [scanPieces.eq_def]
  split <;> simp_all

/-- A written character is read as its piece. -/
theorem scanPieces_escapedChar (c : Char) (rest : List Char) :
    scanPieces (escapedChar c ++ rest) =
      (pieceOf c :: (scanPieces rest).1, (scanPieces rest).2) := by
  rcases plain_or_escaped c with plain | rfl | rfl | ⟨code, small, rfl⟩
  · rw [escapedChar_of_plain plain, pieceOf_of_plain plain]
    exact scanPieces_plain plain rest
  · rfl
  · rfl
  · interval_cases code <;> rfl

/-- A control character that is not escaped is wrong where it stands. -/
theorem scanPieces_control {c : Char} (control : c.toNat < 0x20) (rest : List Char) :
    scanPieces (c :: rest) = ([], .error (.noUnit .controlCharacter)) := by
  have notQuote : c ≠ '\"' := by rintro rfl; exact absurd control (by decide)
  have notBackslash : c ≠ '\\' := by rintro rfl; exact absurd control (by decide)
  rw [scanPieces.eq_def]
  split <;> simp_all

/-! ## Whole strings -/

/-- Written characters are read one by one, and then what follows them. -/
theorem scanPieces_escaped (chars rest : List Char) :
    scanPieces (escaped chars ++ rest) =
      (chars.map pieceOf ++ (scanPieces rest).1, (scanPieces rest).2) := by
  induction chars with
  | nil => rfl
  | cons c others inductionHypothesis =>
      rw [escaped_cons, List.append_assoc, scanPieces_escapedChar, inductionHypothesis,
        List.map_cons, List.cons_append]

private theorem assemble_map_pieceOf (chars : List Char) :
    assemble (chars.map pieceOf) = .ok chars := by
  induction chars with
  | nil => rfl
  | cons c rest inductionHypothesis =>
      rw [List.map_cons, assemble_pieceOf, inductionHypothesis]
      rfl

/-- Written characters leave no surrogate without a partner. -/
theorem awaits_map_pieceOf (chars : List Char) : awaits (chars.map pieceOf) = .ok false := by
  induction chars with
  | nil => rfl
  | cons c rest inductionHypothesis =>
      rw [List.map_cons, awaits_pieceOf, inductionHypothesis]

/-- A written string is read as its text. -/
theorem scanString_escaped (chars rest : List Char) :
    scanString (escaped chars ++ '\"' :: rest) = .ok (.ok (String.ofList chars), rest) := by
  have pieces : scanPieces (escaped chars ++ '\"' :: rest) = (chars.map pieceOf, .ok rest) := by
    rw [scanPieces_escaped]
    simp [scanPieces]
  rw [scanString, pieces]
  simp [assemble_map_pieceOf, Except.map]

/-- A string with a raw control character after written characters breaks there. -/
theorem scanString_escaped_control
    (chars : List Char)
    {c : Char}
    (control : c.toNat < 0x20)
    (rest : List Char) :
    scanString (escaped chars ++ c :: rest) = .error (.both (.malformed .controlCharacter)) := by
  have pieces : scanPieces (escaped chars ++ c :: rest) =
      (chars.map pieceOf, .error (.noUnit .controlCharacter)) := by
    rw [scanPieces_escaped, scanPieces_control control]
    simp
  rw [scanString, pieces]
  simp only [Interruption.read, awaits_map_pieceOf]
  rfl

end RunManifest.Json
