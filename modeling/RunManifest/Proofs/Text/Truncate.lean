import RunManifest.Proofs.Text.Utf8
import RunManifest.Text.Truncate

/-!
Contract: truncating a text cuts its bytes between two characters.

Owns:
- `offset?_flatMap`, the search finds the end of the characters before;
- `truncate_cuts`, truncating is such a search and a slice that is never refused, and counts
  characters.
-/

set_option autoImplicit false

namespace RunManifest.Text

/-! ## The codes of characters -/

private theorem firstWidth_ofNat {n : Nat} (isByte : n < 256) :
    firstWidth (UInt8.ofNat n) =
      if n < 0x80 then 1 else if n < 0xE0 then 2 else if n < 0xF0 then 3 else 4 := by
  have value : (UInt8.ofNat n).toNat = n := by rw [UInt8.toNat_ofNat', Nat.mod_eq_of_lt isByte]
  simp only [firstWidth, UInt8.lt_iff_toNat_lt, value]
  rfl

private theorem isContinuation_ofNat {n : Nat} (isByte : n < 256) (begins : n < 0x80 ∨ 0xC0 ≤ n) :
    isContinuation (UInt8.ofNat n) = false := by
  have value : (UInt8.ofNat n).toNat = n := by rw [UInt8.toNat_ofNat', Nat.mod_eq_of_lt isByte]
  have bounds : (0x80 : UInt8).toNat = 0x80 ∧ (0xC0 : UInt8).toNat = 0xC0 := by decide
  simp only [isContinuation, UInt8.le_iff_toNat_le, UInt8.lt_iff_toNat_lt, value, bounds,
    Bool.and_eq_false_iff, decide_eq_false_iff_not]
  omega

/-- The first byte of a character tells how many there are, and does not go on with another. -/
theorem utf8EncodeChar_eq_cons (c : Char) :
    ∃ first others, String.utf8EncodeChar c = first :: others ∧
      firstWidth first = others.length + 1 ∧ isContinuation first = false := by
  have inRange : c.val.toNat < 0xD800 ∨ 0xDFFF < c.val.toNat ∧ c.val.toNat < 0x110000 := c.valid
  unfold String.utf8EncodeChar
  dsimp only
  generalize c.val.toNat = code at inRange
  split
  · refine ⟨_, _, rfl, ?_, isContinuation_ofNat (by omega) (by omega)⟩
    rw [firstWidth_ofNat (by omega), if_pos (by omega)]
    rfl
  split
  · refine ⟨_, _, rfl, ?_, isContinuation_ofNat (by omega) (by omega)⟩
    rw [firstWidth_ofNat (by omega), if_neg (by omega), if_pos (by omega)]
    rfl
  split
  · refine ⟨_, _, rfl, ?_, isContinuation_ofNat (by omega) (by omega)⟩
    rw [firstWidth_ofNat (by omega), if_neg (by omega), if_neg (by omega), if_pos (by omega)]
    rfl
  · refine ⟨_, _, rfl, ?_, isContinuation_ofNat (by omega) (by omega)⟩
    rw [firstWidth_ofNat (by omega), if_neg (by omega), if_neg (by omega), if_neg (by omega)]
    rfl

/-- The search finds the end of the characters before the one that is asked for. -/
theorem offset?_flatMap (count : Nat) (chars : List Char) :
    offset? count (chars.flatMap String.utf8EncodeChar) =
      if count < chars.length then
        some ((chars.take count).flatMap String.utf8EncodeChar).length
      else none := by
  induction count generalizing chars with
  | zero =>
      cases chars with
      | nil => rfl
      | cons c rest =>
          obtain ⟨first, others, isCode, -, -⟩ := utf8EncodeChar_eq_cons c
          simp [isCode, offset?]
  | succ count inductionHypothesis =>
      cases chars with
      | nil => rfl
      | cons c rest =>
          obtain ⟨first, others, isCode, width, -⟩ := utf8EncodeChar_eq_cons c
          have passed : (others ++ rest.flatMap String.utf8EncodeChar).drop (firstWidth first - 1) =
              rest.flatMap String.utf8EncodeChar := List.drop_left' (by omega)
          rw [List.flatMap_cons, isCode, List.cons_append, offset?, passed, inductionHypothesis]
          simp only [List.length_cons, Nat.add_lt_add_iff_right, List.take_succ_cons,
            List.flatMap_cons, isCode, List.cons_append, List.length_append, width]
          split
          · simp only [Option.map_some, Option.some.injEq]
            omega
          · rfl

/-- A text can be cut behind any number of its characters. -/
theorem isBoundary_flatMap (before after : List Char) :
    isBoundary ((before ++ after).flatMap String.utf8EncodeChar)
      (before.flatMap String.utf8EncodeChar).length = true := by
  cases after with
  | nil => simp [isBoundary]
  | cons c rest =>
      obtain ⟨first, others, isCode, -, begins⟩ := utf8EncodeChar_eq_cons c
      simp [isBoundary, isCode, begins]

private theorem fromUTF8?_bytes (text : String) :
    String.fromUTF8? (bytes text).toByteArray = some text := by
  have same : (bytes text).toByteArray = text.toByteArray := by
    apply ByteArray.ext
    rw [List.data_toByteArray, bytes, Array.toArray_toList]
  rw [same, String.fromUTF8?, dif_pos text.isValidUTF8]
  rfl

/-! ## Truncated texts -/

theorem toList_truncate (limit : Nat) (text : String) :
    (truncate limit text).toList = text.toList.take limit :=
  String.toList_ofList

/-- The bytes of the first characters are the first bytes. -/
theorem bytes_eq_bytes_truncate_append (limit : Nat) (text : String) :
    bytes text =
      bytes (truncate limit text) ++ (text.toList.drop limit).flatMap String.utf8EncodeChar := by
  rw [bytes_eq_flatMap, bytes_eq_flatMap, toList_truncate, ← List.flatMap_append,
    List.take_append_drop]

private theorem isBoundary_truncate (limit : Nat) (text : String) :
    isBoundary (bytes text) (bytes (truncate limit text)).length = true := by
  have boundary := isBoundary_flatMap (text.toList.take limit) (text.toList.drop limit)
  rwa [List.take_append_drop, ← toList_truncate, ← bytes_eq_flatMap, ← bytes_eq_flatMap] at boundary

theorem truncate_eq_self (limit : Nat) (text : String) :
    truncate limit text = text ↔ text.length ≤ limit := by
  rw [← String.toList_inj, toList_truncate, ← String.length_toList]
  constructor
  · intro same
    rw [← same, List.length_take]
    exact Nat.min_le_left _ _
  · exact List.take_of_length_le

/-- The slice behind the first characters is not refused, and has just them. -/
theorem slice?_truncate (limit : Nat) (text : String) :
    slice? text (bytes (truncate limit text)).length = some (truncate limit text) := by
  have first : (bytes text).take (bytes (truncate limit text)).length =
      bytes (truncate limit text) := by
    rw [bytes_eq_bytes_truncate_append limit text, List.take_left]
  rw [slice?, if_pos (isBoundary_truncate limit text), first, fromUTF8?_bytes]

/-- Truncating is to look for the byte at which the first character beyond the limit begins, and to
cut there. -/
theorem cut?_eq_truncate (limit : Nat) (text : String) :
    cut? limit text = some (truncate limit text) := by
  have found := offset?_flatMap limit text.toList
  rw [← bytes_eq_flatMap, ← toList_truncate, ← bytes_eq_flatMap, String.length_toList] at found
  rw [cut?, found]
  by_cases longer : limit < text.length
  · rw [if_pos longer]
    exact slice?_truncate limit text
  · rw [if_neg longer]
    exact congrArg some ((truncate_eq_self limit text).mpr (Nat.not_lt.mp longer)).symm

/-- Truncating cuts the bytes of a text at a character: the search for the byte and the cut there
give the truncated text and are never refused, its bytes begin those of the text and end between two
characters. It keeps as many characters as the limit allows, all of them just when there are no
more, and truncating twice is truncating at the lower limit. -/
theorem truncate_cuts (text : String) (limit : Nat) :
    cut? limit text = some (truncate limit text) ∧
      bytes (truncate limit text) <+: bytes text ∧
      isBoundary (bytes text) (bytes (truncate limit text)).length = true ∧
      (truncate limit text).toList = text.toList.take (min limit text.length) ∧
      (truncate limit text = text ↔ text.length ≤ limit) ∧
      ∀ other, truncate other (truncate limit text) = truncate (min limit other) text := by
  refine ⟨cut?_eq_truncate limit text, ⟨_, (bytes_eq_bytes_truncate_append limit text).symm⟩,
    isBoundary_truncate limit text, ?_, truncate_eq_self limit text, fun other => ?_⟩
  · rw [toList_truncate, ← String.length_toList, List.take_eq_take_min]
  · rw [← String.toList_inj, toList_truncate, toList_truncate, toList_truncate, List.take_take,
      min_comm]

/-- Characters of one to four bytes, cut before the last. -/
example : cut? 3 "aé日𝒫" = some "aé日" := by
  decide +kernel

end RunManifest.Text
