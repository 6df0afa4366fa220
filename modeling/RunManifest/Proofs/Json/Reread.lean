import RunManifest.Proofs.Document.Faithful

/-!
Contract: the numbers of a stored value when it is read again.

Owns:
- `Number.exists_reading`, a number that was read is read again from its text, also when its digits
  are rounded up;
- `Number.reread`, the number it is then;
- `Json.mapNumbers`, a value with its numbers changed, which keeps normal forms and what fits;
- `Json.node_reading_eq`, the tree of the text of a value is that of the value with its numbers read
  again;
- `Json.faithful`, the trees of values whose numbers are read as they stand tell the values.
-/

set_option autoImplicit false

namespace RunManifest

namespace Json

open Text Binary64

/-! ## Written numbers are not too large -/

/-- Digits that are gathered after the point stand for no more than all digits do. -/
theorem gatherFraction_le
    (digits : List Char)
    (start : Nat)
    (fits : start < Word64.unsignedBound) :
    (gatherFraction start digits).1 < Word64.unsignedBound ∧
      ((gatherFraction start digits).1 : ℚ) * 10 ^ (-(gatherFraction start digits).2 : Int) ≤
        (start * 10 ^ digits.length + decimalValue digits) * 10 ^ (-digits.length : Int) := by
  induction digits generalizing start with
  | nil => simpa [gatherFraction, decimalValue] using fits
  | cons c rest inductionHypothesis =>
      have regrouped : (start : ℚ) * 10 ^ (c :: rest).length + decimalValue (c :: rest) =
          (start * 10 + digitValue c : Nat) * 10 ^ rest.length + decimalValue rest := by
        have shifted : start * 10 ^ (c :: rest).length + decimalValue (c :: rest) =
            (start * 10 + digitValue c) * 10 ^ rest.length + decimalValue rest := by
          rw [← foldl_decimalValue, ← foldl_decimalValue]
          rfl
        exact_mod_cast shifted
      have place : ((10 : ℚ) ^ (-(c :: rest).length : Int)) = 10 ^ (-rest.length : Int) * 10⁻¹ := by
        rw [List.length_cons, Nat.cast_succ, neg_add, zpow_add₀ (by norm_num), zpow_neg_one]
      simp only [gatherFraction]
      split
      · rename_i small
        obtain ⟨below, notMore⟩ := inductionHypothesis _ small
        refine ⟨below, ?_⟩
        rw [regrouped, place, ← mul_assoc, Nat.cast_succ, neg_add, zpow_add₀ (by norm_num),
          zpow_neg_one, ← mul_assoc]
        gcongr
      · refine ⟨fits, ?_⟩
        rw [add_mul, mul_assoc, ← zpow_natCast, ← zpow_add₀ (by norm_num), add_neg_cancel]
        simp only [Nat.cast_zero, neg_zero]
        exact le_add_of_nonneg_right (by positivity)

/-- Digits that are few before the point and whose worth leaves room for rounding are read. -/
theorem exists_toNumber?
    {number : NumberText}
    (wellFormed : number.WellFormed)
    (short : number.whole.length ≤ 16)
    (room : number.worth * (1 + 1 / 2 ^ 53) ^ 2 < overflow) :
    ∃ value, number.toNumber? = some value := by
  have small : decimalValue number.whole < Word64.unsignedBound :=
    calc decimalValue number.whole < 10 ^ number.whole.length :=
          decimalValue_lt wellFormed.whole.2
      _ ≤ 10 ^ 16 := Nat.pow_le_pow_right (by decide) short
      _ < Word64.unsignedBound := by decide
  have gathered : gatherWhole 0 number.whole = (decimalValue number.whole, 0) := by
    have := gatherWhole_of_lt number.whole 0 (by simpa using small)
    simpa using this
  have floats : ∀ negative, ∃ x, floatOfParts negative
      (gatherFraction (decimalValue number.whole) (number.fraction.getD [])).1
      (((0 : Nat) : Int) - (gatherFraction (decimalValue number.whole) (number.fraction.getD [])).2 +
        exponentValue number.exponent) = some (.float x) := by
    intro negative
    obtain ⟨below, notMore⟩ := gatherFraction_le (number.fraction.getD []) _ small
    refine exists_floatOfParts negative below (lt_of_le_of_lt ?_ room)
    rw [NumberText.worth, decimalValue_append, Nat.cast_zero, zero_sub, zpow_add₀ (by norm_num),
      sub_eq_neg_add, zpow_add₀ (by norm_num), ← mul_assoc, ← mul_assoc]
    push_cast
    gcongr
  obtain ⟨negative, whole, fraction, exponent⟩ := number
  simp only [NumberText.toNumber?, gathered]
  split
  · simp only [ne_eq, not_true_eq_false, if_false]
    split
    · exact ⟨_, rfl⟩
    · split
      · obtain ⟨x, isFloat⟩ := floats true
        exact ⟨_, by simpa [gatherFraction, exponentValue] using isFloat⟩
      · exact ⟨_, rfl⟩
  · obtain ⟨x, isFloat⟩ := floats negative
    exact ⟨_, isFloat⟩

end Json

namespace Number

open Binary64

/-- The two greatest numbers of either sign are the only ones that come too close to the least number
that is too large. -/
theorem exists_reading_of_greatest
    {x : Binary64}
    (exponent : x.exponent = greatestExponent)
    (greatest : x.significand = 2 ^ 53 - 1 ∨ x.significand = 2 ^ 53 - 2) :
    ∃ again, reading (.float x) = some again := by
  obtain ⟨negative, significand, power⟩ := x
  rw [← Option.isSome_iff_exists]
  dsimp only at exponent greatest
  rw [exponent]
  rcases greatest with rfl | rfl <;> cases negative <;> decide +kernel

/-- A bounded number is read again from its text. -/
theorem exists_reading_float {x : Binary64} (bounded : x.Bounded) :
    ∃ again, reading (.float x) = some again := by
  by_cases greatest : x.exponent = greatestExponent ∧ 2 ^ 53 - 2 ≤ x.significand
  · exact exists_reading_of_greatest greatest.1 (by have := bounded.significand; omega)
  obtain ⟨number, wellFormed, spelling, short, worth⟩ := Json.exists_chars_eq_text x
  have scanned := Json.scanNumber_chars wellFormed Json.endsNumber_nil
  rw [List.append_nil, spelling] at scanned
  have room : (x.significand + 1 / 2) * (2 : ℚ) ^ x.exponent * (1 + 1 / 2 ^ 53) ^ 2 < overflow := by
    rw [overflow]
    rcases eq_or_lt_of_le bounded.exponent with last | earlier
    · have notGreatest : x.significand + 3 ≤ 2 ^ 53 := by omega
      have atMost : (x.significand : ℚ) + 3 ≤ 2 ^ 53 := by exact_mod_cast notGreatest
      rw [last, mul_right_comm]
      have positive : (0 : ℚ) < 2 ^ greatestExponent := by positivity
      gcongr
      calc ((x.significand : ℚ) + 1 / 2) * (1 + 1 / 2 ^ 53) ^ 2
          ≤ (2 ^ 53 - 3 + 1 / 2) * (1 + 1 / 2 ^ 53) ^ 2 := by
            gcongr
            linarith
        _ < 2 ^ 53 - 1 / 2 := by norm_num
    · have step : (2 : ℚ) ^ x.exponent * 2 ≤ 2 ^ greatestExponent := by
        rw [← zpow_add_one₀ (by norm_num)]
        exact zpow_le_zpow_right₀ (by norm_num) earlier
      have atMost : (x.significand : ℚ) + 1 ≤ 2 ^ 53 := by exact_mod_cast bounded.significand
      have positive : (0 : ℚ) < 2 ^ x.exponent := by positivity
      generalize (2 : ℚ) ^ x.exponent = unit at step positive ⊢
      generalize (2 : ℚ) ^ greatestExponent = limit at step ⊢
      calc (x.significand + 1 / 2) * unit * (1 + 1 / 2 ^ 53) ^ 2
          ≤ (2 ^ 53 - 1 / 2) * unit * (1 + 1 / 2 ^ 53) ^ 2 := by
            gcongr
            linarith
        _ < (2 ^ 53 - 1 / 2) * unit * 2 := by
            gcongr
            norm_num
        _ ≤ (2 ^ 53 - 1 / 2) * limit := by
            rw [mul_assoc]
            gcongr
  obtain ⟨again, read⟩ := Json.exists_toNumber? wellFormed short
    (lt_of_le_of_lt (by gcongr) room)
  refine ⟨again, ?_⟩
  rw [reading, jsonText, scanned]
  exact read

/-- A number that was read is read again from its text. -/
theorem exists_reading {value : Number} (inRange : value.InRange) :
    ∃ again, value.reading = some again := by
  cases value with
  | integer value => exact ⟨_, reading_integer inRange⟩
  | float x => exact exists_reading_float inRange

/-- The number that a number becomes when its text is read. -/
def reread (value : Number) : Number :=
  value.reading.getD value

private theorem reading_eq_reread {value : Number} (inRange : value.InRange) :
    value.reading = some value.reread := by
  obtain ⟨again, read⟩ := exists_reading inRange
  rw [reread, read, Option.getD_some]

theorem inRange_reread {value : Number} (inRange : value.InRange) : value.reread.InRange := by
  have read := reading_eq_reread inRange
  rw [reading] at read
  split at read
  · exact inRange_of_toNumber? read
  · cases read

end Number

/-! ## Changing numbers -/

namespace Json

open Document

mutual

/-- The value with a function applied to all numbers. -/
def mapNumbers (onNumber : Number → Number) : Json → Json
  | .null => .null
  | .flag value => .flag value
  | .number value => .number (onNumber value)
  | .text value => .text value
  | .array items => .array (mapItemNumbers onNumber items)
  | .object members => .object (mapMemberNumbers onNumber members)

/-- The items with their numbers changed. -/
def mapItemNumbers (onNumber : Number → Number) : List Json → List Json
  | [] => []
  | item :: rest => item.mapNumbers onNumber :: mapItemNumbers onNumber rest

/-- The members with their numbers changed. -/
def mapMemberNumbers (onNumber : Number → Number) : List (String × Json) → List (String × Json)
  | [] => []
  | (key, value) :: rest => (key, value.mapNumbers onNumber) :: mapMemberNumbers onNumber rest

end

@[simp] theorem mapItemNumbers_eq_map (onNumber : Number → Number) (items : List Json) :
    mapItemNumbers onNumber items = items.map (mapNumbers onNumber) := by
  induction items with
  | nil => rfl
  | cons item rest inductionHypothesis => rw [mapItemNumbers, inductionHypothesis, List.map_cons]

@[simp] theorem mapMemberNumbers_eq_map
    (onNumber : Number → Number)
    (members : List (String × Json)) :
    mapMemberNumbers onNumber members =
      members.map fun member => (member.1, member.2.mapNumbers onNumber) := by
  induction members with
  | nil => rfl
  | cons member rest inductionHypothesis =>
      rw [mapMemberNumbers, inductionHypothesis, List.map_cons]

attribute [simp] mapNumbers

/-- Changing numbers and bringing members into order commute. -/
theorem normal_mapNumbers (onNumber : Number → Number) (value : Json) :
    (value.mapNumbers onNumber).normal = value.normal.mapNumbers onNumber := by
  induction value using treeInduction with
  | null => rfl
  | flag => rfl
  | number => rfl
  | text => rfl
  | array items inductionHypothesis =>
      simp only [mapNumbers, mapItemNumbers_eq_map, normal, normalItems_eq_map, List.map_map,
        array.injEq]
      exact List.map_congr_left inductionHypothesis
  | object members inductionHypothesis =>
      simp only [mapNumbers, mapMemberNumbers_eq_map, normal, object.injEq]
      exact map_insertNormal (mapNumbers onNumber) members [] inductionHypothesis

theorem Fits.mapNumbers
    {onNumber : Number → Number}
    (keepsRange : ∀ value : Number, value.InRange → (onNumber value).InRange)
    {levels : Nat}
    {value : Json}
    (fits : Fits levels value) :
    Fits levels (value.mapNumbers onNumber) := by
  induction fits with
  | null levels => exact .null levels
  | flag levels value => exact .flag levels value
  | number levels inRange => exact .number levels (keepsRange _ inRange)
  | text levels value => exact .text levels value
  | array _ inductionHypothesis =>
      rw [Json.mapNumbers, mapItemNumbers_eq_map]
      refine .array fun item member => ?_
      obtain ⟨source, isItem, rfl⟩ := List.mem_map.mp member
      exact inductionHypothesis source isItem
  | object _ inductionHypothesis =>
      rw [Json.mapNumbers, mapMemberNumbers_eq_map]
      refine .object fun member isMember => ?_
      obtain ⟨source, isSource, rfl⟩ := List.mem_map.mp isMember
      exact inductionHypothesis source isSource

theorem Opaque.mapNumbers
    {onNumber : Number → Number}
    (keepsRange : ∀ value : Number, value.InRange → (onNumber value).InRange)
    {levels : Nat}
    {value : Json}
    (isOpaque : Opaque levels value) :
    Opaque levels (value.mapNumbers onNumber) :=
  ⟨isOpaque.fits.mapNumbers keepsRange, by rw [normal_mapNumbers, isOpaque.normal]⟩

/-! ## Trees of texts with their numbers read again -/

/-- The tree of the text of a value that fits says the value with its numbers read again. -/
theorem node_reading_eq {levels : Nat} {value : Json} (fits : Fits levels value) :
    value.node Number.reading = (value.mapNumbers Number.reread).node some := by
  induction fits with
  | null => rfl
  | flag => rfl
  | number levels inRange => simp [Number.reading_eq_reread inRange]
  | text => rfl
  | array _ inductionHypothesis =>
      simp only [mapNumbers, mapItemNumbers_eq_map, node, itemNodes_eq_map, List.map_map,
        Node.array.injEq, and_true]
      exact List.map_congr_left inductionHypothesis
  | object _ inductionHypothesis =>
      simp only [mapNumbers, mapMemberNumbers_eq_map, node, memberNodes_eq_map, List.map_map,
        Node.object.injEq, and_true]
      exact List.map_congr_left fun member isMember =>
        Prod.ext rfl (inductionHypothesis member isMember)

/-- A value that fits is read whole from its tree. -/
theorem value_node
    {levels depth : Nat}
    {value : Json}
    (fits : Fits levels value)
    (enough : levels ≤ depth) :
    (value.node some).value depth = .ok value := by
  induction fits generalizing depth with
  | null levels => simp [Node.value]
  | flag levels value => simp [Node.value]
  | number levels inRange => simp [Node.value, Node.inRange]
  | text levels value => simp [Node.value, Node.legible]
  | @array levels items _ inductionHypothesis =>
      obtain ⟨depth, rfl⟩ := Nat.exists_eq_add_of_lt enough
      have readItems : items.mapM (Node.value (levels + depth) ∘ node some) = .ok items :=
        (mapM_eq_pure_map fun item member =>
          inductionHypothesis item member (Nat.le_add_right _ _)).trans (by rw [List.map_id']; rfl)
      simp only [node, itemNodes_eq_map, Node.value, List.mapM_map]
      rw [readItems]
      rfl
  | @object levels members _ inductionHypothesis =>
      obtain ⟨depth, rfl⟩ := Nat.exists_eq_add_of_lt enough
      have readMembers : members.mapM (fun member => do
          let key ← Node.legible (.ok member.1)
          return (key, ← Node.value (levels + depth) (member.2.node some))) = .ok members := by
        refine (mapM_eq_pure_map fun member isMember => ?_).trans (by rw [List.map_id']; rfl)
        rw [Node.legible, ok_bind, inductionHypothesis member isMember (Nat.le_add_right _ _)]
        rfl
      simp only [node, memberNodes_eq_map, Node.value, List.mapM_map]
      exact congrArg (· >>= _) readMembers

/-- The trees of values whose numbers are read as they stand tell the values. -/
theorem faithful : Faithful format (node some) fun _ => True where
  text expected text := rfl
  flag value := rfl
  isAbsent value notNull := by
    cases value with
    | null => exact absurd rfl notNull
    | _ => rfl
  sequence items := by simp [format, Node.contents, Node.ended]
  mapping members := by
    simp [format, Node.memberContents, Node.ended, entriesOf, Node.legible]
  record byPosition name members := by
    simp [format, Node.memberContents, Node.ended, entriesOf, Node.legible]
  value fits enough _ := value_node fits enough

end Json

end RunManifest
