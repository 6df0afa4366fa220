import RunManifest.Proofs.Document.Faithful
import RunManifest.Proofs.Yaml.Tree
import RunManifest.Yaml.Format

/-!
Contract: the trees of written values tell the values.

Owns:
- `Exact`, the numbers of double precision that are read back from what is written for them;
- `scalarValue_style`, that texts come back as texts, and `value_tree`, that values come back as
  they are;
- `faithful`, the law for all answers of the format;
- `decode_yaml`, the same of whole texts.
-/

set_option autoImplicit false

namespace RunManifest.Yaml

open Document (Faithful entriesOf mapM_eq_pure_map)

/-- A number is read back from what is written for it. -/
def Exact (x : Binary64) : Prop :=
  number? (x.text numberStyle) = some x

instance : DecidablePred Exact := fun x =>
  inferInstanceAs (Decidable (number? (x.text numberStyle) = some x))

/-! ## Scalars -/

/-- A text that is written plain means itself. -/
theorem meaning_of_plain {text : String} (isPlain : (style text).scalarStyle = .plain) :
    meaning text = .text := by
  cases isStyle : style text with
  | plain =>
      obtain ⟨back, -⟩ := plain_of_style isStyle
      simp only [readsBack, Bool.and_eq_true, decide_eq_true_eq] at back
      exact back.1
  | _ =>
      rw [isStyle] at isPlain
      cases isPlain

/-- A text comes back as the same text, whatever its characters are. -/
theorem scalarValue_style (text : String) :
    scalarValue none (style text).scalarStyle text = .ok (.text text) := by
  by_cases isPlain : (style text).scalarStyle = .plain
  · have isText := meaning_of_plain isPlain
    rw [isPlain]
    show plainValue text = _
    rw [plainValue, isText]
  · exact if_neg isPlain

private theorem plainValue_number {value : Number} (inRange : value.InRange)
    (exactly : ∀ x, value = .float x → Exact x) :
    plainValue (String.ofList (numberForm value)) = .ok (.number value) := by
  cases value with
  | integer value =>
      rw [plainValue, numberForm, meaning_decimalInt inRange.1 inRange.2]
      exact if_pos inRange
  | float x => rw [plainValue, numberForm, meaning_text (exactly x rfl)]

private theorem meaning_numberForm_ne_null (value : Number) :
    meaning (String.ofList (numberForm value)) ≠ .null := by
  have numeral := isNumeral_numberForm value
  obtain ⟨c, rest, isForm, -⟩ := numeral.plainStart
  have nonempty : (String.ofList (numberForm value)).toList ≠ [] := by
    rw [String.toList_ofList, isForm]
    exact List.cons_ne_nil c rest
  rw [meaning_of_numerals nonempty (by rw [String.toList_ofList]; exact numeral.mem)]
  grind

/-- A plain scalar stands for nothing only if that is its meaning. -/
theorem isNothing_of_meaning {text : String} (present : meaning text ≠ .null) :
    Node.isNothing none text = .ok false := by
  have sameEmpty : text.isEmpty = text.toList.isEmpty := by
    rw [Bool.eq_iff_iff, String.isEmpty_iff, List.isEmpty_iff, String.toList_eq_nil_iff]
  have noWord : ¬ (text.toList.isEmpty || isNullWord text) = true :=
    fun isWord => present (if_pos isWord)
  rw [Node.isNothing, sameEmpty, Bool.eq_false_iff.mpr noWord]

/-! ## Answers -/

section Answers

variable (anchors : Anchors)

private theorem follow_tree (value : Json) : anchors.follow value.tree = pure value.tree := by
  cases value <;> rfl

private theorem text_textNode (expected : Expected) (text : String) :
    Node.text anchors expected (Json.textNode text) = pure text := rfl

private theorem flag_tree (value : Bool) :
    Node.flag anchors (Json.flag value).tree = pure value := by
  cases value <;> rfl

private theorem isAbsent_scalar {style : ScalarStyle} {text : String}
    (present : style = .plain → meaning text ≠ .null) :
    Node.isAbsent anchors (.scalar none none style text) = pure false := by
  cases style with
  | plain =>
      have answer := isNothing_of_meaning (present rfl)
      rw [Node.isAbsent]
      show (Document.settled (Node.isNothing none text) >>= _) = _
      rw [answer]
      rfl
  | _ => rfl

private theorem membersOf_tree (expected : Expected) (members : List (String × Json)) :
    Node.membersOf anchors expected (Json.object members).tree =
      pure ⟨entriesOf Reading Json.tree members, .ok ()⟩ := by
  rw [Node.membersOf, follow_tree, pure_bind, Json.tree, Json.memberTrees_eq_map]
  show pure (Document.Members.mk (List.map _ (List.map _ members)) _) = _
  rw [List.map_map]
  rfl

/-- What is not nothing does not stand for nothing. -/
theorem isAbsent_tree {value : Json} (present : value ≠ .null) :
    Node.isAbsent anchors value.tree = pure false := by
  cases value with
  | null => exact absurd rfl present
  | flag value => cases value <;> exact isAbsent_scalar anchors fun _ => by decide
  | number value =>
      exact isAbsent_scalar anchors fun _ => meaning_numberForm_ne_null value
  | text value =>
      refine isAbsent_scalar anchors fun isPlain => ?_
      rw [meaning_of_plain isPlain]
      decide
  | array items => rfl
  | object members => rfl

/-- One member of a mapping that is read whole. -/
def entryValue (depth : Nat) (member : Node × Node) : Reading (String × Json) := do
  let key ← Document.settled (Node.keyText (← Node.value anchors depth member.1))
  return (key, ← Node.value anchors depth member.2)

section Values

variable {anchors} {depth : Nat}

private theorem value_scalar (style : ScalarStyle) (text : String) :
    Node.value anchors depth (.scalar none none style text) =
      Document.settled (scalarValue none style text) := by
  delta Node.value
  cases depth <;> rfl

private theorem value_sequence (items : List Node) :
    Node.value anchors (depth + 1) (.sequence none none items) = (do
      return .array (← items.mapM (Node.value anchors depth))) := by
  delta Node.value
  rfl

private theorem value_mapping (members : List (Node × Node)) :
    Node.value anchors (depth + 1) (.mapping none none members) = (do
      return .object (← members.mapM (entryValue anchors depth))) := by
  delta entryValue Node.value
  rfl

private theorem value_textNode (text : String) :
    Node.value anchors depth (Json.textNode text) = pure (Json.text text) := by
  rw [Json.textNode, value_scalar, scalarValue_style]
  rfl

private theorem entryValue_textNode
    (key : String)
    {node : Node}
    {value : Json}
    (isValue : Node.value anchors depth node = pure value) :
    entryValue anchors depth (Json.textNode key, node) = pure (key, value) := by
  rw [entryValue, value_textNode, pure_bind, isValue]
  rfl

end Values

/-- A value comes back as it is, from any depth that is enough for it. -/
theorem value_tree
    {levels depth : Nat}
    {value : Json}
    (fits : value.Fits levels)
    (enough : levels ≤ depth)
    (exactly : value.AllFloats Exact) :
    Node.value anchors depth value.tree = pure value := by
  induction fits generalizing depth with
  | null =>
      rw [Json.tree, value_scalar]
      rfl
  | flag levels value =>
      rw [Json.tree, value_scalar]
      cases value <;> rfl
  | @number levels value inRange =>
      have isExact : ∀ x, value = .float x → Exact x := by
        rintro x rfl
        exact exactly x List.mem_cons_self
      have isNumber := plainValue_number inRange isExact
      rw [Json.tree, value_scalar]
      show Document.settled (plainValue _) = _
      rw [isNumber]
      rfl
  | text levels value => exact value_textNode value
  | @array levels items fit inductionHypothesis =>
      obtain ⟨depth, rfl⟩ : ∃ smaller, depth = smaller + 1 := ⟨depth - 1, by omega⟩
      have allExact := Json.allFloats_array.mp exactly
      have whole : (items.map Json.tree).mapM (Node.value anchors depth) = pure items := by
        rw [List.mapM_map]
        refine (mapM_eq_pure_map fun item isItem => ?_).trans (by rw [List.map_id'])
        exact inductionHypothesis item isItem (by omega) (allExact item isItem)
      rw [Json.tree, Json.itemTrees_eq_map, value_sequence, whole, pure_bind]
  | @object levels members fit inductionHypothesis =>
      obtain ⟨depth, rfl⟩ : ∃ smaller, depth = smaller + 1 := ⟨depth - 1, by omega⟩
      have allExact := Json.allFloats_object.mp exactly
      have whole : (members.map fun member => (Json.textNode member.1, member.2.tree)).mapM
          (entryValue anchors depth) = pure members := by
        rw [List.mapM_map]
        refine (mapM_eq_pure_map fun member isMember => ?_).trans (by rw [List.map_id'])
        have isValue := inductionHypothesis member isMember (show _ ≤ depth by omega)
          (allExact member isMember)
        exact entryValue_textNode member.1 isValue
      rw [Json.tree, Json.memberTrees_eq_map, value_mapping, whole, pure_bind]

end Answers

/-- The format tells the values that are written. -/
theorem faithful (anchors : Anchors) : Faithful (format anchors) Json.tree Exact where
  text expected text := text_textNode anchors expected text
  flag value := flag_tree anchors value
  isAbsent value present := isAbsent_tree anchors present
  sequence items := by
    refine ⟨(Node.listed (items.map Json.tree)).closing, ?_⟩
    show Node.sequenceOf anchors _ = _
    rw [Node.sequenceOf, follow_tree, pure_bind, Json.tree, Json.itemTrees_eq_map]
    rfl
  mapping members := membersOf_tree anchors .mapping members
  record byPosition name members := by
    show Document.Layout.keyed <$> Node.membersOf anchors (.record name) _ = _
    rw [membersOf_tree, map_pure]
  value fits enough exactly := value_tree anchors fits enough exactly

/-! ## Texts -/

/-- What is read back from the tree of a mapping is read back from its text. -/
theorem decode_yaml
    {α : Type}
    {read : Document.Format Reading Node → Nat → Node → Reading α}
    {member : String × Json}
    {rest : List (String × Json)}
    {result : α}
    (reads : ∀ anchors, read (format anchors) levels (Json.object (member :: rest)).tree =
      pure result) :
    decode read (String.ofList (Json.object (member :: rest)).yaml) = .ok result := by
  rw [decode, Json.tokens?_yaml, Option.bind_some, Json.ofTokens?_tokens]
  dsimp only
  rw [reads]
  rfl

/-- Reading the text of a mapping whole gives the mapping. -/
theorem decode_value
    {member : String × Json}
    {rest : List (String × Json)}
    (fits : (Json.object (member :: rest)).Fits levels)
    (exactly : (Json.object (member :: rest)).AllFloats Exact) :
    decode (fun format => format.value) (String.ofList (Json.object (member :: rest)).yaml) =
      .ok (.object (member :: rest)) :=
  decode_yaml fun anchors => value_tree anchors fits (Nat.le_refl _) exactly

end RunManifest.Yaml
