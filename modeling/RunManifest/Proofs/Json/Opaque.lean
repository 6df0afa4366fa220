import RunManifest.Proofs.Dictionary
import RunManifest.Proofs.Document.Outcome
import RunManifest.Proofs.Json.Spelling

/-!
Contract: document values that are kept whole.

Owns:
- the normal form of values: it is reached in one step, changing texts keeps it, and objects with the
  same values at all keys share it;
- `Json.Fits`, values in which at most a given number of containers is open at once and numbers are
  in range, which is what reading gives;
- `Json.read_of_decode`, what is read from a text is read from the tree of the text;
- `Json.Opaque`, values that fit and are normal, which is what records keep;
- `Json.retold`, the tree of the text of a value with its texts changed, which is read as the value
  so changed if its numbers of double precision are recovered.
-/

set_option autoImplicit false

namespace RunManifest

namespace Json

/-! ## Normal forms -/

theorem sorted_insertNormal
    (members entries : List (String × Json))
    (sorted : Entries.Sorted entries) :
    Entries.Sorted (insertNormal members entries) := by
  induction members generalizing entries with
  | nil => exact sorted
  | cons member rest inductionHypothesis =>
      exact inductionHypothesis _ (Entries.sorted_insert _ _ _ sorted)

/-- What holds of all entries and of the normal forms of all members holds after the members were
put among the entries. -/
theorem forall_mem_insertNormal
    (holds : Json → Prop)
    (members entries : List (String × Json))
    (ofMembers : ∀ member ∈ members, holds member.2.normal)
    (ofEntries : ∀ entry ∈ entries, holds entry.2) :
    ∀ entry ∈ insertNormal members entries, holds entry.2 := by
  induction members generalizing entries with
  | nil => exact ofEntries
  | cons member rest inductionHypothesis =>
      refine inductionHypothesis _ (fun other isMember => ofMembers other (by simp [isMember])) ?_
      exact Entries.forall_mem_insert (ofMembers member (by simp)) ofEntries

/-- Sorted members in normal form are put one after the other. -/
theorem insertNormal_of_sorted
    (members entries : List (String × Json))
    (normal : ∀ member ∈ members, member.2.normal = member.2)
    (sorted : Entries.Sorted (entries ++ members)) :
    insertNormal members entries = entries ++ members := by
  induction members generalizing entries with
  | nil => simp [insertNormal]
  | cons member rest inductionHypothesis =>
      have above : ∀ entry ∈ entries, entry.1 < member.1 := fun entry isEntry =>
        (List.pairwise_append.mp sorted).2.2 entry isEntry member (by simp)
      rw [insertNormal, normal member (by simp), Entries.insert_of_above above,
        inductionHypothesis _ (fun other isMember => normal other (by simp [isMember]))
          (by simpa using sorted)]
      simp

private theorem insertNormal_eq_foldl
    (members : List (String × Json))
    (dictionary : Dictionary Json) :
    insertNormal members dictionary.entries =
      ((members.map fun member => (member.1, member.2.normal)).foldl
        (fun dictionary entry => dictionary.insert entry.1 entry.2) dictionary).entries := by
  induction members generalizing dictionary with
  | nil => rfl
  | cons member rest inductionHypothesis =>
      exact inductionHypothesis (dictionary.insert member.1 member.2.normal)

/-- The normal form of an object is the dictionary of its members. -/
theorem normal_object (members : List (String × Json)) :
    (Json.object members).normal =
      .object (Dictionary.ofList (members.map fun member => (member.1, member.2.normal))).entries := by
  rw [normal]
  exact congrArg Json.object (insertNormal_eq_foldl members .empty)

/-- Objects with the same last value at every key, up to normal forms, have the same normal form. -/
theorem normal_object_congr
    {left right : List (String × Json)}
    (same : ∀ key, (Entries.last? key left).map normal = (Entries.last? key right).map normal) :
    (Json.object left).normal = (Json.object right).normal := by
  rw [normal_object, normal_object]
  congr 2
  refine Dictionary.ext_find? fun key => ?_
  rw [Dictionary.find?_ofList, Dictionary.find?_ofList, ← Entries.last?_eq_lookup_reverse,
    ← Entries.last?_eq_lookup_reverse, Entries.last?_map, Entries.last?_map, same]

/-- An object has no members if its normal form has none. -/
theorem normal_object_eq_empty {members : List (String × Json)} :
    (Json.object members).normal = .object [] ↔ members = [] := by
  refine ⟨fun isEmpty => ?_, fun isEmpty => by rw [isEmpty]; rfl⟩
  rw [normal_object, object.injEq] at isEmpty
  cases members with
  | nil => rfl
  | cons member rest =>
      have absent := Dictionary.last?_entries member.1
        (.ofList ((member :: rest).map fun member => (member.1, member.2.normal)))
      rw [isEmpty, Dictionary.find?_ofList, ← Entries.last?_eq_lookup_reverse] at absent
      simp [Entries.last?] at absent

theorem normalItems_eq_map (items : List Json) : normalItems items = items.map normal := by
  induction items with
  | nil => rfl
  | cons item rest inductionHypothesis => rw [normalItems, inductionHypothesis, List.map_cons]

/-- The normal form of a value is its own. -/
@[simp] theorem normal_normal (value : Json) : value.normal.normal = value.normal := by
  induction value using treeInduction with
  | null => rfl
  | flag => rfl
  | number => rfl
  | text => rfl
  | array items inductionHypothesis =>
      simp only [normal, normalItems_eq_map, List.map_map, array.injEq]
      exact List.map_congr_left inductionHypothesis
  | object members inductionHypothesis =>
      have sorted := sorted_insertNormal members [] List.Pairwise.nil
      have normalValues : ∀ entry ∈ insertNormal members [], entry.2.normal = entry.2 :=
        forall_mem_insertNormal (fun value => value.normal = value) members [] inductionHypothesis
          (by simp)
      simp only [normal, object.injEq]
      simpa using insertNormal_of_sorted _ [] normalValues (by simpa using sorted)

/-- A change of values that commutes with their normal forms commutes with putting members among
entries. -/
theorem map_insertNormal
    (change : Json → Json)
    (members entries : List (String × Json))
    (commutes : ∀ member ∈ members, (change member.2).normal = change member.2.normal) :
    insertNormal (members.map fun member => (member.1, change member.2))
        (entries.map fun entry => (entry.1, change entry.2)) =
      (insertNormal members entries).map fun entry => (entry.1, change entry.2) := by
  induction members generalizing entries with
  | nil => rfl
  | cons member rest inductionHypothesis =>
      rw [List.map_cons, insertNormal, commutes member (by simp), ← Entries.map_insert,
        inductionHypothesis _ fun other isMember => commutes other (by simp [isMember])]
      rfl

/-- Changing texts and bringing members into order commute. -/
theorem normal_mapTexts (onText : String → String) (value : Json) :
    (value.mapTexts onText).normal = value.normal.mapTexts onText := by
  induction value using treeInduction with
  | null => rfl
  | flag => rfl
  | number => rfl
  | text => rfl
  | array items inductionHypothesis =>
      simp only [mapStrings, mapItemStrings_eq_map, normal, normalItems_eq_map, List.map_map,
        array.injEq]
      exact List.map_congr_left inductionHypothesis
  | object members inductionHypothesis =>
      simp only [mapStrings, mapMemberStrings_eq_map, normal, object.injEq]
      exact map_insertNormal (mapTexts onText) members [] inductionHypothesis

/-! ## Values that fit -/

/-- At most the given number of containers is open at once, and numbers are in range. -/
inductive Fits : Nat → Json → Prop where
  | null (levels : Nat) : Fits levels .null
  | flag (levels : Nat) (value : Bool) : Fits levels (.flag value)
  | number (levels : Nat) {value : Number} (inRange : value.InRange) : Fits levels (.number value)
  | text (levels : Nat) (value : String) : Fits levels (.text value)
  | array {levels : Nat} {items : List Json} (fit : ∀ item ∈ items, Fits levels item) :
      Fits (levels + 1) (.array items)
  | object {levels : Nat} {members : List (String × Json)}
      (fit : ∀ member ∈ members, Fits levels member.2) :
      Fits (levels + 1) (.object members)

/-- The normal form of a value fits where the value does. -/
theorem Fits.normal {levels : Nat} {value : Json} (fits : Fits levels value) :
    Fits levels value.normal := by
  induction fits with
  | null levels => exact .null levels
  | flag levels value => exact .flag levels value
  | number levels inRange => exact .number levels inRange
  | text levels value => exact .text levels value
  | array _ inductionHypothesis =>
      rw [Json.normal, normalItems_eq_map]
      refine .array fun item member => ?_
      obtain ⟨source, isItem, rfl⟩ := List.mem_map.mp member
      exact inductionHypothesis source isItem
  | object _ inductionHypothesis =>
      exact .object (forall_mem_insertNormal (Fits _) _ [] inductionHypothesis (by simp))

end Json

/-! ## Trees of texts -/

namespace Json

/-- Every number in the tree of a text is in range. -/
inductive Node.InRange : Node → Prop where
  | null : InRange .null
  | flag (value : Bool) : InRange (.flag value)
  | number {value : Option Number} (inRange : ∀ number, value = some number → number.InRange) :
      InRange (.number value)
  | text (value : Readable String) : InRange (.text value)
  | array {items : List Node} (ending : Option Fault) (inRange : ∀ item ∈ items, InRange item) :
      InRange (.array items ending)
  | object {members : List (Readable String × Node)} (ending : Option Breakage)
      (inRange : ∀ member ∈ members, InRange member.2) :
      InRange (.object members ending)
  | broken (breakage : Breakage) : InRange (.broken breakage)

private theorem inRange_readWord
    {value : Node}
    (inRange : value.InRange)
    (word chars : List Char) :
    (readWord value word chars).1.InRange := by
  induction word generalizing chars with
  | nil => exact inRange
  | cons expected word inductionHypothesis =>
      cases chars with
      | nil => exact .broken _
      | cons c rest =>
          rw [readWord]
          split
          · exact inductionHypothesis rest
          · exact .broken _

private theorem inRange_readText (text : List Char) : (readText text).1.InRange := by
  rw [readText]
  split
  · exact .text _
  · exact .broken _

private theorem inRange_readNumber (text : List Char) : (readNumber text).1.InRange := by
  rw [readNumber]
  split
  · exact .number fun number read => Number.inRange_of_toNumber? read
  · exact .broken _

/-- The three readers with some fuel read trees whose numbers are in range. -/
structure ReadsInRange (fuel : Nat) : Prop where
  node : ∀ text, (readNode fuel text).1.InRange
  items : ∀ text, ∀ item ∈ (readItems fuel text).items, item.InRange
  members : ∀ text, ∀ member ∈ (readMembers fuel text).members, member.2.InRange

namespace ReadsInRange

variable {fuel : Nat} (inRange : ReadsInRange fuel) (text : List Char)

include inRange

private theorem readNode_succ : (readNode (fuel + 1) text).1.InRange := by
  rw [readNode]
  split
  · exact .broken _
  · exact inRange_readWord .null _ _
  · exact inRange_readWord (.flag _) _ _
  · exact inRange_readWord (.flag _) _ _
  · exact inRange_readText _
  · split
    · exact .array _ (by simp)
    · exact .array _ (by simp)
    · exact .array _ (inRange.items _)
  · split
    · exact .object _ (by simp)
    · exact .object _ (by simp)
    · exact .object _ (inRange.members _)
  · split
    · exact inRange_readNumber _
    · exact .broken _

private theorem readItems_succ : ∀ item ∈ (readItems (fuel + 1) text).items, item.InRange := by
  have item := inRange.node text
  rw [readItems]
  split
  · simpa using Node.InRange.broken _
  · split <;> rename_i read <;> rw [read] at item
    · simpa using item
    · split
      · simpa using item
      · simpa using item
      · exact List.forall_mem_cons.mpr ⟨item, inRange.items _⟩
      · simpa using item

private theorem readMembers_succ :
    ∀ member ∈ (readMembers (fuel + 1) text).members, member.2.InRange := by
  rw [readMembers]
  split
  · simp
  · simp
  · split
    · simp
    · split
      · simpa using Node.InRange.broken _
      · rename_i value _
        have member := inRange.node value
        split <;> rename_i read <;> rw [read] at member
        · simpa using member
        · split
          · simpa using member
          · simpa using member
          · exact List.forall_mem_cons.mpr ⟨member, inRange.members _⟩
          · simpa using member
      · simpa using Node.InRange.broken _
  · simp

end ReadsInRange

/-- The numbers of a text are in range: integers that do not fit 64 bits become numbers of double
precision, and those that are too large for that are not read. -/
theorem readsInRange (fuel : Nat) : ReadsInRange fuel := by
  induction fuel with
  | zero =>
      exact ⟨fun _ => .broken _, by simp [readItems, Node.InRange.broken], by simp [readMembers]⟩
  | succ fuel inductionHypothesis =>
      exact ⟨inductionHypothesis.readNode_succ, inductionHypothesis.readItems_succ,
        inductionHypothesis.readMembers_succ⟩

open Document

/-- A value that is read whole fits. -/
theorem fits_of_value
    {levels : Nat}
    {node : Node}
    (inRange : node.InRange)
    {value : Json}
    (read : node.value levels = .ok value) :
    Fits levels value := by
  induction inRange generalizing levels value with
  | null =>
      simp only [Node.value, Except.ok.injEq] at read
      rw [← read]
      exact .null levels
  | flag flag =>
      simp only [Node.value, Except.ok.injEq] at read
      rw [← read]
      exact .flag levels flag
  | @number number inRange =>
      cases number with
      | none => simp [Node.value, Node.inRange] at read
      | some number =>
          simp only [Node.value, Node.inRange, ok_bind, pure_eq_ok, Except.ok.injEq] at read
          rw [← read]
          exact .number levels (inRange number rfl)
  | text text =>
      cases text with
      | error cause => simp [Node.value, Node.legible] at read
      | ok text =>
          simp only [Node.value, Node.legible, ok_bind, pure_eq_ok, Except.ok.injEq] at read
          rw [← read]
          exact .text levels text
  | array ending _ inductionHypothesis =>
      cases levels with
      | zero => simp [Node.value] at read
      | succ levels =>
          simp only [Node.value, bind_eq_ok] at read
          obtain ⟨items, readItems, _, _, same⟩ := read
          cases same
          refine .array fun item member => ?_
          obtain ⟨source, isItem, readItem⟩ := exists_of_mem_mapM readItems member
          exact inductionHypothesis source isItem readItem
  | object ending _ inductionHypothesis =>
      cases levels with
      | zero => simp [Node.value] at read
      | succ levels =>
          simp only [Node.value, bind_eq_ok] at read
          obtain ⟨members, readMembers, _, _, same⟩ := read
          cases same
          refine .object fun member isMember => ?_
          obtain ⟨source, isSource, readMember⟩ := exists_of_mem_mapM readMembers isMember
          simp only [bind_eq_ok] at readMember
          obtain ⟨key, _, value, readValue, same⟩ := readMember
          cases same
          exact inductionHypothesis source isSource readValue
  | broken breakage => simp [Node.value] at read

/-- What is read from a text is read from its tree. -/
theorem read_of_decode
    {α : Type}
    {read : Nat → Node → Except Problem α}
    {text : String}
    {result : α}
    (decoded : decode read text = .ok result) :
    read levels (nodeOf text.toList).1 = .ok result := by
  simp only [decode, bind_eq_ok] at decoded
  obtain ⟨value, readNode, atEnd⟩ := decoded
  split at atEnd
  · cases atEnd
    exact readNode
  · cases atEnd

/-- What is read from a text is read from a tree whose numbers are in range. -/
theorem exists_of_decode
    {α : Type}
    {read : Nat → Node → Except Problem α}
    {text : String}
    {result : α}
    (decoded : decode read text = .ok result) :
    ∃ node : Node, node.InRange ∧ read levels node = .ok result :=
  ⟨(nodeOf text.toList).1, (readsInRange _).node _, read_of_decode decoded⟩

/-! ## Values that are given back -/

theorem reading_of_recovered {x : Binary64} (recovered : x.Recovered) :
    Number.reading (.float x) = some (.float x) := by
  have noStrings : ∀ string ∈ strings (.number (.float x)), Scans written string (id string) := by
    simp
  have decoded := decode_spelled Node.value (.number (.float x)) noStrings
  have read : Node.value levels (.number (Number.reading (.float x))) =
      .ok (.number (.float x)) := decoded.symm.trans recovered
  cases same : Number.reading (.float x) with
  | none => simp [same, Node.value, Node.inRange] at read
  | some number =>
      simp only [same, Node.value, Node.inRange, ok_bind, pure_eq_ok, Except.ok.injEq,
        Json.number.injEq] at read
      rw [read]

/-- A value as records keep it: it fits and is in normal form. -/
structure Opaque (levels : Nat) (value : Json) : Prop where
  fits : Fits levels value
  normal : value.normal = value

/-- Every number of double precision in a value is recovered. -/
def Recovered (value : Json) : Prop :=
  ∀ x ∈ value.floats, x.Recovered

instance (value : Json) : Decidable value.Recovered :=
  inferInstanceAs (Decidable (∀ x ∈ value.floats, x.Recovered))

/-- The tree of the text of a value with its texts changed. -/
def retold (onText : String → String) (value : Json) : Node :=
  (value.mapTexts onText).node Number.reading

@[simp] theorem retold_text (onText : String → String) (value : String) :
    (Json.text value).retold onText = .text (.ok (onText value)) := rfl

@[simp] theorem retold_array (onText : String → String) (items : List Json) :
    (Json.array items).retold onText = .array (items.map (retold onText)) none := by
  simp [retold, Function.comp_def]

@[simp] theorem retold_object (onText : String → String) (members : List (String × Json)) :
    (Json.object members).retold onText =
      .object (members.map fun member => (.ok member.1, member.2.retold onText)) none := by
  simp [retold, Function.comp_def]

/-- The numbers of a value that fits are read as they are. -/
theorem node_reading
    {levels : Nat}
    {value : Json}
    (fits : Fits levels value)
    (recovered : value.Recovered)
    (onKey onText : String → String) :
    (value.mapStrings onKey onText).node Number.reading = (value.mapStrings onKey onText).node some := by
  simp only [Recovered] at recovered
  induction fits with
  | null => rfl
  | flag => rfl
  | @number levels number inRange =>
      cases number with
      | integer number => simp [Number.reading_integer inRange]
      | float number => simp [reading_of_recovered (recovered number (by simp))]
  | text => rfl
  | @array levels items _ inductionHypothesis =>
      simp only [floats, itemFloats_eq_flatMap, List.mem_flatMap] at recovered
      simp only [mapStrings, mapItemStrings_eq_map, node, itemNodes_eq_map, List.map_map,
        Node.array.injEq, and_true]
      exact List.map_congr_left fun item member =>
        inductionHypothesis item member fun x occurs => recovered x ⟨item, member, occurs⟩
  | @object levels members _ inductionHypothesis =>
      simp only [floats, memberFloats_eq_flatMap, List.mem_flatMap] at recovered
      simp only [mapStrings, mapMemberStrings_eq_map, node, memberNodes_eq_map, List.map_map,
        Node.object.injEq, and_true]
      refine List.map_congr_left fun member isMember => Prod.ext rfl ?_
      exact inductionHypothesis member isMember fun x occurs => recovered x ⟨member, isMember, occurs⟩

/-- The tree of a value that fits is read as the value with its texts changed. -/
theorem value_retold
    {levels : Nat}
    {value : Json}
    (fits : Fits levels value)
    (recovered : value.Recovered)
    (onText : String → String) :
    (value.retold onText).value levels = .ok (value.mapTexts onText) := by
  simp only [retold, Recovered] at recovered ⊢
  induction fits with
  | null levels => simp [Node.value]
  | flag levels value => simp [Node.value]
  | @number levels number inRange =>
      cases number with
      | integer number => simp [Node.value, Number.reading_integer inRange, Node.inRange]
      | float number =>
          simp [Node.value, reading_of_recovered (recovered number (by simp)), Node.inRange]
  | text levels value => simp [Node.value, Node.legible]
  | @array levels items _ inductionHypothesis =>
      simp only [floats, itemFloats_eq_flatMap, List.mem_flatMap] at recovered
      have readItems :
          items.mapM (Node.value levels ∘ node Number.reading ∘ mapStrings id onText) =
            .ok (items.map (mapStrings id onText)) :=
        mapM_eq_ok_map fun item member => inductionHypothesis item member
          fun x occurs => recovered x ⟨item, member, occurs⟩
      simp only [mapStrings, mapItemStrings_eq_map, node, itemNodes_eq_map, List.map_map,
        Node.value, List.mapM_map]
      rw [readItems]
      rfl
  | @object levels members _ inductionHypothesis =>
      simp only [floats, memberFloats_eq_flatMap, List.mem_flatMap] at recovered
      simp only [mapStrings, mapMemberStrings_eq_map, node, memberNodes_eq_map, List.map_map,
        Node.value, List.mapM_map]
      rw [mapM_eq_ok_map]
      · rfl
      · intro member isMember
        have readValue := inductionHypothesis member isMember
          fun x occurs => recovered x ⟨member, isMember, occurs⟩
        simp only [Function.comp_apply, Node.legible, ok_bind]
        rw [readValue]
        rfl

end Json

end RunManifest
