import RunManifest.Proofs.Document.Composition
import RunManifest.Proofs.Json.Order
import RunManifest.Proofs.Run.Spec

/-!
Contract: the order of members does not matter to the readers of parts.

Owns:
- `Unordered`, the law that values without repeated keys that differ only in the order of members
  are read alike;
- the law for values that are read whole, for texts, flags and instants, for dictionaries and
  parameter values, and for lists and optional parts.
-/

set_option autoImplicit false

namespace RunManifest.Document

open Json (Node Reordered)

variable {α β ρ : Type} {levels : Nat}

/-- A reader to which the order of members does not matter. -/
def Unordered (read : Nat → Node → Except Problem α) : Prop :=
  ∀ (levels : Nat) (left right : Json) (result : α), Reordered left right → left.Distinct →
    read levels (left.node some) = .ok result → read levels (right.node some) = .ok result

/-- The law for one change of order after the other. -/
theorem unordered_of_steps
    {read : Nat → Node → Except Problem α}
    (members : ∀ levels members others result, List.Perm members others →
      (members.map Prod.fst).Nodup → read levels ((Json.object members).node some) = .ok result →
      read levels ((Json.object others).node some) = .ok result)
    (item : ∀ levels first last item other result, Reordered item other → item.Distinct →
      read levels ((Json.array (first ++ item :: last)).node some) = .ok result →
      read levels ((Json.array (first ++ other :: last)).node some) = .ok result)
    (member : ∀ levels first last key value other result, Reordered value other → value.Distinct →
      read levels ((Json.object (first ++ (key, value) :: last)).node some) = .ok result →
      read levels ((Json.object (first ++ (key, other) :: last)).node some) = .ok result) :
    Unordered read := by
  intro levels left right result reordered distinct reads
  induction reordered with
  | refl => exact reads
  | trans early _ first second => exact second (distinct.reordered early) (first distinct reads)
  | members permuted =>
      cases distinct with
      | object keys _ => exact members _ _ _ _ permuted keys reads
  | item first last inside =>
      cases distinct with
      | array each =>
          rw [List.forall_mem_append, List.forall_mem_cons] at each
          exact item _ _ _ _ _ _ inside each.2.1 reads
  | member first last key inside =>
      cases distinct with
      | object _ each =>
          rw [List.forall_mem_append, List.forall_mem_cons] at each
          exact member _ _ _ _ _ _ _ inside each.2.1 reads

/-! ## Values -/

theorem skip_node (value : Json) : (value.node some).skip = .ok () := by
  induction value using Json.treeInduction with
  | null => rfl
  | flag value => rfl
  | number value => rfl
  | text value => rfl
  | array items inductionHypothesis =>
      have skipsItems : Node.skipItems (items.map (Json.node some)) = .ok () := by
        induction items with
        | nil => rfl
        | cons item items atRest =>
            rw [List.forall_mem_cons] at inductionHypothesis
            rw [List.map_cons, Node.skipItems, inductionHypothesis.1, ok_bind,
              atRest inductionHypothesis.2]
      rw [Json.node, Json.itemNodes_eq_map, Node.skip, skipsItems]
      rfl
  | object members inductionHypothesis =>
      have skipsMembers : Node.skipMembers
          (members.map fun member => (.ok member.1, member.2.node some)) = .ok () := by
        induction members with
        | nil => rfl
        | cons member members atRest =>
            rw [List.forall_mem_cons] at inductionHypothesis
            rw [List.map_cons, Node.skipMembers, inductionHypothesis.1, ok_bind,
              atRest inductionHypothesis.2]
      rw [Json.node, Json.memberNodes_eq_map, Node.skip, skipsMembers]
      rfl

private theorem value_node_array (items : List Json) :
    ((Json.array items).node some).value (levels + 1) =
      Json.array <$> items.mapM fun item => (item.node some).value levels := by
  rw [Json.node, Json.itemNodes_eq_map, value_array, List.mapM_map, ← bind_pure_comp]
  rfl

/-- One member of an object, its value read by a step. -/
def memberEntry (step : Node → Except Problem β) (member : String × Json) :
    Except Problem (String × β) :=
  (fun value => (member.1, value)) <$> step (member.2.node some)

private theorem readEntry_node (step : Node → Except Problem β) (member : String × Json) :
    readEntry step (.ok member.1, member.2.node some) = memberEntry step member :=
  readEntry_some step member.1 (member.2.node some)

private theorem value_node_object (members : List (String × Json)) :
    ((Json.object members).node some).value (levels + 1) =
      Json.object <$> members.mapM (memberEntry (Node.value levels)) := by
  rw [Json.node, Json.memberNodes_eq_map, value_object, List.mapM_map, ← bind_pure_comp]
  simp only [Function.comp_def, readEntry_node]
  rfl

private theorem eq_map_of_mapM
    {step : α → Except Problem β}
    {result : α → β}
    {items : List α}
    {results : List β}
    (each : ∀ item ∈ items, ∀ value, step item = .ok value → value = result item)
    (succeeds : items.mapM step = .ok results) :
    results = items.map result := by
  have all : ∀ item ∈ items, step item = .ok (result item) := by
    intro item isItem
    obtain ⟨value, isValue⟩ := exists_of_mapM succeeds item isItem
    rw [isValue, each item isItem value isValue]
  rw [mapM_eq_ok_map all] at succeeds
  exact (Except.ok.inj succeeds).symm

/-- The tree of a value is read whole as the value, if it is read at all. -/
theorem value_node_eq
    {value result : Json}
    (reads : (value.node some).value levels = .ok result) :
    result = value := by
  induction value using Json.treeInduction generalizing levels result with
  | null =>
      rw [Json.node, Node.value] at reads
      cases reads
      rfl
  | flag value =>
      rw [Json.node, Node.value] at reads
      cases reads
      rfl
  | number value =>
      rw [Json.node, Node.value] at reads
      cases reads
      rfl
  | text value =>
      rw [Json.node, Node.value] at reads
      cases reads
      rfl
  | array items inductionHypothesis =>
      cases levels with
      | zero => cases reads
      | succ levels =>
          rw [value_node_array] at reads
          obtain ⟨values, readsItems, rfl⟩ := map_eq_ok.mp reads
          have same : values = items.map id :=
            eq_map_of_mapM (fun item isItem value => inductionHypothesis item isItem) readsItems
          rw [same, List.map_id]
  | object members inductionHypothesis =>
      cases levels with
      | zero => cases reads
      | succ levels =>
          rw [value_node_object] at reads
          obtain ⟨entries, readsMembers, rfl⟩ := map_eq_ok.mp reads
          have same : entries = members.map id := by
            refine eq_map_of_mapM (fun member isMember entry readsEntry => ?_) readsMembers
            obtain ⟨value, readsValue, rfl⟩ := map_eq_ok.mp readsEntry
            rw [inductionHypothesis member isMember readsValue]
            rfl
          rw [same, List.map_id]

private theorem whole_array_iff {items : List Json} :
    ((Json.array items).node some).value (levels + 1) = .ok (.array items) ↔
      ∀ item ∈ items, (item.node some).value levels = .ok item := by
  rw [value_node_array]
  constructor
  · intro reads item isItem
    obtain ⟨values, readsItems, -⟩ := map_eq_ok.mp reads
    obtain ⟨value, readsItem⟩ := exists_of_mapM readsItems item isItem
    rw [readsItem, value_node_eq readsItem]
  · intro each
    have all : items.mapM (fun item => (item.node some).value levels) = .ok (items.map id) :=
      mapM_eq_ok_map each
    rw [all, List.map_id]
    rfl

private theorem whole_object_iff {members : List (String × Json)} :
    ((Json.object members).node some).value (levels + 1) = .ok (.object members) ↔
      ∀ member ∈ members, (member.2.node some).value levels = .ok member.2 := by
  rw [value_node_object]
  constructor
  · intro reads member isMember
    obtain ⟨entries, readsMembers, -⟩ := map_eq_ok.mp reads
    obtain ⟨entry, readsEntry⟩ := exists_of_mapM readsMembers member isMember
    obtain ⟨value, readsValue, -⟩ := map_eq_ok.mp readsEntry
    rw [readsValue, value_node_eq readsValue]
  · intro each
    have all : members.mapM (memberEntry (Node.value levels)) = .ok (members.map id) := by
      apply mapM_eq_ok_map
      intro member isMember
      rw [memberEntry, each member isMember]
      rfl
    rw [all, List.map_id]
    rfl

/-- Values that differ in the order of members can be read whole, or not, together. -/
theorem whole_of_reordered
    {left right : Json}
    (reordered : Reordered left right)
    (reads : (left.node some).value levels = .ok left) :
    (right.node some).value levels = .ok right := by
  induction reordered generalizing levels with
  | refl => exact reads
  | trans _ _ first second => exact second (first reads)
  | members permuted =>
      cases levels with
      | zero => cases reads
      | succ levels =>
          rw [whole_object_iff] at reads ⊢
          intro member isMember
          exact reads member (permuted.mem_iff.mpr isMember)
  | item first last _ inside =>
      cases levels with
      | zero => cases reads
      | succ levels =>
          rw [whole_array_iff, List.forall_mem_append, List.forall_mem_cons] at reads ⊢
          exact ⟨reads.1, inside reads.2.1, reads.2.2⟩
  | member first last key _ inside =>
      cases levels with
      | zero => cases reads
      | succ levels =>
          rw [whole_object_iff, List.forall_mem_append, List.forall_mem_cons] at reads ⊢
          exact ⟨reads.1, inside reads.2.1, reads.2.2⟩

theorem value_of_reordered
    {left right result : Json}
    (reordered : Reordered left right)
    (reads : (left.node some).value levels = .ok result) :
    result = left ∧ (right.node some).value levels = .ok right := by
  cases value_node_eq reads
  exact ⟨rfl, whole_of_reordered reordered reads⟩

/-! ## Parts -/

/-- A reader of nothing but strings and truth values. -/
theorem unordered_of_atoms
    {read : Nat → Node → Except Problem α}
    (atoms : ∀ levels node value, read levels node = .ok value →
      (∃ text, node = .text (.ok text)) ∨ ∃ flag, node = .flag flag) :
    Unordered read := by
  intro levels left right result reordered _ reads
  rcases reordered.eq_or_container with rfl | ⟨_, _, rfl, rfl⟩ | ⟨_, _, rfl, rfl⟩
  · exact reads
  · rcases atoms _ _ _ reads with ⟨_, isText⟩ | ⟨_, isFlag⟩
    · cases isText
    · cases isFlag
  · rcases atoms _ _ _ reads with ⟨_, isText⟩ | ⟨_, isFlag⟩
    · cases isText
    · cases isFlag

theorem unordered_text (expected : Expected) : Unordered fun _ => Json.format.text expected :=
  unordered_of_atoms fun _ _ value reads => .inl ⟨value, text_eq_ok reads⟩

theorem unordered_flag : Unordered fun _ => Json.format.flag :=
  unordered_of_atoms fun _ _ value reads => .inr ⟨value, flag_eq_ok reads⟩

theorem unordered_instant : Unordered (readInstant Json.format) := by
  refine unordered_of_atoms fun levels node value reads => ?_
  obtain ⟨text, isText, -⟩ := bind_eq_ok.mp reads
  exact .inl ⟨text, text_eq_ok isText⟩

theorem unordered_change
    {read : Nat → Node → Except Problem α}
    (unordered : Unordered read)
    (use : α → β) :
    Unordered fun levels node => use <$> read levels node := by
  intro levels left right result reordered distinct reads
  obtain ⟨value, readsValue, rfl⟩ := map_eq_ok.mp reads
  exact map_eq_ok.mpr ⟨value, unordered _ _ _ _ reordered distinct readsValue, rfl⟩

private theorem isNull_of_reordered {left right : Json} (reordered : Reordered left right) :
    (right.node some).isNull = (left.node some).isNull := by
  rcases reordered.eq_or_container with rfl | ⟨_, _, rfl, rfl⟩ | ⟨_, _, rfl, rfl⟩ <;> rfl

theorem unordered_optional
    {read : Nat → Node → Except Problem α}
    (unordered : Unordered read) :
    Unordered (readOptional Json.format read) := by
  intro levels left right result reordered distinct reads
  have same := isNull_of_reordered reordered
  cases isNull : (left.node some).isNull with
  | true =>
      rw [isNull] at same
      simp only [readOptional, Json.format, ok_bind, isNull, if_true] at reads
      simp only [readOptional, Json.format, ok_bind, same, if_true]
      exact reads
  | false =>
      rw [isNull] at same
      rw [readOptional_of_not_null read isNull] at reads
      rw [readOptional_of_not_null read same]
      exact unordered_change unordered some _ _ _ _ reordered distinct reads

private theorem mapM_congr_at
    {step : α → Except Problem β}
    {item other : α}
    (same : step item = step other)
    (first last : List α) :
    (first ++ item :: last).mapM step = (first ++ other :: last).mapM step := by
  rw [List.mapM_append, List.mapM_append, List.mapM_cons, List.mapM_cons, same]

theorem unordered_list
    {read : Nat → Node → Except Problem α}
    (unordered : Unordered read) :
    Unordered (readList Json.format read) := by
  refine unordered_of_steps ?_ ?_ ?_
  · intro levels members others result _ _ reads
    obtain ⟨_, isSequence, -⟩ := bind_eq_ok.mp reads
    obtain ⟨_, _, isArray, -⟩ := sequence_eq_ok isSequence
    cases isArray
  · intro levels first last item other result reordered distinct reads
    cases levels with
    | zero => cases reads
    | succ levels =>
        simp only [Json.node, Json.itemNodes_eq_map, List.map_append, List.map_cons, readList_array]
          at reads ⊢
        obtain ⟨values, readsItems, -⟩ := bind_eq_ok.mp reads
        obtain ⟨value, readsItem⟩ := exists_of_mapM readsItems (item.node some) (by simp)
        have readsOther := unordered _ _ _ _ reordered distinct readsItem
        rw [← mapM_congr_at (readsItem.trans readsOther.symm)]
        exact reads
  · intro levels first last key value other result _ _ reads
    obtain ⟨_, isSequence, -⟩ := bind_eq_ok.mp reads
    obtain ⟨_, _, isArray, -⟩ := sequence_eq_ok isSequence
    cases isArray

private theorem readTexts_node_object (members : List (String × Json)) :
    readTexts Json.format (levels + 1) ((Json.object members).node some) =
      Dictionary.ofList <$> members.mapM (memberEntry (Json.format.text .text)) := by
  rw [Json.node, Json.memberNodes_eq_map, readTexts_object, List.mapM_map, ← bind_pure_comp]
  simp only [Function.comp_def, readEntry_node]
  rfl

private theorem mapM_of_forall₂
    {step : α → Except Problem β}
    {items : List α}
    {results : List β}
    (each : List.Forall₂ (fun item result => step item = .ok result) items results) :
    items.mapM step = .ok results := by
  induction each with
  | nil => rfl
  | cons isResult _ inductionHypothesis =>
      rw [List.mapM_cons, isResult, ok_bind, inductionHypothesis]
      rfl

/-- Steps on the same items in another order give the same results in another order. -/
theorem mapM_perm
    {step : α → Except Problem β}
    {items others : List α}
    (permuted : items.Perm others)
    {results : List β}
    (reads : items.mapM step = .ok results) :
    ∃ reordered, results.Perm reordered ∧ others.mapM step = .ok reordered := by
  obtain ⟨reordered, each, same⟩ := List.perm_comp_forall₂ permuted.symm (forall₂_of_mapM reads)
  exact ⟨reordered, same.symm, mapM_of_forall₂ each⟩

/-- Entries keep their keys. -/
theorem keys_of_mapM
    {step : Node → Except Problem β}
    {members : List (String × Json)}
    {entries : List (String × β)}
    (reads : members.mapM (memberEntry step) = .ok entries) :
    entries.map Prod.fst = members.map Prod.fst := by
  have each := forall₂_of_mapM reads
  clear reads
  induction each with
  | nil => rfl
  | cons readsEntry _ inductionHypothesis =>
      obtain ⟨value, -, rfl⟩ := map_eq_ok.mp readsEntry
      rw [List.map_cons, List.map_cons, inductionHypothesis]

theorem unordered_texts : Unordered (readTexts Json.format) := by
  refine unordered_of_steps ?_ ?_ ?_
  · intro levels members others result permuted keys reads
    cases levels with
    | zero => cases reads
    | succ levels =>
        rw [readTexts_node_object] at reads ⊢
        obtain ⟨entries, readsMembers, rfl⟩ := map_eq_ok.mp reads
        obtain ⟨reordered, permutedEntries, readsOthers⟩ := mapM_perm permuted readsMembers
        rw [readsOthers,
          Dictionary.ofList_perm permutedEntries (by rwa [keys_of_mapM readsMembers])]
        rfl
  · intro levels first last item other result _ _ reads
    obtain ⟨_, isMapping, -⟩ := bind_eq_ok.mp reads
    obtain ⟨_, _, isObject⟩ := mapping_eq_ok isMapping
    cases isObject
  · intro levels first last key value other result reordered distinct reads
    cases levels with
    | zero => cases reads
    | succ levels =>
        rw [readTexts_node_object] at reads ⊢
        obtain ⟨entries, readsMembers, -⟩ := map_eq_ok.mp reads
        obtain ⟨entry, readsEntry⟩ := exists_of_mapM readsMembers (key, value) (by simp)
        obtain ⟨text, readsValue, -⟩ := map_eq_ok.mp readsEntry
        have readsOther : Json.format.text .text (other.node some) = .ok text :=
          unordered_text .text levels _ _ _ reordered distinct readsValue
        have same : memberEntry (Json.format.text .text) (key, value) =
            memberEntry (Json.format.text .text) (key, other) := by
          rw [memberEntry, memberEntry, readsValue, readsOther]
        rw [← mapM_congr_at same]
        exact reads

/-- Document values that differ in the order of members describe the same parameter value. -/
theorem ofJson?_of_reordered
    {left right : Json}
    {result : ParamValue}
    (reordered : Reordered left right)
    (distinct : left.Distinct)
    (describes : ParamValue.ofJson? left = some result) :
    ParamValue.ofJson? right = some result := by
  induction reordered with
  | refl => exact describes
  | trans early _ first second =>
      exact second (distinct.reordered early) (first distinct describes)
  | members permuted =>
      cases distinct with
      | object keys _ =>
          obtain ⟨entries, areTexts, rfl⟩ := Option.map_eq_some_iff.mp describes
          rw [ParamValue.eq_map_of_mapM_textMember? areTexts] at permuted keys
          have each : List.Forall₂ (fun member entry => member = (entry.1, Json.text entry.2))
              (entries.map fun entry => (entry.1, Json.text entry.2)) entries := by
            rw [List.forall₂_map_left_iff]
            exact List.forall₂_same.mpr fun _ _ => rfl
          obtain ⟨reordered, others, same⟩ := List.perm_comp_forall₂ permuted.symm each
          rw [← List.forall₂_map_right_iff, List.forall₂_eq_eq_eq] at others
          rw [others, ParamValue.ofJson?, ParamValue.mapM_textMember?, Option.map_some,
            Dictionary.ofList_perm same.symm]
          rwa [List.map_map] at keys
  | item first last inside =>
      obtain ⟨values, areTexts, -⟩ := Option.map_eq_some_iff.mp describes
      have isItem := ParamValue.eq_map_of_mapM_text? areTexts
      obtain ⟨value, -, rfl⟩ :=
        List.mem_map.mp (isItem ▸ List.mem_append_right first List.mem_cons_self)
      rw [inside.eq_text]
      exact describes
  | member first last key inside =>
      obtain ⟨entries, areTexts, -⟩ := Option.map_eq_some_iff.mp describes
      have isMember := ParamValue.eq_map_of_mapM_textMember? areTexts
      obtain ⟨entry, -, same⟩ :=
        List.mem_map.mp (isMember ▸ List.mem_append_right first List.mem_cons_self)
      obtain ⟨rfl, rfl⟩ := Prod.mk.inj same
      rw [inside.eq_text]
      exact describes

theorem unordered_paramValue : Unordered (ParamValue.read Json.format) := by
  intro levels left right result reordered distinct reads
  obtain ⟨document, isDocument, describes⟩ := bind_eq_ok.mp reads
  obtain ⟨rfl, readsRight⟩ := value_of_reordered reordered isDocument
  have described : ParamValue.ofJson? document = some result := by
    split at describes
    · rename_i isValue
      cases describes
      exact isValue
    · cases describes
  show ((right.node some).value levels >>= _) = _
  rw [readsRight, ok_bind, ofJson?_of_reordered reordered distinct described]
  rfl

end RunManifest.Document
