import RunManifest.Proofs.Document.Order
import RunManifest.Proofs.Json.Grammar

/-!
Contract: the order of members does not matter to the readers of records.

Owns:
- `Effect`, what one member does to a record; the effects of members with different keys commute;
- `unordered_record`, the law for records given by key or by position;
- `Composed.unordered`, the law for all readers of runs, and `Composed.decode_of_reordered`, the same
  for texts.
-/

set_option autoImplicit false

namespace RunManifest.Document

open Json (Node Reordered)

variable {α ρ : Type} {levels : Nat}

/-! ## Records -/

/-- Progress with the same record, in which the same keys were seen. -/
def Progress.Same (left right : Progress ρ) : Prop :=
  left.record = right.record ∧ left.seen.Perm right.seen

theorem Progress.Same.refl (progress : Progress ρ) : progress.Same progress :=
  ⟨rfl, .refl _⟩

theorem Progress.Same.trans
    {left middle right : Progress ρ}
    (first : left.Same middle)
    (second : middle.Same right) :
    left.Same right :=
  ⟨first.1.trans second.1, first.2.trans second.2⟩

section Records

variable {schema : Schema (Except Problem) Node ρ}

/-- Reading the members of a record that is given by key. -/
def readAll
    (schema : Schema (Except Problem) Node ρ)
    (levels : Nat)
    (progress : Progress ρ)
    (members : List (String × Json)) :
    Except Problem (Progress ρ) :=
  schema.readMembers Json.format levels progress
    (members.map fun member => (.ok member.1, member.2.node some))

private theorem readAll_cons
    (member : String × Json)
    (members : List (String × Json))
    (progress : Progress ρ) :
    readAll schema levels progress (member :: members) = (do
      let next ← schema.readMember Json.format levels progress member.1 (member.2.node some)
      readAll schema levels next members) := rfl

private theorem readAll_append (first last : List (String × Json)) (progress : Progress ρ) :
    readAll schema levels progress (first ++ last) = (do
      let next ← readAll schema levels progress first
      readAll schema levels next last) := by
  rw [readAll, List.map_append, readMembers_append]
  rfl

/-- What a member does: the change of the record, and the key that counts as seen, if any. -/
inductive Effect
    (schema : Schema (Except Problem) Node ρ)
    (levels : Nat)
    (key : String)
    (node : Node) :
    (ρ → ρ) → List String → Prop where
  | field
      {field : Field (Except Problem) Node ρ}
      {change : ρ → ρ}
      (found : schema.field? key = some field)
      (reads : field.read levels node = .ok change) :
      Effect schema levels key node change [key]
  | dropped
      (unknown : schema.field? key = none)
      (isDropped : schema.others = .dropped)
      (skips : node.skip = .ok ()) :
      Effect schema levels key node id []
  | kept
      {get : ρ → Dictionary Json}
      {put : Dictionary Json → ρ → ρ}
      {value : Json}
      (unknown : schema.field? key = none)
      (isKept : schema.others = .kept get put)
      (reads : node.value levels = .ok value) :
      Effect schema levels key node
        (fun record => put ((get record).insert key value.normal) record) []

private theorem Effect.eq_key
    {key name : String}
    {node : Node}
    {change : ρ → ρ}
    {marks : List String}
    (effect : Effect schema levels key node change marks)
    (isMark : name ∈ marks) :
    name = key := by
  cases effect with
  | field => exact List.mem_singleton.mp isMark
  | dropped => cases isMark
  | kept => cases isMark

private theorem readMember_eq_ok
    {progress after : Progress ρ}
    {key : String}
    {node : Node} :
    schema.readMember Json.format levels progress key node = .ok after ↔
      ∃ change marks, Effect schema levels key node change marks ∧
        (∀ name ∈ marks, name ∉ progress.seen) ∧
        after = ⟨marks ++ progress.seen, change progress.record⟩ := by
  constructor
  · intro reads
    rcases Schema.readMember_cases reads with
      ⟨field, change, found, unseen, readsField, rfl⟩ | ⟨unknown, isDropped, skips, rfl⟩
        | ⟨get, put, value, unknown, isKept, readsValue, rfl⟩
    · exact ⟨change, [key], .field found readsField, by simpa using unseen, rfl⟩
    · exact ⟨id, [], .dropped unknown isDropped skips, by simp, rfl⟩
    · exact ⟨_, [], .kept unknown isKept readsValue, by simp, rfl⟩
  · rintro ⟨change, marks, effect, unseen, rfl⟩
    cases effect with
    | field found reads =>
        rw [readMember_of_field found (by simpa using unseen), reads]
        rfl
    | dropped unknown isDropped skips =>
        rw [readMember_of_dropped unknown isDropped, skips]
        rfl
    | kept unknown isKept reads =>
        rw [readMember_of_kept unknown isKept, reads]
        rfl

/-- One member does the same to a record, whatever the order in which keys were seen. -/
theorem readMember_same
    {left right after : Progress ρ}
    {key : String}
    {node : Node}
    (same : left.Same right)
    (reads : schema.readMember Json.format levels left key node = .ok after) :
    ∃ other, schema.readMember Json.format levels right key node = .ok other ∧ after.Same other := by
  obtain ⟨change, marks, effect, unseen, rfl⟩ := readMember_eq_ok.mp reads
  refine ⟨⟨marks ++ right.seen, change right.record⟩,
    readMember_eq_ok.mpr ⟨change, marks, effect, fun name isMark isSeen => ?_, rfl⟩, ?_, ?_⟩
  · exact unseen name isMark (same.2.mem_iff.mpr isSeen)
  · exact congrArg change same.1
  · exact same.2.append_left marks

private theorem readAll_same
    {members : List (String × Json)}
    {left right after : Progress ρ}
    (same : left.Same right)
    (reads : readAll schema levels left members = .ok after) :
    ∃ other, readAll schema levels right members = .ok other ∧ after.Same other := by
  induction members generalizing left right with
  | nil =>
      cases reads
      exact ⟨right, rfl, same⟩
  | cons member members inductionHypothesis =>
      rw [readAll_cons] at reads ⊢
      obtain ⟨next, readsMember, readsRest⟩ := bind_eq_ok.mp reads
      obtain ⟨other, readsOther, sameNext⟩ := readMember_same same readsMember
      rw [readsOther, ok_bind]
      exact inductionHypothesis sameNext readsRest

variable (independent : schema.Independent)
include independent

/-- What members with different keys do does not depend on their order. -/
theorem Effect.commute
    {key other : String}
    (different : key ≠ other)
    {node otherNode : Node}
    {change otherChange : ρ → ρ}
    {marks otherMarks : List String}
    (effect : Effect schema levels key node change marks)
    (otherEffect : Effect schema levels other otherNode otherChange otherMarks)
    (record : ρ) :
    change (otherChange record) = otherChange (change record) := by
  cases effect with
  | field found reads =>
      cases otherEffect with
      | field otherFound otherReads =>
          obtain ⟨isField, isKey⟩ := Schema.mem_of_field? found
          obtain ⟨isOther, isOtherKey⟩ := Schema.mem_of_field? otherFound
          refine independent.commute _ isField _ isOther ?_ _ _ _ _ _ reads otherReads record
          rw [isKey, isOtherKey]
          exact different.symm
      | dropped => rfl
      | kept unknown isKept readsValue =>
          obtain ⟨isField, -⟩ := Schema.mem_of_field? found
          dsimp only
          rw [independent.put_read _ _ isKept _ isField _ _ _ reads,
            independent.get_read isKept isField reads]
  | dropped => rfl
  | kept unknown isKept readsValue =>
      cases otherEffect with
      | field otherFound otherReads =>
          obtain ⟨isField, -⟩ := Schema.mem_of_field? otherFound
          dsimp only
          rw [independent.put_read _ _ isKept _ isField _ _ _ otherReads,
            independent.get_read isKept isField otherReads]
      | dropped => rfl
      | kept _ isKeptToo _ =>
          cases isKept.symm.trans isKeptToo
          have keeping := independent.keeping _ _ isKept
          dsimp only
          rw [keeping.get_put, keeping.get_put, keeping.put_put, keeping.put_put,
            Dictionary.insert_insert_comm different]

/-- Two members with different keys can change places. -/
theorem readMember_swap
    {progress middle after : Progress ρ}
    {first second : String}
    (different : first ≠ second)
    {node other : Node}
    (readsFirst : schema.readMember Json.format levels progress first node = .ok middle)
    (readsSecond : schema.readMember Json.format levels middle second other = .ok after) :
    ∃ between reached, schema.readMember Json.format levels progress second other = .ok between ∧
      schema.readMember Json.format levels between first node = .ok reached ∧
      after.Same reached := by
  obtain ⟨change, marks, effect, unseen, rfl⟩ := readMember_eq_ok.mp readsFirst
  obtain ⟨otherChange, otherMarks, otherEffect, otherUnseen, rfl⟩ := readMember_eq_ok.mp readsSecond
  refine ⟨_, _, readMember_eq_ok.mpr ⟨_, _, otherEffect, ?_, rfl⟩,
    readMember_eq_ok.mpr ⟨_, _, effect, ?_, rfl⟩, ?_, ?_⟩
  · intro name isMark isSeen
    exact otherUnseen name isMark (List.mem_append_right marks isSeen)
  · intro name isMark isSeen
    rcases List.mem_append.mp isSeen with isOther | isSeen
    · exact different ((effect.eq_key isMark).symm.trans (otherEffect.eq_key isOther))
    · exact unseen name isMark isSeen
  · exact (effect.commute independent different otherEffect progress.record).symm
  · show (otherMarks ++ (marks ++ progress.seen)).Perm (marks ++ (otherMarks ++ progress.seen))
    rw [← List.append_assoc, ← List.append_assoc]
    exact List.perm_append_comm.append_right progress.seen

private theorem readAll_perm
    {members others : List (String × Json)}
    (permuted : members.Perm others)
    (keys : (members.map Prod.fst).Nodup)
    {progress after : Progress ρ}
    (reads : readAll schema levels progress members = .ok after) :
    ∃ reached, readAll schema levels progress others = .ok reached ∧ after.Same reached := by
  induction permuted generalizing progress after with
  | nil => exact ⟨after, reads, .refl after⟩
  | cons member _ inductionHypothesis =>
      rw [List.map_cons, List.nodup_cons] at keys
      rw [readAll_cons] at reads ⊢
      obtain ⟨next, readsMember, readsRest⟩ := bind_eq_ok.mp reads
      rw [readsMember, ok_bind]
      exact inductionHypothesis keys.2 readsRest
  | swap first second rest =>
      have different : second.1 ≠ first.1 := by
        intro same
        rw [List.map_cons, List.map_cons, same, List.nodup_cons] at keys
        exact keys.1 List.mem_cons_self
      rw [readAll_cons] at reads
      obtain ⟨middle, readsSecond, reads⟩ := bind_eq_ok.mp reads
      rw [readAll_cons] at reads
      obtain ⟨next, readsFirst, readsRest⟩ := bind_eq_ok.mp reads
      obtain ⟨between, reached, readsBetween, readsReached, same⟩ :=
        readMember_swap independent different readsSecond readsFirst
      rw [readAll_cons, readsBetween, ok_bind, readAll_cons, readsReached, ok_bind]
      exact readAll_same same readsRest
  | trans early _ first second =>
      obtain ⟨middle, readsMiddle, sameMiddle⟩ := first keys reads
      obtain ⟨reached, readsReached, sameReached⟩ :=
        second ((early.map Prod.fst).nodup_iff.mp keys) readsMiddle
      exact ⟨reached, readsReached, sameMiddle.trans sameReached⟩

omit independent in
theorem missing?_perm {left right : List String} (same : left.Perm right) :
    schema.missing? left = schema.missing? right := by
  simp only [Schema.missing?, List.contains_eq_mem, same.mem_iff]

omit independent in
/-- Reading a record that is given by key. -/
theorem read_node_object (members : List (String × Json)) :
    schema.read Json.format (levels + 1) ((Json.object members).node some) = (do
      let progress ← readAll schema levels ⟨[], schema.blank⟩ members
      match schema.missing? progress.seen with
      | some name => throw (Problem.mismatch (.missingField name))
      | none => return progress.record) := by
  rw [Json.node, Json.memberNodes_eq_map, readAll]
  simp only [Schema.read, Json.format, enter, pure_eq_ok, ok_bind, Schema.readKeyed,
    Node.memberContents, settled_eq_self, List.map_map]
  rfl

private theorem read_of_perm
    {members others : List (String × Json)}
    (permuted : members.Perm others)
    (keys : (members.map Prod.fst).Nodup)
    {result : ρ}
    (reads : schema.read Json.format levels ((Json.object members).node some) = .ok result) :
    schema.read Json.format levels ((Json.object others).node some) = .ok result := by
  cases levels with
  | zero => cases reads
  | succ levels =>
      rw [read_node_object] at reads ⊢
      obtain ⟨progress, readsMembers, readsEnd⟩ := bind_eq_ok.mp reads
      obtain ⟨reached, readsOthers, same⟩ := readAll_perm independent permuted keys readsMembers
      rw [readsOthers, ok_bind, ← missing?_perm same.2, ← same.1]
      exact readsEnd

omit independent

variable (fields : ∀ field ∈ schema.fields, Unordered field.read)
include fields

/-- One member does the same to a record, whatever the order of members inside it. -/
theorem readMember_of_reordered
    {progress after : Progress ρ}
    {key : String}
    {value other : Json}
    (reordered : Reordered value other)
    (distinct : value.Distinct)
    (reads : schema.readMember Json.format levels progress key (value.node some) = .ok after) :
    schema.readMember Json.format levels progress key (other.node some) = .ok after := by
  obtain ⟨change, marks, effect, unseen, rfl⟩ := readMember_eq_ok.mp reads
  refine readMember_eq_ok.mpr ⟨change, marks, ?_, unseen, rfl⟩
  cases effect with
  | field found readsField =>
      obtain ⟨isField, -⟩ := Schema.mem_of_field? found
      exact .field found (fields _ isField _ _ _ _ reordered distinct readsField)
  | dropped unknown isDropped skips => exact .dropped unknown isDropped (skip_node other)
  | kept unknown isKept readsValue =>
      obtain ⟨rfl, readsOther⟩ := value_of_reordered reordered readsValue
      rw [Json.normal_eq_of_reordered reordered distinct]
      exact .kept unknown isKept readsOther

private theorem readAll_of_reordered
    {first last : List (String × Json)}
    {key : String}
    {value other : Json}
    (reordered : Reordered value other)
    (distinct : value.Distinct)
    {progress after : Progress ρ}
    (reads : readAll schema levels progress (first ++ (key, value) :: last) = .ok after) :
    readAll schema levels progress (first ++ (key, other) :: last) = .ok after := by
  rw [readAll_append] at reads ⊢
  obtain ⟨middle, readsFirst, reads⟩ := bind_eq_ok.mp reads
  rw [readAll_cons] at reads
  obtain ⟨next, readsMember, readsLast⟩ := bind_eq_ok.mp reads
  rw [readsFirst, ok_bind, readAll_cons,
    readMember_of_reordered fields reordered distinct readsMember, ok_bind]
  exact readsLast

omit fields in
private theorem readPositions_of_reordered
    {fields : List (Field (Except Problem) Node ρ)}
    (parts : ∀ field ∈ fields, Unordered field.read)
    {first last : List Node}
    {item other : Json}
    (reordered : Reordered item other)
    (distinct : item.Distinct)
    {record result : ρ}
    {unread : List (Field (Except Problem) Node ρ)}
    (reads : Schema.readPositions levels record fields (first ++ item.node some :: last) =
      .ok (result, unread, [])) :
    Schema.readPositions levels record fields (first ++ other.node some :: last) =
      .ok (result, unread, []) := by
  induction first generalizing fields record with
  | nil =>
      cases fields with
      | nil => simp [Schema.readPositions, pure_eq_ok] at reads
      | cons field fields =>
          rw [List.nil_append, Schema.readPositions] at reads
          obtain ⟨change, readsField, readsRest⟩ := bind_eq_ok.mp reads
          rw [List.nil_append, Schema.readPositions,
            parts field List.mem_cons_self _ _ _ _ reordered distinct readsField]
          exact readsRest
  | cons node first inductionHypothesis =>
      cases fields with
      | nil => simp [Schema.readPositions, pure_eq_ok] at reads
      | cons field fields =>
          rw [List.cons_append, Schema.readPositions] at reads
          obtain ⟨change, readsField, readsRest⟩ := bind_eq_ok.mp reads
          rw [List.forall_mem_cons] at parts
          rw [List.cons_append, Schema.readPositions, readsField]
          exact inductionHypothesis parts.2 readsRest

omit fields in
private theorem read_node_array {items : List Json} {result : ρ} :
    schema.read Json.format (levels + 1) ((Json.array items).node some) = .ok result ↔
      schema.others.areKept = false ∧ ∃ unread,
        Schema.readPositions levels schema.blank schema.fields (items.map (Json.node some)) =
          .ok (result, unread, []) ∧ unread.any Field.required = false := by
  rw [Json.node, Json.itemNodes_eq_map]
  constructor
  · intro reads
    obtain ⟨layout, isRecord, reads⟩ := bind_eq_ok.mp reads
    rcases record_eq_ok isRecord with ⟨_, _, isObject, -⟩ | ⟨_, _, isArray, byPosition, rfl⟩
    · cases isObject
    · cases isArray
      obtain ⟨unread, readsItems, -, allRead⟩ := Schema.readPositional_eq_ok.mp reads
      exact ⟨by simpa using byPosition, unread, readsItems, allRead⟩
  · rintro ⟨notKept, unread, readsItems, allRead⟩
    simp only [Schema.read, Json.format, notKept, Bool.not_false, if_true, enter, pure_eq_ok, ok_bind]
    exact Schema.readPositional_eq_ok.mpr ⟨unread, readsItems, rfl, allRead⟩

theorem unordered_record (independent : schema.Independent) :
    Unordered (schema.read Json.format) := by
  refine unordered_of_steps ?_ ?_ ?_
  · intro levels members others result permuted keys reads
    exact read_of_perm independent permuted keys reads
  · intro levels first last item other result reordered distinct reads
    cases levels with
    | zero =>
        obtain ⟨_, -, reads⟩ := bind_eq_ok.mp reads
        cases reads
    | succ levels =>
        rw [read_node_array, List.map_append, List.map_cons] at reads ⊢
        obtain ⟨notKept, unread, readsItems, allRead⟩ := reads
        exact ⟨notKept, unread,
          readPositions_of_reordered fields reordered distinct readsItems, allRead⟩
  · intro levels first last key value other result reordered distinct reads
    cases levels with
    | zero => cases reads
    | succ levels =>
        rw [read_node_object] at reads ⊢
        obtain ⟨progress, readsMembers, readsEnd⟩ := bind_eq_ok.mp reads
        rw [readAll_of_reordered fields reordered distinct readsMembers]
        exact readsEnd

end Records

/-! ## All readers -/

theorem Composed.unordered
    {read : Nat → Node → Except Problem α}
    (composed : Composed read) :
    Unordered read := by
  induction composed with
  | text expected => exact unordered_text expected
  | flag => exact unordered_flag
  | instant => exact unordered_instant
  | texts => exact unordered_texts
  | paramValue => exact unordered_paramValue
  | optional _ part => exact unordered_optional part
  | list _ part => exact unordered_list part
  | change use _ part => exact unordered_change part use
  | record schema independent _ fields => exact unordered_record fields independent

/-- Spelled texts whose values differ only in the order of members are read alike. -/
theorem Composed.decode_of_reordered
    {read : Nat → Node → Except Problem α}
    (composed : Composed read)
    {value other : Json}
    {chars otherChars : List Char}
    (spells : Json.SpellsText value chars)
    (otherSpells : Json.SpellsText other otherChars)
    (reordered : Reordered value other)
    (distinct : value.Distinct)
    (result : α) :
    Json.decode read (String.ofList chars) = .ok result ↔
      Json.decode read (String.ofList otherChars) = .ok result := by
  rw [Json.decode_of_spells read spells, Json.decode_of_spells read otherSpells]
  exact ⟨composed.unordered _ _ _ _ reordered distinct,
    composed.unordered _ _ _ _ reordered.symm (distinct.reordered reordered)⟩

end RunManifest.Document
