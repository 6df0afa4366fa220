import RunManifest.Proofs.Document.Restore
import RunManifest.Run.Spec

/-!
Contract: how the readers of runs are put together.

Owns:
- `Composed`, the readers of records and of their parts, with one case for each way in which a
  reader is made from others;
- `Schema.Independent`, records into which members can be read in any order;
- the equations of the readers of containers, and of `Schema.readMember` for what a record does with
  a member.

A law that all readers of runs obey is proved by induction on `Composed`: one case for each kind of
part, and one for records.
-/

set_option autoImplicit false

namespace RunManifest.Document

open Json (Node Breakage)

variable {α β ρ : Type} {levels : Nat}

/-! ## Equations -/

theorem exists_of_mapM
    {step : α → Except Problem β}
    {items : List α}
    {results : List β}
    (succeeds : items.mapM step = .ok results) :
    ∀ item ∈ items, ∃ result, step item = .ok result := by
  intro item isItem
  obtain ⟨index, isIndex, rfl⟩ := List.getElem_of_mem isItem
  have pairs := forall₂_of_mapM succeeds
  exact ⟨_, pairs.get isIndex (pairs.length_eq ▸ isIndex)⟩

/-- One member of an object whose values are read by a step. -/
def readEntry (step : Node → Except Problem β) (member : Json.Readable String × Node) :
    Except Problem (String × β) := do
  let key ← Node.legible member.1
  return (key, ← step member.2)

theorem readEntry_eq_ok
    {step : Node → Except Problem β}
    {member : Json.Readable String × Node}
    {entry : String × β}
    (reads : readEntry step member = .ok entry) :
    member.1 = .ok entry.1 ∧ step member.2 = .ok entry.2 := by
  obtain ⟨key, isKey, rest⟩ := bind_eq_ok.mp reads
  obtain ⟨value, isValue, same⟩ := bind_eq_ok.mp rest
  cases same
  exact ⟨eq_ok_of_legible isKey, isValue⟩

theorem readEntry_some (step : Node → Except Problem β) (key : String) (node : Node) :
    readEntry step (.ok key, node) = (fun value => (key, value)) <$> step node := by
  show (step node >>= fun value => pure (key, value)) = _
  rw [bind_pure_comp]

theorem value_array (items : List Node) (ending : Option Fault) :
    (Node.array items ending).value (levels + 1) = (do
      let items ← items.mapM (Node.value levels)
      Node.ended ending
      return .array items) := by
  rw [Node.value]

theorem value_object (members : List (Json.Readable String × Node)) (ending : Option Breakage) :
    (Node.object members ending).value (levels + 1) = (do
      let members ← members.mapM (readEntry (Node.value levels))
      Node.ended (ending.map Breakage.read)
      return .object members) := by
  rw [Node.value]
  rfl

theorem readOptional_of_not_null
    (read : Nat → Node → Except Problem α)
    {node : Node}
    (notNull : node.isNull = false) :
    readOptional Json.format read levels node = some <$> read levels node := by
  show ((Except.ok node.isNull : Except Problem Bool) >>= _) = _
  rw [ok_bind, notNull]
  show (read levels node >>= fun value => pure (some value)) = _
  rw [bind_pure_comp]

theorem mapping_eq_ok
    {node : Node}
    {members : Members (Except Problem) Node}
    (isMapping : Json.format.mapping node = .ok members) :
    ∃ members ending, node = .object members ending := by
  cases node with
  | object members ending => exact ⟨members, ending, rfl⟩
  | _ =>
      simp only [Json.format] at isMapping
      exact absurd isMapping (unexpected_ne_ok _ _ _)

theorem readTexts_object (members : List (Json.Readable String × Node)) (ending : Option Breakage) :
    readTexts Json.format (levels + 1) (.object members ending) = (do
      let entries ← members.mapM (readEntry (Json.format.text .text))
      Node.ended (ending.map Breakage.read)
      return Dictionary.ofList entries) := by
  simp only [readTexts, Json.format, Node.memberContents, enter, pure_eq_ok, ok_bind,
    settled_eq_self, List.mapM_map]
  rfl

theorem readList_array
    (read : Nat → Node → Except Problem α)
    (items : List Node)
    (ending : Option Fault) :
    readList Json.format read (levels + 1) (.array items ending) = (do
      let values ← items.mapM (read levels)
      Node.ended ending
      return values) := by
  simp only [readList, Json.format, Node.contents, enter, pure_eq_ok, ok_bind, settled_eq_self]

section Records

variable {schema : Schema (Except Problem) Node ρ}

theorem readMembers_append
    (first last : List (Except Problem String × Node))
    (progress : Progress ρ) :
    schema.readMembers Json.format levels progress (first ++ last) = (do
      let next ← schema.readMembers Json.format levels progress first
      schema.readMembers Json.format levels next last) := by
  induction first generalizing progress with
  | nil => rfl
  | cons member first inductionHypothesis =>
      simp only [List.cons_append, Schema.readMembers, inductionHypothesis, bind_assoc]

theorem readMember_of_field
    {key : String}
    {field : Field (Except Problem) Node ρ}
    {progress : Progress ρ}
    (found : schema.field? key = some field)
    (unseen : progress.seen.contains key = false)
    (node : Node) :
    schema.readMember Json.format levels progress key node =
      (fun change => ⟨key :: progress.seen, change progress.record⟩) <$> field.read levels node := by
  simp only [Schema.readMember, found, unseen, Bool.false_eq_true, if_false]
  rw [← bind_pure_comp]

theorem readMember_of_dropped
    {key : String}
    (unknown : schema.field? key = none)
    (isDropped : schema.others = .dropped)
    (progress : Progress ρ)
    (node : Node) :
    schema.readMember Json.format levels progress key node = (fun _ => progress) <$> node.skip := by
  simp only [Schema.readMember, unknown, isDropped]
  rw [← bind_pure_comp]
  rfl

theorem readMember_of_kept
    {key : String}
    {get : ρ → Dictionary Json}
    {put : Dictionary Json → ρ → ρ}
    (unknown : schema.field? key = none)
    (isKept : schema.others = .kept get put)
    (progress : Progress ρ)
    (node : Node) :
    schema.readMember Json.format levels progress key node =
      (fun value => ⟨progress.seen,
        put ((get progress.record).insert key value.normal) progress.record⟩) <$>
        node.value levels := by
  simp only [Schema.readMember, unknown, isKept]
  rw [← bind_pure_comp]
  rfl

end Records

/-! ## Composed readers -/

/-- Different fields of a record, and the members that it keeps, change it independently of each
other. -/
structure Schema.Independent {ρ : Type} (schema : Schema (Except Problem) Node ρ) : Prop where
  commute : ∀ field ∈ schema.fields, ∀ other ∈ schema.fields, other.name ≠ field.name →
    ∀ levels node change otherNode otherChange, field.read levels node = .ok change →
    other.read levels otherNode = .ok otherChange →
    ∀ record, change (otherChange record) = otherChange (change record)
  keeping : ∀ get put, schema.others = .kept get put → Keeping get put
  put_read : ∀ get put, schema.others = .kept get put → ∀ field ∈ schema.fields,
    ∀ levels node change, field.read levels node = .ok change →
    ∀ extra record, change (put extra record) = put extra (change record)

/-- A field leaves the members that a record keeps as they are. -/
theorem Schema.Independent.get_read
    {ρ : Type}
    {schema : Schema (Except Problem) Node ρ}
    (independent : schema.Independent)
    {get : ρ → Dictionary Json}
    {put : Dictionary Json → ρ → ρ}
    (isKept : schema.others = .kept get put)
    {field : Field (Except Problem) Node ρ}
    (isField : field ∈ schema.fields)
    {levels : Nat}
    {node : Node}
    {change : ρ → ρ}
    (read : field.read levels node = .ok change)
    (record : ρ) :
    get (change record) = get record := by
  have keeping := independent.keeping get put isKept
  have same := independent.put_read get put isKept field isField levels node change read
    (get record) record
  rw [keeping.put_get] at same
  rw [same, keeping.get_put]

/-- A reader of a record or of a part of one. -/
inductive Composed : {α : Type} → (Nat → Node → Except Problem α) → Prop where
  | text (expected : Expected) : Composed fun _ => Json.format.text expected
  | flag : Composed fun _ => Json.format.flag
  | instant : Composed (readInstant Json.format)
  | texts : Composed (readTexts Json.format)
  | paramValue : Composed (ParamValue.read Json.format)
  | optional
      {α : Type}
      {read : Nat → Node → Except Problem α}
      (part : Composed read) :
      Composed (readOptional Json.format read)
  | list
      {α : Type}
      {read : Nat → Node → Except Problem α}
      (part : Composed read) :
      Composed (readList Json.format read)
  | change
      {α β : Type}
      {read : Nat → Node → Except Problem α}
      (use : α → β)
      (part : Composed read) :
      Composed fun levels node => use <$> read levels node
  | record
      {ρ : Type}
      (schema : Schema (Except Problem) Node ρ)
      (independent : schema.Independent)
      (fields : ∀ field ∈ schema.fields, Composed field.read) :
      Composed (schema.read Json.format)

end RunManifest.Document
