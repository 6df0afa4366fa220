import RunManifest.Proofs.Document.Restore
import RunManifest.Proofs.Json.Syntax

/-!
Contract: a record given by position is the record given by key.

Owns:
- `Schema.readAlong`, reading values into fields one after the other, which is what both ways of
  giving a record come to;
- `Schema.read_array`, an array of values for the first fields of a record is read as the object that
  gives the values to those fields, and `Schema.decode_arrayText` says so of texts.
-/

set_option autoImplicit false

namespace RunManifest.Document.Schema

variable {m : Type → Type} [Monad m] {ν ρ : Type}

/-- Values read into fields of the same position, as far as both go. -/
def readAlong (levels : Nat) : ρ → List (Field m ν ρ) → List ν → m ρ
  | record, field :: fields, node :: nodes => do
      let change ← field.read levels node
      readAlong levels (change record) fields nodes
  | record, _, _ => pure record

section

variable [LawfulMonad m]

/-- No more values than fields leave the fields behind them without a value. -/
theorem readPositions_eq
    {fields : List (Field m ν ρ)}
    {nodes : List ν}
    (fits : nodes.length ≤ fields.length)
    (levels : Nat)
    (record : ρ) :
    readPositions levels record fields nodes =
      (fun result => (result, fields.drop nodes.length, [])) <$>
        readAlong levels record fields nodes := by
  induction nodes generalizing fields record with
  | nil => cases fields <;> simp [readPositions, readAlong]
  | cons node nodes inductionHypothesis =>
      cases fields with
      | nil => simp at fits
      | cons field fields =>
          simp only [List.length_cons, Nat.add_le_add_iff_right] at fits
          simp only [readPositions, readAlong, inductionHypothesis fits, map_bind, List.length_cons,
            List.drop_succ_cons]

/-- Members that name fields in order, each of them once, are read along the fields. -/
theorem readMembers_eq
    [MonadExceptOf Problem m]
    {schema : Schema m ν ρ}
    (format : Format m ν)
    (levels : Nat)
    {fields : List (Field m ν ρ)}
    (known : ∀ field ∈ fields, schema.field? field.name = some field)
    (names : (fields.map Field.name).Nodup)
    (nodes : List ν)
    {seen : List String}
    (unseen : ∀ field ∈ fields, field.name ∉ seen)
    (record : ρ) :
    schema.readMembers format levels ⟨seen, record⟩
        (List.zip (fields.map fun field => pure field.name) nodes) =
      (fun result => ⟨((fields.take nodes.length).map Field.name).reverse ++ seen, result⟩) <$>
        readAlong levels record fields nodes := by
  induction fields generalizing nodes seen record with
  | nil => simp [readMembers, readAlong]
  | cons field fields inductionHypothesis =>
      cases nodes with
      | nil => simp [readMembers, readAlong]
      | cons node nodes =>
          rw [List.map_cons, List.nodup_cons] at names
          obtain ⟨isKnown, knownRest⟩ := List.forall_mem_cons.mp known
          obtain ⟨isUnseen, unseenRest⟩ := List.forall_mem_cons.mp unseen
          have notSeen : seen.contains field.name = false := by simpa using isUnseen
          have unseenHere : ∀ other ∈ fields, other.name ∉ field.name :: seen := by
            intro other isOther
            rw [List.mem_cons, not_or]
            refine ⟨fun sameName => ?_, unseenRest other isOther⟩
            exact names.1 (sameName ▸ List.mem_map_of_mem isOther)
          simp only [List.map_cons, List.zip_cons_cons, readMembers, pure_bind, readMember, isKnown,
            notSeen, Bool.false_eq_true, if_false, readAlong, bind_assoc,
            inductionHypothesis knownRest names.2 nodes unseenHere, map_bind, List.length_cons,
            List.take_succ_cons, List.reverse_cons, List.append_assoc, List.singleton_append]

end

/-- An array of values for the first fields of a record, among them all that are required, is read as
the object that gives the values to those fields. -/
theorem read_array
    {schema : Schema (Except Problem) Json.Node ρ}
    (isDropped : schema.others = .dropped)
    (names : (schema.fields.map Field.name).Nodup)
    {nodes : List Json.Node}
    (fits : nodes.length ≤ schema.fields.length)
    (given : ∀ field ∈ schema.fields.drop nodes.length, field.required = false)
    (levels : Nat) :
    schema.read Json.format levels (.array nodes none) =
      schema.read Json.format levels
        (.object (List.zip (schema.fields.map fun field => .ok field.name) nodes) none) := by
  have byPosition : Json.format.record (!schema.others.areKept) schema.name (.array nodes none) =
      .ok (.positional ⟨nodes, .ok (), Json.Node.closed none⟩) := by
    rw [isDropped]
    rfl
  have byKey : Json.format.record (!schema.others.areKept) schema.name
      (.object (List.zip (schema.fields.map fun field => .ok field.name) nodes) none) =
      .ok (.keyed ⟨List.zip (schema.fields.map fun field => pure field.name) nodes, .ok ()⟩) := by
    show Except.ok (Layout.keyed (Json.Node.memberContents _ none)) = _
    simp only [Json.Node.memberContents, List.zip_map_left, List.map_map]
    rfl
  have atEnd : (if (schema.fields.drop nodes.length).isEmpty then Json.Node.closed none []
      else .ok ()) = .ok () := by
    split <;> rfl
  have noneUnread : (schema.fields.drop nodes.length).any Field.required = false := by
    simpa using given
  have noneMissing : schema.missing?
      (((schema.fields.take nodes.length).map Field.name).reverse ++ []) = none := by
    refine missing?_eq_none fun field isField required => ?_
    rw [← List.take_append_drop nodes.length schema.fields, List.mem_append] at isField
    rcases isField with early | late
    · exact List.mem_append_left _ (List.mem_reverse.mpr (List.mem_map_of_mem early))
    · rw [given field late] at required
      cases required
  have along := fun inner => readMembers_eq Json.format inner
    (fun field isField => field?_name names isField) names nodes (fun _ _ => List.not_mem_nil)
    schema.blank
  rw [read, read, byPosition, byKey]
  simp only [ok_bind]
  cases entered : (enter levels : Except Problem Nat) with
  | error problem => rfl
  | ok inner =>
      simp only [ok_bind, readPositional, readKeyed, readPositions_eq fits, along, bind_map_left,
        atEnd, settled, pure_bind, noneUnread, noneMissing, Bool.false_eq_true, if_false]

/-- Texts of values in brackets are read as the object that gives them to the first fields. -/
theorem decode_arrayText
    {schema : Schema (Except Problem) Json.Node ρ}
    (isDropped : schema.others = .dropped)
    (names : (schema.fields.map Field.name).Nodup)
    (plain : ∀ key ∈ schema.fields.map Field.name, ∀ c ∈ key.toList, Json.Plain c)
    {texts : List String}
    (fits : texts.length ≤ schema.fields.length)
    (given : ∀ field ∈ schema.fields.drop texts.length, field.required = false)
    (values : ∀ text ∈ texts, Json.IsValueText text.toList) :
    Json.decode (schema.read Json.format) (Json.arrayText texts) =
      Json.decode (schema.read Json.format)
        (Json.objectText (schema.fields.map Field.name) texts) := by
  obtain ⟨nodes, each⟩ : ∃ nodes,
      List.Forall₂ Json.ReadsText nodes (texts.map String.toList) := by
    refine Json.exists_forall₂ fun chars isText => ?_
    obtain ⟨text, isMember, rfl⟩ := List.mem_map.mp isText
    exact Json.exists_readsText (values text isMember)
  have sameLength : nodes.length = texts.length := by
    rw [each.length_eq, List.length_map]
  rw [Json.decode_arrayText _ each, Json.decode_objectText _ plain each, List.map_map]
  rw [← sameLength] at fits given
  exact read_array isDropped names fits given _

end RunManifest.Document.Schema
