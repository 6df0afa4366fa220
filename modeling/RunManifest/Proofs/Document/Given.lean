import RunManifest.Proofs.Document.Members
import RunManifest.Proofs.Document.Positional

/-!
Contract: a field of a record is as the document says that gives the record.

Owns:
- `Json.Node.given?`, the part of a document that is given for a field, by key or by position;
- `Schema.fits_of_read`, what an array must be to give a record;
- `Schema.given_of_read`, what one field alone changes is, in a record that was read, as the part that
  is given for the field says, or blank.
-/

set_option autoImplicit false

namespace RunManifest

/-- The part of a document that is given for the field with a key and a position. -/
def Json.Node.given? (key : String) (position : Nat) : Json.Node → Option Json.Node
  | .object members _ => members.lookup (.ok key)
  | .array items _ => items[position]?
  | _ => none

namespace Document.Schema

open Json (Node)

variable {ρ : Type} {schema : Schema (Except Problem) Node ρ} {levels : Nat}

/-! ## Arrays -/

/-- An array that gives a record is whole, has no value without a field, and leaves no required field
without a value. -/
theorem fits_of_read
    {nodes : List Node}
    {ending : Option Fault}
    {result : ρ}
    (read : schema.read Json.format (levels + 1) (.array nodes ending) = .ok result) :
    schema.others = .dropped ∧ ending = none ∧ nodes.length ≤ schema.fields.length ∧
      ∀ field ∈ schema.fields.drop nodes.length, field.required = false := by
  obtain ⟨layout, isLayout, read⟩ := bind_eq_ok.mp read
  cases others : schema.others with
  | kept get put =>
      rw [others] at isLayout
      cases isLayout
  | dropped =>
      rw [others] at isLayout
      cases isLayout
      obtain ⟨inner, -, read⟩ := bind_eq_ok.mp read
      obtain ⟨unread, readAll, isWhole, notMissing⟩ := readPositional_eq_ok.mp read
      obtain ⟨rfl, noSurplus⟩ := left_of_readPositions readAll
      exact ⟨rfl, isWhole, by simpa using noSurplus.symm, by simpa using notMissing⟩

/-- The values of the fields of an array are at their positions. -/
theorem lookup_zip
    {fields : List (Field (Except Problem) Node ρ)}
    (names : (fields.map Field.name).Nodup)
    {position : Nat}
    {field : Field (Except Problem) Node ρ}
    (isField : fields[position]? = some field)
    (nodes : List Node) :
    (List.zip (fields.map fun field => (.ok field.name : Json.Readable String)) nodes).lookup
        (.ok field.name) =
      nodes[position]? := by
  induction fields generalizing position nodes with
  | nil => cases isField
  | cons first fields inductionHypothesis =>
      cases nodes with
      | nil => simp
      | cons node nodes =>
          rw [List.map_cons, List.nodup_cons] at names
          cases position with
          | zero =>
              cases isField
              simp
          | succ position =>
              rw [List.getElem?_cons_succ] at isField
              have different :
                  (.ok field.name : Json.Readable String) ≠ .ok first.name := by
                rw [ne_eq, Except.ok.injEq]
                intro same
                exact names.1 (same ▸ List.mem_map_of_mem (List.mem_of_getElem? isField))
              simp [List.lookup_cons, beq_false_of_ne different,
                inductionHypothesis names.2 isField]

/-! ## One field -/

private theorem lookup_of_notMem
    {members : List (Json.Readable String × Node)}
    {key : Json.Readable String}
    (absent : key ∉ members.map Prod.fst) :
    members.lookup key = none := by
  refine List.lookup_eq_none_iff.mpr fun member isMember => ?_
  rw [bne_iff_ne]
  rintro rfl
  exact absent (List.mem_map_of_mem isMember)

/-- What one field alone changes is as the part of the document says that is given for it, or blank
if there is none. -/
theorem given_of_read
    {β : Type}
    (view : ρ → β)
    {field : Field (Except Problem) Node ρ}
    {position : Nat}
    (isField : schema.fields[position]? = some field)
    (names : (schema.fields.map Field.name).Nodup)
    (others : ∀ other ∈ schema.fields, other.name ≠ field.name → ∀ node change,
      other.read levels node = .ok change → ∀ record, view (change record) = view record)
    (aside : ∀ get put, schema.others = .kept get put → ∀ extra record,
      view (put extra record) = view record)
    {node : Node}
    {result : ρ}
    (read : schema.read Json.format (levels + 1) node = .ok result) :
    (node.given? field.name position = none ∧ view result = view schema.blank) ∨
      ∃ part change record, node.given? field.name position = some part ∧
        field.read levels part = .ok change ∧ view result = view (change record) := by
  have byKey {members : List (Json.Readable String × Node)} {ending : Option Json.Breakage}
      (read : schema.read Json.format (levels + 1) (.object members ending) = .ok result) :
      (members.lookup (.ok field.name) = none ∧ view result = view schema.blank) ∨
        ∃ part change record, members.lookup (.ok field.name) = some part ∧
          field.read levels part = .ok change ∧ view result = view (change record) := by
    obtain ⟨-, seen, reads, -⟩ := reads_of_read read
    cases reads.told (field?_name names (List.mem_of_getElem? isField)) others aside with
    | absent notThere unchanged =>
        exact .inl ⟨lookup_of_notMem notThere, unchanged⟩
    | present _ earlier later part change record shape notEarlier _ readPart now =>
        refine .inr ⟨part, change, record, ?_, readPart, now⟩
        rw [shape, List.lookup_append, lookup_of_notMem notEarlier, Option.none_or]
        exact List.lookup_cons_self
  cases node with
  | object members ending => exact byKey read
  | array nodes ending =>
      obtain ⟨isDropped, rfl, fits, given⟩ := fits_of_read read
      rw [read_array isDropped names fits given] at read
      rw [Json.Node.given?, ← lookup_zip names isField nodes]
      exact byKey read
  | null => cases read
  | flag => cases read
  | number value => cases value <;> cases read
  | text value => cases value <;> cases read
  | broken => cases read

end Document.Schema

end RunManifest
