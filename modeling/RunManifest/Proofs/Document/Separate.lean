import Mathlib.Data.List.Pairwise
import RunManifest.Proofs.Document.Composition
import RunManifest.Proofs.Document.Members

/-!
Contract: records whose parts do not touch each other.

Owns:
- `Field.Apart`, two fields that leave each other alone, and `Field.apart_of_sets`, which tells it
  from the setters of the fields;
- `Field.Beside`, a field and kept members that leave each other alone, and `Field.beside_of_sets`;
- `Schema.Separate`, records all of whose parts leave each other alone. They are orderly and
  independent.
-/

set_option autoImplicit false

namespace RunManifest.Document

open Json (Node)

variable {α β ρ : Type}

/-! ## Two parts -/

namespace Field

variable {field other : Field (Except Problem) Node ρ}

/-- Neither of two fields changes what is written for the other, and they can be read in any
order. -/
structure Apart (field other : Field (Except Problem) Node ρ) : Prop where
  commute : ∀ levels node change otherNode otherChange, field.read levels node = .ok change →
    other.read levels otherNode = .ok otherChange →
    ∀ record, change (otherChange record) = otherChange (change record)
  write_other : ∀ levels node change, field.read levels node = .ok change →
    ∀ record, other.write (change record) = other.write record
  write_field : ∀ levels node change, other.read levels node = .ok change →
    ∀ record, field.write (change record) = field.write record

instance : Std.Symm (@Apart ρ) where
  symm _ _ apart :=
    { commute := fun levels node change otherNode otherChange read otherRead record =>
        (apart.commute levels otherNode otherChange node change otherRead read record).symm
      write_other := apart.write_field
      write_field := apart.write_other }

/-- A field and the members that a record keeps can be read in any order, and what is written for
the field does not depend on these members. -/
structure Beside (put : Dictionary Json → ρ → ρ) (field : Field (Except Problem) Node ρ) :
    Prop where
  put_read : ∀ levels node change, field.read levels node = .ok change →
    ∀ extra record, change (put extra record) = put extra (change record)
  write_put : ∀ extra record, field.write (put extra record) = field.write record

section Sets

variable {set : α → ρ → ρ} {part : Nat → Node → Except Problem α}
  (sets : ∀ levels node, field.read levels node = set <$> part levels node)
include sets

/-- Fields that set different parts of a record are apart. -/
theorem apart_of_sets
    {otherSet : β → ρ → ρ}
    {otherPart : Nat → Node → Except Problem β}
    (otherSets : ∀ levels node, other.read levels node = otherSet <$> otherPart levels node)
    (commute : ∀ value otherValue record,
      set value (otherSet otherValue record) = otherSet otherValue (set value record))
    (write_other : ∀ value record, other.write (set value record) = other.write record)
    (write_field : ∀ value record, field.write (otherSet value record) = field.write record) :
    field.Apart other where
  commute levels node change otherNode otherChange read otherRead := by
    obtain ⟨value, -, rfl⟩ := map_eq_ok.mp (sets levels node ▸ read)
    obtain ⟨otherValue, -, rfl⟩ := map_eq_ok.mp (otherSets levels otherNode ▸ otherRead)
    exact commute value otherValue
  write_other levels node change read := by
    obtain ⟨value, -, rfl⟩ := map_eq_ok.mp (sets levels node ▸ read)
    exact write_other value
  write_field levels node change read := by
    obtain ⟨value, -, rfl⟩ := map_eq_ok.mp (otherSets levels node ▸ read)
    exact write_field value

theorem beside_of_sets
    {put : Dictionary Json → ρ → ρ}
    (commute : ∀ value extra record, set value (put extra record) = put extra (set value record))
    (write_put : ∀ extra record, field.write (put extra record) = field.write record) :
    field.Beside put where
  put_read levels node change read := by
    obtain ⟨value, -, rfl⟩ := map_eq_ok.mp (sets levels node ▸ read)
    exact commute value
  write_put := write_put

end Sets

end Field

/-! ## Whole records -/

namespace Schema

variable {schema : Schema (Except Problem) Node ρ}

/-- A record whose fields have different names, and leave each other and the members that it keeps
alone. -/
structure Separate (schema : Schema (Except Problem) Node ρ) : Prop where
  names : (schema.fields.map Field.name).Nodup
  apart : schema.fields.Pairwise Field.Apart
  blank : ∀ get put, schema.others = .kept get put → get schema.blank = .empty
  keeping : ∀ get put, schema.others = .kept get put → Keeping get put
  beside : ∀ get put, schema.others = .kept get put →
    ∀ field ∈ schema.fields, field.Beside put

namespace Separate

theorem of_dropped
    (isDropped : schema.others = .dropped)
    (names : (schema.fields.map Field.name).Nodup)
    (apart : schema.fields.Pairwise Field.Apart) :
    schema.Separate where
  names := names
  apart := apart
  blank get put isKept := by simp [isDropped] at isKept
  keeping get put isKept := by simp [isDropped] at isKept
  beside get put isKept := by simp [isDropped] at isKept

theorem of_kept
    {get : ρ → Dictionary Json}
    {put : Dictionary Json → ρ → ρ}
    (isKept : schema.others = .kept get put)
    (names : (schema.fields.map Field.name).Nodup)
    (apart : schema.fields.Pairwise Field.Apart)
    (blank : get schema.blank = .empty)
    (keeping : Keeping get put)
    (beside : ∀ field ∈ schema.fields, field.Beside put) :
    schema.Separate where
  names := names
  apart := apart
  blank _ _ alsoKept := by
    cases isKept.symm.trans alsoKept
    exact blank
  keeping _ _ alsoKept := by
    cases isKept.symm.trans alsoKept
    exact keeping
  beside _ _ alsoKept := by
    cases isKept.symm.trans alsoKept
    exact beside

variable (separate : schema.Separate)
include separate

private theorem apart_of_ne
    {field other : Field (Except Problem) Node ρ}
    (isField : field ∈ schema.fields)
    (isOther : other ∈ schema.fields)
    (different : other.name ≠ field.name) :
    field.Apart other :=
  separate.apart.forall isField isOther fun same => different (congrArg Field.name same.symm)

theorem independent : schema.Independent where
  commute _ isField _ isOther different := (separate.apart_of_ne isField isOther different).commute
  keeping := separate.keeping
  put_read get put isKept field isField := (separate.beside get put isKept field isField).put_read

theorem orderly : schema.Orderly where
  names := separate.names
  write_read _ isField _ isOther different :=
    (separate.apart_of_ne isField isOther different).write_field
  aside get put isKept :=
    { blank := separate.blank get put isKept
      get_put := (separate.keeping get put isKept).get_put
      write_put := fun field isField => (separate.beside get put isKept field isField).write_put
      get_read := fun _ isField _ _ _ read => separate.independent.get_read isKept isField read }

end Separate

end Schema

end RunManifest.Document
