import RunManifest.Proofs.Dictionary
import RunManifest.Table

/-!
Contract: tables, whose entries come in any order.

Owns:
- `Table.find?_ofList`, the last of several entries with one key counts;
- `Table.find?_congr`, the order of the entries makes no difference to the value at a key;
- `Table.unionAll`, the entries of several tables, and `Table.find?_unionAll`, the last table with a
  key counts;
- `Table.without`, a table less the entries at certain keys.
-/

set_option autoImplicit false

namespace RunManifest.Table

variable {α : Type}

theorem find?_foldl_insert (key : String) (entries : List (String × α)) (table : Table α) :
    (entries.foldl (fun table entry => table.insert entry.1 entry.2) table).find? key =
      (Entries.last? key entries).or (table.find? key) := by
  induction entries generalizing table with
  | nil => rfl
  | cons entry rest inductionHypothesis =>
      rw [List.foldl_cons, inductionHypothesis, Entries.last?, Option.or_assoc]
      by_cases same : entry.1 = key
      · rw [if_pos same, same, find?_insert_self, Option.some_or]
      · rw [if_neg same, find?_insert_of_ne _ _ (Ne.symm same), Option.none_or]

/-- The value at a key is that of the last entry with the key. -/
theorem find?_ofList (key : String) (entries : List (String × α)) :
    (ofList entries).find? key = entries.reverse.lookup key := by
  rw [ofList, find?_foldl_insert, ← Entries.last?_eq_lookup_reverse]
  exact Option.or_none

theorem find?_eq_some_iff {table : Table α} {key : String} {value : α} :
    table.find? key = some value ↔ (key, value) ∈ table.entries :=
  Entries.find?_eq_some_iff table.distinct

theorem mem_keys {table : Table α} {key : String} :
    key ∈ table.keys ↔ ∃ value, table.find? key = some value := by
  simp only [keys, List.mem_map, find?_eq_some_iff]
  constructor
  · rintro ⟨⟨_, value⟩, member, rfl⟩
    exact ⟨value, member⟩
  · rintro ⟨value, member⟩
    exact ⟨(key, value), member, rfl⟩

/-- Tables with the same entries in different orders have the same value at every key. -/
theorem find?_congr
    {left right : Table α}
    (same : left.entries.Perm right.entries)
    (key : String) :
    left.find? key = right.find? key := by
  refine Option.ext fun value => ?_
  rw [find?_eq_some_iff, find?_eq_some_iff, same.mem_iff]

/-! ### Several tables -/

/-- The entries of two tables. Where both have a key, the second counts. -/
def union (left right : Table α) : Table α :=
  right.entries.foldl (fun table entry => table.insert entry.1 entry.2) left

/-- The entries of several tables. Of those that have a key, the last counts. -/
def unionAll (tables : List (Table α)) : Table α :=
  tables.foldl union empty

/-- The value at a key in the last table that has it. -/
def lastOf? (key : String) (tables : List (Table α)) : Option α :=
  tables.reverse.findSome? (find? key)

theorem find?_union (key : String) (left right : Table α) :
    (left.union right).find? key = (right.find? key).or (left.find? key) := by
  rw [union, find?_foldl_insert, Entries.last?_eq_find? right.distinct]
  rfl

theorem lastOf?_cons (key : String) (table : Table α) (rest : List (Table α)) :
    lastOf? key (table :: rest) = (lastOf? key rest).or (table.find? key) := by
  rw [lastOf?, List.reverse_cons, List.findSome?_append, List.findSome?_singleton]
  rfl

private theorem find?_foldl_union (key : String) (tables : List (Table α)) (table : Table α) :
    (tables.foldl union table).find? key = (lastOf? key tables).or (table.find? key) := by
  induction tables generalizing table with
  | nil => rfl
  | cons next rest inductionHypothesis =>
      rw [List.foldl_cons, inductionHypothesis, find?_union, lastOf?_cons, Option.or_assoc]

theorem find?_unionAll (key : String) (tables : List (Table α)) :
    (unionAll tables).find? key = lastOf? key tables := by
  rw [unionAll, find?_foldl_union]
  exact Option.or_none

/-- A table less the entries at certain keys. -/
def without (keys : List String) (table : Table α) : Table α where
  entries := table.entries.filter fun entry => entry.1 ∉ keys
  distinct := table.distinct.sublist (List.filter_sublist.map Prod.fst)

theorem find?_without_of_not_mem
    {keys : List String}
    {key : String}
    (notListed : key ∉ keys)
    (table : Table α) :
    (table.without keys).find? key = table.find? key := by
  refine Option.ext fun value => ?_
  rw [find?_eq_some_iff, find?_eq_some_iff, without, List.mem_filter]
  simp [notListed]

end RunManifest.Table
