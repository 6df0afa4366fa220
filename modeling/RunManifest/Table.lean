import RunManifest.Dictionary

/-!
Contract: finite maps from texts whose entries come in any order.

Owns:
- `Entries.put` on lists of entries;
- `Table`, entries together with the proof that no key is there twice;
- the laws of `find?` after `insert`.

A table says nothing about the order in which its entries are met, so what has to come out in order
has to be put in order.
-/

set_option autoImplicit false

namespace RunManifest

namespace Entries

variable {α : Type}

/-- The entries with a value put at a key, at the place of the key or else behind all others. -/
def put (key : String) (value : α) : List (String × α) → List (String × α)
  | [] => [(key, value)]
  | entry :: rest => if entry.1 = key then (key, value) :: rest else entry :: put key value rest

theorem mem_keys_put
    {key other : String}
    {value : α}
    {entries : List (String × α)}
    (member : other ∈ (put key value entries).map Prod.fst) :
    other = key ∨ other ∈ entries.map Prod.fst := by
  induction entries with
  | nil => exact .inl (by simpa [put] using member)
  | cons entry rest inductionHypothesis =>
    rw [put] at member
    split at member
    · rw [List.map_cons, List.mem_cons] at member
      rcases member with same | there
      · exact .inl same
      · exact .inr (List.mem_cons_of_mem _ there)
    · rw [List.map_cons, List.mem_cons] at member
      rcases member with same | there
      · exact .inr (by rw [same]; exact List.mem_cons_self ..)
      · exact (inductionHypothesis there).imp_right (List.mem_cons_of_mem _)

/-- Putting a value at a key keeps the keys distinct. -/
theorem nodup_put
    (key : String)
    (value : α)
    {entries : List (String × α)}
    (distinct : (entries.map Prod.fst).Nodup) :
    ((put key value entries).map Prod.fst).Nodup := by
  induction entries with
  | nil => simp [put]
  | cons entry rest inductionHypothesis =>
    rw [List.map_cons, List.nodup_cons] at distinct
    rw [put]
    split
    · rename_i same
      rw [List.map_cons, List.nodup_cons, ← same]
      exact distinct
    · rename_i different
      rw [List.map_cons, List.nodup_cons]
      refine ⟨fun member => ?_, inductionHypothesis distinct.2⟩
      rcases mem_keys_put member with same | there
      · exact different same
      · exact distinct.1 there

theorem find?_put_self
    (key : String)
    (value : α)
    (entries : List (String × α)) :
    find? key (put key value entries) = some value := by
  induction entries with
  | nil => simp [put, find?]
  | cons entry rest inductionHypothesis =>
    rw [put]
    split
    · simp [find?]
    · rename_i different
      have notEntry : (entry.1 == key) = false := by simpa using different
      simp only [find?, List.find?_cons, notEntry]
      exact inductionHypothesis

theorem find?_put_of_ne
    {key other : String}
    (value : α)
    (entries : List (String × α))
    (different : other ≠ key) :
    find? other (put key value entries) = find? other entries := by
  have notKey : (key == other) = false := by simpa using Ne.symm different
  induction entries with
  | nil => simp [put, find?, notKey]
  | cons entry rest inductionHypothesis =>
    rw [put]
    split
    · rename_i same
      have notEntry : (entry.1 == other) = false := by rw [same]; exact notKey
      simp [find?, notKey, notEntry]
    · cases found : (entry.1 == other) with
      | true => simp [find?, found]
      | false =>
        simp only [find?, List.find?_cons, found]
        exact inductionHypothesis

end Entries

/-- A finite map from texts with an order of its own. -/
structure Table (α : Type) where
  entries : List (String × α)
  distinct : (entries.map Prod.fst).Nodup
deriving DecidableEq

namespace Table

variable {α : Type}

def empty : Table α :=
  ⟨[], List.Pairwise.nil⟩

instance : Inhabited (Table α) := ⟨empty⟩

def insert (key : String) (value : α) (table : Table α) : Table α :=
  ⟨Entries.put key value table.entries, Entries.nodup_put key value table.distinct⟩

/-- The table of a list of entries. The last of several entries with one key wins. -/
def ofList (entries : List (String × α)) : Table α :=
  entries.foldl (fun table entry => table.insert entry.1 entry.2) empty

def find? (key : String) (table : Table α) : Option α :=
  Entries.find? key table.entries

/-- The keys, in the order of the entries. -/
def keys (table : Table α) : List String :=
  table.entries.map Prod.fst

@[simp]
theorem find?_insert_self
    (key : String)
    (value : α)
    (table : Table α) :
    (table.insert key value).find? key = some value :=
  Entries.find?_put_self key value table.entries

theorem find?_insert_of_ne
    {key other : String}
    (value : α)
    (table : Table α)
    (different : other ≠ key) :
    (table.insert key value).find? other = table.find? other :=
  Entries.find?_put_of_ne value table.entries different

end Table

end RunManifest
