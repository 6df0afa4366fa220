/-!
Contract: finite maps from texts, kept as entries in strictly increasing order of their keys.

Owns:
- `Entries.insert` and `Entries.find?` on lists of entries, and `Entries.Sorted`;
- `Dictionary`, entries together with the proof that they are sorted, so that two dictionaries are
  equal exactly when they have the same entries;
- the laws of `find?` after `insert`.

Keys are compared by their code points, which is the order of their UTF-8 bytes. Inserting a key
that is present replaces its value.
-/

set_option autoImplicit false

namespace RunManifest

namespace Entries

variable {α : Type}

def Sorted (entries : List (String × α)) : Prop :=
  entries.Pairwise fun earlier later => earlier.1 < later.1

instance (entries : List (String × α)) : Decidable (Sorted entries) :=
  inferInstanceAs (Decidable (entries.Pairwise _))

def insert (key : String) (value : α) : List (String × α) → List (String × α)
  | [] => [(key, value)]
  | entry :: rest =>
      if key < entry.1 then (key, value) :: entry :: rest
      else if key = entry.1 then (key, value) :: rest
      else entry :: insert key value rest

def find? (key : String) (entries : List (String × α)) : Option α :=
  (entries.find? fun entry => entry.1 == key).map Prod.snd

/-- Every key after an insertion was there before or is the inserted one. -/
theorem mem_insert_key
    (key : String)
    (value : α)
    (entries : List (String × α))
    (entry : String × α)
    (member : entry ∈ insert key value entries) :
    entry.1 = key ∨ entry ∈ entries := by
  induction entries with
  | nil =>
    simp only [insert, List.mem_singleton] at member
    exact Or.inl (by rw [member])
  | cons head rest inductionHypothesis =>
    rw [insert] at member
    split at member
    · rcases List.mem_cons.mp member with same | there
      · exact Or.inl (by rw [same])
      · exact Or.inr there
    · split at member
      · rcases List.mem_cons.mp member with same | there
        · exact Or.inl (by rw [same])
        · exact Or.inr (List.mem_cons_of_mem _ there)
      · rcases List.mem_cons.mp member with same | there
        · exact Or.inr (by rw [same]; exact List.mem_cons_self ..)
        · rcases inductionHypothesis there with same | found
          · exact Or.inl same
          · exact Or.inr (List.mem_cons_of_mem _ found)

/-- Inserting keeps the entries sorted. -/
theorem sorted_insert
    (key : String)
    (value : α)
    (entries : List (String × α))
    (sorted : Sorted entries) :
    Sorted (insert key value entries) := by
  induction entries with
  | nil => exact List.pairwise_singleton _ _
  | cons head rest inductionHypothesis =>
    have above := (List.pairwise_cons.mp sorted).1
    have restSorted := (List.pairwise_cons.mp sorted).2
    rw [insert]
    split
    · rename_i before
      refine List.pairwise_cons.mpr ⟨?_, sorted⟩
      intro entry member
      rcases List.mem_cons.mp member with same | there
      · rw [same]; exact before
      · exact String.lt_trans before (above entry there)
    · split
      · rename_i same
        refine List.pairwise_cons.mpr ⟨?_, restSorted⟩
        intro entry member
        have := above entry member
        rw [← same] at this
        exact this
      · rename_i notBefore different
        refine List.pairwise_cons.mpr ⟨?_, inductionHypothesis restSorted⟩
        intro entry member
        rcases mem_insert_key key value rest entry member with same | there
        · rw [same]
          have notAbove : head.1 ≤ key := String.not_lt.mp notBefore
          rcases Classical.em (head.1 < key) with less | notLess
          · exact less
          · exact absurd (String.le_antisymm (String.not_lt.mp notLess) notAbove) different
        · exact above entry there

/-- A key just inserted has the inserted value. -/
theorem find?_insert_self
    (key : String)
    (value : α)
    (entries : List (String × α)) :
    find? key (insert key value entries) = some value := by
  induction entries with
  | nil => simp [insert, find?]
  | cons head rest inductionHypothesis =>
    rw [insert]
    split
    · simp [find?]
    · split
      · simp [find?]
      · rename_i different
        have notHead : (head.1 == key) = false := by
          simp only [beq_eq_false_iff_ne, ne_eq]
          exact fun same => different same.symm
        simp only [find?, List.find?_cons, notHead]
        exact inductionHypothesis

/-- Inserting at one key leaves the values at all others. -/
theorem find?_insert_of_ne
    (key other : String)
    (value : α)
    (entries : List (String × α))
    (different : other ≠ key) :
    find? other (insert key value entries) = find? other entries := by
  have notKey : (key == other) = false := by
    simp only [beq_eq_false_iff_ne, ne_eq]
    exact fun same => different same.symm
  induction entries with
  | nil => simp [insert, find?, notKey]
  | cons head rest inductionHypothesis =>
    rw [insert]
    split
    · simp [find?, List.find?_cons, notKey]
    · split
      · rename_i same
        have notHead : (head.1 == other) = false := by rw [← same]; exact notKey
        simp [find?, notKey, notHead]
      · cases found : (head.1 == other) with
        | true => simp [find?, found]
        | false =>
          simp only [find?, List.find?_cons, found]
          exact inductionHypothesis

end Entries

/-- A finite map from texts. -/
structure Dictionary (α : Type) where
  entries : List (String × α)
  sorted : Entries.Sorted entries
deriving DecidableEq

namespace Dictionary

variable {α β : Type}

def empty : Dictionary α :=
  ⟨[], List.Pairwise.nil⟩

instance : Inhabited (Dictionary α) := ⟨empty⟩

def insert (key : String) (value : α) (dictionary : Dictionary α) : Dictionary α :=
  ⟨Entries.insert key value dictionary.entries,
    Entries.sorted_insert key value dictionary.entries dictionary.sorted⟩

/-- The map of a list of entries. The last of several entries with one key wins. -/
def ofList (entries : List (String × α)) : Dictionary α :=
  entries.foldl (fun dictionary entry => dictionary.insert entry.1 entry.2) empty

def find? (key : String) (dictionary : Dictionary α) : Option α :=
  Entries.find? key dictionary.entries

def keys (dictionary : Dictionary α) : List String :=
  dictionary.entries.map Prod.fst

def isEmpty (dictionary : Dictionary α) : Bool :=
  dictionary.entries.isEmpty

def map (f : α → β) (dictionary : Dictionary α) : Dictionary β :=
  ⟨dictionary.entries.map fun entry => (entry.1, f entry.2),
    by
      rw [Entries.Sorted, List.pairwise_map]
      exact dictionary.sorted⟩

@[simp]
theorem find?_insert_self
    (key : String)
    (value : α)
    (dictionary : Dictionary α) :
    (dictionary.insert key value).find? key = some value :=
  Entries.find?_insert_self key value dictionary.entries

theorem find?_insert_of_ne
    (key other : String)
    (value : α)
    (dictionary : Dictionary α)
    (different : other ≠ key) :
    (dictionary.insert key value).find? other = dictionary.find? other :=
  Entries.find?_insert_of_ne key other value dictionary.entries different

end Dictionary

end RunManifest
