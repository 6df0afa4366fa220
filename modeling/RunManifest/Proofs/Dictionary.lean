import Mathlib
import RunManifest.Dictionary

/-!
Contract: entries in order and the dictionaries made of them.

Owns:
- the laws of inserting into sorted entries: what is put at the end, what holds of all entries
  afterwards, and changing values before or after;
- `Dictionary.ofList_entries`, a dictionary is made of its own entries;
- `Entries.last?`, the value of the last entry with a key, and `Dictionary.find?_ofList`, the last of
  several entries with one key counts;
- `Entries.find?_eq_some_iff`, where no key is there twice the value at a key is that of its entry;
- `Dictionary.ext_find?`, a dictionary is known by its values at all keys, which are those of its
  entries by `Dictionary.last?_entries`.
-/

set_option autoImplicit false

namespace RunManifest

namespace Entries

variable {α β : Type}

/-- A key above all others is put at the end. -/
theorem insert_of_above
    {key : String}
    {value : α}
    {entries : List (String × α)}
    (above : ∀ entry ∈ entries, entry.1 < key) :
    insert key value entries = entries ++ [(key, value)] := by
  induction entries with
  | nil => rfl
  | cons entry rest inductionHypothesis =>
      have less := above entry (by simp)
      have notLess : ¬ key < entry.1 := String.lt_asymm less
      have different : key ≠ entry.1 := by
        rintro rfl
        exact String.lt_irrefl _ less
      rw [insert, if_neg notLess, if_neg different,
        inductionHypothesis fun other member => above other (by simp [member])]
      rfl

/-- What holds of the inserted entry and of all others holds of all entries afterwards. -/
theorem forall_mem_insert
    {holds : String × α → Prop}
    {key : String}
    {value : α}
    {entries : List (String × α)}
    (inserted : holds (key, value))
    (others : ∀ entry ∈ entries, holds entry) :
    ∀ entry ∈ insert key value entries, holds entry := by
  induction entries with
  | nil => simpa [insert] using inserted
  | cons head rest inductionHypothesis =>
      have atHead := others head (by simp)
      have atRest : ∀ entry ∈ rest, holds entry := fun entry member => others entry (by simp [member])
      rw [insert]
      split
      · exact List.forall_mem_cons.mpr ⟨inserted, others⟩
      · split
        · exact List.forall_mem_cons.mpr ⟨inserted, atRest⟩
        · exact List.forall_mem_cons.mpr ⟨atHead, inductionHypothesis atRest⟩

/-- Inserting and changing values commute. -/
theorem map_insert
    (change : α → β)
    (key : String)
    (value : α)
    (entries : List (String × α)) :
    (insert key value entries).map (fun entry => (entry.1, change entry.2)) =
      insert key (change value) (entries.map fun entry => (entry.1, change entry.2)) := by
  induction entries with
  | nil => rfl
  | cons head rest inductionHypothesis =>
      simp only [insert, List.map_cons]
      split
      · rfl
      · split
        · rfl
        · rw [List.map_cons, inductionHypothesis]

section Last

variable {κ : Type} [DecidableEq κ]

/-- The value of the last entry with a key. -/
def last? (key : κ) : List (κ × α) → Option α
  | [] => none
  | entry :: rest => (last? key rest).or (if entry.1 = key then some entry.2 else none)

theorem last?_append (key : κ) (left right : List (κ × α)) :
    last? key (left ++ right) = (last? key right).or (last? key left) := by
  induction left with
  | nil => simp [last?]
  | cons entry rest inductionHypothesis =>
      rw [List.cons_append, last?, inductionHypothesis, last?, Option.or_assoc]

theorem last?_eq_none
    {key : κ}
    {entries : List (κ × α)}
    (absent : key ∉ entries.map Prod.fst) :
    last? key entries = none := by
  induction entries with
  | nil => rfl
  | cons entry rest inductionHypothesis =>
      rw [List.map_cons, List.mem_cons, not_or] at absent
      rw [last?, inductionHypothesis absent.2, if_neg (Ne.symm absent.1)]
      rfl

theorem mem_of_last?
    {key : κ}
    {entries : List (κ × α)}
    {value : α}
    (isLast : last? key entries = some value) :
    (key, value) ∈ entries := by
  induction entries with
  | nil => cases isLast
  | cons entry rest inductionHypothesis =>
      rw [last?, Option.or_eq_some_iff] at isLast
      rcases isLast with later | ⟨-, here⟩
      · exact List.mem_cons_of_mem _ (inductionHypothesis later)
      · rw [Option.ite_none_right_eq_some] at here
        obtain ⟨rfl, sameValue⟩ := here
        cases sameValue
        exact List.mem_cons_self

theorem last?_map (change : α → β) (key : κ) (entries : List (κ × α)) :
    last? key (entries.map fun entry => (entry.1, change entry.2)) =
      (last? key entries).map change := by
  induction entries with
  | nil => rfl
  | cons entry rest inductionHypothesis =>
      rw [List.map_cons, last?, inductionHypothesis, last?, Option.map_or]
      split <;> rfl

/-- Of entries that are given by items with different keys, the last with the key of an item is its
own. -/
theorem last?_filterMap_of_mem
    {ι : Type}
    {name : ι → κ}
    (value : ι → Option α)
    {items : List ι}
    (names : (items.map name).Nodup)
    {item : ι}
    (member : item ∈ items) :
    last? (name item)
        (items.filterMap fun item => (value item).map fun result => (name item, result)) =
      value item := by
  induction items with
  | nil => cases member
  | cons head rest inductionHypothesis =>
      rw [List.map_cons, List.nodup_cons] at names
      have keys : ∀ key ∈ (rest.filterMap fun item =>
          (value item).map fun result => (name item, result)).map Prod.fst, key ∈ rest.map name := by
        simp only [List.mem_map, List.mem_filterMap, Option.map_eq_some_iff]
        rintro key ⟨entry, ⟨other, isOther, result, _, rfl⟩, rfl⟩
        exact ⟨other, isOther, rfl⟩
      rcases List.mem_cons.mp member with rfl | isLater
      · have notLater := last?_eq_none fun isKey => names.1 (keys _ isKey)
        cases atItem : value item with
        | none => simp [atItem, notLater]
        | some result => simp [atItem, last?, notLater]
      · have different : name head ≠ name item := by
          intro same
          exact names.1 (same ▸ List.mem_map_of_mem isLater)
        rw [List.filterMap_cons, ← inductionHypothesis names.2 isLater]
        cases value head with
        | none => rfl
        | some result => simp [last?, different]

theorem last?_eq_lookup_reverse (key : String) (entries : List (String × α)) :
    last? key entries = entries.reverse.lookup key := by
  induction entries with
  | nil => rfl
  | cons entry rest inductionHypothesis =>
      obtain ⟨other, value⟩ := entry
      rw [last?, inductionHypothesis, List.reverse_cons, List.lookup_append, List.lookup_cons]
      by_cases same : other = key
      · simp [same]
      · rw [beq_false_of_ne (Ne.symm same)]
        simp [same]

end Last

/-- Where no key is there twice, the value at a key is that of its entry. -/
theorem find?_eq_some_iff
    {entries : List (String × α)}
    (distinct : (entries.map Prod.fst).Nodup)
    {key : String}
    {value : α} :
    find? key entries = some value ↔ (key, value) ∈ entries := by
  induction entries with
  | nil => simp [find?]
  | cons entry rest inductionHypothesis =>
      rw [List.map_cons, List.nodup_cons] at distinct
      by_cases same : entry.1 = key
      · have found : find? key (entry :: rest) = some entry.2 := by simp [find?, same]
        rw [found, List.mem_cons]
        constructor
        · rintro ⟨⟩
          exact .inl (Prod.ext same.symm rfl)
        · rintro (rfl | later)
          · rfl
          · exact absurd (List.mem_map_of_mem later) (same ▸ distinct.1)
      · have passed : find? key (entry :: rest) = find? key rest := by simp [find?, same]
        rw [passed, inductionHypothesis distinct.2, List.mem_cons, or_iff_right]
        rintro rfl
        exact same rfl

/-- Where no key is there twice, the last entry with a key is the first. -/
theorem last?_eq_find?
    {entries : List (String × α)}
    (distinct : (entries.map Prod.fst).Nodup)
    (key : String) :
    last? key entries = find? key entries := by
  induction entries with
  | nil => rfl
  | cons entry rest inductionHypothesis =>
      rw [List.map_cons, List.nodup_cons] at distinct
      by_cases same : entry.1 = key
      · rw [last?, last?_eq_none (same ▸ distinct.1)]
        simp [find?, same]
      · rw [last?, inductionHypothesis distinct.2]
        simp [find?, same]

/-- Sorted entries have no key twice. -/
theorem nodup_of_sorted {entries : List (String × α)} (sorted : Sorted entries) :
    (entries.map Prod.fst).Nodup := by
  refine List.pairwise_map.mpr (sorted.imp ?_)
  intro earlier later less same
  exact String.lt_irrefl _ (same ▸ less)

end Entries

namespace Dictionary

variable {α β : Type}

@[ext] theorem ext {left right : Dictionary α} (same : left.entries = right.entries) :
    left = right := by
  cases left
  cases right
  simpa using same

/-- Entries above all that are there are put behind them. -/
theorem entries_foldl_insert
    (entries : List (String × α))
    (dictionary : Dictionary α)
    (sorted : Entries.Sorted (dictionary.entries ++ entries)) :
    (entries.foldl (fun dictionary entry => dictionary.insert entry.1 entry.2) dictionary).entries =
      dictionary.entries ++ entries := by
  induction entries generalizing dictionary with
  | nil => simp
  | cons entry rest inductionHypothesis =>
      have above : ∀ earlier ∈ dictionary.entries, earlier.1 < entry.1 := by
        intro earlier member
        exact (List.pairwise_append.mp sorted).2.2 earlier member entry (by simp)
      have inserted : (dictionary.insert entry.1 entry.2).entries = dictionary.entries ++ [entry] :=
        Entries.insert_of_above above
      rw [List.foldl_cons, inductionHypothesis, inserted, List.append_assoc, List.singleton_append]
      rw [inserted, List.append_assoc, List.singleton_append]
      exact sorted

/-- A dictionary is made of its own entries. -/
@[simp] theorem ofList_entries (dictionary : Dictionary α) :
    ofList dictionary.entries = dictionary := by
  apply ext
  rw [ofList, entries_foldl_insert]
  · rfl
  · exact dictionary.sorted

@[simp] theorem entries_map (change : α → β) (dictionary : Dictionary α) :
    (dictionary.map change).entries =
      dictionary.entries.map fun entry => (entry.1, change entry.2) := rfl

@[simp] theorem map_id (dictionary : Dictionary α) : dictionary.map id = dictionary :=
  ext (List.map_id _)

theorem map_map {γ : Type} (first : α → β) (second : β → γ) (dictionary : Dictionary α) :
    (dictionary.map first).map second = dictionary.map (second ∘ first) := by
  apply ext
  simp [Function.comp_def]

theorem map_insert (change : α → β) (key : String) (value : α) (dictionary : Dictionary α) :
    (dictionary.insert key value).map change = (dictionary.map change).insert key (change value) :=
  ext (Entries.map_insert change key value dictionary.entries)

private theorem map_foldl_insert
    (change : α → β)
    (entries : List (String × α))
    (dictionary : Dictionary α) :
    (entries.foldl (fun dictionary entry => dictionary.insert entry.1 entry.2) dictionary).map
        change =
      (entries.map fun entry => (entry.1, change entry.2)).foldl
        (fun dictionary entry => dictionary.insert entry.1 entry.2) (dictionary.map change) := by
  induction entries generalizing dictionary with
  | nil => rfl
  | cons entry rest inductionHypothesis =>
      rw [List.foldl_cons, inductionHypothesis, map_insert, List.map_cons, List.foldl_cons]

/-- Changing the values of a dictionary that is made of entries changes those of the entries. -/
theorem map_ofList (change : α → β) (entries : List (String × α)) :
    (ofList entries).map change = ofList (entries.map fun entry => (entry.1, change entry.2)) :=
  map_foldl_insert change entries empty

theorem insert_ofList (key : String) (value : α) (entries : List (String × α)) :
    (ofList entries).insert key value = ofList (entries ++ [(key, value)]) := by
  simp [ofList]

theorem find?_foldl_insert
    (key : String)
    (entries : List (String × α))
    (dictionary : Dictionary α) :
    (entries.foldl (fun dictionary entry => dictionary.insert entry.1 entry.2) dictionary).find?
        key =
      (Entries.last? key entries).or (dictionary.find? key) := by
  induction entries generalizing dictionary with
  | nil => rfl
  | cons entry rest inductionHypothesis =>
      rw [List.foldl_cons, inductionHypothesis, Entries.last?, Option.or_assoc]
      by_cases same : entry.1 = key
      · rw [if_pos same, same, find?_insert_self, Option.some_or]
      · rw [if_neg same, find?_insert_of_ne _ _ _ _ (Ne.symm same), Option.none_or]

/-- The value at a key is that of the last entry with the key. -/
theorem find?_ofList (key : String) (entries : List (String × α)) :
    (ofList entries).find? key = entries.reverse.lookup key := by
  rw [ofList, find?_foldl_insert, ← Entries.last?_eq_lookup_reverse]
  exact Option.or_none

theorem find?_eq_some_iff
    {dictionary : Dictionary α}
    {key : String}
    {value : α} :
    dictionary.find? key = some value ↔ (key, value) ∈ dictionary.entries :=
  Entries.find?_eq_some_iff (Entries.nodup_of_sorted dictionary.sorted)

/-- Dictionaries with the same value at every key are the same. -/
theorem ext_find? {left right : Dictionary α} (same : ∀ key, left.find? key = right.find? key) :
    left = right := by
  have irreflexive : Std.Irrefl fun earlier later : String × α => earlier.1 < later.1 :=
    ⟨fun entry => String.lt_irrefl entry.1⟩
  have antisymmetric : Std.Antisymm fun earlier later : String × α => earlier.1 < later.1 :=
    ⟨fun _ _ less greater => absurd greater (String.lt_asymm less)⟩
  refine ext (left.sorted.eq_of_mem_iff right.sorted fun entry => ?_)
  rw [← find?_eq_some_iff, ← find?_eq_some_iff, same]

theorem last?_entries (key : String) (dictionary : Dictionary α) :
    Entries.last? key dictionary.entries = dictionary.find? key :=
  Entries.last?_eq_find? (Entries.nodup_of_sorted dictionary.sorted) key

/-- What holds of all entries holds in the dictionary that is made of them. -/
theorem forall_mem_ofList
    {holds : String × α → Prop}
    {entries : List (String × α)}
    (all : ∀ entry ∈ entries, holds entry) :
    ∀ entry ∈ (ofList entries).entries, holds entry := by
  suffices step : ∀ dictionary : Dictionary α, (∀ entry ∈ dictionary.entries, holds entry) →
      ∀ entry ∈ (entries.foldl (fun dictionary entry => dictionary.insert entry.1 entry.2)
        dictionary).entries, holds entry from step empty (by simp [empty])
  induction entries with
  | nil => exact fun _ start => start
  | cons entry rest inductionHypothesis =>
      intro dictionary start
      refine inductionHypothesis (fun other member => all other (by simp [member])) _ ?_
      exact Entries.forall_mem_insert (all entry (by simp)) start

theorem map_of_isEmpty
    (change : α → β)
    {dictionary : Dictionary α}
    (isEmpty : dictionary.isEmpty = true) :
    dictionary.map change = empty := by
  apply ext
  rw [entries_map, List.isEmpty_iff.mp isEmpty]
  rfl

theorem mem_keys {dictionary : Dictionary α} {key : String} :
    key ∈ dictionary.keys ↔ ∃ value, dictionary.find? key = some value := by
  simp only [keys, List.mem_map, find?_eq_some_iff]
  constructor
  · rintro ⟨⟨_, value⟩, member, rfl⟩
    exact ⟨value, member⟩
  · rintro ⟨value, member⟩
    exact ⟨(key, value), member, rfl⟩

end Dictionary

end RunManifest
