import RunManifest.Proofs.Json.Opaque

/-!
Contract: values that differ only in the order of members.

Owns:
- `Reordered`, the values that differ in the order of members of objects, at any depth, and
  `Distinct`, the values without repeated keys;
- `normal_eq_of_reordered`, such values have one normal form.
-/

set_option autoImplicit false

namespace RunManifest

/-- Without repeated keys the order of entries does not matter. -/
theorem Entries.last?_perm
    {κ α : Type}
    [DecidableEq κ]
    {left right : List (κ × α)}
    (permuted : left.Perm right)
    (distinct : (left.map Prod.fst).Nodup)
    (key : κ) :
    last? key left = last? key right := by
  induction permuted with
  | nil => rfl
  | cons entry _ inductionHypothesis =>
      rw [List.map_cons, List.nodup_cons] at distinct
      rw [last?, last?, inductionHypothesis distinct.2]
  | swap first second rest =>
      have different : second.1 ≠ first.1 := by
        intro same
        rw [List.map_cons, List.map_cons, same, List.nodup_cons] at distinct
        exact distinct.1 List.mem_cons_self
      simp only [last?]
      by_cases isFirst : first.1 = key
      · have notSecond : second.1 ≠ key := fun isSecond => different (isSecond.trans isFirst.symm)
        simp [notSecond]
      · simp [isFirst]
  | trans first _ left right =>
      exact (left distinct).trans (right ((first.map Prod.fst).nodup_iff.mp distinct))

/-- Without repeated keys the order of entries does not matter. -/
theorem Dictionary.ofList_perm
    {α : Type}
    {left right : List (String × α)}
    (permuted : left.Perm right)
    (distinct : (left.map Prod.fst).Nodup) :
    ofList left = ofList right := by
  refine ext_find? fun key => ?_
  rw [find?_ofList, find?_ofList, ← Entries.last?_eq_lookup_reverse,
    ← Entries.last?_eq_lookup_reverse, Entries.last?_perm permuted distinct]

theorem Dictionary.insert_insert_comm
    {α : Type}
    {first second : String}
    (different : first ≠ second)
    (value other : α)
    (dictionary : Dictionary α) :
    (dictionary.insert first value).insert second other =
      (dictionary.insert second other).insert first value := by
  refine ext_find? fun key => ?_
  by_cases isSecond : key = second
  · rw [isSecond, find?_insert_self, find?_insert_of_ne _ _ _ _ (Ne.symm different),
      find?_insert_self]
  · rw [find?_insert_of_ne _ _ _ _ isSecond]
    by_cases isFirst : key = first
    · rw [isFirst, find?_insert_self, find?_insert_self]
    · rw [find?_insert_of_ne _ _ _ _ isFirst, find?_insert_of_ne _ _ _ _ isFirst,
        find?_insert_of_ne _ _ _ _ isSecond]

namespace Json

/-- Values that differ in the order of members of objects, at any depth. -/
inductive Reordered : Json → Json → Prop where
  | refl (value : Json) : Reordered value value
  | trans
      {left middle right : Json}
      (first : Reordered left middle)
      (second : Reordered middle right) :
      Reordered left right
  | members
      {members others : List (String × Json)}
      (permuted : members.Perm others) :
      Reordered (.object members) (.object others)
  | item
      {item other : Json}
      (first last : List Json)
      (inside : Reordered item other) :
      Reordered (.array (first ++ item :: last)) (.array (first ++ other :: last))
  | member
      {value other : Json}
      (first last : List (String × Json))
      (key : String)
      (inside : Reordered value other) :
      Reordered (.object (first ++ (key, value) :: last)) (.object (first ++ (key, other) :: last))

/-- Values without repeated keys in any object. -/
inductive Distinct : Json → Prop where
  | null : Distinct .null
  | flag (value : Bool) : Distinct (.flag value)
  | number (value : Number) : Distinct (.number value)
  | text (value : String) : Distinct (.text value)
  | array {items : List Json} (each : ∀ item ∈ items, Distinct item) : Distinct (.array items)
  | object
      {members : List (String × Json)}
      (keys : (members.map Prod.fst).Nodup)
      (each : ∀ member ∈ members, Distinct member.2) :
      Distinct (.object members)

theorem Reordered.symm {left right : Json} (reordered : Reordered left right) :
    Reordered right left := by
  induction reordered with
  | refl value => exact .refl value
  | trans _ _ first second => exact .trans second first
  | members permuted => exact .members permuted.symm
  | item first last _ inside => exact .item first last inside
  | member first last key _ inside => exact .member first last key inside

theorem Distinct.reordered
    {left right : Json}
    (distinct : left.Distinct)
    (reordered : Reordered left right) :
    right.Distinct := by
  induction reordered with
  | refl => exact distinct
  | trans _ _ first second => exact second (first distinct)
  | members permuted =>
      cases distinct with
      | object keys each =>
          refine .object ((permuted.map Prod.fst).nodup_iff.mp keys) fun member isMember => ?_
          exact each member (permuted.mem_iff.mpr isMember)
  | item first last _ inside =>
      cases distinct with
      | array each =>
          rw [List.forall_mem_append, List.forall_mem_cons] at each
          refine .array ?_
          rw [List.forall_mem_append, List.forall_mem_cons]
          exact ⟨each.1, inside each.2.1, each.2.2⟩
  | member first last key _ inside =>
      cases distinct with
      | object keys each =>
          rw [List.forall_mem_append, List.forall_mem_cons] at each
          refine .object (by simpa using keys) ?_
          rw [List.forall_mem_append, List.forall_mem_cons]
          exact ⟨each.1, inside each.2.1, each.2.2⟩

/-! ## Kinds of values -/

/-- A value that is no container stays as it is. -/
theorem Reordered.eq_or_container
    {left right : Json}
    (reordered : Reordered left right) :
    left = right ∨ (∃ items others, left = .array items ∧ right = .array others) ∨
      ∃ members others, left = .object members ∧ right = .object others := by
  induction reordered with
  | refl => exact .inl rfl
  | trans _ _ first second =>
      rcases first with rfl | ⟨items, others, rfl, rfl⟩ | ⟨members, others, rfl, rfl⟩
      · exact second
      · rcases second with rfl | ⟨_, others, -, rfl⟩ | ⟨_, _, isObject, -⟩
        · exact .inr (.inl ⟨_, _, rfl, rfl⟩)
        · exact .inr (.inl ⟨_, _, rfl, rfl⟩)
        · cases isObject
      · rcases second with rfl | ⟨_, _, isArray, -⟩ | ⟨_, others, -, rfl⟩
        · exact .inr (.inr ⟨_, _, rfl, rfl⟩)
        · cases isArray
        · exact .inr (.inr ⟨_, _, rfl, rfl⟩)
  | members => exact .inr (.inr ⟨_, _, rfl, rfl⟩)
  | item => exact .inr (.inl ⟨_, _, rfl, rfl⟩)
  | member => exact .inr (.inr ⟨_, _, rfl, rfl⟩)

theorem Reordered.eq_text
    {value : String}
    {other : Json}
    (reordered : Reordered (.text value) other) :
    other = .text value := by
  rcases reordered.eq_or_container with same | ⟨_, _, isArray, -⟩ | ⟨_, _, isObject, -⟩
  · exact same.symm
  · cases isArray
  · cases isObject

/-! ## Normal forms -/

theorem normal_eq_of_reordered
    {left right : Json}
    (reordered : Reordered left right)
    (distinct : left.Distinct) :
    left.normal = right.normal := by
  induction reordered with
  | refl => rfl
  | trans early _ first second => exact (first distinct).trans (second (distinct.reordered early))
  | members permuted =>
      cases distinct with
      | object keys _ =>
          refine normal_object_congr fun key => ?_
          rw [Entries.last?_perm permuted keys]
  | item first last _ inside =>
      cases distinct with
      | array each =>
          rw [List.forall_mem_append, List.forall_mem_cons] at each
          simp only [normal, normalItems_eq_map, List.map_append, List.map_cons, inside each.2.1]
  | member first last key _ inside =>
      cases distinct with
      | object _ each =>
          rw [List.forall_mem_append, List.forall_mem_cons] at each
          simp only [normal_object, List.map_append, List.map_cons, inside each.2.1]

end Json

end RunManifest
