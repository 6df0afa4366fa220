import Mathlib
import RunManifest.Document.Format

/-!
Contract: outcomes of steps that may fail.

Owns the laws that take a successful outcome apart into the outcomes of its steps and put it
together from them, for two steps one after the other and for a step on every item of a list.
-/

set_option autoImplicit false

namespace RunManifest.Document

variable {ε α β : Type}

/-- A sequence of two steps succeeds if both do. -/
theorem bind_eq_ok {first : Except ε α} {next : α → Except ε β} {result : β} :
    (first >>= next) = .ok result ↔ ∃ value, first = .ok value ∧ next value = .ok result := by
  cases first with
  | error problem => simp [bind, Except.bind]
  | ok value => simp [bind, Except.bind]

theorem map_eq_ok {change : α → β} {outcome : Except ε α} {result : β} :
    change <$> outcome = .ok result ↔ ∃ value, outcome = .ok value ∧ change value = result := by
  cases outcome with
  | error problem => simp [Functor.map, Except.map]
  | ok value => simp [Functor.map, Except.map]

@[simp] theorem pure_eq_ok (value : α) : (pure value : Except ε α) = .ok value := rfl

@[simp] theorem ok_bind (value : α) (next : α → Except ε β) :
    ((.ok value : Except ε α) >>= next) = next value := rfl

@[simp] theorem error_bind (problem : ε) (next : α → Except ε β) :
    ((.error problem : Except ε α) >>= next) = .error problem := rfl

/-- A step on every item succeeds if it does on each of them. -/
theorem mapM_eq_ok_map
    {step : α → Except ε β}
    {result : α → β}
    {items : List α}
    (succeeds : ∀ item ∈ items, step item = .ok (result item)) :
    items.mapM step = .ok (items.map result) := by
  induction items with
  | nil => rfl
  | cons item rest inductionHypothesis =>
      rw [List.mapM_cons, succeeds item (by simp),
        inductionHypothesis fun other member => succeeds other (by simp [member])]
      rfl

/-- Every result of a step on every item is that of one of them. -/
theorem exists_of_mem_mapM
    {step : α → Except ε β}
    {items : List α}
    {results : List β}
    (succeeds : items.mapM step = .ok results)
    {result : β}
    (member : result ∈ results) :
    ∃ item ∈ items, step item = .ok result := by
  induction items generalizing results with
  | nil =>
      cases succeeds
      simp at member
  | cons item rest inductionHypothesis =>
      rw [List.mapM_cons, bind_eq_ok] at succeeds
      obtain ⟨first, atFirst, later⟩ := succeeds
      obtain ⟨others, atOthers, same⟩ := bind_eq_ok.mp later
      cases same
      rcases List.mem_cons.mp member with rfl | isOther
      · exact ⟨item, by simp, atFirst⟩
      · obtain ⟨source, isItem, atSource⟩ := inductionHypothesis atOthers isOther
        exact ⟨source, by simp [isItem], atSource⟩

/-- A step on every item gives the results of the items in order. -/
theorem forall₂_of_mapM
    {step : α → Except ε β}
    {items : List α}
    {results : List β}
    (succeeds : items.mapM step = .ok results) :
    List.Forall₂ (fun item result => step item = .ok result) items results := by
  induction items generalizing results with
  | nil =>
      cases succeeds
      exact .nil
  | cons item rest inductionHypothesis =>
      rw [List.mapM_cons, bind_eq_ok] at succeeds
      obtain ⟨first, atFirst, later⟩ := succeeds
      obtain ⟨others, atOthers, same⟩ := bind_eq_ok.mp later
      cases same
      exact .cons atFirst (inductionHypothesis atOthers)

end RunManifest.Document
