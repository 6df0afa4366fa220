import RunManifest.Proofs.Document.Composition
import RunManifest.Proofs.Json.Cut

/-!
Contract: no reader accepts the tree of a cut text.

Owns:
- `Fails`, the outcome that a cut shows: a fault, and never a mismatch;
- `skip_cut` and `value_cut`, passing over a cut value and reading it whole;
- `Careful`, what readers make of cut trees, and `Composed.careful`, the law for all readers of
  runs.
-/

set_option autoImplicit false

namespace RunManifest.Document

open Json (Node Cut Shows Breakage)

variable {α β ρ : Type} {loose : Prop} {levels : Nat}

/-! ## Failing -/

/-- An outcome that is the fault that a cut shows. -/
def Fails (loose : Prop) (outcome : Except Problem α) : Prop :=
  ∃ fault, outcome = .error (.fault fault) ∧ Shows loose fault

private theorem fails_truncated (inside : Unfinished) :
    Fails loose (.error (.truncated inside) : Except Problem α) :=
  ⟨.truncated inside, rfl, .inr ⟨inside, rfl⟩⟩

theorem Fails.bind
    {outcome : Except Problem α}
    (fails : Fails loose outcome)
    (next : α → Except Problem β) :
    Fails loose (outcome >>= next) := by
  obtain ⟨fault, rfl, shown⟩ := fails
  exact ⟨fault, rfl, shown⟩

theorem Fails.map
    {outcome : Except Problem α}
    (fails : Fails loose outcome)
    (use : α → β) :
    Fails loose (use <$> outcome) := by
  obtain ⟨fault, rfl, shown⟩ := fails
  exact ⟨fault, rfl, shown⟩

/-- Steps that succeed or fail as a cut shows do so together. -/
theorem mapM_ok_or_fails
    {step : α → Except Problem β}
    {items : List α}
    (each : ∀ item ∈ items, (∃ result, step item = .ok result) ∨ Fails loose (step item)) :
    (∃ results, items.mapM step = .ok results) ∨ Fails loose (items.mapM step) := by
  induction items with
  | nil => exact .inl ⟨[], rfl⟩
  | cons item rest inductionHypothesis =>
      rw [List.forall_mem_cons] at each
      rw [List.mapM_cons]
      rcases each.1 with ⟨result, isResult⟩ | fails
      · rw [isResult, ok_bind]
        rcases inductionHypothesis each.2 with ⟨results, areResults⟩ | fails
        · exact .inl ⟨result :: results, by rw [areResults]; rfl⟩
        · exact .inr (fails.bind _)
      · exact .inr (fails.bind _)

/-- Items and an ending that shows a cut. -/
theorem fails_at_end
    {γ : Type}
    {step : α → Except Problem β}
    {items : List α}
    {ending : Except Problem Unit}
    (each : ∀ item ∈ items, (∃ result, step item = .ok result) ∨ Fails loose (step item))
    (atEnd : Fails loose ending)
    (next : List β → Except Problem γ) :
    Fails loose (do
      let results ← items.mapM step
      ending
      next results) := by
  rcases mapM_ok_or_fails each with ⟨results, areResults⟩ | fails
  · rw [areResults, ok_bind]
    exact atEnd.bind _
  · exact fails.bind _

/-- A step on every item fails at the first item on which it does. -/
theorem fails_mapM
    {step : α → Except Problem β}
    {first last : List α}
    {item : α}
    (succeeds : ∀ other ∈ first, ∃ result, step other = .ok result)
    (fails : Fails loose (step item)) :
    Fails loose ((first ++ item :: last).mapM step) := by
  induction first with
  | nil =>
      rw [List.nil_append, List.mapM_cons]
      exact fails.bind _
  | cons other first inductionHypothesis =>
      rw [List.forall_mem_cons] at succeeds
      obtain ⟨⟨result, isResult⟩, later⟩ := succeeds
      rw [List.cons_append, List.mapM_cons, isResult, ok_bind]
      exact (inductionHypothesis later).bind _

/-! ## Cut containers -/

/-- A cut array that is read item by item. -/
theorem fails_items
    {step : Node → Except Problem β}
    {items parts : List Node}
    {ending : Option Fault}
    {values : List β}
    (isCut : Cut loose (.array items none) (.array parts ending))
    (reads : items.mapM step = .ok values)
    (cut : ∀ item part value, Cut loose item part → step item = .ok value → Fails loose (step part))
    (number : loose → ∀ number other value, step (.number number) = .ok value →
      (∃ value, step (.number other) = .ok value) ∨ Fails loose (step (.number other)))
    {γ : Type}
    (next : List β → Except Problem γ) :
    Fails loose (do
      let values ← parts.mapM step
      Node.ended ending
      next values) := by
  have succeeds := exists_of_mapM reads
  cases isCut with
  | items first last =>
      rw [List.forall_mem_append] at succeeds
      exact fails_at_end (fun item isItem => .inl (succeeds.1 item isItem)) (fails_truncated _) next
  | item first last isCut =>
      rw [List.forall_mem_append, List.forall_mem_cons] at succeeds
      obtain ⟨value, readsItem⟩ := succeeds.2.1
      exact (fails_mapM succeeds.1 (cut _ _ value isCut readsItem)).bind _
  | numberItem isLoose first last known other fault =>
      rw [List.forall_mem_append, List.forall_mem_cons] at succeeds
      obtain ⟨value, readsNumber⟩ := succeeds.2.1
      refine fails_at_end ?_ ⟨fault, rfl, .inl isLoose⟩ next
      rw [List.forall_mem_append, List.forall_mem_singleton]
      exact ⟨fun item isItem => .inl (succeeds.1 item isItem),
        number isLoose known other value readsNumber⟩

/-- A cut object that is read member by member. -/
theorem fails_members
    {step : Node → Except Problem β}
    {members parts : List (Json.Readable String × Node)}
    {ending : Option Breakage}
    {entries : List (String × β)}
    (isCut : Cut loose (.object members none) (.object parts ending))
    (reads : members.mapM (readEntry step) = .ok entries)
    (cut : ∀ node part value, Cut loose node part → step node = .ok value → Fails loose (step part))
    (number : loose → ∀ number other value, step (.number number) = .ok value →
      (∃ value, step (.number other) = .ok value) ∨ Fails loose (step (.number other)))
    {γ : Type}
    (next : List (String × β) → Except Problem γ) :
    Fails loose (do
      let entries ← parts.mapM (readEntry step)
      Node.ended (ending.map Breakage.read)
      next entries) := by
  have succeeds := exists_of_mapM reads
  cases isCut with
  | members first last _ read =>
      rw [List.forall_mem_append] at succeeds
      refine fails_at_end (fun member isMember => .inl (succeeds.1 member isMember)) ?_ next
      refine ⟨_, rfl, read ?_⟩
      rintro cause value others rfl
      obtain ⟨entry, readsEntry⟩ := succeeds.2 (.error cause, value) (by simp)
      cases (readEntry_eq_ok readsEntry).1
  | member first last key isCut =>
      rw [List.forall_mem_append, List.forall_mem_cons] at succeeds
      obtain ⟨entry, readsEntry⟩ := succeeds.2.1
      obtain ⟨rfl, readsValue⟩ := readEntry_eq_ok readsEntry
      refine (fails_mapM succeeds.1 ?_).bind _
      rw [readEntry_some]
      exact (cut _ _ _ isCut readsValue).map _
  | numberMember isLoose first last key known other fault =>
      rw [List.forall_mem_append, List.forall_mem_cons] at succeeds
      obtain ⟨entry, readsEntry⟩ := succeeds.2.1
      obtain ⟨rfl, readsNumber⟩ := readEntry_eq_ok readsEntry
      refine fails_at_end ?_ ⟨fault, rfl, .inl isLoose⟩ next
      rw [List.forall_mem_append, List.forall_mem_singleton, readEntry_some]
      refine ⟨fun member isMember => .inl (succeeds.1 member isMember), ?_⟩
      rcases number isLoose known other _ readsNumber with ⟨value, readsOther⟩ | fails
      · exact .inl ⟨(entry.1, value), by rw [readsOther]; rfl⟩
      · exact .inr (fails.map _)

/-! ## Passing over a cut value -/

private theorem skipItems_append (first last : List Node) :
    Node.skipItems (first ++ last) = (do
      Node.skipItems first
      Node.skipItems last) := by
  induction first with
  | nil => rfl
  | cons item first inductionHypothesis =>
      rw [List.cons_append, Node.skipItems, Node.skipItems, inductionHypothesis, bind_assoc]

private theorem skipMembers_append (first last : List (Json.Readable String × Node)) :
    Node.skipMembers (first ++ last) = (do
      Node.skipMembers first
      Node.skipMembers last) := by
  induction first with
  | nil => rfl
  | cons member first inductionHypothesis =>
      rw [List.cons_append, Node.skipMembers, Node.skipMembers, inductionHypothesis, bind_assoc]

/-- Who passes over a cut value finds that it is cut. -/
theorem skip_cut
    {node part : Node}
    (isCut : Cut loose node part)
    (skips : node.skip = .ok ()) :
    Fails loose part.skip := by
  induction isCut with
  | broken skipped => exact ⟨_, rfl, skipped⟩
  | items first last =>
      rw [Node.skip, skipItems_append, bind_assoc] at skips
      obtain ⟨_, skipsFirst, -⟩ := bind_eq_ok.mp skips
      rw [Node.skip, skipsFirst, ok_bind]
      exact fails_truncated _
  | item first last isCut inductionHypothesis =>
      rw [Node.skip, skipItems_append, Node.skipItems] at skips
      simp only [bind_assoc] at skips
      obtain ⟨_, skipsFirst, skips⟩ := bind_eq_ok.mp skips
      obtain ⟨_, skipsItem, -⟩ := bind_eq_ok.mp skips
      rw [Node.skip, skipItems_append, skipsFirst, ok_bind, Node.skipItems]
      exact ((inductionHypothesis skipsItem).bind _).bind _
  | numberItem isLoose first last number other fault =>
      rw [Node.skip, skipItems_append, bind_assoc] at skips
      obtain ⟨_, skipsFirst, -⟩ := bind_eq_ok.mp skips
      rw [Node.skip, skipItems_append, skipsFirst]
      exact ⟨fault, rfl, .inl isLoose⟩
  | members first last skipped =>
      rw [Node.skip, skipMembers_append, bind_assoc] at skips
      obtain ⟨_, skipsFirst, -⟩ := bind_eq_ok.mp skips
      rw [Node.skip, skipsFirst]
      exact ⟨_, rfl, skipped⟩
  | member first last key isCut inductionHypothesis =>
      rw [Node.skip, skipMembers_append, Node.skipMembers] at skips
      simp only [bind_assoc] at skips
      obtain ⟨_, skipsFirst, skips⟩ := bind_eq_ok.mp skips
      obtain ⟨_, skipsValue, -⟩ := bind_eq_ok.mp skips
      rw [Node.skip, skipMembers_append, skipsFirst, ok_bind, Node.skipMembers]
      exact ((inductionHypothesis skipsValue).bind _).bind _
  | numberMember isLoose first last key number other fault =>
      rw [Node.skip, skipMembers_append, bind_assoc] at skips
      obtain ⟨_, skipsFirst, -⟩ := bind_eq_ok.mp skips
      rw [Node.skip, skipMembers_append, skipsFirst]
      exact ⟨fault, rfl, .inl isLoose⟩

/-! ## Reading a cut value whole -/

private theorem value_number_cut (isLoose : loose) (number : Option Number) :
    (∃ value, (Node.number number).value levels = .ok value) ∨
      Fails loose ((Node.number number).value levels) := by
  cases number with
  | none =>
      refine .inr ⟨.malformed .outOfRange, ?_, .inl isLoose⟩
      rw [Node.value]
      rfl
  | some number =>
      refine .inl ⟨.number number, ?_⟩
      rw [Node.value]
      rfl

private theorem value_unpaired_ne_ok (cause : Malformation) (value : Json) :
    (Node.text (.error cause)).value levels ≠ .ok value := by
  rw [Node.value]
  intro isOk
  cases isOk

/-- Who reads a cut value whole finds that it is cut. -/
theorem value_cut
    {node part : Node}
    {value : Json}
    (isCut : Cut loose node part)
    (reads : node.value levels = .ok value) :
    Fails loose (part.value levels) := by
  induction levels generalizing node part value with
  | zero =>
      rcases isCut.part_cases with ⟨breakage, rfl, shown⟩ | ⟨_, _, _, rfl, rfl⟩ | ⟨_, _, _, rfl, rfl⟩
      · refine ⟨breakage.read, by rw [Node.value], shown ?_⟩
        rintro cause rfl
        exact value_unpaired_ne_ok cause value reads
      · cases reads
      · cases reads
  | succ levels inductionHypothesis =>
      have numberCut : loose → ∀ number other value,
          (Node.number number).value levels = .ok value →
          (∃ value, (Node.number other).value levels = .ok value) ∨
            Fails loose ((Node.number other).value levels) :=
        fun isLoose _ other _ _ => value_number_cut isLoose other
      have partCut : ∀ item part value, Cut loose item part → item.value levels = .ok value →
          Fails loose (part.value levels) :=
        fun _ _ _ isCut reads => inductionHypothesis isCut reads
      rcases isCut.part_cases with
        ⟨breakage, rfl, shown⟩ | ⟨items, parts, ending, rfl, rfl⟩ | ⟨members, parts, ending, rfl, rfl⟩
      · refine ⟨breakage.read, by rw [Node.value], shown ?_⟩
        rintro cause rfl
        exact value_unpaired_ne_ok cause value reads
      · rw [value_array] at reads ⊢
        obtain ⟨values, readsItems, -⟩ := bind_eq_ok.mp reads
        exact fails_items isCut readsItems partCut numberCut _
      · rw [value_object] at reads ⊢
        obtain ⟨entries, readsMembers, -⟩ := bind_eq_ok.mp reads
        exact fails_members isCut readsMembers partCut numberCut _

/-! ## Careful readers -/

/-- A reader that finds out that a tree is cut. It accepts no number, so it need not care for a cut
inside one. -/
structure Careful (read : Nat → Node → Except Problem α) : Prop where
  broken : ∀ levels breakage, read levels (.broken breakage) = .error (.fault breakage.read)
  number : ∀ levels number value, read levels (.number number) ≠ .ok value
  unpaired : ∀ levels cause value, read levels (.text (.error cause)) ≠ .ok value
  array : ∀ {loose : Prop} {levels : Nat} {items parts : List Node} {ending : Option Fault}
    {value : α}, Cut loose (.array items none) (.array parts ending) →
    read levels (.array items none) = .ok value → Fails loose (read levels (.array parts ending))
  object : ∀ {loose : Prop} {levels : Nat} {members parts : List (Json.Readable String × Node)}
    {ending : Option Breakage} {value : α},
    Cut loose (.object members none) (.object parts ending) →
    read levels (.object members none) = .ok value → Fails loose (read levels (.object parts ending))

theorem Careful.cut
    {read : Nat → Node → Except Problem α}
    (careful : Careful read)
    (levels : Nat)
    {node part : Node}
    {value : α}
    (isCut : Cut loose node part)
    (reads : read levels node = .ok value) :
    Fails loose (read levels part) := by
  rcases isCut.part_cases with ⟨breakage, rfl, shown⟩ | ⟨_, _, _, rfl, rfl⟩ | ⟨_, _, _, rfl, rfl⟩
  · refine ⟨breakage.read, careful.broken levels breakage, shown ?_⟩
    rintro cause rfl
    exact careful.unpaired levels cause value reads
  · exact careful.array isCut reads
  · exact careful.object isCut reads

/-- A reader of nothing but strings and truth values. -/
theorem careful_of_atoms
    {read : Nat → Node → Except Problem α}
    (broken : ∀ levels breakage, read levels (.broken breakage) = .error (.fault breakage.read))
    (atoms : ∀ levels node value, read levels node = .ok value →
      (∃ text, node = .text (.ok text)) ∨ ∃ flag, node = .flag flag) :
    Careful read where
  broken := broken
  number levels number value reads := by
    rcases atoms _ _ _ reads with ⟨text, isText⟩ | ⟨flag, isFlag⟩
    · cases isText
    · cases isFlag
  unpaired levels cause value reads := by
    rcases atoms _ _ _ reads with ⟨text, isText⟩ | ⟨flag, isFlag⟩
    · cases isText
    · cases isFlag
  array _ reads := by
    rcases atoms _ _ _ reads with ⟨text, isText⟩ | ⟨flag, isFlag⟩
    · cases isText
    · cases isFlag
  object _ reads := by
    rcases atoms _ _ _ reads with ⟨text, isText⟩ | ⟨flag, isFlag⟩
    · cases isText
    · cases isFlag

private theorem careful_text (expected : Expected) : Careful fun _ => Json.format.text expected :=
  careful_of_atoms (fun _ _ => rfl) fun _ _ value reads => .inl ⟨value, text_eq_ok reads⟩

private theorem careful_flag : Careful fun _ => Json.format.flag :=
  careful_of_atoms (fun _ _ => rfl) fun _ _ value reads => .inr ⟨value, flag_eq_ok reads⟩

private theorem careful_instant : Careful (readInstant Json.format) := by
  refine careful_of_atoms (fun _ _ => rfl) fun levels node value reads => ?_
  obtain ⟨text, isText, -⟩ := bind_eq_ok.mp reads
  exact .inl ⟨text, text_eq_ok isText⟩

private theorem careful_paramValue : Careful (ParamValue.read Json.format) where
  broken levels breakage := by
    have fails : (Node.broken breakage).value levels = .error (.fault breakage.read) := by
      rw [Node.value]
    show ((Node.broken breakage).value levels >>= _) = _
    rw [fails]
    rfl
  number levels number value reads := by
    obtain ⟨document, isDocument, describes⟩ := bind_eq_ok.mp reads
    replace isDocument : (Node.number number).value levels = .ok document := isDocument
    rw [Node.value] at isDocument
    obtain ⟨known, -, same⟩ := bind_eq_ok.mp isDocument
    cases same
    cases describes
  unpaired levels cause value reads := by
    obtain ⟨document, isDocument, -⟩ := bind_eq_ok.mp reads
    exact value_unpaired_ne_ok cause document isDocument
  array isCut reads := by
    obtain ⟨document, isDocument, -⟩ := bind_eq_ok.mp reads
    exact (value_cut isCut isDocument).bind _
  object isCut reads := by
    obtain ⟨document, isDocument, -⟩ := bind_eq_ok.mp reads
    exact (value_cut isCut isDocument).bind _

private theorem careful_change
    {read : Nat → Node → Except Problem α}
    (careful : Careful read)
    (use : α → β) :
    Careful fun levels node => use <$> read levels node where
  broken levels breakage := by
    rw [careful.broken]
    rfl
  number levels number value reads := by
    obtain ⟨part, reads, -⟩ := map_eq_ok.mp reads
    exact careful.number levels number part reads
  unpaired levels cause value reads := by
    obtain ⟨part, reads, -⟩ := map_eq_ok.mp reads
    exact careful.unpaired levels cause part reads
  array isCut reads := by
    obtain ⟨part, reads, -⟩ := map_eq_ok.mp reads
    exact (careful.array isCut reads).map use
  object isCut reads := by
    obtain ⟨part, reads, -⟩ := map_eq_ok.mp reads
    exact (careful.object isCut reads).map use

private theorem careful_optional
    {read : Nat → Node → Except Problem α}
    (careful : Careful read) :
    Careful (readOptional Json.format read) := by
  have changed := careful_change careful some
  refine ⟨?_, ?_, ?_, ?_, ?_⟩
  · intro levels breakage
    rw [readOptional_of_not_null read rfl]
    exact changed.broken levels breakage
  · intro levels number value reads
    rw [readOptional_of_not_null read rfl] at reads
    exact changed.number levels number value reads
  · intro levels cause value reads
    rw [readOptional_of_not_null read rfl] at reads
    exact changed.unpaired levels cause value reads
  · intro loose levels items parts ending value isCut reads
    rw [readOptional_of_not_null read rfl] at reads ⊢
    exact changed.array isCut reads
  · intro loose levels members parts ending value isCut reads
    rw [readOptional_of_not_null read rfl] at reads ⊢
    exact changed.object isCut reads

private theorem careful_texts : Careful (readTexts Json.format) where
  broken _ _ := rfl
  number levels number value reads := by
    obtain ⟨_, isMapping, -⟩ := bind_eq_ok.mp reads
    obtain ⟨_, _, isObject⟩ := mapping_eq_ok isMapping
    cases isObject
  unpaired levels cause value reads := by
    obtain ⟨_, isMapping, -⟩ := bind_eq_ok.mp reads
    obtain ⟨_, _, isObject⟩ := mapping_eq_ok isMapping
    cases isObject
  array _ reads := by
    obtain ⟨_, isMapping, -⟩ := bind_eq_ok.mp reads
    obtain ⟨_, _, isObject⟩ := mapping_eq_ok isMapping
    cases isObject
  object {loose levels} _ _ _ _ isCut reads := by
    cases levels with
    | zero => cases reads
    | succ levels =>
        rw [readTexts_object] at reads ⊢
        obtain ⟨entries, readsMembers, -⟩ := bind_eq_ok.mp reads
        have careful := careful_text .text
        exact fails_members isCut readsMembers (fun _ _ _ isCut reads => careful.cut 0 isCut reads)
          (fun _ number _ value reads => absurd reads (careful.number 0 number value)) _

private theorem careful_list
    {read : Nat → Node → Except Problem α}
    (careful : Careful read) :
    Careful (readList Json.format read) where
  broken _ _ := rfl
  number levels number value reads := by
    obtain ⟨_, isSequence, -⟩ := bind_eq_ok.mp reads
    obtain ⟨_, _, isArray, -⟩ := sequence_eq_ok isSequence
    cases isArray
  unpaired levels cause value reads := by
    obtain ⟨_, isSequence, -⟩ := bind_eq_ok.mp reads
    obtain ⟨_, _, isArray, -⟩ := sequence_eq_ok isSequence
    cases isArray
  array {loose levels} _ _ _ _ isCut reads := by
    cases levels with
    | zero => cases reads
    | succ levels =>
        rw [readList_array] at reads ⊢
        obtain ⟨values, readsItems, -⟩ := bind_eq_ok.mp reads
        exact fails_items isCut readsItems (fun _ _ _ isCut reads => careful.cut levels isCut reads)
          (fun _ number _ value reads => absurd reads (careful.number levels number value)) _
  object _ reads := by
    obtain ⟨_, isSequence, -⟩ := bind_eq_ok.mp reads
    obtain ⟨_, _, isArray, -⟩ := sequence_eq_ok isSequence
    cases isArray

/-! ## Records -/

section Records

variable {schema : Schema (Except Problem) Node ρ}

variable (fields : ∀ field ∈ schema.fields, Careful field.read)
include fields

/-- A member that is cut is found to be so, whatever the record does with it. -/
theorem readMember_cut
    {progress after : Progress ρ}
    {key : String}
    {node part : Node}
    (isCut : Cut loose node part)
    (reads : schema.readMember Json.format levels progress key node = .ok after) :
    Fails loose (schema.readMember Json.format levels progress key part) := by
  rcases Schema.readMember_cases reads with
    ⟨field, change, found, unseen, readsField, -⟩ | ⟨unknown, isDropped, skips, -⟩
      | ⟨get, put, value, unknown, isKept, readsValue, -⟩
  · rw [readMember_of_field found (by simpa using unseen)]
    exact ((fields field (Schema.mem_of_field? found).1).cut levels isCut readsField).map _
  · rw [readMember_of_dropped unknown isDropped]
    exact (skip_cut isCut skips).map _
  · rw [readMember_of_kept unknown isKept]
    exact (value_cut isCut readsValue).map _

/-- Another number in place of a member that was a number is read or refused. -/
theorem readMember_number
    (isLoose : loose)
    {progress after : Progress ρ}
    {key : String}
    {number : Option Number}
    (reads : schema.readMember Json.format levels progress key (.number number) = .ok after)
    (other : Option Number) :
    (∃ after, schema.readMember Json.format levels progress key (.number other) = .ok after) ∨
      Fails loose (schema.readMember Json.format levels progress key (.number other)) := by
  rcases Schema.readMember_cases reads with
    ⟨field, change, found, -, readsField, -⟩ | ⟨unknown, isDropped, -, -⟩
      | ⟨get, put, value, unknown, isKept, -, -⟩
  · exact absurd readsField ((fields field (Schema.mem_of_field? found).1).number _ _ _)
  · rw [readMember_of_dropped unknown isDropped]
    exact .inl ⟨progress, rfl⟩
  · rw [readMember_of_kept unknown isKept]
    rcases value_number_cut isLoose other with ⟨value, readsOther⟩ | fails
    · rw [readsOther]
      exact .inl ⟨_, rfl⟩
    · exact .inr (fails.map _)

omit fields in
/-- A member among those that were read was read by itself, after the members before it. -/
theorem readMember_of_readMembers
    {progress after : Progress ρ}
    {first last : List (Json.Readable String × Node)}
    {name : Json.Readable String}
    {node : Node}
    (reads : schema.readMembers Json.format levels progress
      ((first ++ (name, node) :: last).map fun member => (Node.legible member.1, member.2)) =
        .ok after) :
    ∃ key middle next, name = .ok key ∧
      schema.readMembers Json.format levels progress
        (first.map fun member => (Node.legible member.1, member.2)) = .ok middle ∧
      schema.readMember Json.format levels middle key node = .ok next := by
  rw [List.map_append, List.map_cons, readMembers_append] at reads
  obtain ⟨middle, readsFirst, readsLast⟩ := bind_eq_ok.mp reads
  obtain ⟨key, isKey, readsRest⟩ := bind_eq_ok.mp readsLast
  obtain ⟨next, readsMember, -⟩ := bind_eq_ok.mp readsRest
  exact ⟨key, middle, next, eq_ok_of_legible isKey, readsFirst, readsMember⟩

/-- A cut record that is given by key. -/
theorem readKeyed_cut
    {members parts : List (Json.Readable String × Node)}
    {ending : Option Breakage}
    {result : ρ}
    (isCut : Cut loose (.object members none) (.object parts ending))
    (reads : schema.readKeyed Json.format levels (Node.memberContents members none) = .ok result) :
    Fails loose (schema.readKeyed Json.format levels (Node.memberContents parts ending)) := by
  obtain ⟨after, readsMembers, -⟩ := bind_eq_ok.mp reads
  simp only [Node.memberContents] at readsMembers
  simp only [Schema.readKeyed, Node.memberContents, settled_eq_self]
  cases isCut with
  | members first last _ read =>
      rw [List.map_append, readMembers_append] at readsMembers
      obtain ⟨middle, readsFirst, readsLast⟩ := bind_eq_ok.mp readsMembers
      rw [readsFirst, ok_bind]
      refine Fails.bind ⟨_, rfl, read ?_⟩ _
      rintro cause value others rfl
      cases readsLast
  | member first last name isCut =>
      obtain ⟨key, middle, next, rfl, readsFirst, readsMember⟩ :=
        readMember_of_readMembers readsMembers
      rw [List.map_append, readMembers_append, readsFirst, ok_bind]
      exact ((readMember_cut fields isCut readsMember).bind _).bind _
  | numberMember isLoose first last name number other fault =>
      obtain ⟨key, middle, next, rfl, readsFirst, readsMember⟩ :=
        readMember_of_readMembers readsMembers
      rw [List.map_append, readMembers_append, readsFirst, ok_bind]
      rcases readMember_number fields isLoose readsMember other with ⟨reached, readsOther⟩ | fails
      · have readsLast : schema.readMembers Json.format levels middle
            [(Node.legible (.ok key), .number other)] = .ok reached := by
          show (schema.readMember Json.format levels middle key (.number other) >>= _) = _
          rw [readsOther]
          rfl
        show Fails loose (schema.readMembers Json.format levels middle
          [(Node.legible (.ok key), .number other)] >>= _)
        rw [readsLast]
        exact ⟨fault, rfl, .inl isLoose⟩
      · exact (fails.bind _).bind _

omit fields in
/-- Values that all find a field find one also when there are fewer of them. -/
theorem readPositions_prefix
    {first last : List Node}
    {fields unread : List (Field (Except Problem) Node ρ)}
    {record result : ρ}
    (reads : Schema.readPositions levels record fields (first ++ last) = .ok (result, unread, [])) :
    ∃ result unread, Schema.readPositions levels record fields first = .ok (result, unread, []) := by
  induction first generalizing record fields with
  | nil =>
      cases fields with
      | nil => exact ⟨record, [], rfl⟩
      | cons field fields => exact ⟨record, field :: fields, rfl⟩
  | cons node first inductionHypothesis =>
      cases fields with
      | nil => cases reads
      | cons field fields =>
          obtain ⟨change, readsField, readsRest⟩ := bind_eq_ok.mp reads
          obtain ⟨result, unread, readsFirst⟩ := inductionHypothesis readsRest
          refine ⟨result, unread, ?_⟩
          rw [Schema.readPositions, readsField]
          exact readsFirst

omit fields in
private theorem readPositions_cut
    {node part : Node}
    {first last : List Node}
    {fields unread : List (Field (Except Problem) Node ρ)}
    (careful : ∀ field ∈ fields, Careful field.read)
    {record result : ρ}
    (isCut : Cut loose node part)
    (reads : Schema.readPositions levels record fields (first ++ node :: last) =
      .ok (result, unread, [])) :
    Fails loose (Schema.readPositions levels record fields (first ++ [part])) := by
  induction first generalizing record fields with
  | nil =>
      cases fields with
      | nil => cases reads
      | cons field fields =>
          obtain ⟨change, readsField, -⟩ := bind_eq_ok.mp reads
          exact ((careful field (by simp)).cut levels isCut readsField).bind _
  | cons node first inductionHypothesis =>
      cases fields with
      | nil => cases reads
      | cons field fields =>
          obtain ⟨change, readsField, readsRest⟩ := bind_eq_ok.mp reads
          rw [List.cons_append, Schema.readPositions, readsField]
          exact inductionHypothesis (fun other isField => careful other (by simp [isField])) readsRest

omit fields in
private theorem readPositions_number_ne_ok
    {number : Option Number}
    {first last : List Node}
    {fields unread : List (Field (Except Problem) Node ρ)}
    (careful : ∀ field ∈ fields, Careful field.read)
    {record result : ρ} :
    Schema.readPositions levels record fields (first ++ .number number :: last) ≠
      .ok (result, unread, []) := by
  induction first generalizing record fields with
  | nil =>
      cases fields with
      | nil => simp [Schema.readPositions]
      | cons field fields =>
          intro reads
          obtain ⟨change, readsField, -⟩ := bind_eq_ok.mp reads
          exact (careful field (by simp)).number levels number change readsField
  | cons node first inductionHypothesis =>
      cases fields with
      | nil => simp [Schema.readPositions]
      | cons field fields =>
          intro reads
          obtain ⟨change, readsField, readsRest⟩ := bind_eq_ok.mp reads
          exact inductionHypothesis (fun other isField => careful other (by simp [isField])) readsRest

/-- A cut record that is given by position. -/
theorem readPositional_cut
    {items parts : List Node}
    {ending : Option Fault}
    {result : ρ}
    (isCut : Cut loose (.array items none) (.array parts ending))
    (reads : schema.readPositional levels (Node.contents items none) = .ok result) :
    Fails loose (schema.readPositional levels (Node.contents parts ending)) := by
  obtain ⟨unread, readsItems, -, -⟩ := Schema.readPositional_eq_ok.mp reads
  simp only [Schema.readPositional, Node.contents, settled_eq_self]
  cases isCut with
  | items first last =>
      obtain ⟨early, unread, readsFirst⟩ := readPositions_prefix readsItems
      have atEnd : Fails loose (if unread.isEmpty then Node.closed (some (.truncated .list)) []
          else Node.ended (some (.truncated .list))) := by
        split
        · exact fails_truncated _
        · exact fails_truncated _
      rw [readsFirst]
      exact atEnd.bind _
  | item first last isCut => exact (readPositions_cut fields isCut readsItems).bind _
  | numberItem => exact absurd readsItems (readPositions_number_ne_ok fields)

private theorem careful_record : Careful (schema.read Json.format) where
  broken _ _ := rfl
  number levels number value reads := by
    obtain ⟨layout, isRecord, -⟩ := bind_eq_ok.mp reads
    rcases record_eq_ok isRecord with ⟨_, _, isObject, -⟩ | ⟨_, _, isArray, -⟩
    · cases isObject
    · cases isArray
  unpaired levels cause value reads := by
    obtain ⟨layout, isRecord, -⟩ := bind_eq_ok.mp reads
    rcases record_eq_ok isRecord with ⟨_, _, isObject, -⟩ | ⟨_, _, isArray, -⟩
    · cases isObject
    · cases isArray
  array {loose levels} items parts ending value isCut reads := by
    obtain ⟨layout, isRecord, readsLayout⟩ := bind_eq_ok.mp reads
    rcases record_eq_ok isRecord with ⟨_, _, isObject, -⟩ | ⟨_, _, isArray, byPosition, rfl⟩
    · cases isObject
    · cases isArray
      obtain ⟨inner, isInner, readsLayout⟩ := bind_eq_ok.mp readsLayout
      have isRecordPart : Json.format.record (!schema.others.areKept) schema.name
          (.array parts ending) = .ok (.positional (Node.contents parts ending)) := by
        simp only [Json.format, byPosition, if_true]
      rw [Schema.read, isRecordPart, ok_bind, isInner, ok_bind]
      exact readPositional_cut fields isCut readsLayout
  object {loose levels} members parts ending value isCut reads := by
    obtain ⟨layout, isRecord, readsLayout⟩ := bind_eq_ok.mp reads
    rcases record_eq_ok isRecord with ⟨_, _, isObject, rfl⟩ | ⟨_, _, isArray, -⟩
    · cases isObject
      obtain ⟨inner, isInner, readsLayout⟩ := bind_eq_ok.mp readsLayout
      have isRecordPart : Json.format.record (!schema.others.areKept) schema.name
          (.object parts ending) = .ok (.keyed (Node.memberContents parts ending)) := rfl
      rw [Schema.read, isRecordPart, ok_bind, isInner, ok_bind]
      exact readKeyed_cut fields isCut readsLayout
    · cases isArray

end Records

/-- The readers of runs find out that a tree is cut. -/
theorem Composed.careful
    {read : Nat → Node → Except Problem α}
    (composed : Composed read) :
    Careful read := by
  induction composed with
  | text expected => exact careful_text expected
  | flag => exact careful_flag
  | instant => exact careful_instant
  | texts => exact careful_texts
  | paramValue => exact careful_paramValue
  | optional _ careful => exact careful_optional careful
  | list _ careful => exact careful_list careful
  | change use _ careful => exact careful_change careful use
  | record schema _ _ fields => exact careful_record fields

/-- No reader of runs accepts a text up to a cut. -/
theorem Composed.decode_cut
    {read : Nat → Node → Except Problem α}
    (composed : Composed read)
    {before after : List Char}
    {value : α}
    (reads : Json.decode read (String.ofList (before ++ after)) = .ok value)
    (leavesOut : ∃ c ∈ after, Json.isBlank c = false) :
    Fails (Json.cutsNumber before after = true) (Json.decode read (String.ofList before)) := by
  simp only [Json.decode, String.toList_ofList] at reads ⊢
  generalize isWhole : Json.nodeOf (before ++ after) = whole at reads
  obtain ⟨node, rest⟩ := whole
  obtain ⟨result, readsNode, readsEnd⟩ := bind_eq_ok.mp reads
  cases rest with
  | none => cases readsEnd
  | some rest =>
      have outcome := Json.nodeOf_cut isWhole
      generalize Json.nodeOf before = read at outcome
      cases outcome with
      | @kept left same =>
          -- The value ends in front of the cut, so only blanks are left out.
          obtain ⟨c, isLeftOut, notBlank⟩ := leavesOut
          have allBlank : Json.skipBlanks rest = [] := by
            simp only [Option.map_some] at readsEnd
            split at readsEnd
            · rename_i blank
              exact Option.some.inj blank
            · cases readsEnd
          have blank := List.dropWhile_eq_nil_iff.mp allBlank c (by simp [same, isLeftOut])
          rw [notBlank] at blank
          cases blank
      | cut isCut => exact (composed.careful.cut _ isCut readsNode).bind _
      | number _ isNumber =>
          rw [isNumber] at readsNode
          exact absurd readsNode (composed.careful.number _ _ _)

end RunManifest.Document
