import RunManifest.Proofs.Document.Restore

/-!
Contract: records are read back from the nodes of what is written for them, in any format whose
nodes tell the values they stand for.

Owns:
- `Faithful`, a format whose nodes do, with numbers of double precision as far as they are exact
  there;
- `Returns`, the law for one kind of part, with its instances for flags, instants, dictionaries of
  texts and lists;
- `Retraces`, a walk along the fields of a record that reads each of them back, with one step for
  each kind of field;
- `Schema.returns_dropped` and `Schema.returns_kept`, the law for records.

The readers here are those of any monad, so that nothing depends on how a format keeps account of
what was read.
-/

set_option autoImplicit false

namespace RunManifest

/-- All numbers of double precision in a value are of a kind. -/
def Json.AllFloats (kind : Binary64 → Prop) (value : Json) : Prop :=
  ∀ x ∈ value.floats, kind x

instance (kind : Binary64 → Prop) [DecidablePred kind] (value : Json) :
    Decidable (value.AllFloats kind) :=
  inferInstanceAs (Decidable (∀ x ∈ value.floats, kind x))

theorem Json.allFloats_array {kind : Binary64 → Prop} {items : List Json} :
    (Json.array items).AllFloats kind ↔ ∀ item ∈ items, item.AllFloats kind := by
  simp only [Json.AllFloats, Json.floats, Json.itemFloats_eq_flatMap, List.mem_flatMap]
  constructor
  · intro all item isItem x occurs
    exact all x ⟨item, isItem, occurs⟩
  · rintro all x ⟨item, isItem, occurs⟩
    exact all item isItem x occurs

theorem Json.allFloats_object {kind : Binary64 → Prop} {members : List (String × Json)} :
    (Json.object members).AllFloats kind ↔ ∀ member ∈ members, member.2.AllFloats kind := by
  simp only [Json.AllFloats, Json.floats, Json.memberFloats_eq_flatMap, List.mem_flatMap]
  constructor
  · intro all member isMember x occurs
    exact all x ⟨member, isMember, occurs⟩
  · rintro all x ⟨member, isMember, occurs⟩
    exact all member isMember x occurs

namespace Document

variable {m : Type → Type} [Monad m] {ν α β ρ : Type}

theorem mapM_eq_pure_map
    [LawfulMonad m]
    {step : α → m β}
    {result : α → β}
    {items : List α}
    (steps : ∀ item ∈ items, step item = pure (result item)) :
    items.mapM step = pure (items.map result) := by
  induction items with
  | nil => rfl
  | cons item rest inductionHypothesis =>
      obtain ⟨here, later⟩ := List.forall_mem_cons.mp steps
      simp only [List.mapM_cons, here, inductionHypothesis later, pure_bind, List.map_cons]

/-- The members of a mapping as a format gives them. -/
def entriesOf (m : Type → Type) [Monad m] (node : Json → ν) (members : List (String × Json)) :
    List (m String × ν) :=
  members.map fun member => (pure member.1, node member.2)

/-- A format whose nodes tell the values they stand for. -/
structure Faithful (format : Format m ν) (node : Json → ν) (told : Binary64 → Prop) : Prop where
  text : ∀ expected text, format.text expected (node (.text text)) = pure text
  flag : ∀ value, format.flag (node (.flag value)) = pure value
  isAbsent : ∀ value, value ≠ .null → format.isAbsent (node value) = pure false
  sequence : ∀ items, ∃ closing,
    format.sequence (node (.array items)) = pure ⟨items.map node, .ok (), closing⟩
  mapping : ∀ members,
    format.mapping (node (.object members)) = pure ⟨entriesOf m node members, .ok ()⟩
  record : ∀ byPosition name members, format.record byPosition name (node (.object members)) =
    pure (.keyed ⟨entriesOf m node members, .ok ()⟩)
  value : ∀ {levels depth : Nat} {value : Json}, value.Fits levels → levels ≤ depth →
    value.AllFloats told → format.value depth (node value) = pure value

/-! ## Parts -/

/-- What is written for a value is read back from its node. -/
def Returns
    (node : Json → ν)
    (told : Binary64 → Prop)
    (depth : Nat)
    (read : Nat → ν → m α)
    (write : α → Json)
    (value : α) : Prop :=
  (write value).AllFloats told → read depth (node (write value)) = pure value

section Parts

variable {format : Format m ν} {node : Json → ν} {told : Binary64 → Prop} {depth : Nat}
  (faithful : Faithful format node told)

include faithful

theorem returns_flag (value : Bool) :
    Returns node told depth (fun _ => format.flag) Json.flag value :=
  fun _ => faithful.flag value

variable [LawfulMonad m] [MonadExceptOf Problem m]

theorem returns_instant (instant : Instant) :
    Returns node told depth (readInstant format) ObjectMeta.writeInstant instant := by
  intro _
  rw [readInstant, ObjectMeta.writeInstant, faithful.text, pure_bind, Instant.read_text]

theorem returns_texts (texts : Dictionary String) :
    Returns node told (depth + 1) (readTexts format) ObjectMeta.writeTexts texts := by
  intro _
  have entries : (entriesOf m node (texts.map Json.text).entries).mapM (fun member => do
      let key ← member.1
      return (key, ← format.text .text member.2)) = pure texts.entries := by
    rw [entriesOf, Dictionary.entries_map, List.map_map, List.mapM_map]
    refine (mapM_eq_pure_map fun entry _ => ?_).trans (by rw [List.map_id'])
    simp only [Function.comp_apply, pure_bind, faithful.text]
  rw [readTexts, ObjectMeta.writeTexts, faithful.mapping]
  simp only [pure_bind, enter, entries, settled, Dictionary.ofList_entries]

theorem returns_list
    {read : Nat → ν → m α}
    {write : α → Json}
    {values : List α}
    (returns : ∀ value ∈ values, Returns node told depth read write value) :
    Returns node told (depth + 1) (readList format read) (fun values => .array (values.map write))
      values := by
  intro allTold
  have items : (((values.map write).map node).mapM (read depth)) = pure values := by
    rw [List.map_map, List.mapM_map]
    refine (mapM_eq_pure_map fun value isValue => ?_).trans (by rw [List.map_id'])
    exact returns value isValue (Json.allFloats_array.mp allTold _ (List.mem_map_of_mem isValue))
  obtain ⟨closing, isSequence⟩ := faithful.sequence (values.map write)
  rw [readList, isSequence]
  simp only [pure_bind, enter, items, settled]

end Parts

/-! ## Fields -/

/-- A walk along fields, from a record to one with the parts of another. What is written for a field
is read back as a change of the record on the way; where nothing is written, that change does
nothing and the field is not required. -/
inductive Retraces (node : Json → ν) (told : Binary64 → Prop) (depth : Nat) (source : ρ) :
    ρ → List (Field m ν ρ) → ρ → Prop where
  | done {record : ρ} : Retraces node told depth source record [] record
  | step
      {record final : ρ}
      {field : Field m ν ρ}
      {fields : List (Field m ν ρ)}
      (change : ρ → ρ)
      (written : ∀ value, field.write source = some value → value.AllFloats told →
        field.read depth (node value) = pure change)
      (omitted : field.write source = none → field.required = false ∧ change record = record)
      (rest : Retraces node told depth source (change record) fields final) :
      Retraces node told depth source record (field :: fields) final

namespace Retraces

variable
  [LawfulMonad m]
  {format : Format m ν}
  {node : Json → ν}
  {told : Binary64 → Prop}
  {depth : Nat}
  {source record final : ρ}
  {fields : List (Field m ν ρ)}
  {name : String}

theorem text
    (faithful : Faithful format node told)
    {get : ρ → String}
    {set : String → ρ → ρ}
    (fresh : set "" record = record)
    (rest : Retraces node told depth source (set (get source) record) fields final) :
    Retraces node told depth source record (Field.text format name get set :: fields) final := by
  refine .step _ ?_ ?_ rest
  · intro value written _
    simp only [Field.text, Option.ite_none_left_eq_some] at written
    rw [← Option.some.inj written.2]
    show set <$> format.text .text _ = _
    rw [faithful.text, map_pure]
  · intro omitted
    have isEmpty : get source = "" := by simpa [Field.text] using omitted
    exact ⟨rfl, by rw [isEmpty, fresh]⟩

theorem writtenText
    (faithful : Faithful format node told)
    {required : Bool}
    {get : ρ → String}
    {set : String → ρ → ρ}
    (rest : Retraces node told depth source (set (get source) record) fields final) :
    Retraces node told depth source record
      (Field.writtenText format name required get set :: fields) final := by
  refine .step _ ?_ ?_ rest
  · intro value written _
    rw [← Option.some.inj written]
    show set <$> format.text .text _ = _
    rw [faithful.text, map_pure]
  · intro omitted
    cases omitted

theorem optional
    (faithful : Faithful format node told)
    {readPart : Nat → ν → m α}
    {writePart : α → Json}
    {get : ρ → Option α}
    {set : Option α → ρ → ρ}
    (returns : ∀ value, Returns node told depth readPart writePart value)
    (present : ∀ value, writePart value ≠ .null)
    (fresh : set none record = record)
    (rest : Retraces node told depth source (set (get source) record) fields final) :
    Retraces node told depth source record
      (Field.optional format name readPart writePart get set :: fields) final := by
  refine .step _ ?_ ?_ rest
  · intro document written allTold
    simp only [Field.optional, Option.map_eq_some_iff] at written
    obtain ⟨value, isValue, rfl⟩ := written
    have read :
        readOptional format readPart depth (node (writePart value)) = pure (some value) := by
      rw [readOptional, faithful.isAbsent _ (present value), pure_bind, returns value allTold]
      simp
    show set <$> readOptional format readPart depth _ = _
    rw [read, map_pure, isValue]
  · intro omitted
    have isNone : get source = none := by simpa [Field.optional] using omitted
    exact ⟨rfl, by rw [isNone, fresh]⟩

theorem list
    [MonadExceptOf Problem m]
    (faithful : Faithful format node told)
    {readPart : Nat → ν → m α}
    {writePart : α → Json}
    {get : ρ → List α}
    {set : List α → ρ → ρ}
    (returns : ∀ value ∈ get source, Returns node told depth readPart writePart value)
    (fresh : set [] record = record)
    (rest : Retraces node told (depth + 1) source (set (get source) record) fields final) :
    Retraces node told (depth + 1) source record
      (Field.list format name readPart writePart get set :: fields) final := by
  refine .step _ ?_ ?_ rest
  · intro document written allTold
    simp only [Field.list, Option.ite_none_left_eq_some] at written
    obtain ⟨-, isArray⟩ := written
    rw [← Option.some.inj isArray] at allTold ⊢
    show set <$> readList format readPart (depth + 1) _ = _
    rw [returns_list faithful returns allTold, map_pure]
  · intro omitted
    have isEmpty : get source = [] := by simpa [Field.list] using omitted
    exact ⟨rfl, by rw [isEmpty, fresh]⟩

theorem part
    {required : Bool}
    {readPart : Nat → ν → m α}
    {writePart : α → Json}
    {isEmpty : α → Bool}
    {get : ρ → α}
    {set : α → ρ → ρ}
    (returns : Returns node told depth readPart writePart (get source))
    (fresh : isEmpty (get source) = true → required = false ∧ set (get source) record = record)
    (rest : Retraces node told depth source (set (get source) record) fields final) :
    Retraces node told depth source record
      (Field.part name required readPart writePart isEmpty get set :: fields) final := by
  refine .step _ ?_ ?_ rest
  · intro document written allTold
    simp only [Field.part, Option.ite_none_left_eq_some] at written
    obtain ⟨-, isPart⟩ := written
    rw [← Option.some.inj isPart] at allTold ⊢
    show set <$> readPart depth _ = _
    rw [returns allTold, map_pure]
  · intro omitted
    exact fresh (by simpa [Field.part] using omitted)

end Retraces

/-! ## Records -/

namespace Schema

variable
  [MonadExceptOf Problem m]
  {schema : Schema m ν ρ}
  {format : Format m ν}
  {node : Json → ν}
  {told : Binary64 → Prop}
  {depth : Nat}

/-- Reading what is written for fields goes along the walk that reads them back, and leaves the
members behind them to be read. -/
theorem readMembers_of_retraces
    [LawfulMonad m]
    (format : Format m ν)
    {source record final : ρ}
    {fields : List (Field m ν ρ)}
    (retraces : Retraces node told depth source record fields final)
    (known : ∀ field ∈ fields, schema.field? field.name = some field)
    (names : (fields.map Field.name).Nodup)
    (allTold : ∀ field ∈ fields, ∀ value, field.write source = some value → value.AllFloats told)
    {seen : List String}
    (unseen : ∀ field ∈ fields, field.name ∉ seen)
    (later : List (m String × ν)) :
    ∃ after, seen ⊆ after ∧ (∀ field ∈ fields, field.required → field.name ∈ after) ∧
      schema.readMembers format depth ⟨seen, record⟩
        (entriesOf m node (fields.filterMap fun field =>
          (field.write source).map fun value => (field.name, value)) ++ later) =
      schema.readMembers format depth ⟨after, final⟩ later := by
  -- Along the walk the names of the fields that were written have been seen, and no later field has
  -- one of them, so no member is read twice.
  induction retraces generalizing seen with
  | done => exact ⟨seen, List.Subset.refl _, by simp, by simp [entriesOf]⟩
  | @step record final field fields change written omitted _ inductionHypothesis =>
      rw [List.map_cons, List.nodup_cons] at names
      obtain ⟨isKnown, knownRest⟩ := List.forall_mem_cons.mp known
      obtain ⟨isTold, toldRest⟩ := List.forall_mem_cons.mp allTold
      obtain ⟨isUnseen, unseenRest⟩ := List.forall_mem_cons.mp unseen
      cases document : field.write source with
      | none =>
          obtain ⟨notRequired, unchanged⟩ := omitted document
          rw [unchanged] at inductionHypothesis
          obtain ⟨after, larger, required, same⟩ :=
            inductionHypothesis knownRest names.2 toldRest unseenRest
          refine ⟨after, larger, List.forall_mem_cons.mpr ⟨?_, required⟩, ?_⟩
          · intro isRequired
            rw [notRequired] at isRequired
            cases isRequired
          · rw [List.filterMap_cons_none (by rw [document]; rfl)]
            exact same
      | some value =>
          have read := written value document (isTold value document)
          have unseenHere : ∀ other ∈ fields, other.name ∉ field.name :: seen := by
            intro other isOther
            rw [List.mem_cons, not_or]
            refine ⟨fun sameName => ?_, unseenRest other isOther⟩
            exact names.1 (sameName ▸ List.mem_map_of_mem isOther)
          obtain ⟨after, larger, required, same⟩ :=
            inductionHypothesis knownRest names.2 toldRest unseenHere
          refine ⟨after, fun name isSeen => larger (List.mem_cons_of_mem _ isSeen),
            List.forall_mem_cons.mpr ⟨fun _ => larger List.mem_cons_self, required⟩, ?_⟩
          have notSeen : seen.contains field.name = false := by simpa using isUnseen
          rw [List.filterMap_cons_some (by rw [document]; rfl)]
          simp only [entriesOf, List.map_cons, List.cons_append, readMembers, pure_bind, readMember,
            isKnown, notSeen, Bool.false_eq_true, if_false, read]
          exact same

/-- Members that a record keeps are read into it. -/
theorem readMembers_entriesOf
    [LawfulMonad m]
    (faithful : Faithful format node told)
    {get : ρ → Dictionary Json}
    {put : Dictionary Json → ρ → ρ}
    (isKept : schema.others = .kept get put)
    (keeping : Keeping get put)
    {levels : Nat}
    (enough : levels ≤ depth)
    {entries : List (String × Json)}
    (unknown : ∀ entry ∈ entries, schema.field? entry.1 = none ∧ Json.Opaque levels entry.2)
    (allTold : ∀ entry ∈ entries, entry.2.AllFloats told)
    (seen : List String)
    (record : ρ) :
    schema.readMembers format depth ⟨seen, record⟩ (entriesOf m node entries) =
      pure ⟨seen, put (entries.foldl (fun dictionary entry => dictionary.insert entry.1 entry.2)
        (get record)) record⟩ := by
  induction entries generalizing record with
  | nil => simp [entriesOf, readMembers, keeping.put_get]
  | cons entry rest inductionHypothesis =>
      obtain ⟨⟨isUnknown, isOpaque⟩, unknownRest⟩ := List.forall_mem_cons.mp unknown
      obtain ⟨isTold, toldRest⟩ := List.forall_mem_cons.mp allTold
      have value := faithful.value isOpaque.fits enough isTold
      have later := inductionHypothesis unknownRest toldRest
        (put ((get record).insert entry.1 entry.2) record)
      rw [keeping.get_put, keeping.put_put] at later
      rw [entriesOf] at later ⊢
      simp only [List.map_cons, readMembers, pure_bind, readMember, isUnknown, isKept, value,
        isOpaque.normal]
      exact later

/-- A record whose fields are read back, and then its other members, is read back. -/
theorem returns_of_retraces
    [LawfulMonad m]
    (faithful : Faithful format node told)
    {source final : ρ}
    (names : (schema.fields.map Field.name).Nodup)
    (retraces : Retraces node told depth source schema.blank schema.fields final)
    (others : ∀ seen, (∀ entry ∈ schema.writtenOthers source, entry.2.AllFloats told) →
      schema.readMembers format depth ⟨seen, final⟩
        (entriesOf m node (schema.writtenOthers source)) = pure ⟨seen, source⟩) :
    Returns node told (depth + 1) (schema.read format) schema.write source := by
  intro allTold
  have toldMembers := Json.allFloats_object.mp allTold
  have toldFields : ∀ field ∈ schema.fields, ∀ value, field.write source = some value →
      value.AllFloats told := by
    intro field isField value written
    refine toldMembers (field.name, value) (List.mem_append_left _ ?_)
    exact List.mem_filterMap.mpr ⟨field, isField, by rw [written]; rfl⟩
  have toldOthers : ∀ entry ∈ schema.writtenOthers source, entry.2.AllFloats told :=
    fun entry isEntry => toldMembers entry (List.mem_append_right _ isEntry)
  obtain ⟨after, -, required, same⟩ := readMembers_of_retraces format retraces
    (fun field isField => field?_name names isField) names toldFields
    (fun field _ => List.not_mem_nil) (entriesOf m node (schema.writtenOthers source))
  have split : entriesOf m node (schema.writtenFields source ++ schema.writtenOthers source) =
      entriesOf m node (schema.writtenFields source) ++
        entriesOf m node (schema.writtenOthers source) := List.map_append
  rw [Schema.read, Schema.write, faithful.record]
  rw [writtenFields] at split
  simp only [pure_bind, enter, readKeyed, writtenFields, split, same, others after toldOthers,
    settled, missing?_eq_none required]

/-- A record that drops other members is read back. -/
theorem returns_dropped
    [LawfulMonad m]
    (faithful : Faithful format node told)
    {source : ρ}
    (isDropped : schema.others = .dropped)
    (names : (schema.fields.map Field.name).Nodup)
    (retraces : Retraces node told depth source schema.blank schema.fields source) :
    Returns node told (depth + 1) (schema.read format) schema.write source := by
  have noOthers : schema.writtenOthers source = [] := by rw [writtenOthers, isDropped]
  refine returns_of_retraces faithful names retraces fun seen _ => ?_
  rw [noOthers]
  rfl

omit [Monad m] [MonadExceptOf Problem m] in
/-- Records of one kind know the same members in all formats. -/
theorem field?_eq_none
    {other : Schema (Except Problem) Json.Node ρ}
    (names : other.fields.map Field.name = schema.fields.map Field.name)
    {key : String}
    (unknown : other.field? key = none) :
    schema.field? key = none := by
  have absent : ∀ name ∈ schema.fields.map Field.name, name ≠ key := by
    rw [← names]
    intro name isName
    obtain ⟨field, isField, rfl⟩ := List.mem_map.mp isName
    simpa using List.find?_eq_none.mp unknown field isField
  refine List.find?_eq_none.mpr fun field isField => ?_
  simpa using absent field.name (List.mem_map_of_mem isField)

/-- A record that keeps other members is read back with them. -/
theorem returns_kept
    [LawfulMonad m]
    (faithful : Faithful format node told)
    {get : ρ → Dictionary Json}
    {put : Dictionary Json → ρ → ρ}
    {source final : ρ}
    (isKept : schema.others = .kept get put)
    (keeping : Keeping get put)
    (names : (schema.fields.map Field.name).Nodup)
    (retraces : Retraces node told depth source schema.blank schema.fields final)
    (fresh : get final = .empty)
    (isSource : put (get source) final = source)
    {other : Schema (Except Problem) Json.Node ρ}
    (sameNames : other.fields.map Field.name = schema.fields.map Field.name)
    {levels : Nat}
    (enough : levels ≤ depth)
    (keeps : other.Keeps levels (get source)) :
    Returns node told (depth + 1) (schema.read format) schema.write source := by
  have areOthers : schema.writtenOthers source = (get source).entries := by
    rw [writtenOthers, isKept]
  have unknown : ∀ entry ∈ (get source).entries, schema.field? entry.1 = none ∧
      Json.Opaque levels entry.2 := fun entry isEntry =>
    ⟨field?_eq_none sameNames (keeps entry isEntry).1, (keeps entry isEntry).2⟩
  refine returns_of_retraces faithful names retraces fun seen allTold => ?_
  rw [areOthers] at allTold ⊢
  rw [readMembers_entriesOf faithful isKept keeping enough unknown allTold, fresh,
    ← Dictionary.ofList, Dictionary.ofList_entries, isSource]

end Schema

end Document

end RunManifest
