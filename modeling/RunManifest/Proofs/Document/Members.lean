import RunManifest.Proofs.Document.Reading

/-!
Contract: what becomes of the members of a record that is given by key.

Owns:
- `Schema.Reads`, the reading of members one after the other, with one case for each thing that can
  become of a member, and `Schema.reads_of_read`, what reading a record by key amounts to;
- `Schema.Told` and `Schema.Reads.told`, what one field alone changes is as its only member says, or
  as it was, and `Schema.told_of_read_said`, the same for a document with changed strings;
- `Schema.Orderly`, records whose fields and kept members do not touch each other;
- `Schema.Reads.strangers`, the members that a record keeps are those it does not know, and
  `Schema.keeps_of_read`, their values are kept as they are.
-/

set_option autoImplicit false

namespace RunManifest

/-- The value of a node that can be read whole. -/
def Json.Node.whole (levels : Nat) (node : Json.Node) : Json :=
  (node.value levels).toOption.getD .null

theorem Json.Node.value_eq_whole
    {levels : Nat}
    {node : Json.Node}
    {value : Json}
    (read : node.value levels = .ok value) :
    node.value levels = .ok (node.whole levels) := by
  rw [whole, read]
  rfl

namespace Document.Schema

open Json (Node)

variable {ρ : Type} {schema : Schema (Except Problem) Node ρ} {levels : Nat}

/-! ## Reading members -/

/-- Members are read into a record one after the other. A member that the record knows is there for
the first time; any other is passed over or kept. -/
inductive Reads (schema : Schema (Except Problem) Node ρ) (levels : Nat) :
    Progress ρ → List (Json.Readable String × Node) → Progress ρ → Prop where
  | done {progress : Progress ρ} : Reads schema levels progress [] progress
  | known
      {progress after : Progress ρ}
      {key : String}
      {node : Node}
      {rest : List (Json.Readable String × Node)}
      {field : Field (Except Problem) Node ρ}
      {change : ρ → ρ}
      (found : schema.field? key = some field)
      (unseen : key ∉ progress.seen)
      (read : field.read levels node = .ok change)
      (later : Reads schema levels ⟨key :: progress.seen, change progress.record⟩ rest after) :
      Reads schema levels progress ((.ok key, node) :: rest) after
  | dropped
      {progress after : Progress ρ}
      {key : String}
      {node : Node}
      {rest : List (Json.Readable String × Node)}
      (unknown : schema.field? key = none)
      (isDropped : schema.others = .dropped)
      (later : Reads schema levels progress rest after) :
      Reads schema levels progress ((.ok key, node) :: rest) after
  | kept
      {progress after : Progress ρ}
      {key : String}
      {node : Node}
      {rest : List (Json.Readable String × Node)}
      {get : ρ → Dictionary Json}
      {put : Dictionary Json → ρ → ρ}
      {value : Json}
      (unknown : schema.field? key = none)
      (isKept : schema.others = .kept get put)
      (read : node.value levels = .ok value)
      (later : Reads schema levels
        ⟨progress.seen, put ((get progress.record).insert key value.normal) progress.record⟩ rest
        after) :
      Reads schema levels progress ((.ok key, node) :: rest) after

private theorem reads_of_readMembers
    {members : List (Json.Readable String × Node)}
    {progress after : Progress ρ}
    (read : schema.readMembers Json.format levels progress
      (members.map fun member => (Node.legible member.1, member.2)) = .ok after) :
    schema.Reads levels progress members after := by
  induction members generalizing progress with
  | nil =>
      cases read
      exact .done
  | cons member rest inductionHypothesis =>
      obtain ⟨name, node⟩ := member
      simp only [List.map_cons, readMembers, bind_eq_ok] at read
      obtain ⟨key, isKey, next, readMember, readRest⟩ := read
      cases eq_ok_of_legible isKey
      have later := inductionHypothesis readRest
      rcases readMember_cases readMember with
        ⟨field, change, found, unseen, readField, rfl⟩ | ⟨unknown, isDropped, -, rfl⟩
          | ⟨get, put, value, unknown, isKept, readValue, rfl⟩
      · exact .known found unseen readField later
      · exact .dropped unknown isDropped later
      · exact .kept unknown isKept readValue later

/-- Reading a record that is given by key: its members are read into the blank record, nothing is
wrong after them, and every required field was there. -/
theorem reads_of_read
    {members : List (Json.Readable String × Node)}
    {ending : Option Json.Breakage}
    {result : ρ}
    (read : schema.read Json.format (levels + 1) (.object members ending) = .ok result) :
    ending = none ∧ ∃ seen, schema.Reads levels ⟨[], schema.blank⟩ members ⟨seen, result⟩ ∧
      ∀ field ∈ schema.fields, field.required = true → field.name ∈ seen := by
  simp only [Schema.read, Json.format, enter, pure_eq_ok, ok_bind, readKeyed, bind_eq_ok] at read
  obtain ⟨⟨seen, record⟩, readMembers, _, atEnd, readEnd⟩ := read
  have noEnding : ending = none := by
    cases ending with
    | none => rfl
    | some breakage => simp [Node.memberContents, Node.ended] at atEnd
  split at readEnd
  · cases readEnd
  · rename_i noneMissing
    cases readEnd
    refine ⟨noEnding, seen, reads_of_readMembers readMembers, fun field isField isRequired => ?_⟩
    simp only [missing?, Option.map_eq_none_iff, List.find?_eq_none, Bool.and_eq_true,
      Bool.not_eq_true', List.contains_eq_mem, decide_eq_false_iff_not, not_and, not_not]
      at noneMissing
    exact noneMissing field isField isRequired

namespace Reads

variable {progress after : Progress ρ} {members : List (Json.Readable String × Node)}

theorem exists_key (reads : schema.Reads levels progress members after) :
    ∀ member ∈ members, ∃ key, member.1 = .ok key := by
  induction reads with
  | done => simp
  | known _ _ _ _ inductionHypothesis =>
      exact List.forall_mem_cons.mpr ⟨⟨_, rfl⟩, inductionHypothesis⟩
  | dropped _ _ _ inductionHypothesis =>
      exact List.forall_mem_cons.mpr ⟨⟨_, rfl⟩, inductionHypothesis⟩
  | kept _ _ _ _ inductionHypothesis =>
      exact List.forall_mem_cons.mpr ⟨⟨_, rfl⟩, inductionHypothesis⟩

end Reads

/-! ## One field -/

/-- What members tell about a field, and about what it alone changes of a record. Either no member
has its name, and that is as it was; or one member has its name, and no other, and that is as the
member says. -/
inductive Told
    {β : Type}
    (levels : Nat)
    (field : Field (Except Problem) Node ρ)
    (view : ρ → β)
    (progress : Progress ρ)
    (members : List (Json.Readable String × Node))
    (after : Progress ρ) : Prop where
  | absent
      (notThere : .ok field.name ∉ members.map Prod.fst)
      (unchanged : view after.record = view progress.record)
      (unseen : field.name ∈ after.seen → field.name ∈ progress.seen)
  | present
      (fresh : field.name ∉ progress.seen)
      (earlier later : List (Json.Readable String × Node))
      (node : Node)
      (change : ρ → ρ)
      (record : ρ)
      (shape : members = earlier ++ (.ok field.name, node) :: later)
      (notEarlier : .ok field.name ∉ earlier.map Prod.fst)
      (notLater : .ok field.name ∉ later.map Prod.fst)
      (read : field.read levels node = .ok change)
      (now : view after.record = view (change record))

/-- A member with another name tells nothing. -/
theorem Told.cons
    {β : Type}
    {field : Field (Except Problem) Node ρ}
    {view : ρ → β}
    {progress next after : Progress ρ}
    {members : List (Json.Readable String × Node)}
    {key : String}
    {node : Node}
    (told : Told levels field view next members after)
    (different : key ≠ field.name)
    (unchanged : view next.record = view progress.record)
    (seen : next.seen = progress.seen ∨ next.seen = key :: progress.seen) :
    Told levels field view progress ((.ok key, node) :: members) after := by
  have sameSeen : field.name ∈ next.seen ↔ field.name ∈ progress.seen := by
    rcases seen with same | more
    · rw [same]
    · simp [more, Ne.symm different]
  have notHere : (.ok field.name : Json.Readable String) ≠ .ok key :=
    fun equal => different (Except.ok.inj equal).symm
  cases told with
  | absent notThere unchangedLater unseen =>
      exact .absent (by simpa [notHere] using notThere) (unchangedLater.trans unchanged)
        fun isSeen => sameSeen.mp (unseen isSeen)
  | present fresh earlier later found change record shape notEarlier notLater read now =>
      exact .present (fun isSeen => fresh (sameSeen.mpr isSeen)) ((.ok key, node) :: earlier) later
        found change record (by rw [shape]; rfl) (by simpa [notHere] using notEarlier) notLater read
        now

/-- Reading members tells about every field: a field that was seen is not read again. -/
theorem Reads.told
    {β : Type}
    {view : ρ → β}
    {field : Field (Except Problem) Node ρ}
    (found : schema.field? field.name = some field)
    (others : ∀ other ∈ schema.fields, other.name ≠ field.name → ∀ node change,
      other.read levels node = .ok change → ∀ record, view (change record) = view record)
    (aside : ∀ get put, schema.others = .kept get put → ∀ extra record,
      view (put extra record) = view record)
    {progress after : Progress ρ}
    {members : List (Json.Readable String × Node)}
    (reads : schema.Reads levels progress members after) :
    Told levels field view progress members after := by
  induction reads with
  | done => exact .absent List.not_mem_nil rfl id
  | @known progress after key node rest other change isOther unseen read _ inductionHypothesis =>
      obtain ⟨isField, sameName⟩ := mem_of_field? isOther
      by_cases same : key = field.name
      · subst same
        rw [found] at isOther
        cases isOther
        cases inductionHypothesis with
        | absent notThere unchanged _ =>
            exact .present unseen [] rest node change progress.record rfl List.not_mem_nil notThere
              read unchanged
        | present fresh => exact absurd List.mem_cons_self fresh
      · exact inductionHypothesis.cons same
          (others other isField (sameName ▸ same) node change read progress.record) (.inr rfl)
  | dropped unknown _ _ inductionHypothesis =>
      refine inductionHypothesis.cons ?_ rfl (.inl rfl)
      rintro rfl
      rw [found] at unknown
      cases unknown
  | kept unknown isKept _ _ inductionHypothesis =>
      refine inductionHypothesis.cons ?_ (aside _ _ isKept _ _) (.inl rfl)
      rintro rfl
      rw [found] at unknown
      cases unknown

/-- What one field alone changes is, after reading a document with changed strings, as the changed
document of the field says. -/
theorem told_of_read_said
    {β : Type}
    (view : ρ → β)
    {field : Field (Except Problem) Node ρ}
    (isField : field ∈ schema.fields)
    (others : ∀ other ∈ schema.fields, other.name ≠ field.name → ∀ node change,
      other.read levels node = .ok change → ∀ record, view (change record) = view record)
    (aside : ∀ get put, schema.others = .kept get put → ∀ extra record,
      view (put extra record) = view record)
    {said : String → String}
    {source : ρ}
    (noOthers : schema.writtenOthers source = [])
    (names : (schema.fields.map Field.name).Nodup)
    (fixed : ∀ field ∈ schema.fields, said field.name = field.name)
    {document : Json}
    (written : field.write source = some document)
    {result : ρ}
    (read : schema.read Json.format (levels + 1) (Json.saidNode said (schema.write source)) =
      .ok result) :
    ∃ change record, field.read levels (Json.saidNode said document) = .ok change ∧
      view result = view (change record) := by
  rw [Schema.write, noOthers, List.append_nil, Json.saidNode_object] at read
  obtain ⟨-, seen, reads, -⟩ := reads_of_read read
  have isWritten : (field.name, document) ∈ schema.writtenFields source :=
    List.mem_filterMap.mpr ⟨field, isField, by rw [written]; rfl⟩
  cases reads.told (field?_name names isField) others aside with
  | absent notThere =>
      rw [List.map_map] at notThere
      refine absurd (List.mem_map.mpr ⟨_, isWritten, ?_⟩) notThere
      exact congrArg Except.ok (fixed field isField)
  | present _ earlier later node change record shape _ _ readField now =>
      -- The member that was read is the one that was written for the field.
      have isMember : ((.ok field.name : Json.Readable String), node) ∈
          (schema.writtenFields source).map
            fun member => (.ok (said member.1), Json.saidNode said member.2) := by
        rw [shape]
        simp
      obtain ⟨entry, isEntry, same⟩ := List.mem_map.mp isMember
      obtain ⟨other, isOther, otherWritten⟩ := List.mem_filterMap.mp isEntry
      obtain ⟨otherDocument, isDocument, rfl⟩ := Option.map_eq_some_iff.mp otherWritten
      simp only [Prod.mk.injEq, Except.ok.injEq, fixed other isOther] at same
      have found := field?_name names isOther
      rw [same.1, field?_name names isField] at found
      cases found
      rw [written] at isDocument
      cases isDocument
      rw [← same.2] at readField
      exact ⟨change, record, readField, now⟩

/-! ## Orderly records -/

/-- The members that a record keeps are kept apart from its fields. -/
structure Aside
    (schema : Schema (Except Problem) Node ρ)
    (get : ρ → Dictionary Json)
    (put : Dictionary Json → ρ → ρ) : Prop where
  blank : get schema.blank = .empty
  get_put : ∀ extra record, get (put extra record) = extra
  write_put : ∀ field ∈ schema.fields, ∀ extra record,
    field.write (put extra record) = field.write record
  get_read : ∀ field ∈ schema.fields, ∀ levels node change, field.read levels node = .ok change →
    ∀ record, get (change record) = get record

/-- A record whose fields have different names and do not change what is written for each other. -/
structure Orderly (schema : Schema (Except Problem) Node ρ) : Prop where
  names : (schema.fields.map Field.name).Nodup
  write_read : ∀ field ∈ schema.fields, ∀ other ∈ schema.fields, other.name ≠ field.name →
    ∀ levels node change, other.read levels node = .ok change →
    ∀ record, field.write (change record) = field.write record
  aside : ∀ get put, schema.others = .kept get put → schema.Aside get put

/-- What is written for a field is what was written for it, or what its only member makes of it. -/
theorem Orderly.told
    (orderly : schema.Orderly)
    {field : Field (Except Problem) Node ρ}
    (isField : field ∈ schema.fields)
    {progress after : Progress ρ}
    {members : List (Json.Readable String × Node)}
    (reads : schema.Reads levels progress members after) :
    Told levels field field.write progress members after :=
  reads.told (field?_name orderly.names isField)
    (fun other isOther different =>
      orderly.write_read field isField other isOther different levels)
    fun get put isKept => (orderly.aside get put isKept).write_put field isField

/-! ## Kept members -/

/-- The members that a record does not know, with their values in normal form. -/
def strangers
    (schema : Schema (Except Problem) Node ρ)
    (levels : Nat)
    (members : List (Json.Readable String × Node)) :
    List (String × Json) :=
  members.filterMap fun member => member.1.toOption.bind fun key =>
    if (schema.field? key).isSome then none else some (key, (member.2.whole levels).normal)

/-- A record keeps the members that it does not know, and nothing else. -/
theorem Reads.strangers
    {get : ρ → Dictionary Json}
    {put : Dictionary Json → ρ → ρ}
    (isKept : schema.others = .kept get put)
    (aside : schema.Aside get put)
    {progress after : Progress ρ}
    {members : List (Json.Readable String × Node)}
    (reads : schema.Reads levels progress members after) :
    get after.record = (schema.strangers levels members).foldl
      (fun dictionary entry => dictionary.insert entry.1 entry.2) (get progress.record) := by
  induction reads with
  | done => rfl
  | @known progress after key node rest field change found _ read _ inductionHypothesis =>
      rw [inductionHypothesis, aside.get_read field (mem_of_field? found).1 levels node change read]
      simp [Schema.strangers, found, Except.toOption]
  | dropped _ isDropped => simp [isKept] at isDropped
  | @kept progress after key node rest otherGet otherPut value unknown alsoKept read _
      inductionHypothesis =>
      rw [isKept] at alsoKept
      cases alsoKept
      rw [inductionHypothesis, aside.get_put]
      simp [Schema.strangers, unknown, Node.whole, read, Except.toOption]

/-- The value of every member that is kept can be read. -/
theorem Reads.value_of_unknown
    {get : ρ → Dictionary Json}
    {put : Dictionary Json → ρ → ρ}
    (isKept : schema.others = .kept get put)
    {progress after : Progress ρ}
    {members : List (Json.Readable String × Node)}
    (reads : schema.Reads levels progress members after) :
    ∀ member ∈ members, ∀ key, member.1 = .ok key → schema.field? key = none →
      member.2.value levels = .ok (member.2.whole levels) := by
  induction reads with
  | done => simp
  | @known progress after key node rest field change found _ _ _ inductionHypothesis =>
      refine List.forall_mem_cons.mpr ⟨fun other isKey unknown => ?_, inductionHypothesis⟩
      cases isKey
      rw [found] at unknown
      cases unknown
  | dropped _ isDropped => simp [isKept] at isDropped
  | kept _ _ read _ inductionHypothesis =>
      exact List.forall_mem_cons.mpr
        ⟨fun _ _ _ => Node.value_eq_whole read, inductionHypothesis⟩

/-- What is known of the members that a record keeps because it was read. -/
theorem keeps_of_read
    {get : ρ → Dictionary Json}
    {put : Dictionary Json → ρ → ρ}
    (isKept : schema.others = .kept get put)
    (aside : schema.Aside get put)
    {node : Node}
    {result : ρ}
    (inRange : node.InRange)
    (read : schema.read Json.format (levels + 1) node = .ok result) :
    schema.Keeps levels (get result) := by
  refine holds_of_read (fun record => schema.Keeps levels (get record)) ?_ ?_ ?_ inRange read
  · rw [aside.blank]
    exact keeps_empty
  · intro field isField node _ change readField record keeps
    rw [aside.get_read field isField levels node change readField]
    exact keeps
  · intro otherGet otherPut others key value record unknown isOpaque keeps
    rw [isKept] at others
    cases others
    rw [aside.get_put]
    exact keeps.insert unknown isOpaque

/-! ## What is written -/

private theorem last?_strangers (key : String) (members : List (Json.Readable String × Node)) :
    Entries.last? key (schema.strangers levels members) =
      if (schema.field? key).isSome then none
      else (Entries.last? (.ok key) members).map fun node => (node.whole levels).normal := by
  induction members with
  | nil => simp [strangers, Entries.last?]
  | cons member rest inductionHypothesis =>
      obtain ⟨name, node⟩ := member
      have step : schema.strangers levels ((name, node) :: rest) =
          schema.strangers levels [(name, node)] ++ schema.strangers levels rest := by
        rw [strangers, strangers, strangers, ← List.filterMap_append, List.singleton_append]
      rw [step, Entries.last?_append, inductionHypothesis, Entries.last?, Option.map_or]
      cases name with
      | error cause => simp [strangers, Entries.last?, Except.toOption]
      | ok name =>
          by_cases same : name = key
          · subst same
            cases found : schema.field? name <;>
              simp [strangers, Entries.last?, found, Except.toOption]
          · cases found : schema.field? name <;>
              simp [strangers, Entries.last?, found, same, Except.toOption]

private theorem last?_writtenFields_of_mem
    (names : (schema.fields.map Field.name).Nodup)
    {field : Field (Except Problem) Node ρ}
    (isField : field ∈ schema.fields)
    (record : ρ) :
    Entries.last? field.name (schema.writtenFields record) = field.write record := by
  rw [writtenFields]
  exact Entries.last?_filterMap_of_mem
    (fun field : Field (Except Problem) Node ρ => field.write record) names isField

private theorem last?_writtenFields_of_unknown
    {key : String}
    (unknown : schema.field? key = none)
    (record : ρ) :
    Entries.last? key (schema.writtenFields record) = none := by
  refine Entries.last?_eq_none ?_
  simp only [writtenFields, List.mem_map, List.mem_filterMap, Option.map_eq_some_iff]
  rintro ⟨entry, ⟨field, isField, _, _, rfl⟩, rfl⟩
  exact List.find?_eq_none.mp unknown field isField (by simp)

section Written

variable {members : List (Json.Readable String × Node)} {seen : List String} {result : ρ}

/-- The members that are kept with a record are those it does not know. -/
theorem Orderly.last?_writtenOthers
    (orderly : schema.Orderly)
    (reads : schema.Reads levels ⟨[], schema.blank⟩ members ⟨seen, result⟩)
    (key : String) :
    Entries.last? key (schema.writtenOthers result) =
      if schema.others.areKept ∧ schema.field? key = none then
        (Entries.last? (.ok key) members).map fun node => (node.whole levels).normal
      else none := by
  rw [writtenOthers]
  cases others : schema.others with
  | dropped => rfl
  | kept get put =>
      have aside := orderly.aside get put others
      have extra : get result = .ofList (schema.strangers levels members) := by
        have kept := reads.strangers others aside
        rw [aside.blank] at kept
        exact kept
      simp only [extra]
      rw [Dictionary.last?_entries, Dictionary.find?_ofList, ← Entries.last?_eq_lookup_reverse,
        last?_strangers]
      cases schema.field? key <;> rfl

/-- What is written at the name of a field is written for the field. -/
theorem Orderly.last?_written_of_mem
    (orderly : schema.Orderly)
    (reads : schema.Reads levels ⟨[], schema.blank⟩ members ⟨seen, result⟩)
    {field : Field (Except Problem) Node ρ}
    (isField : field ∈ schema.fields) :
    Entries.last? field.name (schema.writtenFields result ++ schema.writtenOthers result) =
      field.write result := by
  rw [Entries.last?_append, last?_writtenFields_of_mem orderly.names isField,
    orderly.last?_writtenOthers reads, field?_name orderly.names isField]
  simp

/-- What is written at any other key is the last value that was given for it, if it is kept. -/
theorem Orderly.last?_written_of_unknown
    (orderly : schema.Orderly)
    (reads : schema.Reads levels ⟨[], schema.blank⟩ members ⟨seen, result⟩)
    {key : String}
    (unknown : schema.field? key = none) :
    Entries.last? key (schema.writtenFields result ++ schema.writtenOthers result) =
      if schema.others.areKept then
        (Entries.last? (.ok key) members).map fun node => (node.whole levels).normal
      else none := by
  rw [Entries.last?_append, last?_writtenFields_of_unknown unknown,
    orderly.last?_writtenOthers reads, unknown]
  simp

end Written

end Document.Schema

end RunManifest
