import RunManifest.Instant.Reader
import RunManifest.Proofs.Document.Members
import RunManifest.Run.Metadata

/-!
Contract: how a document changes by being read and written again.

Owns:
- `Revision`, the changes to the documents of one kind, and `Rule`, what becomes of one member of a
  record;
- `Revision.Follows`, the law that what is written for what was read says the same as the revised
  document, with its instances for flags, instants, dictionaries of texts and lists;
- `Rule.Governs`, the law for one field, with one instance for each kind of field;
- `Revision.follows_record`, the law for records whose fields are governed by rules.

A revised document and a written one say the same if they have the same normal form, that is, if
objects are compared as maps and the last of several values for a key counts.
-/

set_option autoImplicit false

namespace RunManifest

namespace Json.Node

/-- Whether a node is the empty string. -/
def isEmptyText : Node → Bool
  | .text (.ok value) => value.isEmpty
  | _ => false

/-- Whether a node is an array without items. -/
def isEmptyArray : Node → Bool
  | .array [] _ => true
  | _ => false

/-- Whether a node is an object without members. -/
def isEmptyObject : Node → Bool
  | .object [] _ => true
  | _ => false

end Json.Node

namespace Document

open Json (Node)

/-! ## Revisions -/

/-- How the documents of one kind are revised. -/
structure Revision where
  /-- Whether every record in a document is given by key. -/
  keyed : Node → Bool
  /-- Whether no record in a document has two members for one field. -/
  unrepeated : Node → Bool
  /-- The revised document. -/
  revise : Node → Node

/-- What becomes of a member of a record. -/
structure Rule where
  /-- The key of the member. -/
  name : String
  /-- How its value is revised. -/
  revision : Revision
  /-- Whether the member is removed, in view of its revised value. -/
  omits : Node → Bool
  /-- The value of the member that is added where there is none. -/
  added : Option Node

namespace Rule

/-- The rule for a key. -/
def find? (rules : List Rule) (key : Json.Readable String) : Option Rule :=
  rules.find? fun rule => key == .ok rule.name

/-- The value that a member keeps, if it is not removed. -/
def revise (rule : Rule) (node : Node) : Option Node :=
  if rule.omits (rule.revision.revise node) then none else some (rule.revision.revise node)

/-- A revised member. A member without a rule is kept or removed with all others of its kind. -/
def reviseMember
    (rules : List Rule)
    (keepsOthers : Bool)
    (member : Json.Readable String × Node) :
    Option (Json.Readable String × Node) :=
  match find? rules member.1 with
  | some rule => (rule.revise member.2).map fun node => (member.1, node)
  | none => if keepsOthers then some member else none

/-- The value that is added for a rule. -/
def addition (members : List (Json.Readable String × Node)) (rule : Rule) : Option Node :=
  if .ok rule.name ∈ members.map Prod.fst then none else rule.added

/-- The revised members of a record. -/
def reviseMembers
    (rules : List Rule)
    (keepsOthers : Bool)
    (members : List (Json.Readable String × Node)) :
    List (Json.Readable String × Node) :=
  members.filterMap (reviseMember rules keepsOthers) ++
    rules.filterMap fun rule =>
      (addition members rule).map fun node => (Except.ok rule.name, node)

end Rule

namespace Revision

/-- Documents that stay as they are. -/
def whole : Revision where
  keyed _ := true
  unrepeated _ := true
  revise node := node

/-- Strings that are instants, which get the form in which instants are written. -/
def time : Revision where
  keyed _ := true
  unrepeated _ := true
  revise
    | .text (.ok value) =>
        match Instant.read value with
        | .ok instant => .text (.ok instant.text)
        | .error _ => .text (.ok value)
    | node => node

/-- Lists whose items are revised. -/
def list (item : Revision) : Revision where
  keyed
    | .array items _ => items.all item.keyed
    | _ => true
  unrepeated
    | .array items _ => items.all item.unrepeated
    | _ => true
  revise
    | .array items ending => .array (items.map item.revise) ending
    | node => node

/-- Records whose members follow rules. -/
def record (rules : List Rule) (keepsOthers : Bool) : Revision where
  keyed
    | .object members _ => members.all fun member =>
        (Rule.find? rules member.1).all fun rule => rule.revision.keyed member.2
    | _ => false
  unrepeated
    | .object members _ =>
        (rules.all fun rule => (members.map Prod.fst).count (.ok rule.name) ≤ 1) &&
          members.all fun member =>
            (Rule.find? rules member.1).all fun rule => rule.revision.unrepeated member.2
    | _ => true
  revise
    | .object members ending => .object (Rule.reviseMembers rules keepsOthers members) ending
    | node => node

end Revision

namespace Rule

/-- A text that is removed when it is empty. -/
def text (name : String) : Rule :=
  ⟨name, .whole, Node.isEmptyText, none⟩

/-- A member that is removed when it is null. -/
def optional (name : String) (revision : Revision) : Rule :=
  ⟨name, revision, Node.isNull, none⟩

/-- A list that is removed when it is empty. -/
def list (name : String) (item : Revision) : Rule :=
  ⟨name, .list item, Node.isEmptyArray, none⟩

/-- A record that is removed when it is left without content. -/
def content (name : String) (revision : Revision) : Rule :=
  ⟨name, revision, Node.isEmptyObject, none⟩

/-- A member that is never removed, and is there afterwards if a value is given to add. -/
def always (name : String) (revision : Revision) (added : Option Node) : Rule :=
  ⟨name, revision, fun _ => false, added⟩

end Rule

/-! ## The laws -/

variable {α ρ : Type} {levels : Nat}

/-- A node agrees with a document: it can be read whole, and its value has the same normal
form. -/
def Agrees (levels : Nat) (node : Node) (document : Json) : Prop :=
  ∃ value, node.value levels = .ok value ∧ value.normal = document.normal

/-- What is written for what was read, from a document whose records are given by key, says the same
as the revised document. The document has no two members for one field. -/
def Revision.Follows
    (revision : Revision)
    (levels : Nat)
    (read : Nat → Node → Except Problem α)
    (write : α → Json) : Prop :=
  ∀ node value, revision.keyed node = true → read levels node = .ok value →
    revision.unrepeated node = true ∧ Agrees levels (revision.revise node) (write value)

/-- A field does to a record what a rule does to its documents. -/
structure Rule.Governs
    (levels : Nat)
    (blank : ρ)
    (rule : Rule)
    (field : Field (Except Problem) Node ρ) : Prop where
  name : rule.name = field.name
  present : ∀ node change, rule.revision.keyed node = true → field.read levels node = .ok change →
    rule.revision.unrepeated node = true ∧
      ∀ record, Option.Rel (Agrees levels) (rule.revise node) (field.write (change record))
  absent : field.required = true ∨ Option.Rel (Agrees levels) rule.added (field.write blank)

private theorem agrees_text (value : String) : Agrees levels (.text (.ok value)) (.text value) :=
  ⟨.text value, by simp [Node.value, Node.legible], rfl⟩

private theorem value_eq_whole_of_rel
    {node : Node}
    {written : Option Json}
    (agrees : Option.Rel (Agrees levels) (some node) written) :
    node.value levels = .ok (node.whole levels) := by
  cases agrees with
  | some agrees =>
      obtain ⟨value, read, -⟩ := agrees
      exact Node.value_eq_whole read

private theorem Agrees.normal_whole
    {node : Node}
    {document : Json}
    (agrees : Agrees levels node document) :
    (node.whole levels).normal = document.normal := by
  obtain ⟨value, read, same⟩ := agrees
  rw [Node.whole, read]
  exact same

/-! ## Parts -/

namespace Revision

theorem isNull_time (node : Node) : (time.revise node).isNull = node.isNull := by
  simp only [time]
  split
  · split <;> rfl
  · rfl

theorem isNull_list (item : Revision) (node : Node) :
    ((list item).revise node).isNull = node.isNull := by
  cases node <;> rfl

theorem follows_flag : whole.Follows levels (fun _ => Json.format.flag) Json.flag := by
  intro node value _ read
  rw [flag_eq_ok read]
  exact ⟨rfl, .flag value, by simp [whole, Node.value], rfl⟩

theorem follows_instant :
    time.Follows levels (readInstant Json.format) ObjectMeta.writeInstant := by
  intro node instant _ read
  simp only [readInstant, bind_eq_ok] at read
  obtain ⟨value, isText, isInstant⟩ := read
  rw [text_eq_ok isText]
  split at isInstant
  · rename_i sameInstant
    cases isInstant
    refine ⟨rfl, ?_⟩
    simp only [time, sameInstant]
    exact agrees_text instant.text
  · cases isInstant

theorem agrees_empty : Agrees (levels + 1) (.object [] none) (.object []) :=
  ⟨.object [], rfl, rfl⟩

/-- Of several texts with one key the last is left in the normal form, as it is in the dictionary. -/
theorem normal_texts (entries : List (String × String)) :
    (Json.object (entries.map fun entry => (entry.1, Json.text entry.2))).normal =
      (ObjectMeta.writeTexts (.ofList entries)).normal := by
  have same : (Json.object (entries.map fun entry => (entry.1, Json.text entry.2))).normal =
      ObjectMeta.writeTexts (.ofList entries) := by
    rw [Json.normal_object, ObjectMeta.writeTexts, Dictionary.map_ofList, List.map_map]
    rfl
  rw [← same, Json.normal_normal]

theorem follows_texts :
    whole.Follows (levels + 1) (readTexts Json.format) ObjectMeta.writeTexts := by
  intro node texts _ read
  obtain ⟨entries, rfl, rfl⟩ := readTexts_eq_ok read
  refine ⟨rfl, _, ?_, normal_texts entries⟩
  simp only [whole, Node.value, List.mapM_map]
  rw [mapM_eq_ok_map]
  · rfl
  · intro entry _
    simp [Node.legible, Node.value]

theorem follows_list
    {item : Revision}
    {read : Nat → Node → Except Problem α}
    {write : α → Json}
    (follows : item.Follows levels read write) :
    (list item).Follows (levels + 1) (readList Json.format read)
      fun values => .array (values.map write) := by
  intro node values keyed readNode
  obtain ⟨items, rfl, readItems⟩ := readList_eq_ok readNode
  simp only [list] at keyed ⊢
  have each : items.all item.unrepeated = true ∧
      (∀ source ∈ items, (item.revise source).value levels =
        .ok ((item.revise source).whole levels)) ∧
      items.map (fun source => ((item.revise source).whole levels).normal) =
        values.map fun value => (write value).normal := by
    clear readNode
    induction readItems with
    | nil => simp
    | @cons source value items values readItem _ inductionHypothesis =>
        rw [List.all_cons, Bool.and_eq_true] at keyed
        obtain ⟨unrepeated, agrees⟩ := follows source value keyed.1 readItem
        obtain ⟨unrepeatedRest, readRest, sameRest⟩ := inductionHypothesis keyed.2
        refine ⟨?_, ?_, ?_⟩
        · rw [List.all_cons, unrepeated, unrepeatedRest]
          rfl
        · exact List.forall_mem_cons.mpr ⟨value_eq_whole_of_rel (.some agrees), readRest⟩
        · rw [List.map_cons, List.map_cons, sameRest, agrees.normal_whole]
  obtain ⟨unrepeated, readable, same⟩ := each
  refine ⟨unrepeated, .array (items.map fun source => (item.revise source).whole levels), ?_, ?_⟩
  · simp only [Node.value, List.mapM_map, Function.comp_def]
    rw [mapM_eq_ok_map readable]
    rfl
  · simp only [Json.normal, Json.normalItems_eq_map, List.map_map, Json.array.injEq]
    exact same

end Revision

/-! ## Fields -/

namespace Rule

variable {blank : ρ} {name : String}

private theorem rel_ite
    (omitted : Bool)
    {node : Node}
    {document : Json}
    (agrees : Agrees levels node document) :
    Option.Rel (Agrees levels) (if omitted then none else some node)
      (if omitted then none else some document) := by
  cases omitted with
  | false => exact .some agrees
  | true => exact .none

theorem governs_text
    {get : ρ → String}
    {set : String → ρ → ρ}
    (get_set : ∀ value record, get (set value record) = value)
    (isBlank : get blank = "") :
    (text name).Governs levels blank (Field.text Json.format name get set) where
  name := rfl
  present node change _ read := by
    obtain ⟨value, isText, rfl⟩ := map_eq_ok.mp read
    rw [text_eq_ok isText]
    refine ⟨rfl, fun record => ?_⟩
    simp only [Field.text, get_set]
    exact rel_ite value.isEmpty (agrees_text value)
  absent := by
    simp only [Field.text, isBlank]
    exact .inr .none

theorem governs_writtenText
    {required : Bool}
    {get : ρ → String}
    {set : String → ρ → ρ}
    {added : Option Node}
    (get_set : ∀ value record, get (set value record) = value)
    (absent : required = true ∨ added = some (.text (.ok (get blank)))) :
    (always name .whole added).Governs levels blank
      (Field.writtenText Json.format name required get set) where
  name := rfl
  present node change _ read := by
    obtain ⟨value, isText, rfl⟩ := map_eq_ok.mp read
    rw [text_eq_ok isText]
    refine ⟨rfl, fun record => ?_⟩
    simp only [Field.writtenText, get_set]
    exact .some (agrees_text value)
  absent := by
    refine absent.imp id ?_
    rintro rfl
    exact .some (agrees_text _)

theorem governs_optional
    {revision : Revision}
    {readPart : Nat → Node → Except Problem α}
    {writePart : α → Json}
    {get : ρ → Option α}
    {set : Option α → ρ → ρ}
    (follows : revision.Follows levels readPart writePart)
    (onNull : revision.unrepeated .null = true)
    (isNull_revise : ∀ node, (revision.revise node).isNull = node.isNull)
    (get_set : ∀ value record, get (set value record) = value)
    (isBlank : get blank = none) :
    (optional name revision).Governs levels blank
      (Field.optional Json.format name readPart writePart get set) where
  name := rfl
  present node change keyed read := by
    obtain ⟨value, isValue, rfl⟩ := map_eq_ok.mp read
    simp only [readOptional, Json.format, ok_bind] at isValue
    simp only [Field.optional, get_set, revise, optional, isNull_revise]
    split at isValue
    · rename_i isNull
      cases isValue
      refine ⟨?_, fun _ => ?_⟩
      · cases node with
        | null => exact onNull
        | _ => cases isNull
      · rw [if_pos isNull]
        exact .none
    · rename_i notNull
      obtain ⟨part, readPart, same⟩ := bind_eq_ok.mp isValue
      cases same
      obtain ⟨unrepeated, agrees⟩ := follows node part keyed readPart
      refine ⟨unrepeated, fun _ => ?_⟩
      rw [if_neg notNull]
      exact .some agrees
  absent := by
    simp only [Field.optional, isBlank]
    exact .inr .none

theorem governs_list
    {item : Revision}
    {readPart : Nat → Node → Except Problem α}
    {writePart : α → Json}
    {get : ρ → List α}
    {set : List α → ρ → ρ}
    (follows : item.Follows levels readPart writePart)
    (get_set : ∀ value record, get (set value record) = value)
    (isBlank : get blank = []) :
    (list name item).Governs (levels + 1) blank
      (Field.list Json.format name readPart writePart get set) where
  name := rfl
  present node change keyed read := by
    obtain ⟨values, isList, rfl⟩ := map_eq_ok.mp read
    obtain ⟨unrepeated, agrees⟩ := Revision.follows_list follows node values keyed isList
    refine ⟨unrepeated, fun record => ?_⟩
    simp only [Field.list, get_set]
    have omits : ((Revision.list item).revise node).isEmptyArray = values.isEmpty := by
      obtain ⟨items, rfl, readItems⟩ := readList_eq_ok isList
      cases readItems <;> rfl
    rw [← omits]
    exact rel_ite _ agrees
  absent := by
    simp only [Field.list, isBlank]
    exact .inr .none

/-- A part of a record that is always written. -/
theorem governs_part
    {revision : Revision}
    {required : Bool}
    {readPart : Nat → Node → Except Problem α}
    {writePart : α → Json}
    {get : ρ → α}
    {set : α → ρ → ρ}
    {added : Option Node}
    (follows : revision.Follows levels readPart writePart)
    (get_set : ∀ value record, get (set value record) = value)
    (absent : required = true ∨
      ∃ node, added = some node ∧ Agrees levels node (writePart (get blank))) :
    (always name revision added).Governs levels blank
      (Field.part name required readPart writePart (fun _ => false) get set) where
  name := rfl
  present node change keyed read := by
    obtain ⟨value, isValue, rfl⟩ := map_eq_ok.mp read
    obtain ⟨unrepeated, agrees⟩ := follows node value keyed isValue
    refine ⟨unrepeated, fun record => ?_⟩
    simp only [Field.part, get_set]
    exact .some agrees
  absent := by
    refine absent.imp id ?_
    rintro ⟨node, rfl, agrees⟩
    exact .some agrees

/-- A record is left without content exactly if nothing is written for it. -/
theorem isEmptyObject_eq
    {nodes : List (Json.Readable String × Node)}
    {ending : Option Json.Breakage}
    {members : List (String × Json)}
    (agrees : Agrees levels (.object nodes ending) (.object members)) :
    (Node.object nodes ending).isEmptyObject = members.isEmpty := by
  obtain ⟨value, read, same⟩ := agrees
  cases levels with
  | zero => simp [Node.value] at read
  | succ levels =>
      simp only [Node.value, bind_eq_ok, pure_eq_ok, Except.ok.injEq] at read
      obtain ⟨values, readValues, _, _, rfl⟩ := read
      have readEach := forall₂_of_mapM readValues
      cases readEach with
      | nil =>
          rw [Json.normal_object_eq_empty.mp same.symm]
          rfl
      | cons _ _ =>
          cases members with
          | nil => exact absurd (Json.normal_object_eq_empty.mp same) (List.cons_ne_nil _ _)
          | cons _ _ => rfl

/-- A part of a record that is written only when it has content. -/
theorem governs_content
    {rules : List Rule}
    {keepsOthers : Bool}
    {readPart : Nat → Node → Except Problem α}
    {writePart : α → Json}
    {written : α → List (String × Json)}
    {isEmpty : α → Bool}
    {get : ρ → α}
    {set : α → ρ → ρ}
    (follows : (Revision.record rules keepsOthers).Follows levels readPart writePart)
    (writePart_eq : ∀ part, writePart part = .object (written part))
    (isEmpty_eq : ∀ part, isEmpty part = (written part).isEmpty)
    (get_set : ∀ value record, get (set value record) = value)
    (isBlank : isEmpty (get blank) = true) :
    (content name (.record rules keepsOthers)).Governs levels blank
      (Field.part name false readPart writePart isEmpty get set) where
  name := rfl
  present node change keyed read := by
    obtain ⟨value, isValue, rfl⟩ := map_eq_ok.mp read
    obtain ⟨unrepeated, agrees⟩ := follows node value keyed isValue
    refine ⟨unrepeated, fun record => ?_⟩
    simp only [Field.part, get_set]
    cases node with
    | object members ending =>
        rw [writePart_eq] at agrees
        rw [isEmpty_eq, writePart_eq, ← isEmptyObject_eq agrees]
        exact rel_ite _ agrees
    | _ => cases keyed
  absent := by
    simp only [Field.part, isBlank]
    exact .inr .none

end Rule

/-! ## Members and rules -/

namespace Rule

variable
  {schema : Schema (Except Problem) Node ρ}
  {blank : ρ}
  {rules : List Rule}
  {fields : List (Field (Except Problem) Node ρ)}
  {keepsOthers : Bool}
  {members : List (Json.Readable String × Node)}

private theorem rel_find?
    (governed : List.Forall₂ (Governs levels blank) rules fields)
    (key : String) :
    Option.Rel (Governs levels blank) (find? rules (.ok key))
      (fields.find? fun field => field.name == key) := by
  induction governed with
  | nil => exact .none
  | @cons rule field rules fields governs _ inductionHypothesis =>
      by_cases same : field.name = key
      · rw [find?, List.find?_cons_of_pos (by simp [governs.name, same]),
          List.find?_cons_of_pos (by simpa using same)]
        exact .some governs
      · rw [find?, List.find?_cons_of_neg (by simp [governs.name, Ne.symm same]),
          List.find?_cons_of_neg (by simpa using same)]
        exact inductionHypothesis

private theorem map_name
    (governed : List.Forall₂ (Governs levels blank) rules fields) :
    rules.map Rule.name = fields.map Field.name := by
  induction governed with
  | nil => rfl
  | cons governs _ inductionHypothesis =>
      rw [List.map_cons, List.map_cons, governs.name, inductionHypothesis]

/-- A rule is found by its name, and governs a field. -/
theorem exists_field
    (governed : List.Forall₂ (Governs levels blank) rules fields)
    (names : (rules.map Rule.name).Nodup)
    {rule : Rule}
    (isRule : rule ∈ rules) :
    find? rules (.ok rule.name) = some rule ∧ ∃ field ∈ fields, rule.Governs levels blank field := by
  induction governed with
  | nil => cases isRule
  | @cons head field rules fields governs _ inductionHypothesis =>
      rw [List.map_cons, List.nodup_cons] at names
      rcases List.mem_cons.mp isRule with rfl | later
      · exact ⟨List.find?_cons_of_pos (by simp), field, List.mem_cons_self, governs⟩
      · obtain ⟨found, other, isOther, governsOther⟩ := inductionHypothesis names.2 later
        have different : rule.name ≠ head.name := by
          intro same
          exact names.1 (same ▸ List.mem_map_of_mem later)
        refine ⟨?_, other, List.mem_cons_of_mem _ isOther, governsOther⟩
        rw [find?, List.find?_cons_of_neg (by simpa using different)]
        exact found

private theorem fst_eq_of_reviseMember
    {member revised : Json.Readable String × Node}
    (isRevised : reviseMember rules keepsOthers member = some revised) :
    revised.1 = member.1 := by
  rw [reviseMember] at isRevised
  split at isRevised
  · obtain ⟨node, -, rfl⟩ := Option.map_eq_some_iff.mp isRevised
    rfl
  · split at isRevised
    · cases isRevised
      rfl
    · cases isRevised

private theorem last?_filterMap_eq_none
    {key : Json.Readable String}
    (absent : key ∉ members.map Prod.fst) :
    Entries.last? key (members.filterMap (reviseMember rules keepsOthers)) = none := by
  refine Entries.last?_eq_none fun isKey => ?_
  obtain ⟨revised, isRevised, rfl⟩ := List.mem_map.mp isKey
  obtain ⟨member, isMember, became⟩ := List.mem_filterMap.mp isRevised
  rw [fst_eq_of_reviseMember became] at absent
  exact absent (List.mem_map_of_mem isMember)

private theorem last?_additions
    (names : (rules.map Rule.name).Nodup)
    {rule : Rule}
    (isRule : rule ∈ rules) :
    Entries.last? (.ok rule.name : Json.Readable String)
        (rules.filterMap fun rule =>
          (addition members rule).map fun node => (.ok rule.name, node)) =
      addition members rule := by
  have keys : (rules.map fun rule => (.ok rule.name : Json.Readable String)).Nodup := by
    have injective : Function.Injective (Except.ok : String → Json.Readable String) :=
      fun _ _ => Except.ok.inj
    have injected := names.map injective
    rwa [List.map_map] at injected
  exact Entries.last?_filterMap_of_mem (addition members) keys isRule

/-- Where no member has the name of a rule, the revised record has what the rule adds. -/
theorem last?_reviseMembers_of_absent
    (names : (rules.map Rule.name).Nodup)
    {rule : Rule}
    (isRule : rule ∈ rules)
    (absent : .ok rule.name ∉ members.map Prod.fst) :
    Entries.last? (.ok rule.name) (reviseMembers rules keepsOthers members) = rule.added := by
  rw [reviseMembers, Entries.last?_append, last?_additions names isRule,
    last?_filterMap_eq_none absent, addition, if_neg absent, Option.or_none]

/-- Where one member has the name of a rule, the revised record has what the rule makes of it. -/
theorem last?_reviseMembers_of_present
    (names : (rules.map Rule.name).Nodup)
    {rule : Rule}
    (found : find? rules (.ok rule.name) = some rule)
    {earlier later : List (Json.Readable String × Node)}
    {node : Node}
    (shape : members = earlier ++ (.ok rule.name, node) :: later)
    (notEarlier : .ok rule.name ∉ earlier.map Prod.fst)
    (notLater : .ok rule.name ∉ later.map Prod.fst) :
    Entries.last? (.ok rule.name) (reviseMembers rules keepsOthers members) =
      rule.revise node := by
  have isRule : rule ∈ rules := List.mem_of_find?_eq_some found
  have isThere : .ok rule.name ∈ members.map Prod.fst := by simp [shape]
  have here : reviseMember rules keepsOthers (.ok rule.name, node) =
      (rule.revise node).map fun node => (.ok rule.name, node) := by
    simp only [reviseMember, found]
  rw [reviseMembers, Entries.last?_append, last?_additions names isRule, addition, if_pos isThere,
    Option.none_or, shape, List.filterMap_append, Entries.last?_append,
    last?_filterMap_eq_none notEarlier, List.filterMap_cons, here, Option.or_none]
  cases rule.revise node with
  | none => exact last?_filterMap_eq_none notLater
  | some revised => simp [Entries.last?, last?_filterMap_eq_none notLater]

private theorem last?_filterMap_of_unknown
    {key : String}
    (unknown : find? rules (.ok key) = none) :
    Entries.last? (.ok key) (members.filterMap (reviseMember rules keepsOthers)) =
      if keepsOthers then Entries.last? (.ok key) members else none := by
  induction members with
  | nil => simp [Entries.last?]
  | cons member rest inductionHypothesis =>
      have atHead : Entries.last? (.ok key) ([member].filterMap (reviseMember rules keepsOthers)) =
          if keepsOthers then Entries.last? (.ok key) [member] else none := by
        by_cases same : member.1 = .ok key
        · have here : reviseMember rules keepsOthers member =
              if keepsOthers then some member else none := by
            simp only [reviseMember, same, unknown]
          rw [List.filterMap_cons, here]
          cases keepsOthers <;> simp [Entries.last?]
        · rw [last?_filterMap_eq_none (by simpa using Ne.symm same)]
          simp [Entries.last?, same]
      rw [← List.singleton_append, List.filterMap_append, Entries.last?_append, atHead,
        inductionHypothesis, Entries.last?_append]
      cases keepsOthers <;> rfl

/-- Members without a rule are kept as they are, or removed. -/
theorem last?_reviseMembers_of_unknown
    {key : String}
    (unknown : find? rules (.ok key) = none) :
    Entries.last? (.ok key) (reviseMembers rules keepsOthers members) =
      if keepsOthers then Entries.last? (.ok key) members else none := by
  have noAddition : Entries.last? (.ok key : Json.Readable String) (rules.filterMap fun rule =>
      (addition members rule).map fun node => (.ok rule.name, node)) = none := by
    refine Entries.last?_eq_none ?_
    simp only [List.mem_map, List.mem_filterMap, Option.map_eq_some_iff]
    rintro ⟨entry, ⟨rule, isRule, _, _, rfl⟩, same⟩
    exact List.find?_eq_none.mp unknown rule isRule (by simpa using same.symm)
  rw [reviseMembers, Entries.last?_append, noAddition, Option.none_or,
    last?_filterMap_of_unknown unknown]

end Rule

/-! ## Records -/

namespace Revision

theorem value_object
    {members : List (Json.Readable String × Node)}
    (readable : ∀ member ∈ members, (∃ key, member.1 = .ok key) ∧
      member.2.value levels = .ok (member.2.whole levels)) :
    (Node.object members none).value (levels + 1) =
      .ok (.object
        (members.map fun member => (member.1.toOption.getD "", member.2.whole levels))) := by
  simp only [Node.value]
  rw [mapM_eq_ok_map]
  · rfl
  · rintro ⟨name, node⟩ isMember
    obtain ⟨⟨key, rfl⟩, read⟩ := readable _ isMember
    simp only [Node.legible, ok_bind, read]
    rfl

private theorem last?_documents
    (change : Node → Json)
    {members : List (Json.Readable String × Node)}
    (named : ∀ member ∈ members, ∃ key, member.1 = .ok key)
    (key : String) :
    Entries.last? key (members.map fun member => (member.1.toOption.getD "", change member.2)) =
      (Entries.last? (.ok key) members).map change := by
  induction members with
  | nil => rfl
  | cons member rest inductionHypothesis =>
      obtain ⟨isNamed, restNamed⟩ := List.forall_mem_cons.mp named
      obtain ⟨name, isName⟩ := isNamed
      rw [List.map_cons, Entries.last?, inductionHypothesis restNamed, Entries.last?, Option.map_or]
      by_cases same : name = key <;> simp [isName, same, Except.toOption]

section Record

variable
  {schema : Schema (Except Problem) Node ρ}
  {rules : List Rule}
  {members : List (Json.Readable String × Node)}
  {seen : List String}
  {result : ρ}
  (orderly : schema.Orderly)
  (governed : List.Forall₂ (Rule.Governs levels schema.blank) rules schema.fields)
  (keyed : ∀ member ∈ members, ∀ rule, Rule.find? rules member.1 = some rule →
    rule.revision.keyed member.2 = true)
  (reads : schema.Reads levels ⟨[], schema.blank⟩ members ⟨seen, result⟩)
  (required : ∀ field ∈ schema.fields, field.required = true → field.name ∈ seen)

include orderly keyed reads required

/-- What is written for a field is what its rule adds, if no member has its name, or else what the
rule makes of the one member that has it. -/
theorem outcome
    {rule : Rule}
    {field : Field (Except Problem) Node ρ}
    (governs : rule.Governs levels schema.blank field)
    (isField : field ∈ schema.fields)
    (found : Rule.find? rules (.ok rule.name) = some rule) :
    (.ok rule.name ∉ members.map Prod.fst ∧
      Option.Rel (Agrees levels) rule.added (field.write result)) ∨
    ∃ earlier later node, members = earlier ++ (.ok rule.name, node) :: later ∧
      .ok rule.name ∉ earlier.map Prod.fst ∧ .ok rule.name ∉ later.map Prod.fst ∧
      rule.revision.unrepeated node = true ∧
      Option.Rel (Agrees levels) (rule.revise node) (field.write result) := by
  rw [governs.name] at found ⊢
  cases orderly.told isField reads with
  | absent notThere unchanged unseen =>
      refine .inl ⟨notThere, ?_⟩
      rcases governs.absent with isRequired | added
      · exact absurd (unseen (required field isField isRequired)) List.not_mem_nil
      · rw [unchanged]
        exact added
  | present _ earlier later node change record shape notEarlier notLater read now =>
      have isKeyed : rule.revision.keyed node = true :=
        keyed (.ok field.name, node) (by simp [shape]) rule found
      obtain ⟨unrepeated, agrees⟩ := governs.present node change isKeyed read
      refine .inr ⟨earlier, later, node, shape, notEarlier, notLater, unrepeated, ?_⟩
      rw [now]
      exact agrees record

include governed

/-- At every key the revised record has what is written. -/
theorem rel_last?
    (key : String) :
    Option.Rel (Agrees levels)
      (Entries.last? (.ok key) (Rule.reviseMembers rules schema.others.areKept members))
      (Entries.last? key (schema.writtenFields result ++ schema.writtenOthers result)) := by
  have names : (rules.map Rule.name).Nodup := Rule.map_name governed ▸ orderly.names
  have related := Rule.rel_find? governed key
  generalize found : Rule.find? rules (.ok key) = rule? at related
  generalize isField : schema.fields.find? (fun field => field.name == key) = field? at related
  cases related with
  | none =>
      rw [Rule.last?_reviseMembers_of_unknown found, orderly.last?_written_of_unknown reads isField]
      cases others : schema.others with
      | dropped => exact .none
      | kept get put =>
          simp only [Others.areKept, if_true]
          cases last : Entries.last? (.ok key) members with
          | none => exact .none
          | some node =>
              have isMember := Entries.mem_of_last? last
              have read := reads.value_of_unknown others _ isMember key rfl isField
              exact .some ⟨_, read, (Json.normal_normal _).symm⟩
  | @some rule field governs =>
      obtain ⟨isMember, rfl⟩ := Schema.mem_of_field? isField
      rw [orderly.last?_written_of_mem reads isMember]
      rw [← governs.name] at found ⊢
      rcases outcome orderly keyed reads required governs isMember found with
        ⟨absent, agrees⟩ | ⟨earlier, later, node, shape, notEarlier, notLater, -, agrees⟩
      · rw [Rule.last?_reviseMembers_of_absent names (List.mem_of_find?_eq_some found) absent]
        exact agrees
      · rw [Rule.last?_reviseMembers_of_present names found shape notEarlier notLater]
        exact agrees

/-- A member with a rule is the only one of its name. -/
theorem agrees_of_mem
    {key : String}
    {node : Node}
    (isMember : (.ok key, node) ∈ members)
    {rule : Rule}
    (found : Rule.find? rules (.ok key) = some rule) :
    rule.revision.unrepeated node = true ∧
      ∃ written, Option.Rel (Agrees levels) (rule.revise node) written := by
  have names : (rules.map Rule.name).Nodup := Rule.map_name governed ▸ orderly.names
  have sameName : key = rule.name := by simpa using List.find?_some found
  rw [sameName] at found isMember
  obtain ⟨-, field, isField, governs⟩ :=
    Rule.exists_field governed names (List.mem_of_find?_eq_some found)
  rcases outcome orderly keyed reads required governs isField found with
    ⟨absent, -⟩ | ⟨earlier, later, only, rfl, notEarlier, notLater, unrepeated, agrees⟩
  · exact absurd (List.mem_map_of_mem isMember) absent
  · have same : node = only := by
      rcases List.mem_append.mp isMember with isEarlier | here
      · exact absurd (List.mem_map_of_mem isEarlier) notEarlier
      · rcases List.mem_cons.mp here with same | isLater
        · exact congrArg Prod.snd same
        · exact absurd (List.mem_map_of_mem isLater) notLater
    rw [same]
    exact ⟨unrepeated, _, agrees⟩

/-- Every member of the revised record can be read. -/
theorem readable
    (member : Json.Readable String × Node)
    (isMember : member ∈ Rule.reviseMembers rules schema.others.areKept members) :
    (∃ key, member.1 = .ok key) ∧ member.2.value levels = .ok (member.2.whole levels) := by
  have names : (rules.map Rule.name).Nodup := Rule.map_name governed ▸ orderly.names
  rcases List.mem_append.mp isMember with isRevised | isAdded
  · obtain ⟨⟨name, node⟩, isSource, became⟩ := List.mem_filterMap.mp isRevised
    obtain ⟨key, isKey⟩ := reads.exists_key _ isSource
    cases isKey
    refine ⟨⟨key, Rule.fst_eq_of_reviseMember became⟩, ?_⟩
    simp only [Rule.reviseMember] at became
    have related := Rule.rel_find? governed key
    generalize found : Rule.find? rules (.ok key) = rule? at related became
    generalize isField : schema.fields.find? (fun field => field.name == key) = field? at related
    cases related with
    | none =>
        cases others : schema.others with
        | dropped => simp [others, Others.areKept] at became
        | kept get put =>
            simp only [others, Others.areKept, if_true, Option.some.injEq] at became
            cases became
            exact reads.value_of_unknown others _ isSource key rfl isField
    | some governs =>
        obtain ⟨revised, isResult, rfl⟩ := Option.map_eq_some_iff.mp became
        obtain ⟨-, written, agrees⟩ :=
          agrees_of_mem orderly governed keyed reads required isSource found
        exact value_eq_whole_of_rel (isResult ▸ agrees)
  · obtain ⟨rule, isRule, became⟩ := List.mem_filterMap.mp isAdded
    obtain ⟨node, isAddition, rfl⟩ := Option.map_eq_some_iff.mp became
    refine ⟨⟨rule.name, rfl⟩, ?_⟩
    rw [Rule.addition, Option.ite_none_left_eq_some] at isAddition
    obtain ⟨found, field, isField, governs⟩ := Rule.exists_field governed names isRule
    rcases outcome orderly keyed reads required governs isField found with
      ⟨-, agrees⟩ | ⟨earlier, later, only, shape, -⟩
    · exact value_eq_whole_of_rel (isAddition.2 ▸ agrees)
    · exact absurd (by simp [shape]) isAddition.1

/-- No member of the record has the name of another with a rule. -/
theorem unrepeated_members (ending : Option Json.Breakage) :
    (record rules schema.others.areKept).unrepeated (.object members ending) = true := by
  have names : (rules.map Rule.name).Nodup := Rule.map_name governed ▸ orderly.names
  simp only [record, Bool.and_eq_true, List.all_eq_true, decide_eq_true_eq]
  refine ⟨fun rule isRule => ?_, ?_⟩
  · obtain ⟨found, field, isField, governs⟩ := Rule.exists_field governed names isRule
    rcases outcome orderly keyed reads required governs isField found with
      ⟨absent, -⟩ | ⟨earlier, later, node, shape, notEarlier, notLater, -, -⟩
    · rw [List.count_eq_zero_of_not_mem absent]
      exact Nat.zero_le 1
    · rw [shape, List.map_append, List.count_append, List.count_eq_zero_of_not_mem notEarlier,
        List.map_cons, List.count_cons_self, List.count_eq_zero_of_not_mem notLater]
  · rintro ⟨name, node⟩ isMember
    obtain ⟨key, isKey⟩ := reads.exists_key _ isMember
    cases isKey
    cases found : Rule.find? rules (.ok key) with
    | none => rfl
    | some rule => exact (agrees_of_mem orderly governed keyed reads required isMember found).1

end Record

/-- What is written for a record whose fields are governed by rules says the same as the revised
record. -/
theorem follows_record
    {schema : Schema (Except Problem) Node ρ}
    {rules : List Rule}
    {keepsOthers : Bool}
    (orderly : schema.Orderly)
    (governed : List.Forall₂ (Rule.Governs levels schema.blank) rules schema.fields)
    (others : keepsOthers = schema.others.areKept) :
    (record rules keepsOthers).Follows (levels + 1) (schema.read Json.format) schema.write := by
  intro node result keyed read
  subst others
  cases node with
  | object members ending =>
      obtain ⟨rfl, seen, reads, required⟩ := Schema.reads_of_read read
      have keyedMembers : ∀ member ∈ members, ∀ rule, Rule.find? rules member.1 = some rule →
          rule.revision.keyed member.2 = true := by
        intro member isMember rule found
        have isKeyed := List.all_eq_true.mp keyed member isMember
        simpa [found] using isKeyed
      have readable := readable orderly governed keyedMembers reads required
      refine ⟨unrepeated_members orderly governed keyedMembers reads required none,
        _, value_object readable, Json.normal_object_congr fun key => ?_⟩
      rw [last?_documents (Node.whole levels) fun member isMember => (readable member isMember).1]
      have related := rel_last? orderly governed keyedMembers reads required key
      generalize Entries.last? (.ok key : Json.Readable String) _ = revised at related ⊢
      generalize Entries.last? key _ = written at related ⊢
      cases related with
      | none => rfl
      | some agrees => exact congrArg some agrees.normal_whole
  | _ => cases keyed

end Revision

end Document

end RunManifest
