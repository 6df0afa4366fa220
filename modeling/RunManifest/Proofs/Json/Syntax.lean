import RunManifest.Proofs.Json.Grammar

/-!
Contract: the texts that are JSON values by the grammar alone.

Owns:
- `IsValue`, the grammar of values, and `IsValueText`, the same with blanks around them. Numbers may
  be too large and strings may have surrogates without a partner, so such a text need not have a
  value;
- `ReadsText`, a text has a tree, whatever follows it, and `exists_readsText`, every text of a value
  has one;
- `arrayText` and `objectText`, texts of values in brackets and behind keys, with
  `decode_arrayText` and `decode_objectText`, the trees that are read from them.
-/

set_option autoImplicit false

namespace RunManifest.Json

open Text

/-! ## The grammar -/

/-- A text with what stands around it. -/
structure Padded where
  before : List Char
  text : List Char
  after : List Char

namespace Padded

/-- The whole text. -/
def chars (padded : Padded) : List Char :=
  padded.before ++ (padded.text ++ padded.after)

/-- Only blanks stand around the text. -/
structure Blank (padded : Padded) : Prop where
  before : Blanks padded.before
  after : Blanks padded.after

end Padded

/-- Texts with commas between them. -/
def joined : List (List Char) → List Char
  | [] => []
  | [first] => first
  | first :: second :: rest => first ++ ',' :: joined (second :: rest)

/-- The text of a string, whatever units it has. -/
def IsString (text : List Char) : Prop :=
  ∃ body pieces, text = '\"' :: body ∧ Scanned body pieces []

/-- The text of a value. -/
inductive IsValue : List Char → Prop where
  | null : IsValue "null".toList
  | flag (value : Bool) : IsValue (if value then "true".toList else "false".toList)
  | number {digits : NumberText} {text : List Char} (spells : SpellsNumber digits text) :
      IsValue text
  | string {text : List Char} (isString : IsString text) : IsValue text
  | emptyArray {blanks : List Char} (areBlank : Blanks blanks) : IsValue ('[' :: (blanks ++ [']']))
  | array
      {items : List Padded}
      (nonempty : items ≠ [])
      (blank : ∀ item ∈ items, item.Blank)
      (values : ∀ item ∈ items, IsValue item.text) :
      IsValue ('[' :: (joined (items.map Padded.chars) ++ [']']))
  | emptyObject {blanks : List Char} (areBlank : Blanks blanks) :
      IsValue ('\x7b' :: (blanks ++ ['\x7d']))
  | object
      {members : List (Padded × Padded)}
      (nonempty : members ≠ [])
      (blank : ∀ member ∈ members, member.1.Blank ∧ member.2.Blank)
      (keys : ∀ member ∈ members, IsString member.1.text)
      (values : ∀ member ∈ members, IsValue member.2.text) :
      IsValue ('\x7b' ::
        (joined (members.map fun member => member.1.chars ++ ':' :: member.2.chars) ++ ['\x7d']))

/-- The text of a value with blanks around it. -/
def IsValueText (text : List Char) : Prop :=
  ∃ padded : Padded, text = padded.chars ∧ padded.Blank ∧ IsValue padded.text

/-! ## Texts with a tree -/

/-- A text is read as a tree up to blanks, whatever follows that does not prolong a number. -/
def ReadsText (node : Node) (text : List Char) : Prop :=
  ∀ fuel rest, 2 * text.length ≤ fuel → EndsNumber rest →
    ∃ after, readNode fuel (text ++ rest) = (node, some after) ∧ skipBlanks after = skipBlanks rest

/-- A text is read as the key of a member up to blanks, whatever follows. -/
def ReadsKey (key : Readable String) (text : List Char) : Prop :=
  ∀ rest, ∃ body after, skipBlanks (text ++ rest) = '\"' :: body ∧
    scanString body = .ok (key, after) ∧ skipBlanks after = skipBlanks rest

/-- A text is read as a member: a key, a colon and a value. -/
def ReadsMember (member : Readable String × Node) (text : List Char) : Prop :=
  ∃ key value, text = key ++ ':' :: value ∧ ReadsKey member.1 key ∧ ReadsText member.2 value

theorem ReadsText.padded
    {padded : Padded}
    (blank : padded.Blank)
    {node : Node}
    (reads : ReadsText node padded.text) :
    ReadsText node padded.chars := by
  intro fuel rest enough ends
  simp only [Padded.chars, List.length_append] at enough
  obtain ⟨after, readsNode, sameFront⟩ := reads fuel (padded.after ++ rest) (by omega)
    (endsNumber_of_blanks blank.after ends)
  refine ⟨after, ?_, sameFront.trans (skipBlanks_of_blanks blank.after rest)⟩
  simp only [Padded.chars, List.append_assoc]
  rwa [readNode_of_blanks blank.before]

theorem ReadsKey.padded
    {padded : Padded}
    (blank : padded.Blank)
    {key : Readable String}
    (reads : ReadsKey key padded.text) :
    ReadsKey key padded.chars := by
  intro rest
  obtain ⟨body, after, front, scans, sameFront⟩ := reads (padded.after ++ rest)
  refine ⟨body, after, ?_, scans, sameFront.trans (skipBlanks_of_blanks blank.after rest)⟩
  simp only [Padded.chars, List.append_assoc]
  rwa [skipBlanks_of_blanks blank.before]

/-- What has a tree begins neither with nothing nor with the end of an array. -/
theorem ReadsText.exists_front
    {node : Node}
    {text : List Char}
    (reads : ReadsText node text)
    {rest : List Char}
    (ends : EndsNumber rest) :
    ∃ c behind, skipBlanks (text ++ rest) = c :: behind ∧ c ≠ ']' := by
  obtain ⟨after, readsNode, -⟩ := reads (2 * text.length + 1) rest (by omega) ends
  obtain ⟨c, behind, front, readsFront⟩ := readNode_eq_some readsNode
  refine ⟨c, behind, front, ?_⟩
  rintro rfl
  simp [readFront] at readsFront

private theorem readItems_skipBlanks (fuel : Nat) (text : List Char) :
    readItems fuel (skipBlanks text) = readItems fuel text := by
  have areBlank : Blanks (text.takeWhile isBlank) := fun c isMember => List.mem_takeWhile_imp isMember
  have split : text.takeWhile isBlank ++ skipBlanks text = text := List.takeWhile_append_dropWhile
  rw [← readItems_of_blanks areBlank, split]

private theorem readMembers_skipBlanks (fuel : Nat) (text : List Char) :
    readMembers fuel (skipBlanks text) = readMembers fuel text := by
  have areBlank : Blanks (text.takeWhile isBlank) := fun c isMember => List.mem_takeWhile_imp isMember
  have split : text.takeWhile isBlank ++ skipBlanks text = text := List.takeWhile_append_dropWhile
  rw [← readMembers_of_blanks areBlank, split]

/-! ## Containers -/

private theorem readItems_joined
    {nodes : List Node}
    {texts : List (List Char)}
    (each : List.Forall₂ ReadsText nodes texts)
    (nonempty : texts ≠ [])
    (fuel : Nat)
    (rest : List Char)
    (enough : 2 * (joined texts).length + 1 ≤ fuel) :
    readItems fuel (joined texts ++ ']' :: rest) = ⟨nodes, none, some rest⟩ := by
  induction each generalizing fuel with
  | nil => exact absurd rfl nonempty
  | @cons node text nodes texts reads others inductionHypothesis =>
      obtain ⟨fuel, rfl⟩ : ∃ smaller, fuel = smaller + 1 := ⟨fuel - 1, by omega⟩
      cases others with
      | nil =>
          obtain ⟨after, readsNode, front⟩ := reads fuel (']' :: rest) (by simp [joined] at enough; omega)
            (by simp)
          rw [joined, readItems_of_item readsNode, readAfterItem_of_close front]
      | @cons next following nodes texts readsNext others =>
          simp only [joined, List.length_append, List.length_cons] at enough
          obtain ⟨after, readsNode, front⟩ := reads fuel
            (',' :: (joined (following :: texts) ++ ']' :: rest)) (by omega) (by simp)
          have readsOthers := inductionHypothesis (by simp) fuel (by omega)
          simp only [joined, List.append_assoc, List.cons_append]
          rw [readItems_of_item readsNode, readAfterItem_of_comma front, readsOthers]

private theorem readMembers_joined
    {members : List (Readable String × Node)}
    {texts : List (List Char)}
    (each : List.Forall₂ ReadsMember members texts)
    (nonempty : texts ≠ [])
    (fuel : Nat)
    (rest : List Char)
    (enough : 2 * (joined texts).length + 1 ≤ fuel) :
    readMembers fuel (joined texts ++ '\x7d' :: rest) = ⟨members, none, some rest⟩ := by
  induction each generalizing fuel with
  | nil => exact absurd rfl nonempty
  | @cons member text members texts reads others inductionHypothesis =>
      obtain ⟨fuel, rfl⟩ : ∃ smaller, fuel = smaller + 1 := ⟨fuel - 1, by omega⟩
      obtain ⟨key, value, rfl, readsKey, readsValue⟩ := reads
      cases others with
      | nil =>
          simp only [joined, List.length_append, List.length_cons] at enough
          obtain ⟨body, afterKey, front, scans, colon⟩ := readsKey (':' :: (value ++ '\x7d' :: rest))
          obtain ⟨after, readsNode, close⟩ := readsValue fuel ('\x7d' :: rest) (by omega) (by simp)
          simp only [joined, List.append_assoc, List.cons_append]
          rw [readMembers_of_key front scans, readAfterKey_of_value colon readsNode,
            readAfterMember_of_close close]
      | @cons next following members texts readsNext others =>
          simp only [joined, List.length_append, List.length_cons] at enough
          obtain ⟨body, afterKey, front, scans, colon⟩ := readsKey
            (':' :: (value ++ ',' :: (joined (following :: texts) ++ '\x7d' :: rest)))
          obtain ⟨after, readsNode, comma⟩ := readsValue fuel
            (',' :: (joined (following :: texts) ++ '\x7d' :: rest)) (by omega) (by simp)
          have readsOthers := inductionHypothesis (by simp) fuel (by omega)
          simp only [joined, List.append_assoc, List.cons_append]
          rw [readMembers_of_key front scans, readAfterKey_of_value colon readsNode,
            readAfterMember_of_comma comma, readsOthers]

/-- Texts in brackets are read as an array. -/
theorem readsText_array
    {nodes : List Node}
    {texts : List (List Char)}
    (each : List.Forall₂ ReadsText nodes texts)
    (nonempty : texts ≠ []) :
    ReadsText (.array nodes none) ('[' :: (joined texts ++ [']'])) := by
  intro fuel rest enough _
  obtain ⟨fuel, rfl⟩ : ∃ smaller, fuel = smaller + 1 := ⟨fuel - 1, by simp at enough; omega⟩
  refine ⟨rest, ?_, rfl⟩
  have readsItems := readItems_joined each nonempty fuel rest (by simp at enough; omega)
  obtain ⟨c, behind, front, notClose⟩ : ∃ c behind,
      skipBlanks (joined texts ++ ']' :: rest) = c :: behind ∧ c ≠ ']' := by
    cases each with
    | nil => exact absurd rfl nonempty
    | cons reads others =>
        cases others with
        | nil => exact reads.exists_front (by simp)
        | cons next others =>
            simp only [joined, List.append_assoc, List.cons_append]
            exact reads.exists_front (by simp)
  rw [← readItems_skipBlanks, front] at readsItems
  rw [List.cons_append, List.append_assoc, List.singleton_append, readNode_of_bracket,
    readArray_of_items front notClose, readsItems]

/-- Members in braces are read as an object. -/
theorem readsText_object
    {members : List (Readable String × Node)}
    {texts : List (List Char)}
    (each : List.Forall₂ ReadsMember members texts)
    (nonempty : texts ≠ []) :
    ReadsText (.object members none) ('\x7b' :: (joined texts ++ ['\x7d'])) := by
  intro fuel rest enough _
  obtain ⟨fuel, rfl⟩ : ∃ smaller, fuel = smaller + 1 := ⟨fuel - 1, by simp at enough; omega⟩
  refine ⟨rest, ?_, rfl⟩
  have readsMembers := readMembers_joined each nonempty fuel rest (by simp at enough; omega)
  obtain ⟨body, front⟩ : ∃ body, skipBlanks (joined texts ++ '\x7d' :: rest) = '\"' :: body := by
    cases each with
    | nil => exact absurd rfl nonempty
    | cons reads others =>
        obtain ⟨key, value, rfl, readsKey, -⟩ := reads
        cases others with
        | nil =>
            simp only [joined, List.append_assoc, List.cons_append]
            obtain ⟨body, -, front, -⟩ := readsKey (':' :: (value ++ '\x7d' :: rest))
            exact ⟨body, front⟩
        | @cons _ next _ texts _ others =>
            simp only [joined, List.append_assoc, List.cons_append]
            obtain ⟨body, -, front, -⟩ := readsKey
              (':' :: (value ++ ',' :: (joined (next :: texts) ++ '\x7d' :: rest)))
            exact ⟨body, front⟩
  rw [← readMembers_skipBlanks, front] at readsMembers
  rw [List.cons_append, List.append_assoc, List.singleton_append, readNode_of_brace,
    readObject_of_members front (by decide), readsMembers]

private theorem readsText_emptyArray {blanks : List Char} (areBlank : Blanks blanks) :
    ReadsText (.array [] none) ('[' :: (blanks ++ [']'])) := by
  intro fuel rest enough _
  obtain ⟨fuel, rfl⟩ : ∃ smaller, fuel = smaller + 1 := ⟨fuel - 1, by simp at enough; omega⟩
  refine ⟨rest, ?_, rfl⟩
  rw [List.cons_append, List.append_assoc, readNode_of_bracket]
  exact readArray_of_close (skipBlanks_of_blanks areBlank _) fuel

private theorem readsText_emptyObject {blanks : List Char} (areBlank : Blanks blanks) :
    ReadsText (.object [] none) ('\x7b' :: (blanks ++ ['\x7d'])) := by
  intro fuel rest enough _
  obtain ⟨fuel, rfl⟩ : ∃ smaller, fuel = smaller + 1 := ⟨fuel - 1, by simp at enough; omega⟩
  refine ⟨rest, ?_, rfl⟩
  rw [List.cons_append, List.append_assoc, readNode_of_brace]
  exact readObject_of_close (skipBlanks_of_blanks areBlank _) fuel

/-! ## Every text of a value has a tree -/

theorem Scanned.append
    {text rest : List Char}
    {pieces : List Piece}
    (scanned : Scanned text pieces rest)
    (more : List Char) :
    Scanned (text ++ more) pieces (rest ++ more) := by
  induction scanned with
  | quote rest => exact .quote _
  | plain isPlain _ inductionHypothesis => exact .plain isPlain inductionHypothesis
  | short isEscape _ inductionHypothesis => exact .short isEscape inductionHypothesis
  | unit isCode _ inductionHypothesis => exact .unit isCode inductionHypothesis

/-- A string is scanned in the same way whatever follows it. -/
theorem IsString.scans {text : List Char} (isString : IsString text) :
    ∃ body value, text = '\"' :: body ∧ ∀ rest, scanString (body ++ rest) = .ok (value, rest) := by
  obtain ⟨body, pieces, rfl, scanned⟩ := isString
  refine ⟨body, (assemble pieces).map String.ofList, rfl, fun rest => ?_⟩
  rw [scanString, (scanned.append rest).scanPieces_eq]
  rfl

private theorem exists_readsKey {text : List Char} (isString : IsString text) :
    ∃ key, ReadsKey key text := by
  obtain ⟨body, value, rfl, scans⟩ := isString.scans
  exact ⟨value, fun rest => ⟨body ++ rest, rest, rfl, scans rest, rfl⟩⟩

/-- Witnesses for all members of a list make a list. -/
theorem exists_forall₂
    {α β : Type}
    {relates : α → β → Prop}
    {items : List β}
    (each : ∀ item ∈ items, ∃ witness, relates witness item) :
    ∃ witnesses, List.Forall₂ relates witnesses items := by
  induction items with
  | nil => exact ⟨[], .nil⟩
  | cons item rest inductionHypothesis =>
      obtain ⟨here, later⟩ := List.forall_mem_cons.mp each
      obtain ⟨witness, related⟩ := here
      obtain ⟨witnesses, allRelated⟩ := inductionHypothesis later
      exact ⟨witness :: witnesses, .cons related allRelated⟩

private theorem exists_readsText_of_isValue {text : List Char} (isValue : IsValue text) :
    ∃ node, ReadsText node text := by
  induction isValue with
  | null =>
      refine ⟨.null, fun fuel rest enough _ => ⟨rest, ?_, rfl⟩⟩
      obtain ⟨fuel, rfl⟩ : ∃ smaller, fuel = smaller + 1 := ⟨fuel - 1, by simp at enough; omega⟩
      rfl
  | flag value =>
      refine ⟨.flag value, fun fuel rest enough _ => ⟨rest, ?_, rfl⟩⟩
      obtain ⟨fuel, rfl⟩ : ∃ smaller, fuel = smaller + 1 :=
        ⟨fuel - 1, by cases value <;> simp at enough <;> omega⟩
      cases value <;> rfl
  | @number digits text spells =>
      refine ⟨.number digits.toNumber?, fun fuel rest enough ends => ⟨rest, ?_, rfl⟩⟩
      have scans := spells.scans ends
      obtain ⟨c, others, rfl, starts⟩ := spells.eq_cons
      obtain ⟨fuel, rfl⟩ : ∃ smaller, fuel = smaller + 1 := ⟨fuel - 1, by simp at enough; omega⟩
      rw [List.cons_append] at scans ⊢
      rw [readNode_of_number starts, readNumber, scans]
  | string isString =>
      obtain ⟨body, value, rfl, scans⟩ := isString.scans
      refine ⟨.text value, fun fuel rest enough _ => ⟨rest, ?_, rfl⟩⟩
      obtain ⟨fuel, rfl⟩ : ∃ smaller, fuel = smaller + 1 := ⟨fuel - 1, by simp at enough; omega⟩
      rw [List.cons_append, readNode_of_quote, readText, scans]
  | emptyArray areBlank => exact ⟨_, readsText_emptyArray areBlank⟩
  | @array items nonempty blank _ inductionHypothesis =>
      obtain ⟨nodes, each⟩ : ∃ nodes, List.Forall₂ ReadsText nodes (items.map Padded.chars) := by
        refine exists_forall₂ fun text isText => ?_
        obtain ⟨item, isItem, rfl⟩ := List.mem_map.mp isText
        obtain ⟨node, reads⟩ := inductionHypothesis item isItem
        exact ⟨node, reads.padded (blank item isItem)⟩
      exact ⟨_, readsText_array each (by simpa using nonempty)⟩
  | emptyObject areBlank => exact ⟨_, readsText_emptyObject areBlank⟩
  | @object members nonempty blank keys _ inductionHypothesis =>
      obtain ⟨read, each⟩ : ∃ read, List.Forall₂ ReadsMember read
          (members.map fun member => member.1.chars ++ ':' :: member.2.chars) := by
        refine exists_forall₂ fun text isText => ?_
        obtain ⟨member, isMember, rfl⟩ := List.mem_map.mp isText
        obtain ⟨node, reads⟩ := inductionHypothesis member isMember
        obtain ⟨key, readsKey⟩ := exists_readsKey (keys member isMember)
        exact ⟨(key, node), _, _, rfl, readsKey.padded (blank member isMember).1,
          reads.padded (blank member isMember).2⟩
      exact ⟨_, readsText_object each (by simpa using nonempty)⟩

/-- Every text of a value has a tree. -/
theorem exists_readsText {text : List Char} (isText : IsValueText text) :
    ∃ node, ReadsText node text := by
  obtain ⟨padded, rfl, blank, isValue⟩ := isText
  obtain ⟨node, reads⟩ := exists_readsText_of_isValue isValue
  exact ⟨node, reads.padded blank⟩

/-! ## Values in brackets and behind keys -/

/-- The array of the values with some texts. -/
def arrayText (texts : List String) : String :=
  String.ofList ('[' :: (joined (texts.map String.toList) ++ [']']))

/-- A key and the text of its value. -/
def memberText (key text : String) : List Char :=
  '\"' :: (key.toList ++ ['\"']) ++ ':' :: text.toList

/-- The object that gives the values with some texts to keys, as far as both go. -/
def objectText (keys texts : List String) : String :=
  String.ofList ('\x7b' :: (joined (List.zipWith memberText keys texts) ++ ['\x7d']))

private theorem spellsChars_of_plain {chars : List Char} (plain : ∀ c ∈ chars, Plain c) :
    SpellsChars chars chars := by
  induction chars with
  | nil => exact .nil
  | cons c rest inductionHypothesis =>
      obtain ⟨isPlain, others⟩ := List.forall_mem_cons.mp plain
      exact .plain isPlain (inductionHypothesis others)

private theorem readsMember_memberText
    {key text : String}
    (plain : ∀ c ∈ key.toList, Plain c)
    {node : Node}
    (reads : ReadsText node text.toList) :
    ReadsMember (.ok key, node) (memberText key text) := by
  refine ⟨_, _, rfl, fun rest => ?_, reads⟩
  obtain ⟨body, front, scans⟩ :=
    (SpellsString.mk (spellsChars_of_plain plain)).scans rest
  exact ⟨body, rest, by rw [front]; rfl, scans, rfl⟩

/-- What has a tree is read from it. -/
theorem decode_of_readsText
    {α : Type}
    (read : Nat → Node → Except Problem α)
    {node : Node}
    {text : List Char}
    (reads : ReadsText node text) :
    decode read (String.ofList text) = read levels node := by
  obtain ⟨after, readsNode, atEnd⟩ := reads (2 * text.length + 2) [] (by omega) endsNumber_nil
  rw [List.append_nil] at readsNode
  have isBlank : skipBlanks after = [] := atEnd
  simp only [decode, String.toList_ofList, nodeOf, readsNode, Option.map_some, isBlank]
  cases read levels node <;> rfl

theorem decode_arrayText
    {α : Type}
    (read : Nat → Node → Except Problem α)
    {nodes : List Node}
    {texts : List String}
    (each : List.Forall₂ ReadsText nodes (texts.map String.toList)) :
    decode read (arrayText texts) = read levels (.array nodes none) := by
  cases texts with
  | nil =>
      cases each
      exact decode_of_readsText read (readsText_emptyArray blanks_nil)
  | cons text texts => exact decode_of_readsText read (readsText_array each (by simp))

theorem decode_objectText
    {α : Type}
    (read : Nat → Node → Except Problem α)
    {keys : List String}
    (plain : ∀ key ∈ keys, ∀ c ∈ key.toList, Plain c)
    {nodes : List Node}
    {texts : List String}
    (each : List.Forall₂ ReadsText nodes (texts.map String.toList)) :
    decode read (objectText keys texts) =
      read levels (.object (List.zip (keys.map .ok) nodes) none) := by
  have members : List.Forall₂ ReadsMember (List.zip (keys.map .ok) nodes)
      (List.zipWith memberText keys texts) := by
    induction keys generalizing nodes texts with
    | nil => exact .nil
    | cons key keys inductionHypothesis =>
        obtain ⟨plainKey, plainKeys⟩ := List.forall_mem_cons.mp plain
        cases texts with
        | nil =>
            cases each
            exact .nil
        | cons text texts =>
            cases each with
            | cons reads others =>
                exact .cons (readsMember_memberText plainKey reads)
                  (inductionHypothesis plainKeys others)
  cases found : List.zipWith memberText keys texts with
  | nil =>
      rw [found, List.forall₂_nil_right_iff] at members
      rw [objectText, found, members]
      exact decode_of_readsText read (readsText_emptyObject blanks_nil)
  | cons text rest =>
      exact decode_of_readsText read (readsText_object members (by rw [found]; simp))

end RunManifest.Json
