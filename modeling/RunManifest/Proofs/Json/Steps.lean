import RunManifest.Proofs.Json.Place

/-!
Contract: reading a JSON text, step by step.

Owns:
- `readFront`, `readAfterItem`, `readAfterKey` and `readAfterMember`, the steps of reading a value,
  with what each of them does on the text in front of it;
- the inversions of these steps: what must be there for a value to be read to its end;
- `readsPast`, what is read to its end has been passed, and nothing is wrong at its end.
-/

set_option autoImplicit false

namespace RunManifest.Json

/-! ## Values -/

/-- An array behind its bracket. -/
def readArray (fuel : Nat) (text : List Char) : Node × Option (List Char) :=
  match skipBlanks text with
  | [] => (.array [] (some (.truncated .list)), none)
  | ']' :: rest => (.array [] none, some rest)
  | rest => (.array (readItems fuel rest).items (readItems fuel rest).ending,
      (readItems fuel rest).rest)

/-- An object behind its brace. -/
def readObject (fuel : Nat) (text : List Char) : Node × Option (List Char) :=
  match skipBlanks text with
  | [] => (.object [] (some (.both (.truncated .object))), none)
  | '\x7d' :: rest => (.object [] none, some rest)
  | rest => (.object (readMembers fuel rest).members (readMembers fuel rest).ending,
      (readMembers fuel rest).rest)

/-- A value behind its first character. -/
def readFront (fuel : Nat) (first : Char) (rest : List Char) : Node × Option (List Char) :=
  match first with
  | 'n' => readWord .null "ull".toList rest
  | 't' => readWord (.flag true) "rue".toList rest
  | 'f' => readWord (.flag false) "alse".toList rest
  | '\"' => readText rest
  | '[' => readArray fuel rest
  | '\x7b' => readObject fuel rest
  | c =>
      if c = '-' ∨ c.isDigit then readNumber (c :: rest)
      else (.broken (.both (.malformed .noValue)), none)

theorem readNode_of_blank {text : List Char} (blank : skipBlanks text = []) (fuel : Nat) :
    readNode (fuel + 1) text = (.broken (.both (.truncated .value)), none) := by
  rw [readNode, blank]

theorem readNode_of_front
    {text rest : List Char}
    {c : Char}
    (front : skipBlanks text = c :: rest)
    (fuel : Nat) :
    readNode (fuel + 1) text = readFront fuel c rest := by
  rw [readNode, front]
  unfold readFront
  split
  case h_6 behind same =>
    obtain ⟨rfl, rfl⟩ := List.cons.inj same
    rfl
  case h_7 behind same =>
    obtain ⟨rfl, rfl⟩ := List.cons.inj same
    rfl
  all_goals simp_all

/-- Items from one on that has been read. -/
def readAfterItem (fuel : Nat) (item : Node) (text : List Char) : ReadItems :=
  match skipBlanks text with
  | [] => ⟨[item], some (.truncated .list), none⟩
  | ']' :: rest => ⟨[item], none, some rest⟩
  | ',' :: rest => { readItems fuel rest with items := item :: (readItems fuel rest).items }
  | _ => ⟨[item], some (.malformed .noListEnd), none⟩

/-- Members from one on that has been read. -/
def readAfterMember
    (fuel : Nat)
    (key : Readable String)
    (value : Node)
    (text : List Char) :
    ReadMembers :=
  match skipBlanks text with
  | [] => ⟨[(key, value)], some (.both (.truncated .object)), none⟩
  | '\x7d' :: rest => ⟨[(key, value)], none, some rest⟩
  | ',' :: rest =>
      { readMembers fuel rest with members := (key, value) :: (readMembers fuel rest).members }
  | _ => ⟨[(key, value)], some (.both (.malformed .noObjectEnd)), none⟩

/-- Members from one on whose key has been read. -/
def readAfterKey (fuel : Nat) (key : Readable String) (text : List Char) : ReadMembers :=
  match skipBlanks text with
  | [] => ⟨[(key, .broken (.both (.truncated .object)))], none, none⟩
  | ':' :: rest =>
      match readNode fuel rest with
      | (value, none) => ⟨[(key, value)], none, none⟩
      | (value, some rest) => readAfterMember fuel key value rest
  | _ => ⟨[(key, .broken (.both (.malformed .noColon)))], none, none⟩

/-- No value begins with the end of an array. -/
theorem front_ne_of_readNode
    {fuel : Nat}
    {text rest : List Char}
    {item : Node}
    (reads : readNode fuel text = (item, some rest))
    (behind : List Char) :
    skipBlanks text ≠ ']' :: behind := by
  intro front
  cases fuel with
  | zero => cases reads
  | succ fuel =>
      rw [readNode_of_front front] at reads
      cases reads

theorem readItems_of_broken
    {fuel : Nat}
    {text : List Char}
    {item : Node}
    (noClose : ∀ behind, skipBlanks text ≠ ']' :: behind)
    (reads : readNode fuel text = (item, none)) :
    readItems (fuel + 1) text = ⟨[item], none, none⟩ := by
  rw [readItems]
  split
  · rename_i front
    exact absurd front (noClose _)
  · rw [reads]

theorem rest_readItems_of_broken
    {fuel : Nat}
    {text : List Char}
    {item : Node}
    (reads : readNode fuel text = (item, none)) :
    (readItems (fuel + 1) text).rest = none := by
  rw [readItems, reads]
  split <;> rfl

theorem readItems_of_item
    {fuel : Nat}
    {text rest : List Char}
    {item : Node}
    (reads : readNode fuel text = (item, some rest)) :
    readItems (fuel + 1) text = readAfterItem fuel item rest := by
  rw [readItems]
  split
  · rename_i front
    exact absurd front (front_ne_of_readNode reads _)
  · rw [reads]
    rfl

theorem readMembers_of_blank {text : List Char} (blank : skipBlanks text = []) (fuel : Nat) :
    readMembers (fuel + 1) text = ⟨[], some ⟨.truncated .value, .truncated .object⟩, none⟩ := by
  rw [readMembers, blank]

theorem readMembers_of_broken
    {text rest : List Char}
    {breakage : Breakage}
    (front : skipBlanks text = '\"' :: rest)
    (scans : scanString rest = .error breakage)
    (fuel : Nat) :
    readMembers (fuel + 1) text = ⟨[], some breakage, none⟩ := by
  simp only [readMembers, front, scans]

theorem readMembers_of_key
    {text rest after : List Char}
    {key : Readable String}
    (front : skipBlanks text = '\"' :: rest)
    (scans : scanString rest = .ok (key, after))
    (fuel : Nat) :
    readMembers (fuel + 1) text = readAfterKey fuel key after := by
  simp only [readMembers, front, scans]
  rfl

section Steps

variable {fuel : Nat} {text rest : List Char} {item value : Node} {key : Readable String}

theorem readAfterItem_of_blank (blank : skipBlanks text = []) :
    readAfterItem fuel item text = ⟨[item], some (.truncated .list), none⟩ := by
  rw [readAfterItem, blank]

theorem readAfterItem_of_close (front : skipBlanks text = ']' :: rest) :
    readAfterItem fuel item text = ⟨[item], none, some rest⟩ := by
  rw [readAfterItem, front]
  rfl

theorem readAfterItem_of_comma (front : skipBlanks text = ',' :: rest) :
    readAfterItem fuel item text =
      { readItems fuel rest with items := item :: (readItems fuel rest).items } := by
  rw [readAfterItem, front]
  rfl

theorem readAfterMember_of_blank (blank : skipBlanks text = []) :
    readAfterMember fuel key value text =
      ⟨[(key, value)], some (.both (.truncated .object)), none⟩ := by
  rw [readAfterMember, blank]

theorem readAfterMember_of_close (front : skipBlanks text = '\x7d' :: rest) :
    readAfterMember fuel key value text = ⟨[(key, value)], none, some rest⟩ := by
  rw [readAfterMember, front]
  rfl

theorem readAfterMember_of_comma (front : skipBlanks text = ',' :: rest) :
    readAfterMember fuel key value text =
      { readMembers fuel rest with members := (key, value) :: (readMembers fuel rest).members } := by
  rw [readAfterMember, front]
  rfl

theorem readAfterKey_of_blank (blank : skipBlanks text = []) :
    readAfterKey fuel key text = ⟨[(key, .broken (.both (.truncated .object)))], none, none⟩ := by
  rw [readAfterKey, blank]

theorem readAfterKey_of_broken
    (front : skipBlanks text = ':' :: rest)
    (reads : readNode fuel rest = (value, none)) :
    readAfterKey fuel key text = ⟨[(key, value)], none, none⟩ := by
  simp only [readAfterKey, front, reads]

theorem readAfterKey_of_value
    {after : List Char}
    (front : skipBlanks text = ':' :: rest)
    (reads : readNode fuel rest = (value, some after)) :
    readAfterKey fuel key text = readAfterMember fuel key value after := by
  simp only [readAfterKey, front, reads]

end Steps

/-! ### Values that are read to their end -/

theorem readWord_eq_some
    {value node : Node}
    {word text rest : List Char}
    (reads : readWord value word text = (node, some rest)) :
    node = value ∧ text = word ++ rest := by
  induction word generalizing text with
  | nil =>
      cases reads
      exact ⟨rfl, rfl⟩
  | cons expected word inductionHypothesis =>
      cases text with
      | nil => cases reads
      | cons c text =>
          rw [readWord] at reads
          split at reads
          · rename_i isExpected
            obtain ⟨same, rfl⟩ := inductionHypothesis reads
            exact ⟨same, by rw [isExpected]; rfl⟩
          · cases reads

theorem readText_eq_some
    {node : Node}
    {text rest : List Char}
    (reads : readText text = (node, some rest)) :
    ∃ value, node = .text value ∧ scanString text = .ok (value, rest) := by
  unfold readText at reads
  split at reads
  · cases reads
    exact ⟨_, rfl, by assumption⟩
  · cases reads

theorem readNumber_eq_some
    {node : Node}
    {text rest : List Char}
    (reads : readNumber text = (node, some rest)) :
    ∃ digits, node = .number digits.toNumber? ∧ scanNumber text = .ok (digits, rest) := by
  unfold readNumber at reads
  split at reads
  · cases reads
    exact ⟨_, rfl, by assumption⟩
  · cases reads

theorem readNode_eq_some
    {fuel : Nat}
    {text rest : List Char}
    {node : Node}
    (reads : readNode (fuel + 1) text = (node, some rest)) :
    ∃ c front, skipBlanks text = c :: front ∧ readFront fuel c front = (node, some rest) := by
  cases front : skipBlanks text with
  | nil =>
      rw [readNode_of_blank front] at reads
      cases reads
  | cons c behind =>
      rw [readNode_of_front front] at reads
      exact ⟨c, behind, rfl, reads⟩

theorem readItems_eq_some
    {fuel : Nat}
    {text rest : List Char}
    (reads : (readItems (fuel + 1) text).rest = some rest) :
    ∃ item middle, readNode fuel text = (item, some middle) ∧
      (readAfterItem fuel item middle).rest = some rest := by
  cases first : readNode fuel text with
  | mk item after =>
      cases after with
      | none =>
          rw [rest_readItems_of_broken first] at reads
          cases reads
      | some middle =>
          rw [readItems_of_item first] at reads
          exact ⟨item, middle, rfl, reads⟩

theorem readAfterItem_eq_some
    {fuel : Nat}
    {item : Node}
    {text rest : List Char}
    (reads : (readAfterItem fuel item text).rest = some rest) :
    skipBlanks text = ']' :: rest ∨
      ∃ more, skipBlanks text = ',' :: more ∧ (readItems fuel more).rest = some rest := by
  unfold readAfterItem at reads
  split at reads
  · cases reads
  · rename_i front
    cases reads
    exact .inl front
  · rename_i more front
    exact .inr ⟨more, front, reads⟩
  · cases reads

theorem readMembers_eq_some
    {fuel : Nat}
    {text rest : List Char}
    (reads : (readMembers (fuel + 1) text).rest = some rest) :
    ∃ front key after, skipBlanks text = '\"' :: front ∧ scanString front = .ok (key, after) ∧
      (readAfterKey fuel key after).rest = some rest := by
  cases front : skipBlanks text with
  | nil =>
      rw [readMembers_of_blank front] at reads
      cases reads
  | cons c behind =>
      by_cases isQuote : c = '\"'
      · subst isQuote
        cases scans : scanString behind with
        | error breakage =>
            rw [readMembers_of_broken front scans] at reads
            cases reads
        | ok scanned =>
            obtain ⟨key, after⟩ := scanned
            rw [readMembers_of_key front scans] at reads
            exact ⟨behind, key, after, rfl, scans, reads⟩
      · rw [readMembers, front] at reads
        split at reads <;> simp_all

theorem readAfterKey_eq_some
    {fuel : Nat}
    {key : Readable String}
    {text rest : List Char}
    (reads : (readAfterKey fuel key text).rest = some rest) :
    ∃ front value after, skipBlanks text = ':' :: front ∧
      readNode fuel front = (value, some after) ∧
      (readAfterMember fuel key value after).rest = some rest := by
  unfold readAfterKey at reads
  split at reads
  · cases reads
  · rename_i more front
    split at reads
    · cases reads
    · rename_i value after readsValue
      exact ⟨more, value, after, front, readsValue, reads⟩
  · cases reads

theorem readAfterMember_eq_some
    {fuel : Nat}
    {key : Readable String}
    {value : Node}
    {text rest : List Char}
    (reads : (readAfterMember fuel key value text).rest = some rest) :
    skipBlanks text = '\x7d' :: rest ∨
      ∃ more, skipBlanks text = ',' :: more ∧ (readMembers fuel more).rest = some rest := by
  unfold readAfterMember at reads
  split at reads
  · cases reads
  · rename_i front
    cases reads
    exact .inl front
  · rename_i more front
    exact .inr ⟨more, front, reads⟩
  · cases reads

private theorem passes_of_readWord
    {c : Char}
    {value node : Node}
    {word text rest : List Char}
    (unquoted : ∀ d ∈ c :: word, d ≠ '\"')
    (reads : readWord value word text = (node, some rest)) :
    Passes (c :: text) rest := by
  obtain ⟨-, rfl⟩ := readWord_eq_some reads
  exact ⟨c :: word, rfl, foldl_past_of_unquoted unquoted⟩

private theorem passes_of_scanNumber
    {text rest : List Char}
    {digits : NumberText}
    (scans : scanNumber text = .ok (digits, rest)) :
    Passes text rest := by
  obtain ⟨taken, rfl, areNumber, -⟩ := takes_scanNumber text digits rest scans
  exact passes_of_unquoted fun c member => isNumberChar_ne_quote (areNumber c member)

theorem passes_of_front
    {text rest : List Char}
    {c : Char}
    (front : skipBlanks text = c :: rest) :
    Passes text (c :: rest) := by
  have passes := passes_skipBlanks text
  rwa [front] at passes

/-- What is read to its end was passed, and nothing is wrong at its end. -/
structure ReadsPast (fuel : Nat) : Prop where
  node : ∀ {text rest : List Char} {node : Node},
    readNode fuel text = (node, some rest) → Passes text rest
  items : ∀ {text rest : List Char}, (readItems fuel text).rest = some rest →
    Passes text rest ∧ (readItems fuel text).ending = none
  members : ∀ {text rest : List Char}, (readMembers fuel text).rest = some rest →
    Passes text rest ∧ (readMembers fuel text).ending = none

section Past

variable {fuel : Nat} (past : ReadsPast fuel)
include past

private theorem passes_of_readArray
    {text rest : List Char}
    {node : Node}
    (reads : readArray fuel text = (node, some rest)) :
    Passes text rest := by
  unfold readArray at reads
  split at reads
  · cases reads
  · rename_i front
    cases reads
    exact (passes_of_front front).trans (passes_cons (by decide) _)
  · exact (passes_skipBlanks text).trans (past.items (congrArg Prod.snd reads)).1

private theorem passes_of_readObject
    {text rest : List Char}
    {node : Node}
    (reads : readObject fuel text = (node, some rest)) :
    Passes text rest := by
  unfold readObject at reads
  split at reads
  · cases reads
  · rename_i front
    cases reads
    exact (passes_of_front front).trans (passes_cons (by decide) _)
  · exact (passes_skipBlanks text).trans (past.members (congrArg Prod.snd reads)).1

private theorem passes_of_readFront
    {c : Char}
    {text rest : List Char}
    {node : Node}
    (reads : readFront fuel c text = (node, some rest)) :
    Passes (c :: text) rest := by
  unfold readFront at reads
  split at reads
  · exact passes_of_readWord (by simp) reads
  · exact passes_of_readWord (by simp) reads
  · exact passes_of_readWord (by simp) reads
  · obtain ⟨value, -, scans⟩ := readText_eq_some reads
    exact passes_of_scanString scans
  · exact (passes_cons (by decide) text).trans (passes_of_readArray past reads)
  · exact (passes_cons (by decide) text).trans (passes_of_readObject past reads)
  · split at reads
    · obtain ⟨digits, -, scans⟩ := readNumber_eq_some reads
      exact passes_of_scanNumber scans
    · cases reads

private theorem passes_of_readItems
    {text rest : List Char}
    (reads : (readItems (fuel + 1) text).rest = some rest) :
    Passes text rest ∧ (readItems (fuel + 1) text).ending = none := by
  obtain ⟨item, middle, readsItem, readsAfter⟩ := readItems_eq_some reads
  rw [readItems_of_item readsItem]
  rcases readAfterItem_eq_some readsAfter with front | ⟨more, front, readsMore⟩
  · refine ⟨(past.node readsItem).trans ((passes_of_front front).trans
      (passes_cons (by decide) rest)), ?_⟩
    rw [readAfterItem_of_close front]
  · obtain ⟨passes, noEnding⟩ := past.items readsMore
    refine ⟨(past.node readsItem).trans ((passes_of_front front).trans
      ((passes_cons (by decide) more).trans passes)), ?_⟩
    rw [readAfterItem_of_comma front]
    exact noEnding

private theorem passes_of_readMembers
    {text rest : List Char}
    (reads : (readMembers (fuel + 1) text).rest = some rest) :
    Passes text rest ∧ (readMembers (fuel + 1) text).ending = none := by
  obtain ⟨front, key, afterKey, isFront, scans, readsKey⟩ := readMembers_eq_some reads
  obtain ⟨middle, value, afterValue, isMiddle, readsValue, readsAfter⟩ :=
    readAfterKey_eq_some readsKey
  have passesValue : Passes text afterValue :=
    (passes_of_front isFront).trans ((passes_of_scanString scans).trans
      ((passes_of_front isMiddle).trans ((passes_cons (by decide) middle).trans
        (past.node readsValue))))
  rw [readMembers_of_key isFront scans, readAfterKey_of_value isMiddle readsValue]
  rcases readAfterMember_eq_some readsAfter with front | ⟨more, front, readsMore⟩
  · refine ⟨passesValue.trans ((passes_of_front front).trans (passes_cons (by decide) rest)), ?_⟩
    rw [readAfterMember_of_close front]
  · obtain ⟨passes, noEnding⟩ := past.members readsMore
    refine ⟨passesValue.trans ((passes_of_front front).trans
      ((passes_cons (by decide) more).trans passes)), ?_⟩
    rw [readAfterMember_of_comma front]
    exact noEnding

end Past

theorem readsPast (fuel : Nat) : ReadsPast fuel := by
  induction fuel with
  | zero =>
      refine ⟨?_, ?_, ?_⟩
      · intro text rest node reads
        cases reads
      · intro text rest reads
        cases reads
      · intro text rest reads
        cases reads
  | succ fuel past =>
      refine ⟨?_, passes_of_readItems past, passes_of_readMembers past⟩
      intro text rest node reads
      obtain ⟨c, front, isFront, readsFront⟩ := readNode_eq_some reads
      exact (passes_of_front isFront).trans (passes_of_readFront past readsFront)

/-! ## Containers that are read to their end -/

theorem readArray_of_blank {text : List Char} (blank : skipBlanks text = []) (fuel : Nat) :
    readArray fuel text = (.array [] (some (.truncated .list)), none) := by
  rw [readArray, blank]

theorem readArray_of_close
    {text rest : List Char}
    (front : skipBlanks text = ']' :: rest)
    (fuel : Nat) :
    readArray fuel text = (.array [] none, some rest) := by
  rw [readArray, front]
  rfl

theorem readArray_of_items
    {text rest : List Char}
    {c : Char}
    (front : skipBlanks text = c :: rest)
    (notClose : c ≠ ']')
    (fuel : Nat) :
    readArray fuel text = (.array (readItems fuel (c :: rest)).items
      (readItems fuel (c :: rest)).ending, (readItems fuel (c :: rest)).rest) := by
  rw [readArray, front]
  simp [notClose]

theorem readObject_of_close
    {text rest : List Char}
    (front : skipBlanks text = '\x7d' :: rest)
    (fuel : Nat) :
    readObject fuel text = (.object [] none, some rest) := by
  rw [readObject, front]
  rfl

theorem readObject_of_blank {text : List Char} (blank : skipBlanks text = []) (fuel : Nat) :
    readObject fuel text = (.object [] (some (.both (.truncated .object))), none) := by
  rw [readObject, blank]

theorem readObject_of_members
    {text rest : List Char}
    {c : Char}
    (front : skipBlanks text = c :: rest)
    (notClose : c ≠ '\x7d')
    (fuel : Nat) :
    readObject fuel text = (.object (readMembers fuel (c :: rest)).members
      (readMembers fuel (c :: rest)).ending, (readMembers fuel (c :: rest)).rest) := by
  rw [readObject, front]
  simp [notClose]

theorem readArray_eq_some
    {fuel : Nat}
    {text rest : List Char}
    {node : Node}
    (reads : readArray fuel text = (node, some rest)) :
    skipBlanks text = ']' :: rest ∧ node = .array [] none ∨
      ∃ c behind, skipBlanks text = c :: behind ∧ c ≠ ']' ∧
        (readItems fuel (c :: behind)).rest = some rest ∧
        node = .array (readItems fuel (c :: behind)).items none := by
  cases front : skipBlanks text with
  | nil =>
      rw [readArray_of_blank front] at reads
      cases reads
  | cons c behind =>
      by_cases isClose : c = ']'
      · subst isClose
        rw [readArray_of_close front] at reads
        cases reads
        exact .inl ⟨rfl, rfl⟩
      · rw [readArray_of_items front isClose] at reads
        obtain ⟨isNode, readsItems⟩ := Prod.mk.inj reads
        have noEnding := ((readsPast fuel).items readsItems).2
        exact .inr ⟨c, behind, rfl, isClose, readsItems, by rw [← isNode, noEnding]⟩

theorem readObject_eq_some
    {fuel : Nat}
    {text rest : List Char}
    {node : Node}
    (reads : readObject fuel text = (node, some rest)) :
    skipBlanks text = '\x7d' :: rest ∧ node = .object [] none ∨
      ∃ c behind, skipBlanks text = c :: behind ∧ c ≠ '\x7d' ∧
        (readMembers fuel (c :: behind)).rest = some rest ∧
        node = .object (readMembers fuel (c :: behind)).members none := by
  cases front : skipBlanks text with
  | nil =>
      rw [readObject_of_blank front] at reads
      cases reads
  | cons c behind =>
      by_cases isClose : c = '\x7d'
      · subst isClose
        rw [readObject_of_close front] at reads
        cases reads
        exact .inl ⟨rfl, rfl⟩
      · rw [readObject_of_members front isClose] at reads
        obtain ⟨isNode, readsMembers⟩ := Prod.mk.inj reads
        have noEnding := ((readsPast fuel).members readsMembers).2
        exact .inr ⟨c, behind, rfl, isClose, readsMembers, by rw [← isNode, noEnding]⟩

end RunManifest.Json
