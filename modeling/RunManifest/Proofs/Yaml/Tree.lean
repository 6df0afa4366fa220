import RunManifest.Proofs.Yaml.Tokens
import RunManifest.Yaml.Node

/-!
Contract: the trees of written document values.

Owns:
- `Json.tree`, the node of a value;
- `Builds`, that the node is built from the tokens of the value, whatever tokens follow;
- `ofTokens?_tokens`, which says so of whole documents.

The tokens of a value pay for the steps that build its node: two steps for each token, and two more
for a list below its key.
-/

set_option autoImplicit false

namespace RunManifest.Json

open Yaml
open Yaml.Node (build buildContent buildUnless buildItems buildLooseItems buildMembers buildValue)

/-- The node of a text in the style in which it is written. -/
def textNode (text : String) : Yaml.Node :=
  .scalar none none (style text).scalarStyle text

mutual

/-- The node of a value. -/
def tree : Json → Yaml.Node
  | .null => .scalar none none .plain "null"
  | .flag value => .scalar none none .plain (String.ofList (flagText value))
  | .number value => .scalar none none .plain (String.ofList (numberForm value))
  | .text value => textNode value
  | .array items => .sequence none none (itemTrees items)
  | .object members => .mapping none none (memberTrees members)

/-- The nodes of items. -/
def itemTrees : List Json → List Yaml.Node
  | [] => []
  | item :: rest => item.tree :: itemTrees rest

/-- The nodes of members. -/
def memberTrees : List (String × Json) → List (Yaml.Node × Yaml.Node)
  | [] => []
  | (key, value) :: rest => (textNode key, value.tree) :: memberTrees rest

end

@[simp] theorem itemTrees_eq_map (items : List Json) : itemTrees items = items.map tree := by
  induction items with
  | nil => rfl
  | cons item rest inductionHypothesis => rw [itemTrees, inductionHypothesis, List.map_cons]

@[simp] theorem memberTrees_eq_map (members : List (String × Json)) :
    memberTrees members = members.map fun member => (textNode member.1, member.2.tree) := by
  induction members with
  | nil => rfl
  | cons member rest inductionHypothesis => rw [memberTrees, inductionHypothesis, List.map_cons]

/-! ## Starts -/

/-- The tokens with which a value starts. Only the items of a list without a block of its own start
with the mark of an item. -/
def Starts (sameLine : Bool) : Token → Prop
  | .scalar _ _ => True
  | .flowSequenceStart => True
  | .flowMappingStart => True
  | .blockSequenceStart => True
  | .blockMappingStart => True
  | .blockEntry => sameLine = false
  | _ => False

private theorem exists_starts (value : Json) (sameLine : Bool) :
    ∃ token later, value.tokens sameLine = token :: later ∧ Starts sameLine token := by
  cases value with
  | null => exact ⟨_, _, rfl, trivial⟩
  | flag value => exact ⟨_, _, rfl, trivial⟩
  | number value => exact ⟨_, _, rfl, trivial⟩
  | text value => exact ⟨_, _, rfl, trivial⟩
  | array items =>
      cases items with
      | nil => exact ⟨_, _, rfl, trivial⟩
      | cons item items =>
          cases sameLine with
          | true => exact ⟨_, _, rfl, trivial⟩
          | false => exact ⟨_, _, rfl, rfl⟩
  | object members =>
      cases members with
      | nil => exact ⟨_, _, rfl, trivial⟩
      | cons member members => exact ⟨_, _, rfl, trivial⟩

section Steps

variable {sameLine : Bool} {token : Token} {later : List Token} {handles : List (String × Tag)}

@[simp] theorem accept?_cons (anchors : List (String × Nat)) :
    Builder.accept? token ⟨token :: later, anchors, handles⟩ = some ⟨later, anchors, handles⟩ :=
  if_pos rfl

private theorem build_of_starts
    (starts : Starts sameLine token)
    (place : Yaml.Node.Place)
    (fuel : Nat) :
    build (fuel + 1) place ⟨token :: later, [], handles⟩ =
      buildContent fuel place none none ⟨token :: later, [], handles⟩ := by
  cases token with
  | scalar => rfl
  | flowSequenceStart => rfl
  | flowMappingStart => rfl
  | blockSequenceStart => rfl
  | blockMappingStart => rfl
  | blockEntry => rfl
  | _ => cases starts

/-- The items and values of blocks are not missing. -/
theorem buildUnless_of_starts
    {ends : List Token}
    (starts : Starts sameLine token)
    (isEnds : ends = Node.memberEnds ∨
      (sameLine = true ∧ (ends = Node.itemEnds ∨ ends = Node.looseItemEnds)))
    (place : Yaml.Node.Place)
    (fuel : Nat) :
    buildUnless (fuel + 1) ends place ⟨token :: later, [], handles⟩ =
      build fuel place ⟨token :: later, [], handles⟩ := by
  have notAt : ends.contains token = false := by
    rcases isEnds with rfl | ⟨rfl, rfl | rfl⟩
    all_goals
      cases token with
      | scalar => rfl
      | flowSequenceStart => rfl
      | flowMappingStart => rfl
      | blockSequenceStart => rfl
      | blockMappingStart => rfl
      | blockEntry => first | rfl | cases starts
      | _ => cases starts
  rw [buildUnless, if_neg]
  simpa [Builder.isAt, Builder.peek] using notAt

end Steps

/-! ## Nodes -/

/-- The node of a value is built from its tokens. Blocks may start there; where the value is a list
below its key, items may stand there, and none follows. -/
def Builds (value : Json) : Prop :=
  ∀ (sameLine : Bool) {place : Yaml.Node.Place} {fuel : Nat} (rest : List Token)
    (handles : List (String × Tag)), place.block = true →
    (sameLine = false → place.listItems = true ∧ rest.head? ≠ some .blockEntry) →
    2 * (value.tokens sameLine).length + (if sameLine then 0 else 2) ≤ fuel →
    build fuel place ⟨value.tokens sameLine ++ rest, [], handles⟩ =
      some (value.tree, ⟨rest, [], handles⟩)

/-- A value is built where it could be missing. -/
theorem Builds.unless
    {value : Json}
    (builds : Builds value)
    {sameLine : Bool}
    {ends : List Token}
    (isEnds : ends = Node.memberEnds ∨
      (sameLine = true ∧ (ends = Node.itemEnds ∨ ends = Node.looseItemEnds)))
    {place : Yaml.Node.Place}
    {fuel : Nat}
    {rest : List Token}
    (handles : List (String × Tag))
    (block : place.block = true)
    (loose : sameLine = false → place.listItems = true ∧ rest.head? ≠ some .blockEntry)
    (enough : 2 * (value.tokens sameLine).length + (if sameLine then 0 else 2) < fuel) :
    buildUnless fuel ends place ⟨value.tokens sameLine ++ rest, [], handles⟩ =
      some (value.tree, ⟨rest, [], handles⟩) := by
  obtain ⟨fuel, rfl⟩ : ∃ smaller, fuel = smaller + 1 := ⟨fuel - 1, by omega⟩
  have built := builds sameLine rest handles block loose (Nat.le_of_lt_succ enough)
  obtain ⟨token, later, isTokens, starts⟩ := value.exists_starts sameLine
  rw [isTokens, List.cons_append] at built ⊢
  rw [buildUnless_of_starts starts isEnds, built]

section Containers

variable {rest : List Token} {fuel : Nat} (handles : List (String × Tag))

private theorem buildItems_tokens
    {items : List Json}
    (builds : ∀ item ∈ items, Builds item)
    (enough : 2 * (itemTokens items).length < fuel) :
    buildItems fuel ⟨itemTokens items ++ .blockEnd :: rest, [], handles⟩ =
      some (items.map tree, ⟨rest, [], handles⟩) := by
  induction items generalizing fuel with
  | nil =>
      obtain ⟨fuel, rfl⟩ : ∃ smaller, fuel = smaller + 1 := ⟨fuel - 1, by omega⟩
      rfl
  | cons item items inductionHypothesis =>
      obtain ⟨buildsItem, buildsItems⟩ := List.forall_mem_cons.mp builds
      obtain ⟨fuel, rfl⟩ : ∃ smaller, fuel = smaller + 1 := ⟨fuel - 1, by omega⟩
      rw [itemTokens, List.cons_append, List.length_cons, List.length_append] at enough
      have builtItem : buildUnless fuel Node.itemEnds .item
          ⟨item.tokens true ++ (itemTokens items ++ .blockEnd :: rest), [], handles⟩ = _ :=
        buildsItem.unless (.inr ⟨rfl, .inl rfl⟩) handles rfl (fun h => by cases h)
          (by show 2 * _ < _; omega)
      have builtItems := inductionHypothesis buildsItems (show _ < fuel by omega)
      rw [itemTokens, List.cons_append, List.cons_append, List.append_assoc, buildItems,
        accept?_cons]
      simp only [builtItem, builtItems, Option.bind_eq_bind, Option.bind_some]
      rfl

private theorem buildLooseItems_tokens
    {items : List Json}
    (builds : ∀ item ∈ items, Builds item)
    (noneFollows : rest.head? ≠ some .blockEntry)
    (enough : 2 * (itemTokens items).length ≤ fuel)
    (begun : 0 < fuel) :
    buildLooseItems fuel ⟨itemTokens items ++ rest, [], handles⟩ =
      some (items.map tree, ⟨rest, [], handles⟩) := by
  induction items generalizing fuel with
  | nil =>
      obtain ⟨fuel, rfl⟩ : ∃ smaller, fuel = smaller + 1 := ⟨fuel - 1, by omega⟩
      have refused : Builder.accept? .blockEntry ⟨rest, [], handles⟩ = none := if_neg noneFollows
      rw [itemTokens, List.nil_append, buildLooseItems, refused]
      rfl
  | cons item items inductionHypothesis =>
      obtain ⟨buildsItem, buildsItems⟩ := List.forall_mem_cons.mp builds
      obtain ⟨fuel, rfl⟩ : ∃ smaller, fuel = smaller + 1 := ⟨fuel - 1, by omega⟩
      rw [itemTokens, List.cons_append, List.length_cons, List.length_append] at enough
      have builtItem : buildUnless fuel Node.looseItemEnds .item
          ⟨item.tokens true ++ (itemTokens items ++ rest), [], handles⟩ = _ :=
        buildsItem.unless (.inr ⟨rfl, .inr rfl⟩) handles rfl (fun h => by cases h)
          (by show 2 * _ < _; omega)
      have builtItems := inductionHypothesis buildsItems (show _ ≤ fuel by omega) (by omega)
      rw [itemTokens, List.cons_append, List.cons_append, List.append_assoc, buildLooseItems,
        accept?_cons]
      simp only [builtItem, builtItems, Option.bind_eq_bind, Option.bind_some]
      rfl

private theorem buildMembers_tokens
    {members : List (String × Json)}
    (builds : ∀ member ∈ members, Builds member.2)
    (enough : 2 * (memberTokens members).length < fuel) :
    buildMembers fuel ⟨memberTokens members ++ .blockEnd :: rest, [], handles⟩ =
      some (members.map fun member => (textNode member.1, member.2.tree), ⟨rest, [], handles⟩) := by
  induction members generalizing fuel with
  | nil =>
      obtain ⟨fuel, rfl⟩ : ∃ smaller, fuel = smaller + 1 := ⟨fuel - 1, by omega⟩
      rfl
  | cons member members inductionHypothesis =>
      obtain ⟨key, value⟩ := member
      obtain ⟨(buildsValue : Builds value), buildsMembers⟩ := List.forall_mem_cons.mp builds
      rw [memberTokens] at enough
      simp only [List.cons_append, List.length_cons, List.length_append] at enough
      obtain ⟨fuel, rfl⟩ : ∃ smaller, fuel = smaller + 1 + 1 + 1 + 1 := ⟨fuel - 4, by omega⟩
      have noItem : (memberTokens members ++ .blockEnd :: rest).head? ≠ some .blockEntry := by
        cases members with
        | nil => simp [memberTokens]
        | cons next members => simp [memberTokens]
      have slack : (if (!isSimpleKey key) = true then 0 else 2) ≤ 2 := by split <;> omega
      have builtValue : buildUnless (fuel + 1 + 1) Node.memberEnds .member
          ⟨value.tokens (!isSimpleKey key) ++ (memberTokens members ++ .blockEnd :: rest), [],
            handles⟩ = _ :=
        buildsValue.unless (.inl rfl) handles rfl (fun _ => ⟨rfl, noItem⟩) (by omega)
      have builtMembers := inductionHypothesis buildsMembers
        (show _ < fuel + 1 + 1 + 1 by omega)
      have builtKey : ∀ later, buildUnless (fuel + 1 + 1 + 1) Node.memberEnds .member
          ⟨textToken key :: later, [], handles⟩ = some (textNode key, ⟨later, [], handles⟩) :=
        fun _ => rfl
      rw [memberTokens]
      simp only [List.cons_append, List.append_assoc]
      rw [buildMembers, accept?_cons]
      simp only [builtKey, buildValue, accept?_cons, builtValue, builtMembers, Option.bind_eq_bind,
        Option.bind_some]
      rfl

end Containers

/-- A value that is written as a plain scalar. -/
theorem builds_scalar
    {value : Json}
    (style : ScalarStyle)
    (text : String)
    (isToken : ∀ sameLine, value.tokens sameLine = [.scalar style text])
    (isNode : value.tree = .scalar none none style text) :
    Builds value := by
  intro sameLine place fuel rest handles _ _ enough
  rw [isToken, List.length_singleton] at enough
  obtain ⟨fuel, rfl⟩ : ∃ smaller, fuel = smaller + 1 + 1 := ⟨fuel - 2, by omega⟩
  rw [isToken, isNode]
  rfl

private theorem builds_array
    {item : Json}
    {items : List Json}
    (builds : ∀ each ∈ item :: items, Builds each) :
    Builds (.array (item :: items)) := by
  intro sameLine place fuel rest handles block loose enough
  cases sameLine with
  | true =>
      simp only [tokens, if_true, List.cons_append, List.length_cons, List.length_append,
        List.length_nil] at enough
      obtain ⟨fuel, rfl⟩ : ∃ smaller, fuel = smaller + 1 + 1 := ⟨fuel - 2, by omega⟩
      have built : buildItems fuel
          ⟨itemTokens (item :: items) ++ .blockEnd :: rest, [], handles⟩ = _ :=
        buildItems_tokens handles builds (by omega)
      have starts : Starts true .blockSequenceStart := trivial
      simp only [tokens, if_true, List.cons_append, List.append_assoc, List.nil_append]
      rw [build_of_starts starts, buildContent]
      simp [Builder.peek, Builder.skip, block, built, tree]
  | false =>
      obtain ⟨listItems, noneFollows⟩ := loose rfl
      simp only [tokens, Bool.false_eq_true, if_false] at enough
      have nonempty : 0 < (itemTokens (item :: items)).length := by simp [itemTokens]
      obtain ⟨fuel, rfl⟩ : ∃ smaller, fuel = smaller + 1 + 1 := ⟨fuel - 2, by omega⟩
      have built : buildLooseItems fuel ⟨itemTokens (item :: items) ++ rest, [], handles⟩ = _ :=
        buildLooseItems_tokens handles builds noneFollows (by omega) (by omega)
      have starts : Starts false .blockEntry := rfl
      simp only [tokens, Bool.false_eq_true, if_false]
      rw [itemTokens] at built ⊢
      rw [List.cons_append, List.cons_append, List.append_assoc] at built ⊢
      rw [build_of_starts starts, buildContent]
      simp [Builder.peek, listItems, built, tree]

private theorem builds_object
    {member : String × Json}
    {members : List (String × Json)}
    (builds : ∀ each ∈ member :: members, Builds each.2) :
    Builds (.object (member :: members)) := by
  intro sameLine place fuel rest handles block loose enough
  simp only [tokens, List.cons_append, List.length_cons, List.length_append,
    List.length_nil] at enough
  obtain ⟨fuel, rfl⟩ : ∃ smaller, fuel = smaller + 1 + 1 := ⟨fuel - 2, by omega⟩
  have built : buildMembers fuel
      ⟨memberTokens (member :: members) ++ .blockEnd :: rest, [], handles⟩ = _ :=
    buildMembers_tokens handles builds (by omega)
  have starts : Starts sameLine .blockMappingStart := trivial
  simp only [tokens, List.cons_append, List.append_assoc, List.nil_append]
  rw [build_of_starts starts, buildContent]
  simp [Builder.peek, Builder.skip, block, built, tree]

/-- The node of every value is built from its tokens. -/
theorem builds (value : Json) : Builds value := by
  induction value using treeInduction with
  | null => exact builds_scalar _ _ (fun _ => rfl) rfl
  | flag value => exact builds_scalar _ _ (fun _ => rfl) rfl
  | number value => exact builds_scalar _ _ (fun _ => rfl) rfl
  | text value => exact builds_scalar _ _ (fun _ => rfl) rfl
  | array items buildsItems =>
      cases items with
      | nil =>
          intro sameLine place fuel rest handles _ _ enough
          simp only [tokens, List.length_cons, List.length_nil] at enough
          obtain ⟨fuel, rfl⟩ : ∃ smaller, fuel = smaller + 1 + 1 + 1 := ⟨fuel - 3, by omega⟩
          rfl
      | cons item items => exact builds_array buildsItems
  | object members buildsMembers =>
      cases members with
      | nil =>
          intro sameLine place fuel rest handles _ _ enough
          simp only [tokens, List.length_cons, List.length_nil] at enough
          obtain ⟨fuel, rfl⟩ : ∃ smaller, fuel = smaller + 1 + 1 + 1 := ⟨fuel - 3, by omega⟩
          rfl
      | cons member members => exact builds_object buildsMembers

/-! ## Documents -/

/-- The document of a mapping. -/
theorem ofTokens?_tokens (member : String × Json) (rest : List (String × Json)) :
    Node.ofTokens? (tokens true (.object (member :: rest))) =
      some (tree (.object (member :: rest))) := by
  have built : build (3 * (tokens true (.object (member :: rest))).length + 3) .item
      ⟨tokens true (.object (member :: rest)) ++ [], [], Node.defaultHandles⟩ = _ :=
    builds _ true [] Node.defaultHandles rfl (fun h => by cases h) (by show 2 * _ ≤ _; omega)
  rw [List.append_nil] at built
  have document : Node.buildDocument (tokens true (.object (member :: rest))) =
      some (tree (.object (member :: rest)), []) := by
    show (build _ .item ⟨tokens true (.object (member :: rest)), [], Node.defaultHandles⟩ >>= _) = _
    rw [built]
    rfl
  show (Node.buildDocument (tokens true (.object (member :: rest))) >>= _) = _
  rw [document]
  rfl

end RunManifest.Json
