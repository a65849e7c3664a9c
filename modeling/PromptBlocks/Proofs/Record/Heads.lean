import PromptBlocks.Proofs.Json.Documents
import PromptBlocks.Proofs.Outcomes
import PromptBlocks.Record.Chain

/-!
Contract: the lenient reading of chain heads.

Owns:
- the objects that links lead to in any value, and the chain that follows them;
- the heads of an array, one for each object among its items;
- chains as they are written, in any order of members, which are the heads of what is written;
- documents that the strict reading accepts with objects at every link, on which both readings agree.

Does not own: what becomes of the heads.
-/

namespace PromptBlocks.BlockChain

open Json (Document Members find? string? orderMembers)

/-! ### Links -/

/-- The members of the object that so many links lead to from a value, if they lead to objects. -/
def linked? : Nat → Json → Option (List (String × Json))
  | 0, .object members => some members
  | count + 1, .object members => (find? "next" members).bind (linked? count)
  | _, _ => none

/-- The chain has a block for the value and for each object that links lead to from there, told by the
members of the object. -/
structure Follows (value : Json) (chain : BlockChain) : Prop where
  blocks : ∀ place, chain.blocks[place]? = (linked? place value).map lenientBlock
  length : ∃ links, chain.length = 1 + links ∧ (linked? links value).isSome = true ∧
    linked? (links + 1) value = none

def isObject : Json → Bool
  | .object _ => true
  | _ => false

/-- An object whose links lead to objects as far as they go. -/
inductive ObjectLinked : Json → Prop
  | last {members : List (String × Json)}
      (ended : find? "next" members = none ∨ find? "next" members = some .null) :
      ObjectLinked (.object members)
  | linked {members : List (String × Json)} {next : Json} (link : find? "next" members = some next)
      (later : ObjectLinked next) : ObjectLinked (.object members)

theorem ObjectLinked.next {members : List (String × Json)} {next : Json}
    (linked : ObjectLinked (.object members)) (link : find? "next" members = some next) :
    next = .null ∨ ObjectLinked next := by
  cases linked with
  | last ended =>
    rcases ended with none | null
    · cases none.symm.trans link
    · exact .inl (Option.some.inj (link.symm.trans null))
  | linked found later => exact .inr (Option.some.inj (link.symm.trans found) ▸ later)

theorem lenientNext_eq (members : List (String × Json)) :
    lenientNext members = ((find? "next" members).map lenientBlocks).getD [] := by
  induction members with
  | nil => rfl
  | cons member later inductionHypothesis =>
    obtain ⟨key, value⟩ := member
    by_cases isLink : key = "next"
    · simp [lenientNext, Json.find?_cons, isLink]
    · simp [lenientNext, Json.find?_cons, isLink, Ne.symm isLink, inductionHypothesis]

theorem lenientBlocks_object (members : List (String × Json)) :
    lenientBlocks (.object members) =
      lenientBlock members :: ((find? "next" members).map lenientBlocks).getD [] := by
  rw [lenientBlocks, lenientNext_eq]

theorem getElem?_lenientBlocks (place : Nat) (value : Json) :
    (lenientBlocks value)[place]? = (linked? place value).map lenientBlock := by
  induction place generalizing value with
  | zero => cases value <;> simp [lenientBlocks, linked?]
  | succ place inductionHypothesis =>
    cases value with
    | object members =>
      rw [lenientBlocks_object, List.getElem?_cons_succ, linked?]
      cases find? "next" members with
      | none => rfl
      | some next => exact inductionHypothesis next
    | _ => simp [lenientBlocks, linked?]

theorem ofJson?_object (members : List (String × Json)) :
    ofJson? (.object members) =
      some { head := lenientBlock members, successors := lenientNext members } :=
  rfl

theorem isSome_ofJson? (value : Json) : (ofJson? value).isSome = isObject value := by
  cases value <;> rfl

theorem blocks_ofJson? (value : Json) :
    ((ofJson? value).map BlockChain.blocks).getD [] = lenientBlocks value := by
  cases value <;> rfl

/-- The lenient reading follows links for as long as they lead to objects. -/
theorem follows_of_ofJson?_eq_some {value : Json} {chain : BlockChain}
    (made : ofJson? value = some chain) : Follows value chain := by
  have blocks : chain.blocks = lenientBlocks value := by simpa [made] using blocks_ofJson? value
  have atPlace (place : Nat) : chain.blocks[place]? = (linked? place value).map lenientBlock := by
    rw [blocks, getElem?_lenientBlocks]
  have present (place : Nat) : (linked? place value).isSome = true ↔ place < chain.blocks.length := by
    have same : (linked? place value).isSome = chain.blocks[place]?.isSome := by
      rw [atPlace, Option.isSome_map]
    simp [same]
  have bound : chain.blocks.length = 1 + chain.successors.length := Nat.add_comm _ _
  refine ⟨atPlace, chain.successors.length, bound, (present _).mpr (by omega), ?_⟩
  rw [← Option.not_isSome_iff_eq_none, present]
  omega

/-! ### Heads of any value -/

/-- An array has a head for each object among its items, in their order. -/
theorem forall₂_headsOf_array (items : List Json) :
    List.Forall₂ Follows (items.filter isObject) (headsOf (.array items)) := by
  rw [headsOf]
  induction items with
  | nil => exact .nil
  | cons item later inductionHypothesis =>
    have same := isSome_ofJson? item
    cases made : ofJson? item with
    | none =>
      have other : isObject item = false := by simpa [made] using same.symm
      simpa [made, other] using inductionHypothesis
    | some chain =>
      have object : isObject item = true := by simpa [made] using same.symm
      simpa [made, object] using And.intro (follows_of_ofJson?_eq_some made) inductionHypothesis

/-! ### Chains as they are written -/

section Written

theorem lenientBlocks_of_find? {members : List (String × Json)} {raw : ChainBlock}
    {next : Option Json}
    (hasType : find? "type" members = some (.string raw.blockType))
    (hasText : find? "text" members = raw.text.map .string)
    (hasNext : find? "next" members = next) :
    lenientBlocks (.object members) = raw :: (next.map lenientBlocks).getD [] := by
  have block : lenientBlock members = raw := by
    obtain ⟨blockType, text⟩ := raw
    cases text <;> simp_all [lenientBlock, string?]
  rw [lenientBlocks_object, block, hasNext]

/-- Values rearranged this way have the blocks that were written. -/
def KeepsBlocks (arrange : Json → Json) : Prop :=
  ∀ raw next, lenientBlocks (arrange (blockJson raw next)) =
    raw :: ((next.map arrange).map lenientBlocks).getD []

theorem keepsBlocks_id : KeepsBlocks id := by
  intro raw next
  apply lenientBlocks_of_find? <;> cases raw.text <;> cases next <;>
    simp [Json.find?_cons, Json.find?_nil]

theorem keepsBlocks_ordered : KeepsBlocks Json.ordered := by
  intro raw next
  rw [blockJson, Json.ordered]
  apply lenientBlocks_of_find? <;> rw [Json.find?_orderMembers, Json.orderedMembers_eq] <;>
    cases raw.text <;> cases next <;> simp [Json.find?_cons, Json.find?_nil, Json.ordered]

variable {arrange : Json → Json}

theorem KeepsBlocks.lenientBlocks_linkedJson (keeps : KeepsBlocks arrange) (blocks : List ChainBlock) :
    (((linkedJson blocks).map arrange).map lenientBlocks).getD [] = blocks := by
  induction blocks with
  | nil => rfl
  | cons raw later inductionHypothesis =>
    rw [linkedJson, Option.map_some, Option.map_some, Option.getD_some, keeps,
      inductionHypothesis]

/-- A chain that is written is what its value heads. -/
theorem KeepsBlocks.ofJson?_write (keeps : KeepsBlocks arrange) (chain : BlockChain) :
    ofJson? (arrange (Wire.write chain)) = some chain := by
  show ofBlocks? (lenientBlocks (arrange (blockJson chain.head (linkedJson chain.successors)))) = _
  rw [keeps, keeps.lenientBlocks_linkedJson]
  rfl

theorem KeepsBlocks.headsOf_array (keeps : KeepsBlocks arrange) (chains : List BlockChain) :
    headsOf (.array (chains.map fun chain => arrange (Wire.write chain))) = chains := by
  rw [headsOf]
  simp [List.filterMap_map, keeps.ofJson?_write]

theorem headsOf_write (chains : List BlockChain) : headsOf (Wire.write chains) = chains :=
  keepsBlocks_id.headsOf_array chains

theorem headsOf_ordered_write (chains : List BlockChain) :
    headsOf (Wire.write chains).ordered = chains := by
  have items : (Wire.write chains).ordered =
      .array (chains.map fun chain => (Wire.write chain).ordered) := by
    show Json.array (Json.orderedItems (chains.map Wire.write)) = _
    simp [Json.orderedItems_eq]
  rw [items, keepsBlocks_ordered.headsOf_array]

end Written

/-! ### Both readings -/

/-- The draft with what values say of its fields, the last value of each; a field that they leave out
stays as it is. -/
def BlockDraft.revised (draft : BlockDraft) (values : List (String × Json)) : BlockDraft :=
  { blockType := ((find? "type" values.reverse).map fun value => (string? value).getD "").or
      draft.blockType
    text := ((find? "text" values.reverse).map string?).or draft.text
    next := ((find? "next" values.reverse).map ofJson?).or draft.next }

theorem BlockDraft.revised_cons (draft : BlockDraft) (member : String × Json)
    (later : List (String × Json)) :
    draft.revised (member :: later) = (draft.revised [member]).revised later := by
  simp [revised, Json.find?_append, Option.map_or, Option.or_assoc]

section Readings

variable {draft : BlockDraft} {key : String} {json : Json} {values : List (String × Json)}

theorem BlockDraft.revised_type (text : String) :
    draft.revised [("type", .string text)] = { draft with blockType := some text } := by
  simp [revised, Json.find?_cons, Json.find?_nil, string?]

theorem BlockDraft.revised_text (json : Json) :
    draft.revised [("text", json)] = { draft with text := some (string? json) } := by
  simp [revised, Json.find?_cons, Json.find?_nil]

theorem BlockDraft.revised_next (json : Json) :
    draft.revised [("next", json)] = { draft with next := some (ofJson? json) } := by
  simp [revised, Json.find?_cons, Json.find?_nil]

/-- Members under other keys say nothing of a block. -/
theorem BlockDraft.revised_of_ne (notType : key ≠ "type") (notText : key ≠ "text")
    (notNext : key ≠ "next") (json : Json) : draft.revised [(key, json)] = draft := by
  simp [revised, Json.find?_cons, Json.find?_nil, notType.symm, notText.symm, notNext.symm]

/-- A link counts for nothing in front of another one. -/
theorem BlockDraft.revised_next_eq {next : Option BlockChain}
    (counts : find? "next" values.reverse = none → ofJson? json = next) :
    (draft.revised [("next", json)]).revised values =
      { draft with next := some next }.revised values := by
  rw [revised_next]
  cases later : find? "next" values.reverse with
  | none => rw [counts later]
  | some other => simp [revised, later]

theorem eq_string_of_read {document : Document} {text : String}
    (read : Wire.read document = .ok text) (held : document.value = .ok json) :
    json = .string text := by
  cases document with
  | string value =>
    cases value with
    | none => cases read
    | some value =>
      obtain rfl := Except.ok.inj read
      exact (Except.ok.inj held).symm
  | _ => cases read

theorem string?_of_read {document : Document} {text : Option String}
    (read : Wire.read document = .ok text) (held : document.value = .ok json) :
    string? json = text := by
  cases document with
  | null =>
    obtain rfl := Except.ok.inj read
    obtain rfl := Except.ok.inj held
    rfl
  | _ =>
    obtain ⟨value, readValue, rfl⟩ := exists_of_map_eq_ok read
    rw [eq_string_of_read readValue held]
    rfl

/-- The draft of a block of which nothing is read yet. -/
def BlockDraft.start : BlockDraft :=
  { blockType := none, text := none, next := none }

/-- What a whole draft describes is what the lenient reading finds among the members in order. -/
theorem ofJson?_of_finish_revised {chain : BlockChain}
    (finished : (BlockDraft.start.revised values).finish = .ok chain) :
    ofJson? (.object (orderMembers values)) = some chain := by
  rw [ofJson?_object, lenientNext_eq, lenientBlock]
  simp only [Json.find?_orderMembers]
  simp only [BlockDraft.finish, BlockDraft.revised, BlockDraft.start, Option.or_none] at finished
  cases typed : find? "type" values.reverse with
  | none => simp [typed] at finished
  | some blockType =>
    simp only [typed, Option.map_some, Except.ok.injEq] at finished
    subst finished
    cases find? "text" values.reverse <;> cases find? "next" values.reverse <;>
      cases blockType <;> simp [string?, blocks_ofJson?]

mutual

/-- Where both readings may start, they find the same chain. -/
theorem ofJson?_of_readLinked (document : Document) {next : Option BlockChain} {json : Json}
    (read : readLinked document = .ok next) (held : document.value = .ok json)
    (linked : json = .null ∨ ObjectLinked json) : ofJson? json = next := by
  cases document with
  | null =>
    obtain rfl := Except.ok.inj read
    obtain rfl := Except.ok.inj held
    rfl
  | object origin members =>
    rw [readLinked] at read
    rw [Document.value] at held
    split_ifs at read held with refused
    obtain ⟨chain, whole, rfl⟩ := exists_of_map_eq_ok read
    obtain ⟨values, heldMembers, rfl⟩ := exists_of_map_eq_ok held
    refine ofJson?_of_finish_revised (finish_revised members whole heldMembers ?_)
    intro json link
    rcases linked with isNull | objects
    · cases isNull
    · rw [← Json.find?_orderMembers] at link
      exact objects.next link
  | array origin items =>
    obtain ⟨values, rfl⟩ : ∃ values, json = .array values := by
      rw [Document.value] at held
      split_ifs at held
      obtain ⟨values, -, rfl⟩ := exists_of_map_eq_ok held
      exact ⟨values, rfl⟩
    rcases linked with isNull | objects
    · cases isNull
    · cases objects
  | _ => cases read

/-- The strict reading of members gives what their values make of the draft. -/
theorem finish_revised (members : Members) {draft : BlockDraft} {chain : BlockChain}
    {values : List (String × Json)} (read : readBlock draft members = .ok chain)
    (held : members.values = .ok values)
    (links : ∀ json, find? "next" values.reverse = some json → json = .null ∨ ObjectLinked json) :
    (draft.revised values).finish = .ok chain := by
  cases members with
  | closed =>
    obtain rfl := Except.ok.inj held
    exact read
  | broken => cases held
  | member key value later =>
    cases key with
    | none => cases held
    | some key =>
      obtain ⟨json, heldValue, behind⟩ := exists_of_bind_eq_ok held
      obtain ⟨others, heldLater, made⟩ := exists_of_bind_eq_ok behind
      obtain rfl := Except.ok.inj made
      have linksLater : ∀ json, find? "next" others.reverse = some json →
          json = .null ∨ ObjectLinked json := by
        intro json link
        exact links json (by simp [Json.find?_append, link])
      rw [BlockDraft.revised_cons]
      rw [readBlock] at read
      split_ifs at read with isType isText isNext
      · obtain rfl := beq_iff_eq.mp isType
        split at read
        · cases read
        · obtain ⟨blockType, readValue, behindValue⟩ := exists_of_bind_eq_ok read
          rw [eq_string_of_read readValue heldValue, BlockDraft.revised_type]
          exact finish_revised later behindValue heldLater linksLater
      · obtain rfl := beq_iff_eq.mp isText
        split at read
        · cases read
        · obtain ⟨text, readValue, behindValue⟩ := exists_of_bind_eq_ok read
          rw [BlockDraft.revised_text, string?_of_read readValue heldValue]
          exact finish_revised later behindValue heldLater linksLater
      · obtain rfl := beq_iff_eq.mp isNext
        split at read
        · cases read
        · obtain ⟨next, readValue, behindValue⟩ := exists_of_bind_eq_ok read
          rw [BlockDraft.revised_next_eq fun isLast =>
            ofJson?_of_readLinked value readValue heldValue (links json (by
              simp [Json.find?_append, isLast, Json.find?_cons]))]
          exact finish_revised later behindValue heldLater linksLater
      · rw [BlockDraft.revised_of_ne (by simpa using isType) (by simpa using isText)
          (by simpa using isNext)]
        exact finish_revised later read heldLater linksLater

end

end Readings

/-- A document that the strict reading accepts, with objects at every link, has the one head that the
strict reading gives. -/
theorem headsOf_of_readStrictly {document : Document} {json : Json} {chain : BlockChain}
    (read : readStrictly document = .ok chain) (held : document.value = .ok json)
    (linked : ObjectLinked json) : headsOf json = [chain] := by
  obtain ⟨next, readNext, given⟩ := exists_of_bind_eq_ok read
  have made := ofJson?_of_readLinked document readNext held (.inr linked)
  have alone : headsOf json = (ofJson? json).toList := by
    cases linked <;> rfl
  cases next with
  | none => cases given
  | some found =>
    obtain rfl := Except.ok.inj given
    rw [alone, made, Option.toList_some]

/-- The lenient reading of chain heads agrees with the strict format.  What is written of chains, or of
one chain, has these chains for its heads, also when its members were put in order.  A document of a text
or of a value that the strict reading accepts, with objects at every link, has the one head that the
strict reading gives.  Any array at all has one head for each object among its items, in their order, and
any object has one; a head has one block more than links were followed, each of the block that its object
describes.  No other value has a head. -/
theorem lenient_heads_agree :
    (∀ chains : List BlockChain,
      headsOf (Wire.write chains) = chains ∧ headsOf (Wire.write chains).ordered = chains) ∧
      (∀ chain : BlockChain,
        headsOf (Wire.write chain) = [chain] ∧ headsOf (Wire.write chain).ordered = [chain]) ∧
      (∀ document json chain, readStrictly document = .ok chain → document.value = .ok json →
        ObjectLinked json → headsOf json = [chain]) ∧
      (∀ json chain, readStrictly (Json.toDocument json) = .ok chain → ObjectLinked json.ordered →
        headsOf json.ordered = [chain]) ∧
      (∀ items, List.Forall₂ Follows (items.filter isObject) (headsOf (.array items))) ∧
      (∀ value, isObject value = true → ∃ head, headsOf value = [head] ∧ Follows value head) ∧
      ∀ value, isObject value = false → (∀ items, value ≠ .array items) → headsOf value = [] := by
  refine ⟨fun chains => ⟨headsOf_write chains, headsOf_ordered_write chains⟩, ?_,
    fun _ _ _ => headsOf_of_readStrictly, ?_, forall₂_headsOf_array, ?_, ?_⟩
  · intro chain
    exact ⟨congrArg Option.toList (keepsBlocks_id.ofJson?_write chain),
      congrArg Option.toList (keepsBlocks_ordered.ofJson?_write chain)⟩
  · intro json chain read linked
    refine headsOf_of_readStrictly read ?_ linked
    rw [Json.toDocument_eq, Json.value_documentIn rfl]
  · intro value object
    obtain ⟨head, made⟩ := Option.isSome_iff_exists.mp ((isSome_ofJson? value).trans object)
    refine ⟨head, ?_, follows_of_ofJson?_eq_some made⟩
    cases value with
    | object members => exact congrArg Option.toList made
    | _ => cases object
  · intro value other notArray
    cases value with
    | object members => cases other
    | array items => exact absurd rfl (notArray items)
    | _ => rfl

/-- A text whose last link is null and a value with members that no block has are read alike both ways;
a number heads no chain. -/
theorem lenient_heads_agree_of_null_link :
    let text : Document :=
      .object (.text false)
        (.member (some "text") (.string (some "cat"))
          (.member (some "type") (.string (some "promps_noun")) (.member (some "next") .null .closed)))
    let value : Json :=
      .object [("color", .bool true), ("next", .object [("type", .string "b")]), ("type", .string "a")]
    (∃ json, text.value = .ok json ∧ headsOf json = [⟨⟨"promps_noun", some "cat"⟩, []⟩]) ∧
      headsOf value.ordered = [⟨⟨"a", none⟩, [⟨"b", none⟩]⟩] ∧
      (∃ head, headsOf value = [head] ∧ Follows value head) ∧
      headsOf (Json.natural 7) = [] := by
  intro text value
  obtain ⟨-, -, ofDocument, ofValue, -, ofObject, others⟩ := lenient_heads_agree
  refine ⟨⟨_, rfl, ofDocument text _ _ rfl rfl (.last (.inr rfl))⟩, ?_, ofObject value rfl, ?_⟩
  · exact ofValue value _ rfl (.linked rfl (.last (.inl rfl)))
  · exact others _ rfl fun items => Json.noConfusion

/-- The array of a block's fields is a block to the strict reading only. -/
example :
    let value := Json.object [("next", .array [.string "b"]), ("type", .string "a")]
    readStrictly value.toDocument = .ok ⟨⟨"a", none⟩, [⟨"b", none⟩]⟩ ∧
      headsOf value = [⟨⟨"a", none⟩, []⟩] :=
  ⟨rfl, rfl⟩

end PromptBlocks.BlockChain
